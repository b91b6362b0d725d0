import ClassGraft.Proofs.Frame.Invariants
import ClassGraft.Proofs.Pool.Growth

/-!
# Running a flow again

A flow that settled goes the same way along another course that agrees with the first one on the
instructions that were reached (`Flow.settle_agrees`): these are the same, are covered by handlers
that go on at the same places, and can be executed on the frames that were held.  What the other
instructions are does not matter, and neither do constants that were added meanwhile
(`Scene.execute_of_grows`).
-/

namespace ClassGraft

/-! ### Constants that were added -/

namespace Pool

variable {pool later : Pool} {index : UInt16}

theorem Grows.fieldType (hg : pool.Grows later) {type : FrameType}
    (h : pool.fieldType index = .ok type) : later.fieldType index = .ok type := by
  unfold Pool.fieldType at h ⊢
  split at h
  · simp at h
  · rename_i member hmember
    rw [hg.member hmember]
    exact h

theorem Grows.requireClass (hg : pool.Grows later) {name : Bytes}
    (h : pool.requireClass index = .ok name) : later.requireClass index = .ok name := by
  unfold Pool.requireClass at h ⊢
  split at h
  · rename_i found hfound
    rw [hg.className hfound]
    exact h
  · simp at h

theorem Grows.constantType (hg : pool.Grows later) {type : FrameType}
    (h : pool.constantType index = .ok type) : later.constantType index = .ok type := by
  unfold Pool.constantType at h ⊢
  split at h
  case h_9 hfound =>
    rw [hg index _ hfound]
    split at h
    · simp at h
    · rename_i descriptor hdynamic
      rw [hg.dynamic hdynamic]
      exact h
  case h_10 => simp at h
  case h_11 => simp at h
  all_goals
    rename_i hfound
    rw [hg index _ hfound]
    exact h

end Pool

theorem Frame.mem_of_dropEach {frame frame' : Frame} {operands : List Nat} {type : FrameType}
    (h : frame.dropEach operands = .ok frame') (ht : type ∈ frame'.stack) :
    type ∈ frame.stack := by
  obtain ⟨-, rfl⟩ := drop_eq_ok.mp (dropEach_eq_ok.mp h)
  exact List.mem_of_mem_drop ht

namespace Scene

variable {first second : Scene} {step : Step} {before after : Frame}

theorem call_of_grows (hg : first.pool.Grows second.pool)
    (hc : ∀ type ∈ before.stack, ∀ name, first.constructed type = .ok name →
      second.constructed type = .ok name) {hasReceiver : Bool} {index : UInt16}
    (h : first.call before hasReceiver index = .ok after) :
    second.call before hasReceiver index = .ok after := by
  obtain ⟨member, type, taken, hmember, htype, htaken, h⟩ := call_eq_ok.mp h
  refine call_eq_ok.mpr ⟨member, type, taken, hg.member hmember, htype, htaken, ?_⟩
  cases hasReceiver with
  | false => exact h
  | true =>
    obtain ⟨receiver, rest, hpop, hreference, h⟩ := h
    have hreceiver : receiver ∈ before.stack := by
      refine Frame.mem_of_dropEach htaken ?_
      rw [(Frame.pop_eq_ok.mp hpop).1]
      exact List.mem_cons_self
    refine ⟨receiver, rest, hpop, hreference, ?_⟩
    split_ifs at h ⊢
    · obtain ⟨name, hname, h⟩ := h
      exact ⟨name, hc receiver hreceiver name hname, h⟩
    · exact h

/-- What can be executed stays so when constants are added, if objects are still constructed the
same way. -/
theorem execute_of_grows (hg : first.pool.Grows second.pool) (hh : second.head = first.head)
    (hc : ∀ type ∈ before.stack, ∀ name, first.constructed type = .ok name →
      second.constructed type = .ok name) (h : first.execute step before = .ok after) :
    second.execute step before = .ok after := by
  -- Only the forms that read the pool are cases of their own.
  unfold execute at h ⊢
  split at h
  case h_1 op hi =>
    split at h
    · unfold apply at h ⊢
      rw [hh]
      exact h
    · simp at h
  case h_4 index hi =>
    obtain ⟨type, ht, h⟩ := Except.bind_eq_ok.mp h
    exact Except.bind_eq_ok.mpr ⟨type, hg.constantType ht, h⟩
  case h_10 op index hi =>
    obtain ⟨type, ht, h⟩ := Except.bind_eq_ok.mp h
    exact Except.bind_eq_ok.mpr ⟨type, hg.fieldType ht, h⟩
  case h_11 op index hi => exact call_of_grows hg hc h
  case h_12 index count hi => exact call_of_grows hg hc h
  case h_13 index hi =>
    obtain ⟨site, type, taken, hdynamic, h⟩ := callComputed_eq_ok.mp h
    exact callComputed_eq_ok.mpr ⟨site, type, taken, hg.dynamic hdynamic, h⟩
  case h_14 op index hi =>
    obtain ⟨name, hname, h⟩ := Except.bind_eq_ok.mp h
    exact Except.bind_eq_ok.mpr ⟨name, hg.requireClass hname, h⟩
  case h_16 index dimensions hi =>
    obtain ⟨name, hname, h⟩ := Except.bind_eq_ok.mp h
    exact Except.bind_eq_ok.mpr ⟨name, hg.requireClass hname, h⟩
  all_goals exact h

end Scene

/-! ### Handlers -/

/-- Where exceptions that are thrown at an instruction go on, and what is caught, in order. -/
def Course.caughtAt (course : Course) (index : Nat) : List (Nat × Bytes) :=
  (course.handlers.filter fun range => range.start ≤ index ∧ index < range.stop).map
    fun range => (range.entry, range.caught)

/-- Whether a course agrees with another one on the instructions that are reached. -/
structure Course.Agrees (first second : Course) (live : Nat → Prop) : Prop where
  hierarchy : second.scene.hierarchy = first.scene.hierarchy
  declared : second.declared = first.declared
  positions : second.scene.positions = first.scene.positions
  size : second.scene.steps.size = first.scene.steps.size
  steps : ∀ index, live index → second.scene.steps[index]? = first.scene.steps[index]?
  caught : ∀ index, live index → second.caughtAt index = first.caughtAt index

namespace Flow

variable {first second : Course} {live : Nat → Prop} {flow flow' : Flow}

theorem send_agrees (ha : first.Agrees second live) (origin target : Nat) (frame : Frame)
    (flow : Flow) : flow.send second origin target frame = flow.send first origin target frame := by
  unfold send arrive
  rw [ha.hierarchy, ha.declared]

theorem jumpFrom_agrees (ha : first.Agrees second live) (origin : Nat) (after : Frame)
    (targets : List Mark) (flow : Flow) :
    flow.jumpFrom second origin after targets = flow.jumpFrom first origin after targets := by
  induction targets generalizing flow with
  | nil => rfl
  | cons mark rest ih =>
    have hposition : second.scene.position mark = first.scene.position mark := by
      unfold Scene.position
      rw [ha.positions]
    unfold jumpFrom
    rw [hposition]
    refine bind_congr fun target => ?_
    rw [send_agrees ha]
    exact bind_congr fun sent => ih sent

/-- Lets the locals before and after an instruction flow to where exceptions are caught. -/
def catchAll (course : Course) (origin : Nat) (before after : Frame) :
    List (Nat × Bytes) → Flow → Except Obstacle Flow
  | [], flow => .ok flow
  | (entry, caught) :: rest, flow => do
    let flow := { flow with height := max flow.height 1 }
    let flow ← flow.send course origin entry (Frame.catching before.locals caught)
    let flow ← flow.send course origin entry (Frame.catching after.locals caught)
    catchAll course origin before after rest flow

/-- Only handlers that cover an instruction take part. -/
theorem throwFrom_eq_catchAll (course : Course) (origin : Nat) (before after : Frame)
    (handlers : List HandlerRange) (flow : Flow) :
    flow.throwFrom course origin before after handlers =
      flow.catchAll course origin before after
        ((handlers.filter fun range => range.start ≤ origin ∧ origin < range.stop).map
          fun range => (range.entry, range.caught)) := by
  induction handlers generalizing flow with
  | nil => rfl
  | cons range rest ih =>
    unfold throwFrom
    split_ifs with hin
    · rw [List.filter_cons_of_pos (by simpa using hin), List.map_cons, catchAll]
      exact bind_congr fun sent => bind_congr fun sent' => ih sent'
    · rw [List.filter_cons_of_neg (by simpa using hin)]
      exact ih flow

theorem catchAll_agrees (ha : first.Agrees second live) (origin : Nat) (before after : Frame)
    (caught : List (Nat × Bytes)) (flow : Flow) :
    flow.catchAll second origin before after caught =
      flow.catchAll first origin before after caught := by
  induction caught generalizing flow with
  | nil => rfl
  | cons row rest ih =>
    unfold catchAll
    dsimp only
    rw [send_agrees ha]
    refine bind_congr fun sent => ?_
    rw [send_agrees ha]
    exact bind_congr fun sent' => ih sent'

/-! ### The same run -/

/-- A visit to an instruction that is reached comes out the same, if the instruction can be executed
the same way. -/
theorem visit_agrees (ha : first.Agrees second live) {origin : Nat} {step : Step} {before : Frame}
    (hl : live origin)
    (he : ∀ after, first.scene.execute step before = .ok after →
      second.scene.execute step before = .ok after)
    (h : flow.visit first origin step before = .ok flow') :
    flow.visit second origin step before = .ok flow' := by
  obtain ⟨after, thrown, jumped, hexecute, hthrow, hjump, h⟩ := visit_eq_ok.mp h
  refine visit_eq_ok.mpr ⟨after, thrown, jumped, he after hexecute, ?_, ?_, ?_⟩
  · have hcaught := ha.caught origin hl
    unfold Course.caughtAt at hcaught
    rw [throwFrom_eq_catchAll] at hthrow ⊢
    rw [hcaught, catchAll_agrees ha]
    exact hthrow
  · rw [jumpFrom_agrees ha]
    exact hjump
  · rw [ha.size, send_agrees ha]
    exact h

/-- A turn comes out the same along a course that agrees on what is reached, if what holds of the
frames lets instructions be executed the same way, and that goes on holding. -/
theorem Turn.agrees (ha : first.Agrees second live) {P : Array (Option Frame) → Prop}
    {S : Nat → Frame → Prop} (hk : IsKept first P S)
    (hs : ∀ frames index step before after target sent, P frames → live index →
      first.scene.steps[index]? = some step → frames[index]? = some (some before) →
      first.scene.execute step before = .ok after →
      first.Edge index step before after target sent → S target sent)
    (he : ∀ frames index step before after, P frames → live index →
      first.scene.steps[index]? = some step → frames[index]? = some (some before) →
      first.scene.execute step before = .ok after → second.scene.execute step before = .ok after)
    (hp : P flow.frames) (hl : ∀ index, flow.frameAt? index ≠ none → live index)
    (h : Turn first flow flow') : Turn second flow flow' ∧ P flow'.frames := by
  cases h with
  | @visit origin rest frames isPending height step before _ hstep hbefore hvisit =>
    have hlive : live origin := hl origin (Option.ne_none_iff_exists'.mpr ⟨_, hbefore⟩)
    have hheld := Option.join_eq_some_iff.mp hbefore
    constructor
    · refine .visit ((ha.steps origin hlive).trans hstep) hbefore ?_
      exact visit_agrees ha hlive
        (fun after => he frames origin step before after hp hlive hstep hheld) hvisit
    · exact @kept_visit first ⟨frames, rest, _, height⟩ flow' P S hk origin step before hp
        (fun after target sent => hs frames origin step before after target sent hp hlive hstep
          hheld) hvisit
  | @skip origin rest frames isPending height hnone =>
    refine ⟨.skip fun step before hstep hbefore => ?_, hp⟩
    have hlive : live origin := hl origin (Option.ne_none_iff_exists'.mpr ⟨_, hbefore⟩)
    exact hnone step before ((ha.steps origin hlive).symm.trans hstep) hbefore

/-- A run comes out the same along a course that agrees on what is reached in the end. -/
theorem settle_agrees (ha : first.Agrees second live) {P : Array (Option Frame) → Prop}
    {S : Nat → Frame → Prop} (hk : IsKept first P S)
    (hs : ∀ frames index step before after target sent, P frames → live index →
      first.scene.steps[index]? = some step → frames[index]? = some (some before) →
      first.scene.execute step before = .ok after →
      first.Edge index step before after target sent → S target sent)
    (he : ∀ frames index step before after, P frames → live index →
      first.scene.steps[index]? = some step → frames[index]? = some (some before) →
      first.scene.execute step before = .ok after → second.scene.execute step before = .ok after)
    {fuel : Nat} (hp : P flow.frames) (hl : ∀ index, flow'.frameAt? index ≠ none → live index)
    (h : flow.settle first fuel = .ok flow') : flow.settle second fuel = .ok flow' := by
  induction fuel generalizing flow with
  | zero => exact h
  | succ fuel ih =>
    rcases settle_succ_eq_ok.mp h with hnil | ⟨next, hturn, hrest⟩
    · exact settle_succ_eq_ok.mpr (.inl hnil)
    · -- what has a frame now has one in the end
      obtain ⟨hturn', hp'⟩ := hturn.agrees ha hk hs he hp fun index hheld =>
        hl index (held_of_settle h hheld)
      exact settle_succ_eq_ok.mpr (.inr ⟨next, hturn', ih hp' hrest⟩)

end Flow

end ClassGraft

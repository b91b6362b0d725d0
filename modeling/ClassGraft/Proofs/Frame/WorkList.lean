import ClassGraft.Frame.Flow
import ClassGraft.Proofs.Frame.Order
import ClassGraft.Proofs.Outcome

/-!
# The work list

`Course.Edge` says where control can go on from an instruction, and with which frame.  A visit sends
frames along the edges of one instruction, so it keeps what sending along them keeps
(`Flow.keeps_of_visit`).  A run takes turns until nothing is pending (`Flow.Turn`), so it keeps what
every turn keeps (`Flow.keeps_of_settle`), by the one induction on the fuel.

The work list is sound because an instruction whose frame changed is pending again: every other one
was executed on the frame it still has, and what it sent is below what is held where it arrived
(`Flow.Stable`).  A visit preserves this (`Flow.visit_spec`, `Flow.stable_visit`), and so does the
whole run (`Flow.settle_spec`).
-/

namespace ClassGraft

/-- Where control can go on from an instruction that was executed, and with which frame: at the
targets of a jump, at the next instruction, and at the handlers of exceptions, which see the locals
before and after the instruction. -/
inductive Course.Edge (course : Course) (index : Nat) (step : Step) (before after : Frame) :
    Nat → Frame → Prop
  | jump {mark : Mark} {target : Nat} (hm : mark ∈ step.instruction.targets)
      (ht : course.scene.position mark = .ok target) :
      Edge course index step before after target after
  | next (hf : step.instruction.fallsThrough = true) :
      Edge course index step before after (index + 1) after
  | thrownBefore {range : HandlerRange} (hr : range ∈ course.handlers)
      (hi : range.start ≤ index ∧ index < range.stop) :
      Edge course index step before after range.entry (.catching before.locals range.caught)
  | thrownAfter {range : HandlerRange} (hr : range ∈ course.handlers)
      (hi : range.start ≤ index ∧ index < range.stop) :
      Edge course index step before after range.entry (.catching after.locals range.caught)

namespace Flow

variable {course : Course} {flow flow' : Flow} {I : Flow → Prop}

/-! ### What a visit keeps -/

/-- What is thrown keeps what sending it to a handler keeps, and counting a word. -/
theorem keeps_of_throwFrom (hc : ∀ flow, I flow → I { flow with height := max flow.height 1 })
    {origin : Nat} {before after : Frame} {handlers : List HandlerRange}
    (hi : ∀ range ∈ handlers, range.start ≤ origin ∧ origin < range.stop →
      ∀ locals ∈ [before.locals, after.locals], ∀ flow flow', I flow →
        flow.send course origin range.entry (.catching locals range.caught) = .ok flow' → I flow')
    (h₀ : I flow) (h : flow.throwFrom course origin before after handlers = .ok flow') :
    I flow' := by
  induction handlers generalizing flow with
  | nil =>
    obtain rfl := Except.ok.inj h
    exact h₀
  | cons range rest ih =>
    have hrest := fun other ho => hi other (List.mem_cons_of_mem range ho)
    unfold throwFrom at h
    split_ifs at h with hin
    · obtain ⟨first, hfirst, h⟩ := Except.bind_eq_ok.mp h
      obtain ⟨second, hsecond, h⟩ := Except.bind_eq_ok.mp h
      have hsent := hi range List.mem_cons_self hin
      have h₁ : I first := hsent before.locals List.mem_cons_self _ _ (hc flow h₀) hfirst
      have h₂ : I second :=
        hsent after.locals (List.mem_cons_of_mem _ List.mem_cons_self) _ _ h₁ hsecond
      exact ih hrest h₂ h
    · exact ih hrest h₀ h

/-- A jump keeps what sending to its targets keeps. -/
theorem keeps_of_jumpFrom {origin : Nat} {after : Frame} {targets : List Mark}
    (hi : ∀ mark ∈ targets, ∀ target, course.scene.position mark = .ok target →
      ∀ flow flow', I flow → flow.send course origin target after = .ok flow' → I flow')
    (h₀ : I flow) (h : flow.jumpFrom course origin after targets = .ok flow') : I flow' := by
  induction targets generalizing flow with
  | nil =>
    obtain rfl := Except.ok.inj h
    exact h₀
  | cons mark rest ih =>
    unfold jumpFrom at h
    obtain ⟨target, htarget, h⟩ := Except.bind_eq_ok.mp h
    obtain ⟨first, hfirst, h⟩ := Except.bind_eq_ok.mp h
    exact ih (fun other ho => hi other (List.mem_cons_of_mem mark ho))
      (hi mark List.mem_cons_self target (Except.mapError_eq_ok.mp htarget) _ _ h₀ hfirst) h

theorem visit_eq_ok {origin : Nat} {step : Step} {before : Frame} :
    flow.visit course origin step before = .ok flow' ↔ ∃ after thrown jumped,
      course.scene.execute step before = .ok after ∧
      throwFrom course origin before after course.handlers { flow with
        height := max (max flow.height before.stack.length) after.stack.length } = .ok thrown ∧
      thrown.jumpFrom course origin after step.instruction.targets = .ok jumped ∧
      if step.instruction.fallsThrough then
        origin + 1 ≠ course.scene.steps.size ∧
          jumped.send course origin (origin + 1) after = .ok flow'
      else jumped = flow' := by
  unfold visit
  simp only [Except.bind_eq_ok, Except.mapError_eq_ok]
  cases step.instruction.fallsThrough with
  | false => simp only [Bool.false_eq_true, if_false, Except.pure_eq_ok, exists_and_left]
  | true => simp only [if_true, Except.guard_eq_ok, exists_and_left, ne_eq]

/-- A visit succeeds only if control does not fall off the end. -/
theorem ne_size_of_visit {origin : Nat} {step : Step} {before : Frame}
    (h : flow.visit course origin step before = .ok flow')
    (hf : step.instruction.fallsThrough = true) : origin + 1 ≠ course.scene.steps.size := by
  obtain ⟨after, thrown, jumped, -, -, -, h⟩ := visit_eq_ok.mp h
  rw [if_pos hf] at h
  exact h.1

/-- A visit keeps what sending along the edges of the instruction keeps, and counting words. -/
theorem keeps_of_visit (hc : ∀ flow height, I flow → I { flow with height := height })
    {origin : Nat} {step : Step} {before : Frame}
    (hi : ∀ after target sent, course.scene.execute step before = .ok after →
      course.Edge origin step before after target sent → ∀ flow flow', I flow →
        flow.send course origin target sent = .ok flow' → I flow')
    (h₀ : I flow) (h : flow.visit course origin step before = .ok flow') : I flow' := by
  obtain ⟨after, thrown, jumped, hexecute, hthrow, hjump, h⟩ := visit_eq_ok.mp h
  have hsent := fun target sent => hi after target sent hexecute
  have hthrown : I thrown := by
    refine keeps_of_throwFrom (fun flow => hc flow _) (fun range hr hin locals hl => ?_) (hc _ _ h₀)
      hthrow
    rcases List.mem_pair.mp hl with rfl | rfl
    · exact hsent _ _ (.thrownBefore hr hin)
    · exact hsent _ _ (.thrownAfter hr hin)
  have hjumped : I jumped :=
    keeps_of_jumpFrom (fun mark hm target ht => hsent target after (.jump hm ht)) hthrown hjump
  split_ifs at h with hf
  · exact hsent _ _ (.next hf) _ _ hjumped h.2
  · exact h ▸ hjumped

/-! ### Turns of the work list -/

/-- One turn of the work list: the instruction that comes first is taken off it, and visited if it
has a frame. -/
inductive Turn (course : Course) : Flow → Flow → Prop
  | visit {origin : Nat} {rest : List Nat} {frames : Array (Option Frame)}
      {isPending : Array Bool} {height : Nat} {step : Step} {before : Frame} {visited : Flow}
      (hs : course.scene.steps[origin]? = some step) (hf : (frames[origin]?).join = some before)
      (hv : Flow.visit course origin step before
        ⟨frames, rest, isPending.setIfInBounds origin false, height⟩ = .ok visited) :
      Turn course ⟨frames, origin :: rest, isPending, height⟩ visited
  | skip {origin : Nat} {rest : List Nat} {frames : Array (Option Frame)}
      {isPending : Array Bool} {height : Nat}
      (hn : ∀ step before, course.scene.steps[origin]? = some step →
        (frames[origin]?).join ≠ some before) :
      Turn course ⟨frames, origin :: rest, isPending, height⟩
        ⟨frames, rest, isPending.setIfInBounds origin false, height⟩

/-- A run goes on with the turns of its work list. -/
theorem settle_of_turn (h : Turn course flow flow') (fuel : Nat) :
    flow.settle course (fuel + 1) = flow'.settle course fuel := by
  cases h with
  | visit hs hf hv => simp only [settle, hs, hf, hv]
  | @skip origin rest frames isPending height hn =>
    conv_lhs => unfold settle
    dsimp only
    split
    · rename_i step before hs hf
      exact absurd hf (hn step before hs)
    · rfl

theorem settle_of_visit {origin : Nat} {rest : List Nat} {frames : Array (Option Frame)}
    {isPending flags : Array Bool} {height fuel : Nat} {step : Step} {before : Frame}
    (hv : visit course origin step before ⟨frames, rest, flags, height⟩ = .ok flow)
    (hs : course.scene.steps[origin]? = some step) (hf : frames[origin]? = some (some before))
    (hp : isPending.setIfInBounds origin false = flags) :
    settle course (fuel + 1) ⟨frames, origin :: rest, isPending, height⟩ =
      settle course fuel flow := by
  subst hp
  exact settle_of_turn (.visit hs (Option.join_eq_some_iff.mpr hf) hv) fuel

/-- With nothing pending, a flow is settled whatever the fuel. -/
theorem settle_of_nil (frames : Array (Option Frame)) (isPending : Array Bool) (height fuel : Nat) :
    settle course fuel ⟨frames, [], isPending, height⟩ = .ok ⟨frames, [], isPending, height⟩ := by
  cases fuel with
  | zero => rfl
  | succ fuel => rfl

theorem settle_zero_eq_ok : flow.settle course 0 = .ok flow' ↔
    flow.pending = [] ∧ flow = flow' := by
  unfold settle
  split_ifs with hnil
  · exact ⟨fun h => ⟨List.isEmpty_iff.mp hnil, Except.ok.inj h⟩, fun h => congrArg Except.ok h.2⟩
  · exact ⟨nofun, fun h => absurd (List.isEmpty_iff.mpr h.1) hnil⟩

/-- A run that comes to an end has nothing to do, or takes a turn and goes on. -/
theorem settle_succ_eq_ok {fuel : Nat} : flow.settle course (fuel + 1) = .ok flow' ↔
    flow.pending = [] ∧ flow = flow' ∨
      ∃ next, Turn course flow next ∧ next.settle course fuel = .ok flow' := by
  constructor
  · intro h
    obtain ⟨frames, pending, isPending, height⟩ := flow
    cases pending with
    | nil => exact .inl ⟨rfl, Except.ok.inj h⟩
    | cons origin rest =>
      unfold settle at h
      dsimp only at h
      split at h
      · rename_i step before hs hf
        split at h
        · rename_i visited hv
          exact .inr ⟨visited, .visit hs hf hv, h⟩
        · nomatch h
      · rename_i hn
        exact .inr ⟨_, .skip hn, h⟩
  · rintro (⟨hnil, rfl⟩ | ⟨next, hturn, h⟩)
    · obtain ⟨frames, pending, isPending, height⟩ := flow
      obtain rfl : pending = [] := hnil
      rfl
    · exact (settle_of_turn hturn fuel).trans h

/-- What each turn of the work list keeps, a run keeps. -/
theorem keeps_of_settle (hi : ∀ flow flow', I flow → Turn course flow flow' → I flow')
    {fuel : Nat} (h₀ : I flow) (h : flow.settle course fuel = .ok flow') :
    I flow' ∧ flow'.pending = [] := by
  induction fuel generalizing flow with
  | zero =>
    obtain ⟨hnil, rfl⟩ := settle_zero_eq_ok.mp h
    exact ⟨h₀, hnil⟩
  | succ fuel ih =>
    rcases settle_succ_eq_ok.mp h with ⟨hnil, rfl⟩ | ⟨next, hturn, h⟩
    · exact ⟨h₀, hnil⟩
    · exact ih (hi flow next h₀ hturn) h

/-- With more fuel a run gives the same. -/
theorem settle_of_le {fuel fuel' : Nat} (h : flow.settle course fuel = .ok flow')
    (hl : fuel ≤ fuel') : flow.settle course fuel' = .ok flow' := by
  induction fuel generalizing flow fuel' with
  | zero =>
    obtain ⟨hnil, rfl⟩ := settle_zero_eq_ok.mp h
    obtain ⟨frames, pending, isPending, height⟩ := flow
    obtain rfl : pending = [] := hnil
    exact settle_of_nil frames isPending height fuel'
  | succ fuel ih =>
    obtain ⟨fuel', rfl⟩ := Nat.exists_eq_add_of_le' hl
    rw [← Nat.add_assoc]
    refine settle_succ_eq_ok.mpr ((settle_succ_eq_ok.mp h).imp_right ?_)
    rintro ⟨next, hturn, h⟩
    exact ⟨next, hturn, ih h (Nat.le_add_left fuel fuel')⟩

end Flow

/-! ### What a flow relies on -/

/-- An order of frames in which what frames are merged to is above them. -/
structure Frame.IsAscent (hierarchy : Hierarchy) (R : Frame → Frame → Prop) : Prop where
  refl : ∀ frame, R frame frame
  trans : ∀ {a b c}, R a b → R b c → R a c
  merge : ∀ {old new merged}, Frame.merge hierarchy old new = .ok merged →
    R old merged ∧ R new merged

theorem Frame.isAscent_below {hierarchy : Hierarchy} (hp : hierarchy.IsProper) :
    Frame.IsAscent hierarchy (Frame.Below hierarchy) :=
  ⟨.refl, fun h h' => h.trans hp h', Frame.below_merge hp⟩

/-- What a flow relies on: frames are merged upwards, places are those of instructions, and declared
frames are expanded. -/
structure Course.IsSound (course : Course) (R : Frame → Frame → Prop) : Prop where
  ascent : Frame.IsAscent course.scene.hierarchy R
  positions : ∀ mark index, course.scene.position mark = .ok index → index < course.scene.steps.size
  entries : ∀ range ∈ course.handlers, range.entry < course.scene.steps.size
  paired : ∀ (index : Nat) declared, course.declared[index]? = some declared →
    FrameType.Paired declared.locals

namespace Flow

variable (R : Frame → Frame → Prop) {course : Course} {flow flow' : Flow}

/-- The frame that is held at an instruction. -/
def frameAt? (flow : Flow) (index : Nat) : Option Frame := (flow.frames[index]?).join

/-- Whether a frame that is held accounts for one that arrived: it is above it, or above what the
declared frame made of it. -/
def Accounts (course : Course) (target : Nat) (sent held : Frame) : Prop :=
  match course.declared[target]? with
  | none => R sent held
  | some declared => ∃ fitted, Frame.fit course.scene.hierarchy declared sent = .ok fitted ∧
      R fitted held

/-- Whether a frame arrived at an instruction. -/
def HasArrived (course : Course) (target : Nat) (sent : Frame) (flow : Flow) : Prop :=
  ∃ held, flow.frameAt? target = some held ∧ Accounts R course target sent held

/-- Whether an instruction was executed on a frame, and the results arrived. -/
def IsPassed (course : Course) (index : Nat) (step : Step) (before : Frame) (flow : Flow) : Prop :=
  ∃ after, course.scene.execute step before = .ok after ∧
    (∀ mark ∈ step.instruction.targets, ∃ target, course.scene.position mark = .ok target) ∧
    (step.instruction.fallsThrough = true → index + 1 < course.scene.steps.size) ∧
    ∀ target frame, course.Edge index step before after target frame →
      flow.HasArrived R course target frame

/-- Whether what is flagged is pending. -/
def IsListed (flow : Flow) : Prop :=
  ∀ index, flow.isPending.getD index false = true → index ∈ flow.pending

/-- What every flow keeps to: there is a place for each instruction, what is flagged is pending, and
where a frame is declared, what is held has it. -/
structure Valid (course : Course) (flow : Flow) : Prop where
  frames : flow.frames.size = course.scene.steps.size
  pending : flow.IsListed
  declares : ∀ index declared held, course.declared[index]? = some declared →
    flow.frameAt? index = some held → Frame.Declares declared held

/-- Whether frames stay, or give way to ones above them. -/
def Grows (flow flow' : Flow) : Prop :=
  ∀ index held, flow.frameAt? index = some held →
    ∃ held', flow'.frameAt? index = some held' ∧ R held held'

/-- Whether a flow goes on from another: its frames grow, and what changed is pending. -/
structure Rises (flow flow' : Flow) : Prop where
  frames : Grows R flow flow'
  pending : ∀ index ∈ flow.pending, index ∈ flow'.pending
  changed : ∀ index, flow'.frameAt? index ≠ flow.frameAt? index → index ∈ flow'.pending

/-- Every instruction with a frame is pending or was executed on that frame. -/
def Stable (course : Course) (flow : Flow) : Prop :=
  ∀ index step before, course.scene.steps[index]? = some step →
    flow.frameAt? index = some before →
      index ∈ flow.pending ∨ flow.IsPassed R course index step before

variable {R}

theorem Grows.refl (hs : course.IsSound R) (flow : Flow) : Grows R flow flow :=
  fun _ held h => ⟨held, h, hs.ascent.refl held⟩

theorem Grows.trans {flow'' : Flow} (hs : course.IsSound R) (h : Grows R flow flow')
    (h' : Grows R flow' flow'') : Grows R flow flow'' := by
  intro index held hh
  obtain ⟨held', hh', hb⟩ := h index held hh
  obtain ⟨held'', hh'', hb'⟩ := h' index held' hh'
  exact ⟨held'', hh'', hs.ascent.trans hb hb'⟩

theorem Rises.refl (hs : course.IsSound R) (flow : Flow) : Rises R flow flow :=
  ⟨.refl hs flow, fun _ h => h, fun _ h => absurd rfl h⟩

theorem Rises.trans {flow'' : Flow} (hs : course.IsSound R) (h : Rises R flow flow')
    (h' : Rises R flow' flow'') : Rises R flow flow'' := by
  refine ⟨h.frames.trans hs h'.frames, fun index hi => h'.pending index (h.pending index hi),
    fun index hc => ?_⟩
  by_cases heq : flow''.frameAt? index = flow'.frameAt? index
  · exact h'.pending index (h.changed index (heq ▸ hc))
  · exact h'.changed index heq

theorem Accounts.of_below (hs : course.IsSound R) {target : Nat} {sent held held' : Frame}
    (h : Accounts R course target sent held) (hb : R held held') :
    Accounts R course target sent held' := by
  unfold Accounts at *
  split at h
  · exact hs.ascent.trans h hb
  · obtain ⟨fitted, hf, h⟩ := h
    exact ⟨fitted, hf, hs.ascent.trans h hb⟩

theorem HasArrived.of_grows (hs : course.IsSound R) {target : Nat} {sent : Frame}
    (h : flow.HasArrived R course target sent) (hg : Grows R flow flow') :
    flow'.HasArrived R course target sent := by
  obtain ⟨held, hh, ha⟩ := h
  obtain ⟨held', hh', hb⟩ := hg target held hh
  exact ⟨held', hh', ha.of_below hs hb⟩

theorem IsPassed.of_grows (hs : course.IsSound R) {index : Nat} {step : Step} {before : Frame}
    (h : flow.IsPassed R course index step before) (hg : Grows R flow flow') :
    flow'.IsPassed R course index step before := by
  obtain ⟨after, he, ht, hf, ha⟩ := h
  exact ⟨after, he, ht, hf, fun target frame hedge => (ha target frame hedge).of_grows hs hg⟩

/-! ### One frame arrives -/

theorem frames_set (flow : Flow) (target : Nat) (frame : Frame) :
    (flow.set target frame).frames = flow.frames.setIfInBounds target (some frame) := by
  unfold set
  dsimp only
  split_ifs
  · rfl
  · rfl

theorem frameAt?_set (flow : Flow) {target : Nat} (ht : target < flow.frames.size) (frame : Frame)
    (index : Nat) : (flow.set target frame).frameAt? index =
      if target = index then some frame else flow.frameAt? index := by
  unfold frameAt?
  rw [frames_set, Array.getElem?_setIfInBounds]
  split_ifs with h
  · rfl
  · rfl

theorem mem_pending_set (flow : Flow) (target : Nat) (frame : Frame) {index : Nat}
    (h : index ∈ flow.pending) : index ∈ (flow.set target frame).pending := by
  unfold set
  dsimp only
  split_ifs
  · exact h
  · exact List.mem_cons_of_mem _ h

theorem target_mem_pending_set (hl : flow.IsListed) (target : Nat) (frame : Frame) :
    target ∈ (flow.set target frame).pending := by
  unfold set
  dsimp only
  split_ifs with h
  · exact hl target h
  · exact List.mem_cons_self

theorem isListed_set (hl : flow.IsListed) (target : Nat) (frame : Frame) :
    (flow.set target frame).IsListed := by
  intro index hi
  by_cases he : target = index
  · rw [← he]
    exact target_mem_pending_set hl target frame
  · refine mem_pending_set flow target frame (hl index ?_)
    unfold set at hi
    dsimp only at hi
    split_ifs at hi
    · exact hi
    · simpa [Array.getElem?_setIfInBounds, he] using hi

theorem valid_set (hv : Valid course flow) {target : Nat} (ht : target < course.scene.steps.size)
    {frame : Frame} (hd : ∀ declared, course.declared[target]? = some declared →
      Frame.Declares declared frame) : Valid course (flow.set target frame) := by
  have hat := frameAt?_set flow (hv.frames ▸ ht) frame
  refine ⟨?_, isListed_set hv.pending target frame, fun index declared held hdecl hheld => ?_⟩
  · rw [frames_set, Array.size_setIfInBounds, hv.frames]
  · rw [hat] at hheld
    split_ifs at hheld with he
    · obtain rfl := Option.some.inj hheld
      exact hd declared (he ▸ hdecl)
    · exact hv.declares index declared held hdecl hheld

theorem rises_set (hs : course.IsSound R) (hv : Valid course flow) {target : Nat}
    (ht : target < course.scene.steps.size) {frame : Frame}
    (hb : ∀ old, flow.frameAt? target = some old → R old frame) :
    Rises R flow (flow.set target frame) := by
  have hat := frameAt?_set flow (hv.frames ▸ ht) frame
  refine ⟨fun index held hh => ?_, fun index => mem_pending_set flow target frame,
    fun index hc => ?_⟩
  · rw [hat]
    split_ifs with he
    · exact ⟨frame, rfl, hb held (he ▸ hh)⟩
    · exact ⟨held, hh, hs.ascent.refl held⟩
  · rw [hat] at hc
    split_ifs at hc with he
    · rw [← he]
      exact target_mem_pending_set hv.pending target frame
    · exact absurd rfl hc

/-- A frame that arrives is first fitted to the declared one, and then merged with the one held. -/
theorem arrive_eq_ok {target : Nat} {sent : Frame} :
    flow.arrive course target sent = .ok flow' ↔ ∃ fitted,
      (match course.declared[target]? with
        | some declared => Frame.fit course.scene.hierarchy declared sent
        | none => .ok sent) = .ok fitted ∧
      match flow.frameAt? target with
      | none => flow' = flow.set target fitted
      | some old => ∃ merged, Frame.merge course.scene.hierarchy old fitted = .ok merged ∧
          flow' = if merged = old then flow else flow.set target merged := by
  unfold arrive frameAt?
  cases course.declared[target]? with
  | none =>
    simp only [Except.bind_eq_ok, Except.pure_eq_ok, Except.ok.injEq]
    cases (flow.frames[target]?).join with
    | none => simp only [Except.pure_eq_ok, eq_comm (a := flow')]
    | some old => simp only [Except.bind_eq_ok, Except.ite_pure_eq_ok, eq_comm (a := flow')]
  | some declared =>
    simp only [Except.bind_eq_ok]
    cases (flow.frames[target]?).join with
    | none => simp only [Except.pure_eq_ok, eq_comm (a := flow')]
    | some old => simp only [Except.bind_eq_ok, Except.ite_pure_eq_ok, eq_comm (a := flow')]

/-- What arrives at an instruction is accounted for there, and nothing else gets lost. -/
theorem arrive_spec (hs : course.IsSound R) (hv : Valid course flow) {target : Nat}
    (ht : target < course.scene.steps.size) {sent : Frame}
    (h : flow.arrive course target sent = .ok flow') :
    Valid course flow' ∧ Rises R flow flow' ∧ flow'.HasArrived R course target sent := by
  obtain ⟨fitted, hfit, h⟩ := arrive_eq_ok.mp h
  -- what is held afterwards is above what was fitted to the declared frame
  have hsent : ∀ held, R fitted held →
      Accounts R course target sent held := by
    intro held hb
    unfold Accounts
    split at hfit
    · rename_i declared hdecl
      rw [hdecl]
      exact ⟨fitted, hfit, hb⟩
    · rename_i hdecl
      rw [hdecl]
      exact Except.ok.inj hfit ▸ hb
  have hdeclares : ∀ declared, course.declared[target]? = some declared →
      Frame.Declares declared fitted := by
    intro declared hdecl
    rw [hdecl] at hfit
    exact Frame.declares_fit (hs.paired target declared hdecl) hfit
  have hat : ∀ frame, (flow.set target frame).frameAt? target = some frame := by
    intro frame
    rw [frameAt?_set flow (hv.frames ▸ ht), if_pos rfl]
  split at h
  · rename_i hnone
    subst h
    refine ⟨valid_set hv ht hdeclares, rises_set hs hv ht ?_, fitted, hat fitted,
      hsent fitted (hs.ascent.refl fitted)⟩
    intro old hold
    exact absurd (hold.symm.trans hnone) (by simp)
  · rename_i old hold
    obtain ⟨merged, hmerge, rfl⟩ := h
    -- the merged frame is above the one held, which stays if nothing changed
    obtain ⟨hbold, hbnew⟩ := hs.ascent.merge hmerge
    split_ifs with hsame
    · exact ⟨hv, .refl hs flow, old, hold, hsent old (hsame ▸ hbnew)⟩
    · refine ⟨valid_set hv ht fun declared hdecl => ?_, rises_set hs hv ht ?_, merged, hat merged,
        hsent merged hbnew⟩
      · exact Frame.declares_merge (hv.declares target declared old hdecl hold)
          (hdeclares declared hdecl) hmerge
      · intro other hother
        obtain rfl := Option.some.inj (hold.symm.trans hother)
        exact hbold

theorem send_spec (hs : course.IsSound R) (hv : Valid course flow) {origin target : Nat}
    (ht : target < course.scene.steps.size) {sent : Frame}
    (h : flow.send course origin target sent = .ok flow') :
    Valid course flow' ∧ Rises R flow flow' ∧ flow'.HasArrived R course target sent :=
  arrive_spec hs hv ht (Except.mapError_eq_ok.mp h)

theorem send_of_unreached {origin target : Nat} {sent : Frame}
    (hd : course.declared[target]? = none) (hf : flow.frameAt? target = none) :
    flow.send course origin target sent = .ok (flow.set target sent) := by
  refine Except.mapError_eq_ok.mpr (arrive_eq_ok.mpr ⟨sent, by rw [hd], ?_⟩)
  rw [hf]

theorem send_of_change {origin target : Nat} {sent old merged : Frame}
    (hd : course.declared[target]? = none) (hf : flow.frameAt? target = some old)
    (hm : Frame.merge course.scene.hierarchy old sent = .ok merged) (hne : merged ≠ old) :
    flow.send course origin target sent = .ok (flow.set target merged) := by
  refine Except.mapError_eq_ok.mpr (arrive_eq_ok.mpr ⟨sent, by rw [hd], ?_⟩)
  rw [hf]
  exact ⟨merged, hm, (if_neg hne).symm⟩

theorem send_of_same {origin target : Nat} {sent old : Frame}
    (hd : course.declared[target]? = none) (hf : flow.frameAt? target = some old)
    (hm : Frame.merge course.scene.hierarchy old sent = .ok old) :
    flow.send course origin target sent = .ok flow := by
  refine Except.mapError_eq_ok.mpr (arrive_eq_ok.mpr ⟨sent, by rw [hd], ?_⟩)
  rw [hf]
  exact ⟨old, hm, (if_pos rfl).symm⟩

/-! ### One instruction is visited -/

/-- The height of the stack does not matter to what is held. -/
theorem Valid.withHeight (hv : Valid course flow) (height : Nat) :
    Valid course { flow with height := height } :=
  ⟨hv.frames, hv.pending, hv.declares⟩

theorem Rises.of_withHeight {height : Nat}
    (h : Rises R { flow with height := height } flow') : Rises R flow flow' :=
  ⟨h.frames, h.pending, h.changed⟩

theorem throwFrom_spec (hs : course.IsSound R) (hv : Valid course flow) {origin : Nat}
    {before after : Frame} {handlers : List HandlerRange}
    (he : ∀ range ∈ handlers, range.entry < course.scene.steps.size)
    (h : flow.throwFrom course origin before after handlers = .ok flow') :
    Valid course flow' ∧ Rises R flow flow' ∧
      ∀ range ∈ handlers, range.start ≤ origin ∧ origin < range.stop →
        flow'.HasArrived R course range.entry (.catching before.locals range.caught) ∧
        flow'.HasArrived R course range.entry (.catching after.locals range.caught) := by
  induction handlers generalizing flow with
  | nil =>
    obtain rfl := Except.ok.inj h
    exact ⟨hv, .refl hs flow, by simp⟩
  | cons range rest ih =>
    have hrest : ∀ other ∈ rest, other.entry < course.scene.steps.size :=
      fun other ho => he other (List.mem_cons_of_mem _ ho)
    have hentry := he range List.mem_cons_self
    unfold throwFrom at h
    split_ifs at h with hin
    · obtain ⟨first, hfirst, h⟩ := Except.bind_eq_ok.mp h
      obtain ⟨second, hsecond, h⟩ := Except.bind_eq_ok.mp h
      -- the handler is entered with the locals before and after the instruction
      obtain ⟨hv₁, hr₁, ha₁⟩ := send_spec hs (hv.withHeight _) hentry hfirst
      obtain ⟨hv₂, hr₂, ha₂⟩ := send_spec hs hv₁ hentry hsecond
      obtain ⟨hv', hr', ha'⟩ := ih hv₂ hrest h
      refine ⟨hv', (hr₁.of_withHeight.trans hs hr₂).trans hs hr', fun other ho hio => ?_⟩
      rcases List.mem_cons.mp ho with rfl | ho
      · exact ⟨(ha₁.of_grows hs hr₂.frames).of_grows hs hr'.frames, ha₂.of_grows hs hr'.frames⟩
      · exact ha' other ho hio
    · obtain ⟨hv', hr', ha'⟩ := ih hv hrest h
      refine ⟨hv', hr', fun other ho hio => ?_⟩
      rcases List.mem_cons.mp ho with rfl | ho
      · exact absurd hio hin
      · exact ha' other ho hio

theorem jumpFrom_spec (hs : course.IsSound R) (hv : Valid course flow) {origin : Nat}
    {after : Frame} {targets : List Mark}
    (h : flow.jumpFrom course origin after targets = .ok flow') :
    Valid course flow' ∧ Rises R flow flow' ∧
      ∀ mark ∈ targets, ∃ target, course.scene.position mark = .ok target ∧
        flow'.HasArrived R course target after := by
  induction targets generalizing flow with
  | nil =>
    obtain rfl := Except.ok.inj h
    exact ⟨hv, .refl hs flow, by simp⟩
  | cons mark rest ih =>
    unfold jumpFrom at h
    obtain ⟨target, htarget, h⟩ := Except.bind_eq_ok.mp h
    obtain ⟨first, hfirst, h⟩ := Except.bind_eq_ok.mp h
    have hposition := Except.mapError_eq_ok.mp htarget
    obtain ⟨hv₁, hr₁, ha₁⟩ := send_spec hs hv (hs.positions mark target hposition) hfirst
    obtain ⟨hv', hr', ha'⟩ := ih hv₁ h
    refine ⟨hv', hr₁.trans hs hr', fun other ho => ?_⟩
    rcases List.mem_cons.mp ho with rfl | ho
    · exact ⟨target, hposition, ha₁.of_grows hs hr'.frames⟩
    · exact ha' other ho

/-- A visit executes an instruction, and lets the results arrive everywhere they go. -/
theorem visit_spec (hs : course.IsSound R) (hv : Valid course flow) {origin : Nat} {step : Step}
    (ho : origin < course.scene.steps.size) {before : Frame}
    (h : flow.visit course origin step before = .ok flow') :
    Valid course flow' ∧ Rises R flow flow' ∧ flow'.IsPassed R course origin step before := by
  obtain ⟨after, thrown, jumped, hexecute, hthrow, hjump, h⟩ := visit_eq_ok.mp h
  obtain ⟨hv₁, hr₁, ha₁⟩ := throwFrom_spec hs (hv.withHeight _) hs.entries hthrow
  obtain ⟨hv₂, hr₂, ha₂⟩ := jumpFrom_spec hs hv₁ hjump
  have hlast : Valid course flow' ∧ Rises R jumped flow' ∧
      (step.instruction.fallsThrough = true → origin + 1 < course.scene.steps.size ∧
        flow'.HasArrived R course (origin + 1) after) := by
    split_ifs at h with hf
    · obtain ⟨hend, hsend⟩ := h
      have hnext : origin + 1 < course.scene.steps.size := by omega
      obtain ⟨hv₃, hr₃, ha₃⟩ := send_spec hs hv₂ hnext hsend
      exact ⟨hv₃, hr₃, fun _ => ⟨hnext, ha₃⟩⟩
    · subst h
      exact ⟨hv₂, .refl hs jumped, fun hf' => absurd hf' hf⟩
  obtain ⟨hv', hr₃, ha₃⟩ := hlast
  have hr : Rises R flow flow' := (hr₁.of_withHeight.trans hs hr₂).trans hs hr₃
  -- what arrived on the way is still there at the end, as frames only grow
  refine ⟨hv', hr, after, hexecute, fun mark hm => ?_,
    fun hf => (ha₃ hf).1, fun target frame hedge => ?_⟩
  · obtain ⟨target, ht, -⟩ := ha₂ mark hm
    exact ⟨target, ht⟩
  · cases hedge with
    | jump hm ht =>
      obtain ⟨target', ht', ha⟩ := ha₂ _ hm
      obtain rfl := Except.ok.inj (ht.symm.trans ht')
      exact ha.of_grows hs hr₃.frames
    | next hf => exact (ha₃ hf).2
    | thrownBefore hrange hi =>
      exact ((ha₁ _ hrange hi).1.of_grows hs hr₂.frames).of_grows hs hr₃.frames
    | thrownAfter hrange hi =>
      exact ((ha₁ _ hrange hi).2.of_grows hs hr₂.frames).of_grows hs hr₃.frames

/-! ### The run -/

/-- Taking the first instruction off the list leaves the others flagged. -/
theorem isListed_pop {frames : Array (Option Frame)} {origin : Nat} {rest : List Nat}
    {isPending : Array Bool} {height : Nat}
    (hl : IsListed ⟨frames, origin :: rest, isPending, height⟩) :
    IsListed ⟨frames, rest, isPending.setIfInBounds origin false, height⟩ := by
  intro index hi
  have hne : index ≠ origin ∧ isPending.getD index false = true := by
    simp only [Array.getD_eq_getD_getElem?, Array.getElem?_setIfInBounds] at hi ⊢
    split_ifs at hi with he hin
    · simp at hi
    · simp at hi
    · exact ⟨Ne.symm he, hi⟩
  exact (List.mem_cons.mp (hl index hne.2)).resolve_left hne.1

theorem valid_pop {frames : Array (Option Frame)} {origin : Nat} {rest : List Nat}
    {isPending : Array Bool} {height : Nat}
    (hv : Valid course ⟨frames, origin :: rest, isPending, height⟩) :
    Valid course ⟨frames, rest, isPending.setIfInBounds origin false, height⟩ :=
  ⟨hv.frames, isListed_pop hv.pending, hv.declares⟩

/-- A visit to the first instruction of the list leaves every other one as stable as it was. -/
theorem stable_visit (hs : course.IsSound R) {frames : Array (Option Frame)} {origin : Nat}
    {rest : List Nat} {isPending flags : Array Bool} {height : Nat}
    (hst : Stable R course ⟨frames, origin :: rest, isPending, height⟩)
    {step : Step} (hstep : course.scene.steps[origin]? = some step) {before : Frame}
    (hbefore : frameAt? ⟨frames, rest, flags, height⟩ origin = some before)
    (hr : Rises R ⟨frames, rest, flags, height⟩ flow')
    (hp : flow'.IsPassed R course origin step before) : Stable R course flow' := by
  intro index step' before' hstep' hbefore'
  -- an instruction whose frame changed is pending; otherwise it was passed, or is so now
  by_cases hsame : flow'.frameAt? index = frameAt? ⟨frames, rest, flags, height⟩ index
  · rw [hsame] at hbefore'
    by_cases he : index = origin
    · subst he
      obtain rfl := Option.some.inj (hstep.symm.trans hstep')
      obtain rfl := Option.some.inj (hbefore.symm.trans hbefore')
      exact .inr hp
    · rcases hst index step' before' hstep' hbefore' with hin | hpass
      · exact .inl (hr.pending index ((List.mem_cons.mp hin).resolve_left he))
      · exact .inr (hpass.of_grows hs hr.frames)
  · exact .inl (hr.changed index hsame)

/-- With nothing pending, every instruction with a frame was executed on it. -/
theorem isPassed_of_stable (hst : Stable R course flow) (hnil : flow.pending = []) {index : Nat}
    {step : Step} {before : Frame} (hstep : course.scene.steps[index]? = some step)
    (hbefore : flow.frameAt? index = some before) : flow.IsPassed R course index step before := by
  refine (hst index step before hstep hbefore).resolve_left ?_
  rw [hnil]
  exact List.not_mem_nil

/-- A turn restores what the list promises: what changed is on it again. -/
theorem Turn.stable (hs : course.IsSound R) (hv : Valid course flow) (hst : Stable R course flow)
    (h : Turn course flow flow') :
    Valid course flow' ∧ Stable R course flow' ∧ Grows R flow flow' := by
  cases h with
  | visit hstep hbefore hvisit =>
    have ho := (Array.getElem?_eq_some_iff.mp hstep).1
    obtain ⟨hv', hr, hp⟩ := visit_spec hs (valid_pop hv) ho hvisit
    exact ⟨hv', stable_visit hs hst hstep hbefore hr hp, hr.frames⟩
  | skip hnone =>
    refine ⟨valid_pop hv, fun index step before hstep hbefore => ?_, .refl hs _⟩
    refine (hst index step before hstep hbefore).imp_left fun hin => ?_
    refine (List.mem_cons.mp hin).resolve_left ?_
    rintro rfl
    exact hnone step before hstep hbefore

/-- When the list is empty, every instruction with a frame was executed on that frame, and what had
arrived is still accounted for. -/
theorem settle_spec (hs : course.IsSound R) {fuel : Nat} (hv : Valid course flow)
    (hst : Stable R course flow) (h : flow.settle course fuel = .ok flow') :
    Valid course flow' ∧ Grows R flow flow' ∧
      ∀ index step before, course.scene.steps[index]? = some step →
        flow'.frameAt? index = some before → flow'.IsPassed R course index step before := by
  have hturn : ∀ reached next, Valid course reached ∧ Stable R course reached ∧
      Grows R flow reached → Turn course reached next →
      Valid course next ∧ Stable R course next ∧ Grows R flow next := by
    rintro reached next ⟨hv, hst, hg⟩ hturn
    obtain ⟨hv', hst', hg'⟩ := hturn.stable hs hv hst
    exact ⟨hv', hst', hg.trans hs hg'⟩
  obtain ⟨⟨hv', hst', hg⟩, hnil⟩ := keeps_of_settle hturn ⟨hv, hst, .refl hs flow⟩ h
  exact ⟨hv', hg, fun _ _ _ => isPassed_of_stable hst' hnil⟩

end Flow

end ClassGraft

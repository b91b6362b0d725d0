import ClassGraft.Proofs.Frame.Consistency
import ClassGraft.Proofs.Frame.Executed

/-!
# Constructors call a constructor before they return

A constructor starts with its receiver, which no constructor of the super class was called on, as
the first local.  The analysis refuses to return while a local holds that type.  A local in which
two types meet cannot be used at all, and then nothing is refused: so a path on which the
constructor of the super class is not called can come to a return when it meets one on which it is
(`Building.not_constructs_before_return`).

As long as no path stores into the first local, it holds the receiver that was not constructed or
cannot be used (`Frame.IsHollow`), until a constructor is called on it; merging keeps that.  So the
paths to a return where the first local can be used pass a call (`Body.constructs_before_return`).
-/

namespace ClassGraft

/-- A path of control from the first instruction: the instructions that were passed, the latest one
first, and the one that is next. -/
inductive Course.Path (course : Course) : List Nat → Nat → Prop
  | start : Path course [] 0
  | go {passed : List Nat} {index target : Nat} {step : Step} {before after sent : Frame}
      (h : Path course passed index) (hs : course.scene.steps[index]? = some step)
      (he : course.Edge index step before after target sent) : Path course (index :: passed) target

/-- Control goes on at the next instruction, whatever the frames are. -/
theorem Course.Path.next {course : Course} {passed : List Nat} {index : Nat} {step : Step}
    (h : course.Path passed index) (hs : course.scene.steps[index]? = some step)
    (hf : step.instruction.fallsThrough = true) : course.Path (index :: passed) (index + 1) :=
  .go h hs (.next hf : course.Edge index step ⟨[], []⟩ ⟨[], []⟩ (index + 1) ⟨[], []⟩)

theorem Course.Path.jump {course : Course} {passed : List Nat} {index target : Nat} {step : Step}
    {mark : Mark} (h : course.Path passed index) (hs : course.scene.steps[index]? = some step)
    (hm : mark ∈ step.instruction.targets) (ht : course.scene.position mark = .ok target) :
    course.Path (index :: passed) target :=
  .go h hs (.jump hm ht : course.Edge index step ⟨[], []⟩ ⟨[], []⟩ target ⟨[], []⟩)

/-- Whether the type is that of a receiver that was not constructed, or of nothing to be used. -/
def FrameType.IsHollow (type : FrameType) : Prop := type = uninitializedThis ∨ type = top

/-- Whether the first local holds a receiver that was not constructed, or cannot be used. -/
def Frame.IsHollow (frame : Frame) : Prop := (frame.localAt 0).IsHollow

/-! ### What keeps the receiver hollow -/

namespace Hierarchy

variable {hierarchy : Hierarchy} {a b : FrameType}

theorem isHollow_meetLocal_left (ha : a.IsHollow) : (hierarchy.meetLocal a b).IsHollow := by
  by_cases he : a = b
  · rw [← he, meetLocal_self]
    exact ha
  · refine .inr ?_
    rcases ha with rfl | rfl <;> simp [meetLocal, meet, he]

theorem isHollow_meetLocal_right (hb : b.IsHollow) : (hierarchy.meetLocal a b).IsHollow := by
  by_cases he : a = b
  · rw [he, meetLocal_self]
    exact hb
  · refine .inr ?_
    rcases hb with rfl | rfl <;> simp [meetLocal, meet, he]

theorem IsHollow.of_accepts (ha : a.IsHollow) (h : hierarchy.accepts a b = true) : b.IsHollow := by
  rcases ha with rfl | rfl <;> cases b <;> simp_all [accepts, FrameType.IsHollow]

end Hierarchy

namespace Frame

variable {hierarchy : Hierarchy} {old new merged declared sent fitted : Frame}

theorem isHollow_merge (h : merge hierarchy old new = .ok merged)
    (hh : old.IsHollow ∨ new.IsHollow) : merged.IsHollow := by
  obtain ⟨-, words, -, rfl⟩ := merge_eq_ok.mp h
  rcases localAt_merged hierarchy old.locals new.locals words.reverse 0 with
    ht | ⟨a, b, ha, hb, hm⟩
  · exact .inr ht
  · unfold IsHollow at *
    rw [hm]
    simp only [localAt, List.getD_eq_getElem?_getD, ha, hb, Option.getD_some] at hh
    exact hh.elim Hierarchy.isHollow_meetLocal_left Hierarchy.isHollow_meetLocal_right

theorem isAscent_isHollow (hierarchy : Hierarchy) :
    IsAscent hierarchy fun lower upper => lower.IsHollow → upper.IsHollow :=
  ⟨fun _ h => h, fun h h' hh => h' (h hh),
    fun h => ⟨fun hh => isHollow_merge h (.inl hh), fun hh => isHollow_merge h (.inr hh)⟩⟩

theorem isHollow_fit (h : fit hierarchy declared sent = .ok fitted) (hh : sent.IsHollow) :
    fitted.IsHollow := by
  unfold IsHollow at *
  rw [localAt_fit h]
  split_ifs
  · have hfits := fits_of_misfit?_eq_none (fit_eq_ok.mp h).1
    exact Hierarchy.IsHollow.of_accepts hh (hfits.locals 0)
  · exact hh

/-- A store leaves the locals before its own, except for a wide one whose second slot it takes. -/
theorem localAt_store_of_lt (frame : Frame) {slot : UInt16} (type : FrameType) {i : Nat}
    (hi : i < slot.toNat) : (frame.store slot type).localAt i = frame.localAt i ∨
      (frame.store slot type).localAt i = .top := by
  -- the locals before the slot, filled up to it, still hold what they held
  have hfront : (frame.locals.take slot.toNat ++ List.replicate
      (slot.toNat - (frame.locals.take slot.toNat).length) FrameType.top)[i]?.getD .top =
        frame.localAt i := by
    rw [localAt, List.getD_eq_getElem?_getD, List.getElem?_append]
    split_ifs with h
    · rw [List.getElem?_take_of_lt hi]
    · rw [List.length_take, Nat.lt_min, not_and] at h
      rw [List.getElem?_eq_none (Nat.le_of_not_lt (h hi)), List.getElem?_replicate]
      split_ifs <;> rfl
  have hl : i < (frame.locals.take slot.toNat ++ List.replicate
      (slot.toNat - (frame.locals.take slot.toNat).length) FrameType.top).length := by
    simp
    omega
  unfold store
  dsimp only
  -- how they were filled does not matter any more
  generalize frame.locals.take slot.toNat ++ List.replicate
    (slot.toNat - (frame.locals.take slot.toNat).length) FrameType.top = front at hfront hl
  rw [localAt, List.getD_eq_getElem?_getD, List.append_assoc, ← hfront]
  split
  · split_ifs
    · -- the last slot before the one that is stored into cannot be used any more
      rw [List.append_assoc]
      by_cases he : i < front.length - 1
      · rw [List.getElem?_append_left (by simpa using he), List.getElem?_dropLast, if_pos he]
        exact .inl rfl
      · have hlast : i = front.dropLast.length := by
          rw [List.length_dropLast]
          omega
        rw [hlast, List.getElem?_append_right (Nat.le_refl _), Nat.sub_self]
        exact .inr rfl
    · rw [List.getElem?_append_left hl]
      exact .inl rfl
  · rw [List.getElem?_append_left hl]
    exact .inl rfl

/-- The first local stays hollow, unless it is stored into or the receiver is constructed. -/
theorem isHollow_of_changes {scene : Scene} {step : Step} {before after : Frame}
    (h : scene.Changes step before after)
    (hs : ∀ op, op.isStore = true → step.instruction ≠ .access op 0)
    (hc : ¬scene.Constructs step before .uninitializedThis) (hh : before.IsHollow) :
    after.IsHollow := by
  cases h with
  | work => exact hh
  | @store op slot stored stack hi ho =>
    have hpos : 0 < slot.toNat := by
      refine Nat.pos_of_ne_zero fun hz => hs op ho ?_
      rw [hi, UInt16.toNat_inj.mp (hz.trans UInt16.toNat_zero.symm)]
    rcases localAt_store_of_lt before stored hpos with h | h
    · exact (congrArg FrameType.IsHollow h).mpr hh
    · exact .inr h
  | @construct receiver name stack hc' =>
    -- another receiver is constructed, so the type of this one stays
    have hne : ∀ type : FrameType, type.IsHollow → type ≠ receiver := by
      rintro type (rfl | rfl) rfl
      · exact hc hc'
      · exact absurd hc'.reference (by decide)
    unfold IsHollow localAt construct at *
    rw [List.getD_eq_getElem?_getD, List.getElem?_map]
    rw [List.getD_eq_getElem?_getD] at hh
    cases hfirst : before.locals[0]? with
    | none => exact .inr rfl
    | some type =>
      rw [hfirst] at hh
      rw [Option.map_some, Option.getD_some, if_neg (hne type hh)]
      exact hh

end Frame

/-! ### Paths -/

/-- The receiver of a constructor is the first local. -/
theorem MethodHead.isHollow_entryFrame {head : MethodHead} {entry : Frame}
    (hn : head.name = constructorName) (hc : head.thisClass ≠ objectName)
    (hs : head.isStatic = false) (h : head.entryFrame = .ok entry) : entry.IsHollow := by
  unfold entryFrame at h
  split at h
  · simp at h
  · obtain rfl := Except.ok.inj h
    rw [if_neg (by simp [hs]), receiver, if_pos ⟨hn, hc⟩]
    exact .inl rfl

/-- What a settled flow says of paths: where control can get without a store into the first local
and without a call of a constructor on the receiver, the first local is hollow. -/
theorem Flow.isHollow_of_path {course : Course} {flow : Flow} {entry : Frame}
    (hentry : flow.HasArrived (fun lower upper => lower.IsHollow → upper.IsHollow) course 0 entry)
    (hpassed : ∀ index step before, course.scene.steps[index]? = some step →
      flow.frameAt? index = some before →
        flow.IsPassed (fun lower upper => lower.IsHollow → upper.IsHollow) course index step before)
    (hhollow : entry.IsHollow) {passed : List Nat} {index : Nat} (h : course.Path passed index)
    (hs : ∀ i ∈ passed, ∀ step, course.scene.steps[i]? = some step →
      ∀ op, op.isStore = true → step.instruction ≠ .access op 0)
    (hc : ∀ i ∈ passed, ∀ step before, course.scene.steps[i]? = some step →
      flow.frameAt? i = some before → ¬course.scene.Constructs step before .uninitializedThis) :
    ∃ held, flow.frameAt? index = some held ∧ held.IsHollow := by
  have harrived : ∀ target sent,
      flow.HasArrived (fun lower upper => lower.IsHollow → upper.IsHollow) course target sent →
      sent.IsHollow → ∃ held, flow.frameAt? target = some held ∧ held.IsHollow := by
    rintro target sent ⟨held, hheld, ha⟩ hsent
    refine ⟨held, hheld, ?_⟩
    unfold Accounts at ha
    split at ha
    · exact ha hsent
    · obtain ⟨fitted, hfit, ha⟩ := ha
      exact ha (Frame.isHollow_fit hfit hsent)
  induction h with
  | start => exact harrived 0 entry hentry hhollow
  | @go passed index target step _ _ sent hpath hstep hedge ih =>
    obtain ⟨before, hbefore, hbhollow⟩ := ih
      (fun i hi => hs i (List.mem_cons_of_mem _ hi)) (fun i hi => hc i (List.mem_cons_of_mem _ hi))
    obtain ⟨after, hexecute, -, -, hsent⟩ := hpassed index step before hstep hbefore
    have hahollow : after.IsHollow :=
      Frame.isHollow_of_changes (Scene.changes_of_execute hexecute)
        (hs index List.mem_cons_self step hstep)
        (hc index List.mem_cons_self step before hstep hbefore) hbhollow
    -- the frame that is sent along the edge has the locals before or after the instruction
    cases hedge with
    | jump hm ht => exact harrived _ _ (hsent _ _ (.jump hm ht)) hahollow
    | next hf => exact harrived _ _ (hsent _ _ (.next hf)) hahollow
    | thrownBefore hr hi => exact harrived _ _ (hsent _ _ (.thrownBefore hr hi)) hbhollow
    | thrownAfter hr hi => exact harrived _ _ (hsent _ _ (.thrownAfter hr hi)) hahollow

/-- A return from a constructor where the first local is hollow does not say so. -/
theorem Scene.localAt_of_return {scene : Scene} {step : Step} {before after : Frame}
    (hn : scene.head.name = constructorName) (hi : step.instruction = .plain Opcode.returnVoid)
    (h : scene.execute step before = .ok after) (hh : before.IsHollow) :
    before.localAt 0 = .top := by
  rw [execute_plain hi Opcode.effect?_returnVoid] at h
  simp only [apply, hn, true_and] at h
  split_ifs at h with hcontains
  refine hh.resolve_left fun hthis => hcontains ?_
  unfold Frame.localAt at hthis
  rw [List.getD_eq_getElem?_getD] at hthis
  cases hfirst : before.locals[0]? with
  | none => simp [hfirst] at hthis
  | some type =>
    rw [hfirst, Option.getD_some] at hthis
    exact List.contains_iff_mem.mpr (hthis ▸ List.mem_of_getElem? hfirst)

/-- In a constructor, a path to a return where the first local can be used passes a constructor call
on the receiver, unless it passes a store into that local. -/
theorem Body.constructs_before_return {body : Body} {head : MethodHead} {pool : Pool}
    {hierarchy : Hierarchy} {analysis : Analysis} (hn : head.name = constructorName)
    (hc : head.thisClass ≠ objectName) (hs : head.isStatic = false)
    (h : body.analyze head pool hierarchy = .ok analysis) :
    ∃ entry course, body.HasCourse head pool hierarchy entry course ∧
      ∀ passed index step, course.Path passed index →
        course.scene.steps[index]? = some step → step.instruction = .plain Opcode.returnVoid →
        (∀ i ∈ passed, ∀ step, course.scene.steps[i]? = some step →
          ∀ op, op.isStore = true → step.instruction ≠ .access op 0) →
        (∀ before, analysis.frames[index]? = some (some before) → before.localAt 0 ≠ .top) →
        ∃ i ∈ passed, ∃ step before, course.scene.steps[i]? = some step ∧
          analysis.frames[i]? = some (some before) ∧
          course.scene.Constructs step before .uninitializedThis := by
  obtain ⟨entry, course, flow, hcourse, hframes, -, harrived, hpassed⟩ :=
    settled_of_analyze (Frame.isAscent_isHollow hierarchy) h
  refine ⟨entry, course, hcourse, fun passed index step hpath hstep hreturn hstores hknown => ?_⟩
  -- otherwise the receiver stays hollow along the path, and at the return it cannot be used
  by_contra hnone
  have hcalls : ∀ i ∈ passed, ∀ step before, course.scene.steps[i]? = some step →
      flow.frameAt? i = some before →
        ¬course.scene.Constructs step before .uninitializedThis :=
    fun i hi step before hstep hbefore hcall =>
      hnone ⟨i, hi, step, before, hstep, hframes ▸ Flow.frameAt?_eq_some.mp hbefore, hcall⟩
  obtain ⟨before, hbefore, hhollow⟩ := Flow.isHollow_of_path harrived hpassed
    (MethodHead.isHollow_entryFrame hn hc hs hcourse.starts) hpath hstores hcalls
  obtain ⟨after, hexecute, -⟩ := hpassed index step before hstep hbefore
  have hname : course.scene.head.name = constructorName := by
    rw [hcourse.scene]
    exact hn
  exact hknown before (hframes ▸ Flow.frameAt?_eq_some.mp hbefore)
    (Scene.localAt_of_return hname hreturn hexecute hhollow)

/-! ### A constructor that may skip the call

A constructor takes a number.  It calls the constructor of its super class, or only does so if the
number is not zero.  -/

namespace Building

def head : MethodHead :=
  ⟨Bytes.ofAscii "C", constructorName, Bytes.ofAscii "(I)V", false⟩

/-- The constructor of the super class is the constant 6. -/
def pool : Pool :=
  (((((Pool.empty.push (.utf8 objectName) (by decide)).push (.named .classRef 1) (by decide)).push
    (.utf8 constructorName) (by decide)).push (.utf8 (Bytes.ofAscii "()V")) (by decide)).push
      (.nameAndType 3 4) (by decide)).push (.member .method 2 5) (by decide)

/-- Calls the constructor of the super class, and returns. -/
def calling : Body :=
  { Body.new 0 with
    steps := [⟨⟨0⟩, .access Opcode.aload 0⟩, ⟨⟨1⟩, .invoke Opcode.invokeSpecial 6⟩,
      ⟨⟨2⟩, .plain Opcode.returnVoid⟩] }

/-- Skips the call if the argument is zero. -/
def skipping : Body :=
  { Body.new 0 with
    steps := [⟨⟨0⟩, .access Opcode.iload 1⟩, ⟨⟨1⟩, .jump Opcode.ifEq ⟨4⟩⟩,
      ⟨⟨2⟩, .access Opcode.aload 0⟩, ⟨⟨3⟩, .invoke Opcode.invokeSpecial 6⟩,
      ⟨⟨4⟩, .plain Opcode.returnVoid⟩] }

def course (body : Body) : Course := body.plainCourse head pool .unknown

/-- A frame by what is held of the receiver and the words of the stack. -/
def frame (receiver : FrameType) (stack : List FrameType) : Frame := ⟨[receiver, .int], stack⟩

/-- The receiver after the call. -/
def built : FrameType := .object (Bytes.ofAscii "C")

theorem member_eq : pool.member 6 =
    some ⟨.method, objectName, constructorName, Bytes.ofAscii "()V"⟩ := by
  decide +kernel

theorem method?_eq : Descriptor.method? (Bytes.ofAscii "()V") = some ⟨[], none⟩ := by
  decide +kernel

theorem execute_call (body : Body) (mark : Mark) :
    (course body).scene.execute ⟨mark, .invoke Opcode.invokeSpecial 6⟩
      (frame .uninitializedThis [.uninitializedThis]) = .ok (frame built []) := by
  show (course body).scene.call _ true 6 = _
  exact Scene.call_eq_ok.mpr ⟨_, _, frame .uninitializedThis [.uninitializedThis], member_eq,
    method?_eq, rfl, .uninitializedThis, frame .uninitializedThis [], rfl, rfl,
    Bytes.ofAscii "C", rfl, rfl⟩

theorem execute_return (body : Body) (mark : Mark) {receiver : FrameType}
    (hr : receiver ≠ .uninitializedThis) :
    (course body).scene.execute ⟨mark, .plain Opcode.returnVoid⟩ (frame receiver []) =
      .ok (frame receiver []) :=
  (Scene.execute_plain rfl Opcode.effect?_returnVoid).trans (if_neg (by simp [frame, hr.symm]))

/-- The frames of the constructor that calls in any case. -/
def callingFrames : Array (Option Frame) :=
  #[some (frame .uninitializedThis []), some (frame .uninitializedThis [.uninitializedThis]),
    some (frame built [])]

theorem analyze_calling : calling.analyze head pool .unknown = .ok ⟨callingFrames, 1, 2⟩ := by
  have hd := calling.declared_plainCourse head pool .unknown
  have hsend : (Flow.start 3).send (course calling) 0 0 (frame .uninitializedThis []) =
      .ok ⟨#[some (frame .uninitializedThis []), none, none], [0], #[true, false, false], 0⟩ :=
    Flow.send_of_unreached (hd 0) rfl
  -- three instructions in a row, each visited once
  have load : Flow.visit (course calling) 0 ⟨⟨0⟩, .access Opcode.aload 0⟩
      (frame .uninitializedThis [])
      ⟨#[some (frame .uninitializedThis []), none, none], [], #[false, false, false], 0⟩ =
      .ok ⟨#[some (frame .uninitializedThis []),
        some (frame .uninitializedThis [.uninitializedThis]), none], [1],
        #[false, true, false], 1⟩ :=
    Flow.send_of_unreached (hd 1) rfl
  have call : Flow.visit (course calling) 1 ⟨⟨1⟩, .invoke Opcode.invokeSpecial 6⟩
      (frame .uninitializedThis [.uninitializedThis])
      ⟨#[some (frame .uninitializedThis []), some (frame .uninitializedThis [.uninitializedThis]),
        none], [], #[false, false, false], 1⟩ =
      .ok ⟨callingFrames, [2], #[false, false, true], 1⟩ :=
    Flow.visit_eq_ok.mpr ⟨_, _, _, execute_call calling ⟨1⟩, rfl, rfl, by decide,
      Flow.send_of_unreached (hd 2) rfl⟩
  have finish : Flow.visit (course calling) 2 ⟨⟨2⟩, .plain Opcode.returnVoid⟩ (frame built [])
      ⟨callingFrames, [], #[false, false, false], 1⟩ =
      .ok ⟨callingFrames, [], #[false, false, false], 1⟩ :=
    Flow.visit_eq_ok.mpr ⟨_, _, _, execute_return calling ⟨2⟩ (by decide), rfl, rfl, rfl⟩
  have hsettle : ∀ fuel, Flow.settle (course calling) (fuel + 3)
      ⟨#[some (frame .uninitializedThis []), none, none], [0], #[true, false, false], 0⟩ =
        .ok ⟨callingFrames, [], #[false, false, false], 1⟩ := by
    intro fuel
    refine (Flow.settle_of_visit load rfl rfl (by rfl)).trans ?_
    refine (Flow.settle_of_visit call rfl rfl (by rfl)).trans ?_
    refine (Flow.settle_of_visit finish rfl rfl (by rfl)).trans ?_
    exact Flow.settle_of_nil callingFrames #[false, false, false] 1 fuel
  exact Body.analyze_of_settle rfl rfl (by decide) rfl hsend hsettle
    (Flow.le_budget (by decide)) (by simp) (by decide)

/-- The frames of the constructor that may skip the call: at the return, the receiver that was
constructed meets the one that was not. -/
def skippingFrames : Array (Option Frame) :=
  #[some (frame .uninitializedThis []), some (frame .uninitializedThis [.int]),
    some (frame .uninitializedThis []), some (frame .uninitializedThis [.uninitializedThis]),
    some (frame .top [])]

theorem analyze_skipping : skipping.analyze head pool .unknown = .ok ⟨skippingFrames, 1, 2⟩ := by
  have hd := skipping.declared_plainCourse head pool .unknown
  have hposition : (course skipping).scene.position ⟨4⟩ = .ok 4 := Scene.position_eq_ok.mpr
    (@Body.getElem?_positions skipping (by decide) 4 ⟨⟨4⟩, .plain Opcode.returnVoid⟩ rfl)
  have hsend : (Flow.start 5).send (course skipping) 0 0 (frame .uninitializedThis []) =
      .ok ⟨#[some (frame .uninitializedThis []), none, none, none, none], [0],
        #[true, false, false, false, false], 0⟩ :=
    Flow.send_of_unreached (hd 0) rfl
  have load : Flow.visit (course skipping) 0 ⟨⟨0⟩, .access Opcode.iload 1⟩
      (frame .uninitializedThis [])
      ⟨#[some (frame .uninitializedThis []), none, none, none, none], [],
        #[false, false, false, false, false], 0⟩ =
      .ok ⟨#[some (frame .uninitializedThis []), some (frame .uninitializedThis [.int]), none, none,
        none], [1], #[false, true, false, false, false], 1⟩ :=
    Flow.send_of_unreached (hd 1) rfl
  have jump : Flow.visit (course skipping) 1 ⟨⟨1⟩, .jump Opcode.ifEq ⟨4⟩⟩
      (frame .uninitializedThis [.int])
      ⟨#[some (frame .uninitializedThis []), some (frame .uninitializedThis [.int]), none, none,
        none], [], #[false, false, false, false, false], 1⟩ =
      .ok ⟨#[some (frame .uninitializedThis []), some (frame .uninitializedThis [.int]),
        some (frame .uninitializedThis []), none, some (frame .uninitializedThis [])], [2, 4],
        #[false, false, true, false, true], 1⟩ := by
    refine Flow.visit_eq_ok.mpr ⟨frame .uninitializedThis [], _,
      ⟨#[some (frame .uninitializedThis []), some (frame .uninitializedThis [.int]), none, none,
        some (frame .uninitializedThis [])], [4], #[false, false, false, false, true], 1⟩,
      rfl, rfl, ?_, by decide, Flow.send_of_unreached (hd 2) rfl⟩
    exact Except.bind_eq_ok.mpr ⟨4, Except.mapError_eq_ok.mpr hposition,
      Except.bind_eq_ok.mpr ⟨_, Flow.send_of_unreached (hd 4) rfl, rfl⟩⟩
  have loadThis : Flow.visit (course skipping) 2 ⟨⟨2⟩, .access Opcode.aload 0⟩
      (frame .uninitializedThis [])
      ⟨#[some (frame .uninitializedThis []), some (frame .uninitializedThis [.int]),
        some (frame .uninitializedThis []), none, some (frame .uninitializedThis [])], [4],
        #[false, false, false, false, true], 1⟩ =
      .ok ⟨#[some (frame .uninitializedThis []), some (frame .uninitializedThis [.int]),
        some (frame .uninitializedThis []), some (frame .uninitializedThis [.uninitializedThis]),
        some (frame .uninitializedThis [])], [3, 4], #[false, false, false, true, true], 1⟩ :=
    Flow.send_of_unreached (hd 3) rfl
  -- the call sends a constructed receiver to the return, where the jump sent one that is not
  have call : Flow.visit (course skipping) 3 ⟨⟨3⟩, .invoke Opcode.invokeSpecial 6⟩
      (frame .uninitializedThis [.uninitializedThis])
      ⟨#[some (frame .uninitializedThis []), some (frame .uninitializedThis [.int]),
        some (frame .uninitializedThis []), some (frame .uninitializedThis [.uninitializedThis]),
        some (frame .uninitializedThis [])], [4], #[false, false, false, false, true], 1⟩ =
      .ok ⟨skippingFrames, [4], #[false, false, false, false, true], 1⟩ := by
    have hmerge : Frame.merge .unknown (frame .uninitializedThis []) (frame built []) =
        .ok (frame .top []) := by decide +kernel
    exact Flow.visit_eq_ok.mpr ⟨_, _, _, execute_call skipping ⟨3⟩, rfl, rfl, by decide,
      Flow.send_of_change (hd 4) rfl hmerge (by decide)⟩
  have finish : Flow.visit (course skipping) 4 ⟨⟨4⟩, .plain Opcode.returnVoid⟩ (frame .top [])
      ⟨skippingFrames, [], #[false, false, false, false, false], 1⟩ =
      .ok ⟨skippingFrames, [], #[false, false, false, false, false], 1⟩ :=
    Flow.visit_eq_ok.mpr ⟨_, _, _, execute_return skipping ⟨4⟩ (by decide), rfl, rfl, rfl⟩
  have hsettle : ∀ fuel, Flow.settle (course skipping) (fuel + 5)
      ⟨#[some (frame .uninitializedThis []), none, none, none, none], [0],
        #[true, false, false, false, false], 0⟩ =
        .ok ⟨skippingFrames, [], #[false, false, false, false, false], 1⟩ := by
    intro fuel
    refine (Flow.settle_of_visit load rfl rfl (by rfl)).trans ?_
    refine (Flow.settle_of_visit jump rfl rfl (by rfl)).trans ?_
    refine (Flow.settle_of_visit loadThis rfl rfl (by rfl)).trans ?_
    refine (Flow.settle_of_visit call rfl rfl (by rfl)).trans ?_
    refine (Flow.settle_of_visit finish rfl rfl (by rfl)).trans ?_
    exact Flow.settle_of_nil skippingFrames #[false, false, false, false, false] 1 fuel
  exact Body.analyze_of_settle rfl rfl (by decide) rfl hsend hsettle
    (Flow.le_budget (by decide)) (by simp) (by decide)

/-- The call that is made in any case comes before the return. -/
theorem constructs_before_return_calling :
    head.name = constructorName ∧ head.thisClass ≠ objectName ∧ head.isStatic = false ∧
      ∃ analysis, calling.analyze head pool .unknown = .ok analysis ∧
      ∃ entry course, calling.HasCourse head pool .unknown entry course ∧
      course.Path [1, 0] 2 ∧
      ∃ i ∈ [1, 0], ∃ step before, course.scene.steps[i]? = some step ∧
        analysis.frames[i]? = some (some before) ∧
        course.scene.Constructs step before .uninitializedThis := by
  have hn : head.name = constructorName := rfl
  have hc : head.thisClass ≠ objectName := by decide
  obtain ⟨entry, course, hcourse, hpaths⟩ :=
    Body.constructs_before_return hn hc rfl analyze_calling
  have hsteps : course.scene.steps = calling.steps.toArray := by rw [hcourse.scene]
  have hpath : course.Path [1, 0] 2 :=
    (Course.Path.next .start (by rw [hsteps]; rfl) (by rfl)).next (by rw [hsteps]; rfl) (by rfl)
  refine ⟨hn, hc, rfl, _, analyze_calling, entry, course, hcourse, hpath, ?_⟩
  refine hpaths [1, 0] 2 ⟨⟨2⟩, .plain Opcode.returnVoid⟩ hpath (by rw [hsteps]; rfl) rfl ?_ ?_
  · -- neither of the two instructions before the return is a store
    intro i hi step hstep op hop haccess
    rw [hsteps] at hstep
    simp only [List.mem_cons, List.not_mem_nil, or_false] at hi
    rcases hi with rfl | rfl
    · obtain rfl := Option.some.inj hstep
      exact nomatch haccess
    · obtain rfl := Option.some.inj hstep
      obtain rfl := (Instruction.access.inj haccess).1
      exact absurd hop (by decide)
  · rintro before hbefore
    obtain rfl := Option.some.inj (Option.some.inj hbefore)
    decide

/-- The constructor that may skip the call is accepted, although it returns on a path without. -/
theorem not_constructs_before_return :
    head.name = constructorName ∧ head.thisClass ≠ objectName ∧
      ∃ analysis, skipping.analyze head pool .unknown = .ok analysis ∧
      ∃ entry course, skipping.HasCourse head pool .unknown entry course ∧
      ∃ passed index step, course.Path passed index ∧
        course.scene.steps[index]? = some step ∧ step.instruction = .plain Opcode.returnVoid ∧
        ¬∃ i ∈ passed, ∃ step before, course.scene.steps[i]? = some step ∧
          analysis.frames[i]? = some (some before) ∧
          course.scene.Constructs step before .uninitializedThis := by
  have hcourse : skipping.HasCourse head pool .unknown (frame .uninitializedThis [])
      (course skipping) := ⟨rfl, rfl, rfl, [], rfl, rfl⟩
  have hposition : (course skipping).scene.position ⟨4⟩ = .ok 4 := Scene.position_eq_ok.mpr
    (@Body.getElem?_positions skipping (by decide) 4 ⟨⟨4⟩, .plain Opcode.returnVoid⟩ rfl)
  have hpath : (course skipping).Path [1, 0] 4 :=
    (Course.Path.next .start rfl rfl).jump rfl List.mem_cons_self hposition
  refine ⟨rfl, by decide, _, analyze_skipping, _, _, hcourse, [1, 0], 4, _, hpath, rfl, rfl, ?_⟩
  rintro ⟨i, hi, step, before, hstep, -, hcall⟩
  obtain ⟨index, -, -, -, -, hcalled, -⟩ := hcall.calls
  -- neither the load nor the jump calls anything
  simp only [List.mem_cons, List.not_mem_nil, or_false] at hi
  rcases hi with rfl | rfl
  · obtain rfl := Option.some.inj hstep
    exact nomatch hcalled
  · obtain rfl := Option.some.inj hstep
    exact nomatch hcalled

end Building

end ClassGraft

import ClassGraft.Proofs.Frame.Setting
import ClassGraft.Proofs.Frame.WorkList

/-!
# The frames of a body are consistent

The frames that `Body.analyze` gives are a typing of the whole flow of control: the method starts
with a frame that fits the first one, each instruction with a frame can be executed on it, and what
goes on along an edge fits the frame that is held there.

This needs that no class has an array type as its super class.
-/

namespace ClassGraft

/-- Whether a hierarchy knows nothing, or only of classes that were added one after the other. -/
def Hierarchy.IsBuilt (hierarchy : Hierarchy) : Prop :=
  hierarchy = .unknown ∨
    ∃ entries : List ClassEntry, hierarchy = .classPath (entries.foldl ClassPath.add [])

/-- Whether no class that is known has an array type as its super class. -/
def Hierarchy.HasClassSupers : Hierarchy → Prop
  | .unknown => True
  | .classPath path => ∀ entry ∈ path, ∀ name, entry.super = some name →
      Descriptor.isArray name = false

/-- What a body is analyzed along, in a method that starts with a frame. -/
structure Body.HasCourse (body : Body) (head : MethodHead) (pool : Pool) (hierarchy : Hierarchy)
    (entry : Frame) (course : Course) : Prop where
  starts : head.entryFrame = .ok entry
  scene : course.scene = ⟨pool, hierarchy, head, body.steps.toArray, body.positions⟩
  handlers : body.handlerRanges course.scene = .ok course.handlers
  declared : ∃ frames, body.declaredFramesFrom entry = .ok frames ∧
    course.declared = Body.framesByIndex body.positions frames

/-- Frames that type everything that can be reached: each instruction that has one can be executed
on it, and what goes on from there fits the frame that is held where it goes. -/
structure Course.IsConsistent (course : Course) (entry : Frame) (frames : Array (Option Frame)) :
    Prop where
  entry : ∃ held, frames[0]? = some (some held) ∧ entry.Fits course.scene.hierarchy held
  steps : ∀ index step before, course.scene.steps[index]? = some step →
    frames[index]? = some (some before) → ∃ after, course.scene.execute step before = .ok after ∧
      (∀ mark ∈ step.instruction.targets, ∃ target, course.scene.position mark = .ok target) ∧
      (step.instruction.fallsThrough = true → index + 1 < course.scene.steps.size) ∧
      ∀ target sent, course.Edge index step before after target sent →
        ∃ held, frames[target]? = some (some held) ∧ sent.Fits course.scene.hierarchy held
  declared : ∀ (index : Nat) declared held, course.declared[index]? = some declared →
    frames[index]? = some (some held) → held.stack = declared.stack ∧
      ∀ slot < declared.locals.length, held.localAt slot = declared.localAt slot

theorem Hierarchy.IsBuilt.isProper {hierarchy : Hierarchy} (hb : hierarchy.IsBuilt)
    (hc : hierarchy.HasClassSupers) : hierarchy.IsProper := by
  rcases hb with rfl | ⟨entries, rfl⟩
  · trivial
  · exact ⟨ClassPath.hasUniqueNames_foldl_add entries List.nodup_nil, hc⟩

/-! ### What a settled flow says -/

namespace Flow

variable {R : Frame → Frame → Prop} {course : Course} {flow : Flow}

theorem frameAt?_eq_some {index : Nat} {frame : Frame} :
    flow.frameAt? index = some frame ↔ flow.frames[index]? = some (some frame) := by
  simp [frameAt?, Option.join_eq_some_iff]

/-- A frame fits what accounts for it; where a frame is declared, that one was fitted first. -/
theorem Accounts.fits (hp : course.scene.hierarchy.IsProper) {target : Nat} {sent held : Frame}
    (hd : ∀ declared, course.declared[target]? = some declared → Frame.Declares declared held)
    (h : Accounts (Frame.Below course.scene.hierarchy) course target sent held) :
    sent.Fits course.scene.hierarchy held := by
  unfold Accounts at h
  split at h
  · exact h.fits hp
  · rename_i declared hdecl
    obtain ⟨fitted, hfit, hbelow⟩ := h
    have hdeclares := hd declared hdecl
    have hfits := Frame.fits_of_misfit?_eq_none (Frame.fit_eq_ok.mp hfit).1
    refine ⟨hdeclares.stack ▸ hfits.stack, fun slot => ?_⟩
    by_cases hslot : slot < declared.locals.length
    · rw [hdeclares.locals slot hslot]
      exact hfits.locals slot
    · have hlocal := Frame.localAt_fit hfit slot
      rw [if_neg hslot] at hlocal
      rw [← hlocal]
      exact (hbelow.locals slot).accepts hp

/-- A settled flow in which the first frame arrived is consistent. -/
theorem isConsistent_of_settled (hp : course.scene.hierarchy.IsProper) (hv : Valid course flow)
    {entry : Frame}
    (hentry : flow.HasArrived (Frame.Below course.scene.hierarchy) course 0 entry)
    (hpassed : ∀ index step before, course.scene.steps[index]? = some step →
      flow.frameAt? index = some before →
        flow.IsPassed (Frame.Below course.scene.hierarchy) course index step before) :
    course.IsConsistent entry flow.frames := by
  have hfits : ∀ target sent,
      flow.HasArrived (Frame.Below course.scene.hierarchy) course target sent →
      ∃ held, flow.frames[target]? = some (some held) ∧ sent.Fits course.scene.hierarchy held := by
    intro target sent ⟨held, hheld, ha⟩
    refine ⟨held, frameAt?_eq_some.mp hheld, ha.fits hp fun declared hdecl => ?_⟩
    exact hv.declares target declared held hdecl hheld
  refine ⟨hfits 0 entry hentry, fun index step before hstep hbefore => ?_,
    fun index declared held hdecl hheld => ?_⟩
  · obtain ⟨after, hexecute, htargets, hnext, harrived⟩ :=
      hpassed index step before hstep (frameAt?_eq_some.mpr hbefore)
    exact ⟨after, hexecute, htargets, hnext, fun target sent hedge =>
      hfits target sent (harrived target sent hedge)⟩
  · have hdeclares := hv.declares index declared held hdecl (frameAt?_eq_some.mpr hheld)
    exact ⟨hdeclares.stack, hdeclares.locals⟩

theorem frameAt?_start (size index : Nat) : (start size).frameAt? index = none := by
  simp only [frameAt?, start, Array.getElem?_replicate]
  split_ifs
  · rfl
  · rfl

/-- Nothing holds of the frames of a flow that has none. -/
theorem valid_start : Valid course (start course.scene.steps.size) := by
  refine ⟨Array.size_replicate, fun index h => ?_, fun index declared held _ h => ?_⟩
  · simp only [start, Array.getD_eq_getD_getElem?, Array.getElem?_replicate] at h
    split_ifs at h
    · simp at h
    · simp at h
  · rw [frameAt?_start] at h
    simp at h

/-- What arrived first leaves a flow stable, as the instruction is pending. -/
theorem stable_of_rises_start (hr : Rises R (start course.scene.steps.size) flow) :
    Stable R course flow := by
  intro index step before _ h
  refine .inl (hr.changed index ?_)
  rw [frameAt?_start, h]
  simp

end Flow

theorem Body.HasCourse.isSound {body : Body} {head : MethodHead} {pool : Pool}
    {hierarchy : Hierarchy} {entry : Frame} {course : Course} {R : Frame → Frame → Prop}
    (hr : Frame.IsAscent hierarchy R) (h : body.HasCourse head pool hierarchy entry course) :
    course.IsSound R := by
  have hposition : ∀ mark index, course.scene.position mark = .ok index →
      index < course.scene.steps.size := by
    intro mark index hi
    have hfound := Scene.position_eq_ok.mp hi
    rw [h.scene] at hfound ⊢
    obtain ⟨step, hstep, -⟩ := Body.of_getElem?_positions hfound
    simpa using (List.getElem?_eq_some_iff.mp hstep).1
  refine ⟨h.scene ▸ hr, hposition, fun range hr => ?_, fun index declared hdecl => ?_⟩
  · obtain ⟨handler, -, hrange⟩ := Body.exists_of_mem_handlerRanges h.handlers hr
    exact hposition handler.entry range.entry hrange.entry
  · obtain ⟨frames, hframes, heq⟩ := h.declared
    rw [heq] at hdecl
    obtain ⟨mark, hm, -⟩ := Body.mem_of_getElem?_framesByIndex hdecl
    exact Body.paired_of_expandChanges hframes (mark, declared) hm

/-- What an analysis does: it lets the first frame arrive at the first instruction, and settles the
flow. -/
theorem Body.analyze_eq_ok {body : Body} {head : MethodHead} {pool : Pool} {hierarchy : Hierarchy}
    {analysis : Analysis} : body.analyze head pool hierarchy = .ok analysis ↔
      body.steps ≠ [] ∧ ∃ entry frames handlers first last,
        let scene : Scene := ⟨pool, hierarchy, head, body.steps.toArray, body.positions⟩
        let declared := framesByIndex body.positions frames
        let course : Course := ⟨scene, handlers, declared⟩
        let slots := body.localSlots entry declared.values
        let limit := Flow.slotLimit entry declared.values
        head.entryFrame = .ok entry ∧ body.declaredFramesFrom entry = .ok frames ∧
        body.handlerRanges scene = .ok handlers ∧
        (Flow.start body.steps.length).send course 0 0 entry = .ok first ∧
        first.settle course (Flow.budget scene declared.values limit) = .ok last ∧
        last.height ≤ 65535 ∧ slots ≤ 65535 ∧
        ⟨last.frames, UInt16.ofNat last.height, UInt16.ofNat slots⟩ = analysis := by
  unfold analyze
  simp only [Except.guard_eq_ok, Except.bind_eq_ok, Except.mapError_eq_ok, Except.pure_eq_ok,
    List.isEmpty_iff, Nat.not_lt, exists_and_left, ne_eq]

/-- What a body without handlers and declared frames is analyzed along. -/
def Body.plainCourse (body : Body) (head : MethodHead) (pool : Pool) (hierarchy : Hierarchy) :
    Course :=
  ⟨⟨pool, hierarchy, head, body.steps.toArray, body.positions⟩, [],
    framesByIndex body.positions []⟩

theorem Body.declared_plainCourse (body : Body) (head : MethodHead) (pool : Pool)
    (hierarchy : Hierarchy) (index : Nat) :
    (body.plainCourse head pool hierarchy).declared[index]? = none :=
  Std.HashMap.getElem?_empty

/-- The budget is enough for a visit of each instruction and one more. -/
theorem Flow.le_budget {scene : Scene} {declared : List Frame} {slots visits : Nat}
    (h : visits ≤ scene.steps.size + 1) : visits ≤ budget scene declared slots :=
  Nat.le_trans h (Nat.succ_le_succ (Nat.le_mul_of_pos_right _ (Nat.add_pos_left Nat.one_pos _)))

/-- The analysis of a body without handlers and declared frames, from a run of its flow that takes
no more than a number of visits. -/
theorem Body.analyze_of_settle {body : Body} {head : MethodHead} {pool : Pool}
    {hierarchy : Hierarchy} {entry : Frame} {first last : Flow} {visits : Nat}
    (hd : body.declaredFrames = []) (hh : body.handlers = []) (hne : body.steps ≠ [])
    (hentry : head.entryFrame = .ok entry)
    (hfirst : (Flow.start body.steps.length).send (body.plainCourse head pool hierarchy) 0 0 entry =
      .ok first)
    (hlast : ∀ fuel, first.settle (body.plainCourse head pool hierarchy) (fuel + visits) = .ok last)
    (hvisits : visits ≤ Flow.budget (body.plainCourse head pool hierarchy).scene []
      (Flow.slotLimit entry []))
    (hheight : last.height ≤ 65535) (hslots : body.localSlots entry [] ≤ 65535) :
    body.analyze head pool hierarchy =
      .ok ⟨last.frames, UInt16.ofNat last.height, UInt16.ofNat (body.localSlots entry [])⟩ := by
  have hnone := values_framesByIndex_nil body.positions
  refine analyze_eq_ok.mpr ⟨hne, entry, [], [], first, last, hentry, ?_, ?_, hfirst, ?_, hheight,
    ?_, ?_⟩
  · rw [declaredFramesFrom, hd, expandChanges]
  · rw [handlerRanges, hh]
    rfl
  · rw [hnone]
    obtain ⟨fuel, hfuel⟩ := Nat.exists_eq_add_of_le' hvisits
    exact (congrArg (fun fuel => Flow.settle _ fuel first) hfuel).trans (hlast fuel)
  · rw [hnone]
    exact hslots
  · rw [hnone]

/-- The frames of an analysis are those of a settled flow, in which the first frame arrived. -/
theorem Body.settled_of_analyze {body : Body} {head : MethodHead} {pool : Pool}
    {hierarchy : Hierarchy} {analysis : Analysis} {R : Frame → Frame → Prop}
    (hr : Frame.IsAscent hierarchy R) (h : body.analyze head pool hierarchy = .ok analysis) :
    ∃ entry course flow, body.HasCourse head pool hierarchy entry course ∧
      flow.frames = analysis.frames ∧ Flow.Valid course flow ∧ flow.HasArrived R course 0 entry ∧
      ∀ index step before, course.scene.steps[index]? = some step →
        flow.frameAt? index = some before → flow.IsPassed R course index step before := by
  obtain ⟨hne, entry, frames, handlers, first, last, hentry, hframes, hhandlers, hfirst, hlast,
    -, -, rfl⟩ := analyze_eq_ok.mp h
  have hcourse : body.HasCourse head pool hierarchy entry
      ⟨⟨pool, hierarchy, head, body.steps.toArray, body.positions⟩, handlers,
        framesByIndex body.positions frames⟩ :=
    ⟨hentry, rfl, hhandlers, frames, hframes, rfl⟩
  have hs := hcourse.isSound hr
  rw [← List.size_toArray] at hfirst
  have hpos : 0 < body.steps.toArray.size := by
    rw [List.size_toArray]
    exact List.length_pos_iff.mpr hne
  -- the first frame arrives, and what is above it settles
  obtain ⟨hv₁, hr₁, ha₁⟩ := Flow.send_spec hs Flow.valid_start hpos hfirst
  obtain ⟨hv₂, hg₂, hp₂⟩ := Flow.settle_spec hs hv₁ (Flow.stable_of_rises_start hr₁) hlast
  exact ⟨entry, _, last, hcourse, rfl, hv₂, ha₁.of_grows hs hg₂, hp₂⟩

/-- The frames of an analysis are consistent, whatever code it is of. -/
theorem Body.analyze_isConsistent {body : Body} {head : MethodHead} {pool : Pool}
    {hierarchy : Hierarchy} (hb : hierarchy.IsBuilt) (hc : hierarchy.HasClassSupers)
    {analysis : Analysis} (h : body.analyze head pool hierarchy = .ok analysis) :
    ∃ entry course, body.HasCourse head pool hierarchy entry course ∧
      course.IsConsistent entry analysis.frames := by
  have hp := hb.isProper hc
  obtain ⟨entry, course, flow, hcourse, hframes, hvalid, harrived, hpassed⟩ :=
    settled_of_analyze (Frame.isAscent_below hp) h
  have hscene : course.scene.hierarchy = hierarchy := by rw [hcourse.scene]
  subst hscene
  exact ⟨entry, course, hcourse, hframes ▸ Flow.isConsistent_of_settled hp hvalid harrived hpassed⟩

/-! ### Two classes that meet

A method is entered with objects of two classes.  Its loop copies the second one over the first, so
that they meet at the start of the loop. -/

namespace Meeting

def first : Bytes := Bytes.ofAscii "A"

def second : Bytes := Bytes.ofAscii "B"

/-- Both classes are below a third one. -/
def hierarchy (upper : Bytes) : Hierarchy := .classPath
  ([⟨upper, none, false⟩, ⟨first, some upper, false⟩, ⟨second, some upper, false⟩].foldl
    ClassPath.add [])

def head : MethodHead := ⟨Bytes.ofAscii "C", Bytes.ofAscii "m", Bytes.ofAscii "(LA;LB;)V", true⟩

def body : Body :=
  { Body.new 0 with
    steps := [⟨⟨0⟩, .access Opcode.aload 1⟩, ⟨⟨1⟩, .access Opcode.astore 0⟩,
      ⟨⟨2⟩, .jump Opcode.goto ⟨0⟩⟩] }

def course (upper : Bytes) : Course := body.plainCourse head Pool.empty (hierarchy upper)

/-- A frame with objects of two classes as its locals. -/
def frame (a b : Bytes) (stack : List FrameType) : Frame := ⟨[.object a, .object b], stack⟩

/-- The frames that are found, by what is held of the first local before and within the loop. -/
def frames (a b : Bytes) : Array (Option Frame) :=
  #[some (frame a second []), some (frame b second [.object second]),
    some (frame second second [])]

theorem position_start (upper : Bytes) : (course upper).scene.position ⟨0⟩ = .ok 0 := by
  refine Scene.position_eq_ok.mpr ?_
  exact @Body.getElem?_positions body (by decide) 0 ⟨⟨0⟩, .access Opcode.aload 1⟩ rfl

/-- What the flow settles to, as soon as it is known what the frames are merged to. -/
theorem analyze_eq (upper a b : Bytes)
    (hvisits : 5 ≤ Flow.budget (course upper).scene [] (Flow.slotLimit (frame first second []) []))
    (ha : a ≠ first) (hb : b ≠ first)
    (hjump : Frame.merge (hierarchy upper) (frame first second []) (frame second second []) =
      .ok (frame a second []))
    (hload : Frame.merge (hierarchy upper) (frame first second [.object second])
      (frame a second [.object second]) = .ok (frame b second [.object second]))
    (hstore : Frame.merge (hierarchy upper) (frame second second []) (frame second second []) =
      .ok (frame second second [])) :
    body.analyze head Pool.empty (hierarchy upper) = .ok ⟨frames a b, 1, 2⟩ := by
  have hd := body.declared_plainCourse head Pool.empty (hierarchy upper)
  -- the first round reaches every instruction
  have load₁ : Flow.visit (course upper) 0 ⟨⟨0⟩, .access Opcode.aload 1⟩ (frame first second [])
      ⟨#[some (frame first second []), none, none], [], #[false, false, false], 0⟩ =
      .ok ⟨#[some (frame first second []), some (frame first second [.object second]), none],
        [1], #[false, true, false], 1⟩ :=
    Flow.send_of_unreached (hd 1) rfl
  have store₁ : Flow.visit (course upper) 1 ⟨⟨1⟩, .access Opcode.astore 0⟩
      (frame first second [.object second])
      ⟨#[some (frame first second []), some (frame first second [.object second]), none],
        [], #[false, false, false], 1⟩ =
      .ok ⟨#[some (frame first second []), some (frame first second [.object second]),
        some (frame second second [])], [2], #[false, false, true], 1⟩ :=
    Flow.send_of_unreached (hd 2) rfl
  have jump : Flow.visit (course upper) 2 ⟨⟨2⟩, .jump Opcode.goto ⟨0⟩⟩ (frame second second [])
      ⟨#[some (frame first second []), some (frame first second [.object second]),
        some (frame second second [])], [], #[false, false, false], 1⟩ =
      .ok ⟨#[some (frame a second []), some (frame first second [.object second]),
        some (frame second second [])], [0], #[true, false, false], 1⟩ := by
    refine Flow.visit_eq_ok.mpr ⟨frame second second [], _, _, rfl, rfl, ?_, rfl⟩
    exact Except.bind_eq_ok.mpr ⟨0, Except.mapError_eq_ok.mpr (position_start upper),
      Except.bind_eq_ok.mpr ⟨_, Flow.send_of_change (hd 0) rfl hjump (by simp [frame, ha]), rfl⟩⟩
  -- the second one stops where nothing changes
  have load₂ : Flow.visit (course upper) 0 ⟨⟨0⟩, .access Opcode.aload 1⟩ (frame a second [])
      ⟨#[some (frame a second []), some (frame first second [.object second]),
        some (frame second second [])], [], #[false, false, false], 1⟩ =
      .ok ⟨frames a b, [1], #[false, true, false], 1⟩ :=
    Flow.send_of_change (hd 1) rfl hload (by simp [frame, hb])
  have store₂ : Flow.visit (course upper) 1 ⟨⟨1⟩, .access Opcode.astore 0⟩
      (frame b second [.object second]) ⟨frames a b, [], #[false, false, false], 1⟩ =
      .ok ⟨frames a b, [], #[false, false, false], 1⟩ :=
    Flow.send_of_same (hd 2) rfl hstore
  have hsettle : ∀ fuel, Flow.settle (course upper) (fuel + 5)
      ⟨#[some (frame first second []), none, none], [0], #[true, false, false], 0⟩ =
        .ok ⟨frames a b, [], #[false, false, false], 1⟩ := by
    intro fuel
    refine (Flow.settle_of_visit load₁ rfl rfl (by rfl)).trans ?_
    refine (Flow.settle_of_visit store₁ rfl rfl (by rfl)).trans ?_
    refine (Flow.settle_of_visit jump rfl rfl (by rfl)).trans ?_
    refine (Flow.settle_of_visit load₂ rfl rfl (by rfl)).trans ?_
    refine (Flow.settle_of_visit store₂ rfl rfl (by rfl)).trans ?_
    exact Flow.settle_of_nil (frames a b) #[false, false, false] 1 fuel
  have hsend : (Flow.start 3).send (course upper) 0 0 (frame first second []) =
      .ok ⟨#[some (frame first second []), none, none], [0], #[true, false, false], 0⟩ :=
    Flow.send_of_unreached (hd 0) rfl
  exact Body.analyze_of_settle rfl rfl (by decide) rfl hsend hsettle hvisits (by simp) (by decide)

theorem isBuilt_hierarchy (upper : Bytes) : (hierarchy upper).IsBuilt := .inr ⟨_, rfl⟩

/-- Classes below a class meet in it. -/
theorem analyze_isConsistent_below_class :
    (hierarchy (Bytes.ofAscii "P")).IsBuilt ∧ (hierarchy (Bytes.ofAscii "P")).HasClassSupers ∧
      ∃ analysis,
        body.analyze head Pool.empty (hierarchy (Bytes.ofAscii "P")) = .ok analysis ∧
        ∃ entry course,
          body.HasCourse head Pool.empty (hierarchy (Bytes.ofAscii "P")) entry course ∧
          course.IsConsistent entry analysis.frames := by
  have hb := isBuilt_hierarchy (Bytes.ofAscii "P")
  have hc : (hierarchy (Bytes.ofAscii "P")).HasClassSupers := by
    unfold Hierarchy.HasClassSupers hierarchy
    decide +kernel
  have h := analyze_eq (Bytes.ofAscii "P") (Bytes.ofAscii "P") (Bytes.ofAscii "P")
    (by decide +kernel) (by decide) (by decide) (by decide +kernel) (by decide +kernel)
    (by decide +kernel)
  exact ⟨hb, hc, _, h, Body.analyze_isConsistent hb hc h⟩

/-- Classes below an array type meet in it too, although neither can be used as an array. -/
theorem not_isConsistent_below_array :
    (hierarchy (Bytes.ofAscii "[I")).IsBuilt ∧ ∃ analysis,
      body.analyze head Pool.empty (hierarchy (Bytes.ofAscii "[I")) = .ok analysis ∧
      ¬∃ entry course,
        body.HasCourse head Pool.empty (hierarchy (Bytes.ofAscii "[I")) entry course ∧
        course.IsConsistent entry analysis.frames := by
  have h := analyze_eq (Bytes.ofAscii "[I") (Bytes.ofAscii "[I") objectName
    (by decide +kernel) (by decide) (by decide) (by decide +kernel) (by decide +kernel)
    (by decide +kernel)
  refine ⟨isBuilt_hierarchy _, _, h, ?_⟩
  rintro ⟨entry, course, hcourse, hconsistent⟩
  obtain ⟨held, hheld, hfits⟩ := hconsistent.entry
  obtain rfl : frame (Bytes.ofAscii "[I") second [] = held := by
    simpa [frames] using hheld
  obtain rfl : frame first second [] = entry :=
    Except.ok.inj ((show head.entryFrame = .ok (frame first second []) from rfl).symm.trans
      hcourse.starts)
  have haccepts := hfits.locals 0
  rw [hcourse.scene] at haccepts
  have hnot : (hierarchy (Bytes.ofAscii "[I")).accepts (.object first)
      (.object (Bytes.ofAscii "[I")) = false := by decide +kernel
  exact absurd (hnot.symm.trans haccepts) (by decide)

end Meeting

end ClassGraft

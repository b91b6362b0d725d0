import ClassGraft.Proofs.Frame.Arrivals
import ClassGraft.Proofs.Frame.Guidance
import ClassGraft.Proofs.Frame.Unfolding

/-!
# Frames under other marks

A body may have the instructions and handlers of another one under other marks, with two jumps for
each of which the code has a bypass (`Body.Unfolds`).  Then an instruction does the same
(`Body.Unfolds.ties`), and control goes on in the same way (`Body.Unfolds.exists_edge`).  So
consistent frames of the one are a guide for the other, where that declares them
(`Body.Unfolds.isGuide`), as long as the frames forget nothing where none is declared
(`Course.IsFaithful`).
-/

namespace ClassGraft

/-! ### What forgets nothing -/

/-- The frames that arrive at instructions: the first one, and those that go on along edges from the
frames that are held. -/
inductive Course.Sends (course : Course) (entry : Frame) (frames : Array (Option Frame)) :
    Nat → Frame → Prop
  | entry : Sends course entry frames 0 entry
  | edge {index target : Nat} {step : Step} {before after sent : Frame}
      (hs : course.scene.steps[index]? = some step)
      (hf : frames[index]? = some (some before))
      (hx : course.scene.execute step before = .ok after)
      (he : course.Edge index step before after target sent) :
      Sends course entry frames target sent

/-- Whether frames forget no more than they have to: nothing where no frame is written for an
instruction, after the locals that are written elsewhere only what paths do not agree on, and a
receiver that is not ready nowhere. -/
structure Course.IsFaithful (course : Course) (entry : Frame) (frames : Array (Option Frame))
    (needed : List Nat) : Prop where
  plain : ∀ target sent held, course.Sends entry frames target sent → target ∉ needed →
    frames[target]? = some (some held) → sent.Corresponds Eq Eq held
  unusable : ∀ index held slot, index ∈ needed → frames[index]? = some (some held) →
    (FrameType.trim held.locals).length ≤ slot → course.IsUnsure entry index slot
  ready : ∀ target sent held slot, course.Sends entry frames target sent →
    frames[target]? = some (some held) → sent.localAt slot = .uninitializedThis →
    held.localAt slot = .uninitializedThis

theorem Course.IsConsistent.fits {course : Course} {entry sent : Frame}
    {frames : Array (Option Frame)} {target : Nat} (h : course.IsConsistent entry frames)
    (hs : course.Sends entry frames target sent) :
    ∃ held, frames[target]? = some (some held) ∧ sent.Fits course.scene.hierarchy held := by
  cases hs with
  | entry => exact h.entry
  | edge hstep hframe hexecute hedge =>
    obtain ⟨after, hexecute', -, -, hedges⟩ := h.steps _ _ _ hstep hframe
    obtain rfl := Except.ok.inj (hexecute.symm.trans hexecute')
    exact hedges _ _ hedge

/-! ### Types and frames under other marks -/

/-- Whether an object that a type tells apart is made by one of the marked instructions. -/
def FrameType.IsMadeIn (marks : List Mark) (type : FrameType) : Prop :=
  ∀ mark, type = .uninitialized mark → mark ∈ marks

namespace FrameType

variable {number : Mark → Mark}

theorem rename_of_ne {type : FrameType} (h : ∀ mark, type ≠ .uninitialized mark) :
    type.rename number = type := by
  cases type with
  | uninitialized mark => exact absurd rfl (h mark)
  | _ => rfl

theorem isExpected_rename (expected : Expected) (type : FrameType) :
    Frame.isExpected expected (type.rename number) = Frame.isExpected expected type := by
  cases type with
  | uninitialized mark => cases expected <;> rfl
  | _ => rfl

/-- Types are the same if they are so under other marks that tell all objects apart. -/
theorem eq_of_rename {marks : List Mark} (hs : Mark.Separates number marks)
    {type other : FrameType} (ht : type.IsMadeIn marks) (ho : other.IsMadeIn marks)
    (h : type.rename number = other.rename number) : type = other := by
  cases type with
  | uninitialized mark =>
    cases other with
    | uninitialized mark' => rw [hs mark (ht mark rfl) mark' (ho mark' rfl) (uninitialized.inj h)]
    | _ => nomatch h
  | _ =>
    cases other with
    | uninitialized mark' => nomatch h
    | _ => exact h

/-- Types are of one sort if they are so under other marks that tell the same objects apart. -/
theorem sort_of_rename {type other : FrameType} (hn : ∀ mark, type = .uninitialized mark →
      ∀ mark', other = .uninitialized mark' → number mark = number mark' → mark = mark')
    (h : (type.rename number).sort = (other.rename number).sort) : type.sort = other.sort := by
  cases type with
  | uninitialized mark =>
    cases other with
    | uninitialized mark' => rw [hn mark rfl mark' rfl (FrameType.uninitialized.inj h)]
    | _ => nomatch h
  | _ =>
    cases other with
    | uninitialized mark' => nomatch h
    | _ => exact h

end FrameType

/-- What is accepted is accepted under other marks. -/
theorem Hierarchy.accepts_rename {hierarchy : Hierarchy} {number : Mark → Mark}
    {found wanted : FrameType} (h : hierarchy.accepts found wanted = true) :
    hierarchy.accepts (found.rename number) (wanted.rename number) = true := by
  cases wanted with
  | top => exact rfl
  | uninitialized mark =>
    obtain rfl := eq_of_accepts h rfl
    exact accepts_self _
  | _ =>
    cases found with
    | uninitialized mark => nomatch h
    | _ => exact h

/-- The frame with other marks. -/
def Frame.rename (number : Mark → Mark) (frame : Frame) : Frame :=
  ⟨frame.locals.map (FrameType.rename number), frame.stack.map (FrameType.rename number)⟩

theorem Frame.localAt_rename (number : Mark → Mark) (frame : Frame) (slot : Nat) :
    (frame.rename number).localAt slot = (frame.localAt slot).rename number := by
  unfold localAt rename
  rw [List.getD_eq_getElem?_getD, List.getD_eq_getElem?_getD, List.getElem?_map]
  cases frame.locals[slot]? with
  | none => rfl
  | some type => rfl

theorem Frame.localAt_declared (number : Mark → Mark) (frame : Frame) (slot : Nat) :
    (frame.declared number).localAt slot = (frame.localAt slot).rename number := by
  rw [← Frame.localAt_rename]
  unfold localAt declared rename
  rw [List.getD_eq_getElem?_getD, List.getD_eq_getElem?_getD, List.getElem?_map, List.getElem?_map]
  have htrim := FrameType.getD_trim frame.locals slot
  rw [List.getD_eq_getElem?_getD, List.getD_eq_getElem?_getD] at htrim
  cases hleft : (FrameType.trim frame.locals)[slot]? with
  | none =>
    cases hright : frame.locals[slot]? with
    | none => rfl
    | some type =>
      rw [hleft, hright] at htrim
      obtain rfl : FrameType.top = type := htrim
      rfl
  | some type =>
    cases hright : frame.locals[slot]? with
    | none =>
      rw [hleft, hright] at htrim
      obtain rfl : type = FrameType.top := htrim
      rfl
    | some other =>
      rw [hleft, hright] at htrim
      obtain rfl : type = other := htrim
      rfl

/-- Whether a type is another one under other marks, all of which are given. -/
structure FrameType.IsRenamed (number : Mark → Mark) (marks : List Mark) (type other : FrameType) :
    Prop where
  eq : other = type.rename number
  made : type.IsMadeIn marks

theorem FrameType.isRenamed_of_isInitialized {number : Mark → Mark} {marks : List Mark}
    {type : FrameType} (h : type.isInitialized = true) : type.IsRenamed number marks type := by
  have hne (mark : Mark) : type ≠ .uninitialized mark := by
    rintro rfl
    nomatch h
  exact ⟨(rename_of_ne hne).symm, fun mark hmark => absurd hmark (hne mark)⟩

theorem FrameType.eq_map_rename {number : Mark → Mark} {marks : List Mark}
    {words words' : List FrameType}
    (h : List.Forall₂ (FrameType.IsRenamed number marks) words words') :
    words' = words.map (FrameType.rename number) := by
  induction h with
  | nil => rfl
  | cons hword _ ih => rw [List.map_cons, hword.eq, ih]

/-- What an instruction made is of the class that the instruction names. -/
theorem Scene.constructed_uninitialized_eq_ok {scene : Scene} {mark : Mark} {name : Bytes} :
    scene.constructed (.uninitialized mark) = .ok name ↔ ∃ index made,
      scene.position mark = .ok index ∧
      (scene.steps[index]?).map Step.instruction = some (.classOp Opcode.newObject made) ∧
      scene.pool.requireClass made = .ok name := by
  constructor
  · intro h
    obtain ⟨index, hindex, h⟩ := Except.bind_eq_ok.mp h
    split at h
    · rename_i made hmade
      exact ⟨index, made, hindex, hmade, h⟩
    · nomatch h
  · rintro ⟨index, made, hindex, hmade, hname⟩
    refine Except.bind_eq_ok.mpr ⟨index, hindex, ?_⟩
    rw [hmade]
    exact hname

/-- The objects in the frames that an analysis finds are made by instructions of the body. -/
theorem Body.made_of_analyze {body : Body} {head : MethodHead} {pool : Pool}
    {hierarchy : Hierarchy} {analysis : Analysis}
    (h : body.analyze head pool hierarchy = .ok analysis) (index : Nat) (frame : Frame)
    (hf : analysis.frames[index]? = some (some frame)) :
    frame.Holds (FrameType.IsMadeIn (body.steps.map (·.mark))) := by
  obtain ⟨-, entry, rows, handlers, first, last, hentry, -, -, hfirst, hlast, -, -, rfl⟩ :=
    Body.analyze_eq_ok.mp h
  have hready (type : FrameType) (ht : type.isInitialized = true) (mark : Mark) :
      type = .uninitialized mark → mark ∈ body.steps.map (·.mark) := by
    rintro rfl
    cases ht
  have hkept := @Flow.isKept_holds ⟨⟨pool, hierarchy, head, body.steps.toArray, body.positions⟩,
    handlers, framesByIndex body.positions rows⟩ _ hready
  refine Flow.kept_settle hkept (fun frames index step before after target sent hp hs hbefore hx
    hedge => ?_) (Flow.kept_send hkept (fun index held hheld => ?_) ?_ hfirst) hlast index frame hf
  · have hb := hp index before hbefore
    have hmem : step ∈ body.steps := List.mem_of_getElem? ((List.getElem?_toArray ..).symm.trans hs)
    have hafter := Frame.holds_of_changes hready hb (fun _ _ mark he =>
      FrameType.uninitialized.inj he ▸ List.mem_map_of_mem hmem) (Scene.changes_of_execute hx)
    have hcaught (name : Bytes) : ∀ type ∈ [FrameType.object name], ∀ mark,
        type = .uninitialized mark → mark ∈ body.steps.map (·.mark) := by
      rintro type ht mark rfl
      cases List.mem_singleton.mp ht
    cases hedge with
    | jump => exact hafter
    | next => exact hafter
    | thrownBefore => exact ⟨hb.locals, hcaught _⟩
    | thrownAfter => exact ⟨hafter.locals, hcaught _⟩
  · rw [Flow.start, Array.getElem?_replicate] at hheld
    split_ifs at hheld
    cases hheld
  · refine ⟨fun type ht mark he => absurd he (MethodHead.ne_uninitialized hentry ht mark), ?_⟩
    rw [MethodHead.stack_entryFrame hentry]
    exact fun type ht => absurd ht List.not_mem_nil

/-- Whether a frame is another one under other marks, all of which are given. -/
def Frame.IsRenamed (number : Mark → Mark) (marks : List Mark) (frame other : Frame) : Prop :=
  frame.Corresponds (FrameType.IsRenamed number marks) (FrameType.IsRenamed number marks) other

namespace Frame.IsRenamed

variable {number : Mark → Mark} {marks : List Mark} {frame other : Frame}

theorem stack_eq (h : frame.IsRenamed number marks other) :
    other.stack = frame.stack.map (FrameType.rename number) :=
  FrameType.eq_map_rename h.stack

theorem localAt_eq (h : frame.IsRenamed number marks other) (slot : Nat) :
    other.localAt slot = (frame.localAt slot).rename number :=
  (h.locals slot).eq

/-- What is caught is the same under other marks. -/
theorem catching (h : frame.IsRenamed number marks other) (name : Bytes) :
    (Frame.catching frame.locals name).IsRenamed number marks (.catching other.locals name) :=
  ⟨.cons (FrameType.isRenamed_of_isInitialized rfl) .nil, h.locals⟩

/-- A frame all of whose marks are given is renamed. -/
theorem rename (h : frame.IsRenamed number marks other) :
    frame.IsRenamed number marks (frame.rename number) := by
  refine ⟨?_, fun slot => ⟨Frame.localAt_rename number frame slot, (h.locals slot).made⟩⟩
  refine List.forall₂_map_right_iff.mpr (List.forall₂_same.mpr fun type htype => ⟨rfl, ?_⟩)
  obtain ⟨other, -, hrenamed⟩ := exists_of_mem_left h.stack htype
  exact hrenamed.made

/-- What holds no objects but those that instructions make is the same under other marks. -/
theorem of_holds (h : frame.Holds (FrameType.IsMadeIn marks)) :
    frame.IsRenamed number marks (frame.rename number) := by
  refine ⟨?_, fun slot => ⟨Frame.localAt_rename number frame slot, fun mark hmark => ?_⟩⟩
  · refine List.forall₂_map_right_iff.mpr (List.forall₂_same.mpr fun type htype => ?_)
    exact ⟨rfl, h.stack type htype⟩
  · rw [Frame.localAt, List.getD_eq_getElem?_getD] at hmark
    cases hslot : frame.locals[slot]? with
    | none =>
      rw [hslot] at hmark
      cases hmark
    | some type =>
      rw [hslot] at hmark
      exact h.locals type (List.mem_of_getElem? hslot) mark hmark

/-- The frame that a method starts with is the same under other marks. -/
theorem of_entryFrame {head : MethodHead} (h : head.entryFrame = .ok frame) :
    frame.IsRenamed number marks frame := by
  refine ⟨?_, fun slot => ?_⟩
  · rw [MethodHead.stack_entryFrame h]
    exact .nil
  · have hne (mark : Mark) : frame.localAt slot ≠ .uninitialized mark := by
      intro he
      have hslot := FrameType.getElem?_eq_some_of_getD he nofun
      exact MethodHead.ne_uninitialized h (List.mem_of_getElem? hslot) mark rfl
    exact ⟨(FrameType.rename_of_ne hne).symm, fun mark he => absurd he (hne mark)⟩

end Frame.IsRenamed

theorem Body.isRenamed_made {number : Mark → Mark} {body : Body} {step : Step}
    (hs : step ∈ body.steps) :
    FrameType.IsRenamed number (body.steps.map (·.mark)) (.uninitialized step.mark)
      (.uninitialized (number step.mark)) := by
  refine ⟨rfl, fun mark he => ?_⟩
  obtain rfl := FrameType.uninitialized.inj he
  exact List.mem_map_of_mem hs

/-! ### The course -/

/-- The range with the places of its instructions. -/
def HandlerRange.moved (place : Nat → Nat) (range : HandlerRange) : HandlerRange :=
  ⟨place range.start, place range.stop, place range.entry, range.caught⟩

namespace Body.Unfolds

section

variable {number : Mark → Mark} {place : Nat → Nat} {landings : List Mark} {body again : Body}

/-- The handlers have the same ranges. -/
theorem handlerRanges (h : body.Unfolds number place landings again) {ranges : List HandlerRange}
    {scene scene' : Scene} (hp : scene.positions = body.positions)
    (hp' : scene'.positions = again.positions) (hs : scene.steps.size = body.steps.length)
    (hs' : scene'.steps.size = again.steps.length) (hpool : scene'.pool = scene.pool)
    (hr : body.handlerRanges scene = .ok ranges) :
    again.handlerRanges scene' = .ok (ranges.map (HandlerRange.moved place)) := by
  rw [Body.handlerRanges_eq_ok] at hr ⊢
  have hposition {mark : Mark} {index : Nat} (hm : mark ∈ body.steps.map (·.mark))
      (hi : scene.position mark = .ok index) : scene'.position (number mark) = .ok (place index) := by
    rw [Scene.position_eq_ok, hp] at hi
    rw [Scene.position_eq_ok, hp', h.positions hm, hi]
    rfl
  rw [h.handlers, List.forall₂_map_left_iff, List.forall₂_map_right_iff]
  refine List.forall₂_iff_zip.mpr ⟨hr.length_eq, fun {handler range} hmem => ?_⟩
  have hmarks := h.references handler (List.of_mem_zip hmem).1
  obtain ⟨hstart, hstop, hentry, hcaught⟩ := (List.forall₂_iff_zip.mp hr).2 hmem
  refine ⟨hposition (hmarks _ List.mem_cons_self) hstart, ?_,
    hposition (hmarks _ (List.mem_cons_of_mem _ List.mem_cons_self)) hentry, ?_⟩
  · obtain ⟨start, stop, entry, catchType⟩ := handler
    cases stop with
    | finish =>
      have hstop : range.stop = body.steps.length := hstop.trans hs
      show place range.stop = scene'.steps.size
      rw [hs', ← h.steps.last, hstop]
    | «at» mark =>
      exact hposition (hmarks _ (List.mem_cons_of_mem _ (List.mem_cons_of_mem _
        List.mem_cons_self))) hstop
  · rw [Handler.renumber, hpool]
    exact hcaught

end

section

variable {number : Mark → Mark} {place : Nat → Nat} {landings : List Mark} {body again : Body}
  {head : MethodHead} {pool : Pool} {hierarchy : Hierarchy} {entry : Frame} {first second : Course}
  {frames : Array (Option Frame)} {needed : List Nat}
  (h : body.Unfolds number place landings again)
  (h₁ : body.HasCourse head pool hierarchy entry first)
  (h₂ : again.HasCourse head pool hierarchy entry second)

include h h₁ h₂

theorem position_eq_ok {mark : Mark} {k : Nat} (hm : mark ∈ body.steps.map (·.mark)) :
    second.scene.position (number mark) = .ok k ↔
      ∃ index, first.scene.position mark = .ok index ∧ place index = k := by
  rw [Scene.position_eq_ok, h₂.scene]
  simp only [Scene.position_eq_ok, h₁.scene]
  rw [h.positions hm]
  exact Option.map_eq_some_iff

theorem position_of_position {mark : Mark} {index : Nat} (hm : mark ∈ body.steps.map (·.mark))
    (hi : first.scene.position mark = .ok index) :
    second.scene.position (number mark) = .ok (place index) :=
  (h.position_eq_ok h₁ h₂ hm).mpr ⟨index, hi, rfl⟩

/-- The instruction that follows stands at the next place. -/
theorem position_next {index : Nat} {next : Step} (hn : body.steps[index]? = some next) :
    second.scene.position (number next.mark) = .ok (place index) := by
  refine h.position_of_position h₁ h₂ (List.mem_map_of_mem (List.mem_of_getElem? hn)) ?_
  rw [Scene.position_eq_ok, h₁.scene]
  exact getElem?_positions h.steps.distinct hn

theorem handlers_eq : second.handlers = first.handlers.map (HandlerRange.moved place) := by
  have hsame := @handlerRanges _ _ _ _ _ h first.handlers first.scene second.scene
    (by rw [h₁.scene]) (by rw [h₂.scene]) (by rw [h₁.scene, List.size_toArray])
    (by rw [h₂.scene, List.size_toArray]) (by rw [h₁.scene, h₂.scene]) h₁.handlers
  exact Except.ok.inj (h₂.handlers.symm.trans hsame)

omit h h₂ in
theorem range_le {range : HandlerRange} (hr : range ∈ first.handlers) :
    range.start ≤ body.steps.length ∧ range.stop ≤ body.steps.length := by
  obtain ⟨handler, -, hstart, hstop, -⟩ :=
    exists_of_mem_right (Body.handlerRanges_eq_ok.mp h₁.handlers) hr
  have hposition {mark : Mark} {index : Nat} (hi : first.scene.position mark = .ok index) :
      index ≤ body.steps.length := by
    rw [Scene.position_eq_ok, h₁.scene] at hi
    exact Nat.le_of_lt (lt_of_getElem?_positions hi)
  refine ⟨hposition hstart, ?_⟩
  obtain ⟨start, stop, entry, catchType⟩ := handler
  cases stop with
  | finish =>
    have hstop : range.stop = first.scene.steps.size := hstop
    rw [hstop, h₁.scene, List.size_toArray]
  | «at» mark => exact hposition hstop

/-- A handler covers a place if it covers the instruction there. -/
theorem exists_range {index k : Nat} (hi : index < body.steps.length)
    (hk : k = place index ∨ k = place index + 1 ∧ place (index + 1) = place index + 2)
    {range' : HandlerRange} (hr : range' ∈ second.handlers)
    (hin : range'.start ≤ k ∧ k < range'.stop) : ∃ range ∈ first.handlers,
      (range.start ≤ index ∧ index < range.stop) ∧ range' = range.moved place := by
  rw [h.handlers_eq h₁ h₂] at hr
  obtain ⟨range, hrange, rfl⟩ := List.mem_map.mp hr
  obtain ⟨hstart, hstop⟩ := range_le h₁ hrange
  refine ⟨range, hrange, ?_, rfl⟩
  rcases hk with rfl | ⟨rfl, hp⟩
  · exact (h.steps.contains_place hstart hstop (Nat.le_of_lt hi)).mp hin
  · exact (h.steps.contains_place_succ hstart hstop hi hp).mp hin

/-- An instruction makes an object only where it is the same under other marks. -/
theorem constructed {type : FrameType} {name : Bytes}
    (hmade : ∀ mark, type = .uninitialized mark → mark ∈ body.steps.map (·.mark))
    (hname : first.scene.constructed type = .ok name) :
    second.scene.constructed (type.rename number) = .ok name := by
  cases type with
  | uninitializedThis =>
    have hhead : second.scene.head = first.scene.head := by rw [h₁.scene, h₂.scene]
    exact (congrArg (fun head : MethodHead => Except.ok head.thisClass) hhead).trans hname
  | uninitialized mark =>
    obtain ⟨index, made, hindex, hstep, hname⟩ := Scene.constructed_uninitialized_eq_ok.mp hname
    obtain ⟨step, hstep, hinstruction⟩ := Option.map_eq_some_iff.mp hstep
    rw [h₁.getElem?_steps] at hstep
    refine Scene.constructed_uninitialized_eq_ok.mpr
      ⟨place index, made, h.position_of_position h₁ h₂ (hmade mark rfl) hindex, ?_, ?_⟩
    · rw [h₂.getElem?_steps]
      cases h.steps.unfolded index step hstep with
      | same hsame =>
        rw [hsame, Option.map_some, Step.renumber, hinstruction]
        rfl
      | bypass hjump =>
        rw [hjump] at hinstruction
        cases hinstruction
    · have hpool : second.scene.pool = first.scene.pool := by rw [h₁.scene, h₂.scene]
      rw [hpool]
      exact hname
  | _ => cases hname

/-- Instructions do the same under other marks. -/
theorem ties : first.scene.Ties True (FrameType.IsRenamed number (body.steps.map (·.mark)))
    (FrameType.IsRenamed number (body.steps.map (·.mark))) second.scene where
  pool := by rw [h₁.scene, h₂.scene]
  head := by rw [h₁.scene, h₂.scene]
  value := FrameType.isRenamed_of_isInitialized
  store := id
  load := by
    rintro a b expected hq ha
    refine ⟨hq, ?_⟩
    rw [hq.eq, FrameType.isExpected_rename]
    exact ha
  wide := by
    rintro a b hq hb
    rw [hq.eq, FrameType.isWide_rename] at hb
    exact .inl hb
  unready := by
    rintro - a hq
    cases a with
    | uninitializedThis => rfl
    | _ => nomatch hq.eq
  element := by
    rintro a b type ⟨rfl, -⟩ ha
    have ht := Frame.isInitialized_elementOf ha
    refine Except.keeps_of_eq ?_ (FrameType.isRenamed_of_isInitialized ht)
    cases a with
    | uninitialized mark => nomatch ha
    | _ => exact ha
  construct := by
    rintro a b name ⟨rfl, hmade⟩ hname
    refine Except.keeps_of_eq (h.constructed h₁ h₂ hmade hname) ?_
    have hsame : ∀ c d, FrameType.IsRenamed number (body.steps.map (·.mark)) c d →
        FrameType.IsRenamed number (body.steps.map (·.mark)) (if c = a then .object name else c)
          (if d = a.rename number then .object name else d) := by
      rintro c d ⟨rfl, hc⟩
      -- types are equal under other marks only if they were so before
      have hiff : c.rename number = a.rename number ↔ c = a :=
        ⟨FrameType.eq_of_rename h.separates hc hmade, fun he => he ▸ rfl⟩
      rw [if_congr hiff rfl rfl]
      split_ifs
      · exact FrameType.isRenamed_of_isInitialized rfl
      · exact ⟨rfl, hc⟩
    exact ⟨hsame, hsame⟩

/-! ### Edges -/

/-- Where control goes on from an instruction under other marks, it does so from the instruction. -/
theorem edge_of_same {index k : Nat} {step : Step} (hs : body.steps[index]? = some step)
    (hp : place (index + 1) = place index + 1) {before before' after after' sent' : Frame}
    (hb : before.IsRenamed number (body.steps.map (·.mark)) before')
    (ha : after.IsRenamed number (body.steps.map (·.mark)) after')
    (he : second.Edge (place index) (step.renumber number) before' after' k sent') :
    ∃ target sent, first.Edge index step before after target sent ∧ k = place target ∧
      sent.IsRenamed number (body.steps.map (·.mark)) sent' := by
  have hlt := (List.getElem?_eq_some_iff.mp hs).1
  cases he with
  | jump hm ht =>
    rw [Step.renumber, Instruction.targets_mapTargets] at hm
    obtain ⟨mark, hmark, rfl⟩ := List.mem_map.mp hm
    have hmem := h.steps.targets step (List.mem_of_getElem? hs) mark hmark
    obtain ⟨target, htarget, rfl⟩ := (h.position_eq_ok h₁ h₂ hmem).mp ht
    exact ⟨target, after, .jump hmark htarget, rfl, ha⟩
  | next hf =>
    rw [Step.renumber, Instruction.fallsThrough_mapTargets] at hf
    exact ⟨index + 1, after, .next hf, hp.symm, ha⟩
  | thrownBefore hr hi =>
    obtain ⟨range, hrange, hcovers, rfl⟩ := h.exists_range h₁ h₂ hlt (.inl rfl) hr hi
    exact ⟨range.entry, _, .thrownBefore hrange hcovers, rfl, hb.catching _⟩
  | thrownAfter hr hi =>
    obtain ⟨range, hrange, hcovers, rfl⟩ := h.exists_range h₁ h₂ hlt (.inl rfl) hr hi
    exact ⟨range.entry, _, .thrownAfter hrange hcovers, rfl, ha.catching _⟩

/-- From the jump on the opposite condition control goes on to the second jump, or where it goes on
from the jump. -/
theorem edge_of_first {index k : Nat} {step next : Step} {op inverse : Opcode} {target mark : Mark}
    (hs : body.steps[index]? = some step) (hjump : step.instruction = .jump op target)
    (hi : op.inverse? = some inverse) (hn : body.steps[index + 1]? = some next)
    {before before' after after' sent' : Frame}
    (hb : before.IsRenamed number (body.steps.map (·.mark)) before')
    (ha : after.IsRenamed number (body.steps.map (·.mark)) after')
    (he : second.Edge (place index) ⟨mark, .jump inverse (number next.mark)⟩ before' after' k
      sent') :
    k = place index + 1 ∧ sent' = after' ∨
      ∃ target sent, first.Edge index step before after target sent ∧ k = place target ∧
        sent.IsRenamed number (body.steps.map (·.mark)) sent' := by
  have hlt := (List.getElem?_eq_some_iff.mp hs).1
  cases he with
  | jump hm ht =>
    obtain rfl := List.mem_singleton.mp hm
    obtain rfl := Except.ok.inj ((h.position_next h₁ h₂ hn).symm.trans ht)
    refine .inr ⟨index + 1, after, .next ?_, rfl, ha⟩
    rw [hjump]
    exact fallsThrough_of_inverse? hi target
  | next => exact .inl ⟨rfl, rfl⟩
  | thrownBefore hr hin =>
    obtain ⟨range, hrange, hcovers, rfl⟩ := h.exists_range h₁ h₂ hlt (.inl rfl) hr hin
    exact .inr ⟨range.entry, _, .thrownBefore hrange hcovers, rfl, hb.catching _⟩
  | thrownAfter hr hin =>
    obtain ⟨range, hrange, hcovers, rfl⟩ := h.exists_range h₁ h₂ hlt (.inl rfl) hr hin
    exact .inr ⟨range.entry, _, .thrownAfter hrange hcovers, rfl, ha.catching _⟩

/-- From the second jump control goes on where it goes on from the jump. -/
theorem edge_of_second {index k : Nat} {step : Step} {op : Opcode} {target mark : Mark}
    (hs : body.steps[index]? = some step) (hjump : step.instruction = .jump op target)
    (hp : place (index + 1) = place index + 2) {before after after' sent' : Frame}
    (ha : after.IsRenamed number (body.steps.map (·.mark)) after')
    (he : second.Edge (place index + 1) ⟨mark, .jump Opcode.goto (number target)⟩ after' after' k
      sent') : ∃ target sent, first.Edge index step before after target sent ∧ k = place target ∧
        sent.IsRenamed number (body.steps.map (·.mark)) sent' := by
  have hlt := (List.getElem?_eq_some_iff.mp hs).1
  have hmark : target ∈ step.instruction.targets := by
    rw [hjump]
    exact List.mem_singleton.mpr rfl
  cases he with
  | jump hm ht =>
    obtain rfl := List.mem_singleton.mp hm
    have hmem := h.steps.targets step (List.mem_of_getElem? hs) target hmark
    obtain ⟨index', htarget, rfl⟩ := (h.position_eq_ok h₁ h₂ hmem).mp ht
    exact ⟨index', after, .jump hmark htarget, rfl, ha⟩
  | next hf => cases hf
  | thrownBefore hr hin =>
    obtain ⟨range, hrange, hcovers, rfl⟩ := h.exists_range h₁ h₂ hlt (.inr ⟨rfl, hp⟩) hr hin
    exact ⟨range.entry, _, .thrownAfter hrange hcovers, rfl, ha.catching _⟩
  | thrownAfter hr hin =>
    obtain ⟨range, hrange, hcovers, rfl⟩ := h.exists_range h₁ h₂ hlt (.inr ⟨rfl, hp⟩) hr hin
    exact ⟨range.entry, _, .thrownAfter hrange hcovers, rfl, ha.catching _⟩

omit h h₁ h₂

/-! ### The guide -/

/-- The frames under other marks at the places of their instructions, and between the two jumps of a
bypass the frame that the jump leaves. -/
inductive Guide (number : Mark → Mark) (place : Nat → Nat) (first : Course)
    (frames : Array (Option Frame)) : Nat → Frame → Prop
  | at {index : Nat} {held : Frame} (hi : index < first.scene.steps.size)
      (hf : frames[index]? = some (some held)) :
      Guide number place first frames (place index) (held.rename number)
  | between {index : Nat} {step : Step} {before after : Frame}
      (hp : place (index + 1) = place index + 2) (hs : first.scene.steps[index]? = some step)
      (hf : frames[index]? = some (some before))
      (hx : first.scene.execute step before = .ok after) :
      Guide number place first frames (place index + 1) (after.rename number)

/-- Whether a body declares the frames that are held where one is needed, under other marks, and no
others. -/
structure Declares (number : Mark → Mark) (place : Nat → Nat) (frames : Array (Option Frame))
    (needed : List Nat) (second : Course) : Prop where
  held : ∀ (index : Nat) frame, frames[index]? = some (some frame) →
    second.declared[place index]? =
      if index ∈ needed then some (frame.declared number) else none
  between : ∀ index : Nat, place (index + 1) = place index + 2 →
    index < frames.size → second.declared[place index + 1]? = none

include h h₁

/-- Each instruction has at most one frame. -/
theorem unique_guide {k : Nat} {held other : Frame} (hheld : Guide number place first frames k held)
    (hother : Guide number place first frames k other) : held = other := by
  have hlt {i : Nat} {step : Step} (hs : first.scene.steps[i]? = some step) :
      i < body.steps.length :=
    (List.getElem?_eq_some_iff.mp ((h₁.getElem?_steps i).symm.trans hs)).1
  have hle {i : Nat} (hi : i < first.scene.steps.size) : i ≤ body.steps.length := by
    rw [h₁.scene, List.size_toArray] at hi
    exact Nat.le_of_lt hi
  cases hheld with
  | @«at» i held hi hf =>
    generalize hk : place i = k at hother
    cases hother with
    | «at» hi' hf' =>
      obtain rfl := (h.steps.place_inj (hle hi) (hle hi')).mp hk
      rw [Option.some.inj (Option.some.inj (hf.symm.trans hf'))]
    | between hp hs => exact absurd hk (h.steps.place_ne (hlt hs) hp (hle hi))
  | @between i step before after hp hs hf hx =>
    generalize hk : place i + 1 = k at hother
    cases hother with
    | «at» hi' => exact absurd hk.symm (h.steps.place_ne (hlt hs) hp (hle hi'))
    | between _ hs' hf' hx' =>
      obtain rfl := (h.steps.place_inj (Nat.le_of_lt (hlt hs)) (Nat.le_of_lt (hlt hs'))).mp
        (Nat.succ.inj hk)
      obtain rfl := Option.some.inj (hs.symm.trans hs')
      obtain rfl := Option.some.inj (Option.some.inj (hf.symm.trans hf'))
      rw [Except.ok.inj (hx.symm.trans hx')]

omit h

variable (hc : first.IsConsistent entry frames) (hf : first.IsFaithful entry frames needed)
  (hd : Declares number place frames needed second)

include hc hf hd

/-- What arrives at a frame that forgets nothing leads to that frame under other marks. -/
theorem leads (hh : second.scene.hierarchy = first.scene.hierarchy)
    (hsize : frames.size = body.steps.length) {target : Nat} {sent sent' : Frame}
    {marks : List Mark} (hs : first.Sends entry frames target sent)
    (hr : sent.IsRenamed number marks sent') :
    ∃ held, Guide number place first frames (place target) held ∧
      second.Leads (place target) sent' held := by
  obtain ⟨held, hheld, hfits⟩ := hc.fits hs
  have hlt : target < first.scene.steps.size := by
    rw [h₁.scene, List.size_toArray, ← hsize]
    exact (Array.getElem?_eq_some_iff.mp hheld).1
  refine ⟨held.rename number, .at hlt hheld, ?_⟩
  unfold Course.Leads
  rw [hd.held target held hheld]
  split_ifs with hneeded
  · refine ⟨rfl, fun slot => ?_, ⟨?_, fun slot => ?_⟩, fun slot hthis => ?_⟩
    · rw [Frame.localAt_rename, Frame.localAt_declared]
    · rw [hh, hr.stack_eq]
      refine List.forall₂_map_left_iff.mpr (List.forall₂_map_right_iff.mpr ?_)
      exact hfits.stack.imp fun _ _ => Hierarchy.accepts_rename
    · rw [hh, Frame.localAt_declared, hr.localAt_eq]
      exact Hierarchy.accepts_rename (hfits.locals slot)
    · have hsent : sent.localAt slot = .uninitializedThis := by
        have heq := hr.localAt_eq slot
        rw [hthis] at heq
        cases hslot : sent.localAt slot with
        | uninitializedThis => rfl
        | _ =>
          rw [hslot] at heq
          nomatch heq
      rw [Frame.localAt_declared, hf.ready target sent held slot hs hheld hsent]
      rfl
  · have hplain := hf.plain target sent held hs hneeded hheld
    have hwords : sent.stack = held.stack := List.forall₂_eq_eq_eq ▸ hplain.stack
    refine ⟨?_, fun slot => ?_⟩
    · rw [hr.stack_eq, hwords]
      rfl
    · rw [Frame.localAt_rename, ← hplain.locals slot, hr.localAt_eq]

omit hc hf hd

include h h₂

theorem scene_size : second.scene.steps.size = place first.scene.steps.size := by
  rw [h₁.scene, h₂.scene, List.size_toArray, List.size_toArray, h.steps.last]

omit h in
theorem hierarchy_eq : second.scene.hierarchy = first.scene.hierarchy := by
  rw [h₁.scene, h₂.scene]

include hc hf hd

section

variable (hsize : frames.size = body.steps.length) {index : Nat} {step : Step}
  {before before' after after' : Frame} (hstep : body.steps[index]? = some step)
  (hbefore : frames[index]? = some (some before))
  (hb : before.IsRenamed number (body.steps.map (·.mark)) before')

include hsize hstep hbefore hb

/-- An instruction leads on under other marks. -/
theorem leadsOn_of_same (hp : place (index + 1) = place index + 1) :
    second.LeadsOn (Guide number place first frames) (place index) (step.renumber number)
      before' := by
  rw [← h₁.getElem?_steps] at hstep
  obtain ⟨after, hexecute, htargets, hnext, -⟩ := hc.steps index step before hstep hbefore
  rw [h₁.getElem?_steps] at hstep
  have hmem := List.mem_of_getElem? hstep
  have hkept := (h.ties h₁ h₂).execute (isRenamed_made hmem) hb hexecute
  obtain ⟨after', hexecute'⟩ := hkept.succeeds trivial
  have ha := hkept.holds after' hexecute'
  refine ⟨after', (Scene.Ties.execute_mapTargets _ ⟨number step.mark, _⟩ number _).trans hexecute',
    fun mark' hmark' => ?_, fun hfalls => ?_, fun k sent' hedge => ?_⟩
  · rw [Step.renumber, Instruction.targets_mapTargets] at hmark'
    obtain ⟨mark, hmark, rfl⟩ := List.mem_map.mp hmark'
    obtain ⟨target, htarget⟩ := htargets mark hmark
    exact ⟨_, h.position_of_position h₁ h₂ (h.steps.targets step hmem mark hmark) htarget⟩
  · rw [Step.renumber, Instruction.fallsThrough_mapTargets] at hfalls
    rw [h.scene_size h₁ h₂, ← hp]
    have hlt := hnext hfalls
    rw [h₁.scene, List.size_toArray] at hlt ⊢
    exact h.steps.place_lt hlt (Nat.le_refl _)
  · obtain ⟨target, sent, hgoes, rfl, hsent⟩ := h.edge_of_same h₁ h₂ hstep hp hb ha hedge
    exact leads h₁ hc hf hd (hierarchy_eq h₁ h₂) hsize
      (.edge ((h₁.getElem?_steps index).trans hstep) hbefore hexecute hgoes) hsent

variable {op inverse : Opcode} {target extra : Mark} {next : Step}
  (hjump : step.instruction = .jump op target) (hinverse : op.inverse? = some inverse)
  (hp : place (index + 1) = place index + 2)

include hjump hp

include hinverse in
/-- The jump on the opposite condition leads on, to the frame that the jump leaves. -/
theorem leadsOn_of_first (hn : body.steps[index + 1]? = some next)
    (hgoto : again.steps[place index + 1]? = some ⟨extra, .jump Opcode.goto (number target)⟩) :
    second.LeadsOn (Guide number place first frames) (place index)
      ⟨number step.mark, .jump inverse (number next.mark)⟩ before' := by
  have hstep' := (h₁.getElem?_steps index).trans hstep
  obtain ⟨after, hexecute, -⟩ := hc.steps index step before hstep' hbefore
  obtain ⟨after', hjumps, ha⟩ := Scene.Ties.jump hb ((Scene.execute_of_jump hjump _).symm.trans hexecute)
  have ha : after.IsRenamed number (body.steps.map (·.mark)) after' := ha
  refine ⟨after', (Scene.jump_of_inverse? hinverse).mpr hjumps, fun mark hmark => ?_, fun _ => ?_,
    fun k sent' hedge => ?_⟩
  · obtain rfl := List.mem_singleton.mp hmark
    exact ⟨_, h.position_next h₁ h₂ hn⟩
  · rw [h₂.scene, List.size_toArray]
    exact (List.getElem?_eq_some_iff.mp hgoto).1
  · rcases h.edge_of_first h₁ h₂ hstep hjump hinverse hn hb ha hedge with
      ⟨rfl, rfl⟩ | ⟨target', sent, hfirst, rfl, hsent⟩
    · refine ⟨after.rename number, .between hp hstep' hbefore hexecute, ?_⟩
      unfold Course.Leads
      rw [hd.between index hp (Array.getElem?_eq_some_iff.mp hbefore).1]
      refine ⟨ha.stack_eq, fun slot => ?_⟩
      rw [ha.localAt_eq, Frame.localAt_rename]
    · exact leads h₁ hc hf hd (hierarchy_eq h₁ h₂) hsize (.edge hstep' hbefore hexecute hfirst)
        hsent

/-- The second jump leads on. -/
theorem leadsOn_of_second (hexecute : first.scene.execute step before = .ok after) :
    second.LeadsOn (Guide number place first frames) (place index + 1)
      ⟨extra, .jump Opcode.goto (number target)⟩ (after.rename number) := by
  have hstep' := (h₁.getElem?_steps index).trans hstep
  obtain ⟨after₀, hexecute₀, htargets, -⟩ := hc.steps index step before hstep' hbefore
  obtain rfl := Except.ok.inj (hexecute.symm.trans hexecute₀)
  have hmark : target ∈ step.instruction.targets := by
    rw [hjump]
    exact List.mem_singleton.mpr rfl
  obtain ⟨after', -, ha⟩ := Scene.Ties.jump hb ((Scene.execute_of_jump hjump _).symm.trans hexecute)
  have ha : after.IsRenamed number (body.steps.map (·.mark)) (after.rename number) :=
    Frame.IsRenamed.rename ha
  refine ⟨after.rename number, rfl, fun mark hmem => ?_, fun hfalls => ?_, fun k sent' hedge => ?_⟩
  · obtain rfl := List.mem_singleton.mp hmem
    obtain ⟨index', htarget⟩ := htargets target hmark
    exact ⟨_, h.position_of_position h₁ h₂
      (h.steps.targets step (List.mem_of_getElem? hstep) target hmark) htarget⟩
  · cases hfalls
  · obtain ⟨target', sent, hfirst, rfl, hsent⟩ := h.edge_of_second h₁ h₂ hstep hjump hp ha hedge
    exact leads h₁ hc hf hd (hierarchy_eq h₁ h₂) hsize (.edge hstep' hbefore hexecute hfirst) hsent

end

/-- Consistent frames that forget nothing are a guide for the body under other marks, where that
declares them. -/
theorem isGuide (hsize : frames.size = body.steps.length)
    (hm : ∀ (index : Nat) frame, frames[index]? = some (some frame) →
      frame.Holds (FrameType.IsMadeIn (body.steps.map (·.mark)))) :
    second.IsGuide entry (Guide number place first frames) := by
  refine ⟨fun k held other => h.unique_guide h₁, ?_, fun k step' before' hstep' hbefore' => ?_⟩
  · have hfirst := leads h₁ hc hf hd (hierarchy_eq h₁ h₂) hsize .entry
      (@Frame.IsRenamed.of_entryFrame number (body.steps.map (·.mark)) entry head h₁.starts)
    rwa [h.steps.first] at hfirst
  · rw [h₂.getElem?_steps] at hstep'
    cases hbefore' with
    | @«at» index before hi hbefore =>
      rw [h₁.scene, List.size_toArray] at hi
      have hstep := List.getElem?_eq_getElem hi
      have hb := @Frame.IsRenamed.of_holds number _ _ (hm index before hbefore)
      cases h.steps.unfolded index _ hstep with
      | same hsame hp =>
        obtain rfl := Option.some.inj (hstep'.symm.trans hsame)
        exact h.leadsOn_of_same h₁ h₂ hc hf hd hsize hstep hbefore hb hp
      | bypass hjump hinverse hn hfirst hgoto hp =>
        obtain rfl := Option.some.inj (hstep'.symm.trans hfirst)
        exact h.leadsOn_of_first h₁ h₂ hc hf hd hsize hstep hbefore hb hjump hinverse hp hn hgoto
    | @between index step before after hp hstep hbefore hexecute =>
      rw [h₁.getElem?_steps] at hstep
      have hb := @Frame.IsRenamed.of_holds number _ _ (hm index before hbefore)
      cases h.steps.unfolded index step hstep with
      | same _ hsame => omega
      | bypass hjump hinverse hn hfirst hgoto hp =>
        obtain rfl := Option.some.inj (hstep'.symm.trans hgoto)
        exact h.leadsOn_of_second h₁ h₂ hc hf hd hsize hstep hbefore hb hjump hp hexecute

/-! ### The frames that are found -/

omit hc hf hd

/-- A handler that covers an instruction covers its place. -/
theorem covers {index : Nat} (hi : index < body.steps.length) {range : HandlerRange}
    (hr : range ∈ first.handlers) (hin : range.start ≤ index ∧ index < range.stop) :
    range.moved place ∈ second.handlers ∧
      (range.moved place).start ≤ place index ∧ place index < (range.moved place).stop := by
  obtain ⟨hstart, hstop⟩ := range_le h₁ hr
  rw [h.handlers_eq h₁ h₂]
  exact ⟨List.mem_map_of_mem hr, (h.steps.contains_place hstart hstop (Nat.le_of_lt hi)).mpr hin⟩

section

variable {index target : Nat} {step : Step} {before before' after sent : Frame}
  (hs : body.steps[index]? = some step)
  (hb : before.IsRenamed number (body.steps.map (·.mark)) before')
  (hbefore' : second.Arrives entry (place index) before')
  (hx : first.scene.execute step before = .ok after)
  (he : first.Edge index step before after target sent)

include hs hb hbefore' hx he

/-- Where control goes on along an edge, it arrives under other marks. -/
theorem exists_arrives_of_same (hsame : again.steps[place index]? = some (step.renumber number))
    (hp : place (index + 1) = place index + 1) : ∃ sent', second.Arrives entry (place target) sent' ∧
      sent.IsRenamed number (body.steps.map (·.mark)) sent' := by
  have hlt := (List.getElem?_eq_some_iff.mp hs).1
  have hmem := List.mem_of_getElem? hs
  have hkept := (h.ties h₁ h₂).execute (isRenamed_made hmem) hb hx
  obtain ⟨after', hexecute'⟩ := hkept.succeeds trivial
  have ha : after.IsRenamed number (body.steps.map (·.mark)) after' := hkept.holds after' hexecute'
  have hgoes {k : Nat} {sent' : Frame}
      (hedge : second.Edge (place index) (step.renumber number) before' after' k sent') :
      second.Arrives entry k sent' :=
    .edge hbefore' ((h₂.getElem?_steps _).trans hsame)
      ((Scene.Ties.execute_mapTargets _ ⟨number step.mark, _⟩ number _).trans hexecute') hedge
  cases he with
  | @jump mark _ hm ht =>
    have hmark : number mark ∈ (step.renumber number).instruction.targets := by
      rw [Step.renumber, Instruction.targets_mapTargets]
      exact List.mem_map_of_mem hm
    have htarget := h.position_of_position h₁ h₂ (h.steps.targets step hmem mark hm) ht
    exact ⟨after', hgoes (.jump hmark htarget), ha⟩
  | next hf =>
    rw [hp]
    exact ⟨after', hgoes (.next ((Instruction.fallsThrough_mapTargets _ _).trans hf)), ha⟩
  | thrownBefore hr hi =>
    obtain ⟨hrange, hin⟩ := h.covers h₁ h₂ hlt hr hi
    exact ⟨_, hgoes (.thrownBefore hrange hin), hb.catching _⟩
  | thrownAfter hr hi =>
    obtain ⟨hrange, hin⟩ := h.covers h₁ h₂ hlt hr hi
    exact ⟨_, hgoes (.thrownAfter hrange hin), ha.catching _⟩

/-- Where control goes on from a jump with a bypass, it arrives by way of the second jump, or
without it. -/
theorem exists_arrives_of_bypass {op inverse : Opcode} {jumped extra : Mark} {next : Step}
    (hjump : step.instruction = .jump op jumped) (hinverse : op.inverse? = some inverse)
    (hn : body.steps[index + 1]? = some next)
    (hfirst : again.steps[place index]? =
      some ⟨number step.mark, .jump inverse (number next.mark)⟩)
    (hgoto : again.steps[place index + 1]? = some ⟨extra, .jump Opcode.goto (number jumped)⟩) :
    ∃ sent', second.Arrives entry (place target) sent' ∧
      sent.IsRenamed number (body.steps.map (·.mark)) sent' := by
  have hlt := (List.getElem?_eq_some_iff.mp hs).1
  obtain ⟨after', hjumps, ha⟩ := Scene.Ties.jump hb ((Scene.execute_of_jump hjump _).symm.trans hx)
  have ha : after.IsRenamed number (body.steps.map (·.mark)) after' := ha
  have hgoes {k : Nat} {sent' : Frame}
      (hedge : second.Edge (place index) ⟨number step.mark, .jump inverse (number next.mark)⟩
        before' after' k sent') : second.Arrives entry k sent' :=
    .edge hbefore' ((h₂.getElem?_steps _).trans hfirst)
      ((Scene.jump_of_inverse? hinverse).mpr hjumps) hedge
  cases he with
  | jump hm ht =>
    have hmark := h.steps.targets step (List.mem_of_getElem? hs) _ hm
    rw [hjump] at hm
    obtain rfl := List.mem_singleton.mp hm
    have hbetween := hgoes (.next
      (fallsThrough_of_inverse? (Opcode.inverse?_of_inverse? hinverse) _))
    exact ⟨after', .edge hbetween ((h₂.getElem?_steps _).trans hgoto) rfl
      (.jump (List.mem_singleton.mpr rfl) (h.position_of_position h₁ h₂ hmark ht)), ha⟩
  | next =>
    exact ⟨after', hgoes (.jump (List.mem_singleton.mpr rfl) (h.position_next h₁ h₂ hn)), ha⟩
  | thrownBefore hr hi =>
    obtain ⟨hrange, hin⟩ := h.covers h₁ h₂ hlt hr hi
    exact ⟨_, hgoes (.thrownBefore hrange hin), hb.catching _⟩
  | thrownAfter hr hi =>
    obtain ⟨hrange, hin⟩ := h.covers h₁ h₂ hlt hr hi
    exact ⟨_, hgoes (.thrownAfter hrange hin), ha.catching _⟩

end

/-- Control arrives along the same paths, with the same frames under other marks. -/
theorem exists_arrives {index : Nat} {frame : Frame} (ha : first.Arrives entry index frame) :
    ∃ frame', second.Arrives entry (place index) frame' ∧
      frame.IsRenamed number (body.steps.map (·.mark)) frame' := by
  induction ha with
  | entry =>
    rw [h.steps.first]
    exact ⟨entry, .entry, .of_entryFrame h₁.starts⟩
  | edge _ hs hx he ih =>
    obtain ⟨before', hbefore', hb⟩ := ih
    have hstep := (h₁.getElem?_steps _).symm.trans hs
    cases h.steps.unfolded _ _ hstep with
    | same hsame hp => exact h.exists_arrives_of_same h₁ h₂ hstep hb hbefore' hx he hsame hp
    | bypass hjump hinverse hn hfirst hgoto =>
      exact h.exists_arrives_of_bypass h₁ h₂ hstep hb hbefore' hx he hjump hinverse hn hfirst hgoto

/-- What paths do not agree on they do not agree on under other marks. -/
theorem isUnsure {index slot : Nat} (hu : first.IsUnsure entry index slot) :
    second.IsUnsure entry (place index) slot := by
  obtain ⟨frame, other, hframe, hother, hdiffer⟩ := hu
  obtain ⟨frame', hframe', hf⟩ := h.exists_arrives h₁ h₂ hframe
  obtain ⟨other', hother', ho⟩ := h.exists_arrives h₁ h₂ hother
  refine ⟨frame', other', hframe', hother', hdiffer.imp (fun htop => ?_) fun hne hsame => hne ?_⟩
  · rw [hf.localAt_eq, htop]
    rfl
  · rw [hf.localAt_eq, ho.localAt_eq] at hsame
    exact FrameType.sort_of_rename (fun mark hmark mark' hmark' =>
      h.separates mark ((hf.locals slot).made mark hmark) mark' ((ho.locals slot).made mark' hmark'))
      hsame

include hf hd

/-- Where a frame is written, the one that is found under other marks is the one that was found,
under them. -/
theorem corresponds_of_follows {found : Array (Option Frame)}
    (hc : second.IsConsistent entry found)
    (hfollows : Flow.Follows (Guide number place first frames) found) {index : Nat}
    (hi : index < body.steps.length) (hn : index ∈ needed) {held' : Frame}
    (hheld' : found[place index]? = some (some held')) : ∃ held,
      frames[index]? = some (some held) ∧ (held.rename number).Corresponds Eq Eq held' := by
  obtain ⟨frame, hframe, hsame⟩ := hfollows (place index) held' hheld'
  obtain ⟨held, hheld, rfl⟩ : ∃ held, frames[index]? = some (some held) ∧
      frame = held.rename number := by
    generalize hk : place index = k at hframe
    cases hframe with
    | «at» hi' hheld =>
      rw [h₁.scene, List.size_toArray] at hi'
      obtain rfl := (h.steps.place_inj (Nat.le_of_lt hi) (Nat.le_of_lt hi')).mp hk
      exact ⟨_, hheld, rfl⟩
    | between hp hs =>
      rw [h₁.getElem?_steps] at hs
      exact absurd hk (h.steps.place_ne (List.getElem?_eq_some_iff.mp hs).1 hp (Nat.le_of_lt hi))
  refine ⟨held, hheld, hsame.corresponds.stack, fun slot => ?_⟩
  rcases hsame.corresponds.locals slot with he | ⟨htop, -⟩
  · exact he.symm
  · rcases Nat.lt_or_ge slot (FrameType.trim held.locals).length with hlt | hge
    · -- a local that is declared is found as it is declared
      have hdeclared : second.declared[place index]? = some (held.declared number) := by
        rw [hd.held index held hheld, if_pos hn]
      have hslot := (hc.declared (place index) _ held' hdeclared hheld').2 slot
        (by rwa [Frame.declared, List.length_map])
      rw [hslot, Frame.localAt_rename, Frame.localAt_declared]
    · -- one that was forgotten is one on which paths do not agree
      have hunsure := h.isUnsure h₁ h₂ (hf.unusable index held slot hn hheld hge)
      rw [htop, hc.localAt_of_isUnsure hheld' hunsure]

omit h₁ h₂ hf hd

/-- Instructions are reached under other marks if they are reached. -/
theorem exists_frame_iff {analysis found : Analysis}
    (ha : body.analyze head pool hierarchy = .ok analysis)
    (hfound : again.analyze head pool hierarchy = .ok found) {index : Nat}
    (hi : index ≤ body.steps.length) :
    (∃ frame, found.frames[place index]? = some (some frame)) ↔
      ∃ frame, analysis.frames[index]? = some (some frame) := by
  constructor
  · rintro ⟨frame, hframe⟩
    obtain ⟨held, hheld, -⟩ := Body.exists_frame_of_climbs ha
      ((h.climbs_iff hi).mp (Body.climbs_of_frame hfound hframe))
    exact ⟨held, hheld⟩
  · rintro ⟨frame, hframe⟩
    obtain ⟨held, hheld, -⟩ := Body.exists_frame_of_climbs hfound
      (h.climbs (Body.climbs_of_frame ha hframe))
    exact ⟨held, hheld⟩

include h₁ h₂ hf hd

/-- A body is analyzed again under other marks, where it declares the frames that were found, if
these forget no more than they have to: with as many words on the stack, and to the frames that were
found, under the other marks. -/
theorem exists_analyze {analysis : Analysis} (hb : hierarchy.IsBuilt)
    (hc : hierarchy.HasClassSupers) (ha : body.analyze head pool hierarchy = .ok analysis)
    (hframes : analysis.frames = frames)
    (hs : again.localSlots entry second.declared.values ≤ 65535) :
    ∃ found, again.analyze head pool hierarchy = .ok found ∧
      found.maxStack = analysis.maxStack ∧
      found.maxLocals = UInt16.ofNat (again.localSlots entry second.declared.values) ∧
      ∀ index ∈ needed, ∀ held, frames[index]? = some (some held) →
        ∃ held', found.frames[place index]? = some (some held') ∧
          (held.rename number).Corresponds Eq Eq held' := by
  obtain ⟨entry', first', h₁', hconsistent⟩ := Body.analyze_isConsistent hb hc ha
  obtain ⟨rfl, rfl⟩ := h₁.unique h₁'
  rw [hframes] at hconsistent
  have hsize : frames.size = body.steps.length := hframes ▸ (goesOn_of_analyze ha).1
  have hguide := h.isGuide h₁ h₂ hconsistent hf hd hsize (hframes ▸ Body.made_of_analyze ha)
  have hne : again.steps ≠ [] := by
    intro hnil
    have hlast := h.steps.last
    rw [hnil] at hlast
    have hlt := h.steps.place_lt (List.length_pos_iff.mpr (Body.analyze_eq_ok.mp ha).1)
      (Nat.le_refl _)
    rw [hlast] at hlt
    cases hlt
  obtain ⟨found, hfound, hfollows, hlocals⟩ := h₂.exists_analyze hb hc hne hguide
    (h.isEnough_iff.mpr (Body.isEnough_maxStack ha)) (Nat.le_of_lt_succ analysis.maxStack.toNat_lt) hs
  obtain ⟨entry', second', h₂', hconsistent'⟩ := Body.analyze_isConsistent hb hc hfound
  obtain ⟨rfl, rfl⟩ := h₂.unique h₂'
  refine ⟨found, hfound, UInt16.toNat_inj.mp (Nat.le_antisymm ?_ ?_), hlocals,
    fun index hn held hheld => ?_⟩
  · exact Body.maxStack_le hfound (h.isEnough_iff.mpr (Body.isEnough_maxStack ha))
  · exact Body.maxStack_le ha (h.isEnough_iff.mp (Body.isEnough_maxStack hfound))
  · have hlt : index < body.steps.length := hsize ▸ (Array.getElem?_eq_some_iff.mp hheld).1
    obtain ⟨held', hheld'⟩ := (h.exists_frame_iff ha hfound (Nat.le_of_lt hlt)).mpr
      ⟨held, hframes ▸ hheld⟩
    obtain ⟨old, hold, hcorr⟩ :=
      h.corresponds_of_follows h₁ h₂ hf hd hconsistent' hfollows hlt hn hheld'
    obtain rfl := Option.some.inj (Option.some.inj (hheld.symm.trans hold))
    exact ⟨held', hheld', hcorr⟩

end

end Body.Unfolds

end ClassGraft

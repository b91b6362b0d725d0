import ClassGraft.Proofs.Frame.Consistency
import ClassGraft.Proofs.Frame.Correspondence

/-!
# Frames that arrive along single paths

Along one path control arrives at an instruction with one frame (`Course.Arrives`), of which the
frame that an analysis finds there has the sorts of types, as far as it has any
(`Course.IsConsistent.exists_sorted`).  So a local on which the paths do not agree is unusable there
(`Course.IsConsistent.localAt_of_isUnsure`).
-/

namespace ClassGraft

/-! ### Sorts of types -/

/-- The type with all classes taken as one, to which the null reference belongs. -/
def FrameType.sort : FrameType → FrameType
  | object _ => null
  | type => type

/-- Whether a type is unusable, or of the sort of another one. -/
def FrameType.IsOfSort (type other : FrameType) : Prop := type = top ∨ type.sort = other.sort

namespace FrameType

theorem isOfSort_refl (type : FrameType) : type.IsOfSort type := .inr rfl

theorem eq_top_of_sort {type : FrameType} (h : type.sort = top) : type = top := by
  cases type <;> first | rfl | nomatch h

theorem IsOfSort.trans {type other third : FrameType} (h : type.IsOfSort other)
    (h' : other.IsOfSort third) : type.IsOfSort third := by
  rcases h with rfl | h
  · exact .inl rfl
  · rcases h' with rfl | h'
    · exact .inl (eq_top_of_sort h)
    · exact .inr (h.trans h')

/-- Objects whose constructor did not run yet are of a sort of their own. -/
theorem eq_of_sort {type other : FrameType} (h : type.sort = other.sort)
    (ht : type.isInitialized = false) : other = type := by
  cases type with
  | uninitializedThis =>
    cases other with
    | uninitializedThis => rfl
    | _ => nomatch h
  | uninitialized mark =>
    cases other with
    | uninitialized mark' => exact h.symm
    | _ => nomatch h
  | _ => nomatch ht

theorem isExpected_of_sort {type other : FrameType} {expected : Expected}
    (h : type.sort = other.sort) (ht : Frame.isExpected expected type = true) :
    Frame.isExpected expected other = true := by
  cases type <;> cases other <;> cases expected <;> first | exact ht | nomatch h

theorem isWide_of_sort {type other : FrameType} (h : type.sort = other.sort) :
    type.isWide = other.isWide := by
  cases type <;> cases other <;> first | rfl | nomatch h

end FrameType

theorem Frame.sort_elementOf {array type : FrameType} (h : elementOf array = .ok type) :
    type.sort = .null := by
  unfold elementOf at h
  split at h
  · obtain rfl := Except.ok.inj h
    rfl
  · split at h
    · obtain rfl := Except.ok.inj h
      rfl
    · nomatch h
  · nomatch h

theorem Scene.isInitialized_of_constructed {scene : Scene} {receiver : FrameType} {name : Bytes}
    (h : scene.constructed receiver = .ok name) : receiver.isInitialized = false := by
  cases receiver with
  | uninitializedThis | uninitialized => rfl
  | _ => nomatch h

/-- What is accepted is of the sort of what is wanted. -/
theorem Hierarchy.isOfSort_of_accepts {hierarchy : Hierarchy} {found wanted : FrameType}
    (h : hierarchy.accepts found wanted = true) : wanted.IsOfSort found := by
  cases wanted with
  | top => exact .inl rfl
  | object name =>
    cases found with
    | null | object => exact .inr rfl
    | _ => nomatch h
  | _ =>
    refine .inr (congrArg FrameType.sort ?_)
    cases found <;> first | rfl | exact (eq_of_beq h).symm

theorem FrameType.isOfSort_words {hierarchy : Hierarchy} {found wanted others : List FrameType}
    (h : List.Forall₂ (fun found wanted => hierarchy.accepts found wanted = true) found wanted)
    (h' : List.Forall₂ IsOfSort found others) : List.Forall₂ IsOfSort wanted others := by
  induction h generalizing others with
  | nil => exact h'
  | cons hword _ ih =>
    cases h' with
    | cons hother hothers =>
      exact .cons ((Hierarchy.isOfSort_of_accepts hword).trans hother) (ih hothers)

/-- An instruction does the same with types of the same sorts. -/
theorem Scene.ties_sort (scene : Scene) :
    scene.Ties False FrameType.IsOfSort FrameType.IsOfSort scene where
  pool := rfl
  head := rfl
  value _ := .inr rfl
  store := id
  load := by
    rintro a b expected hq ha
    refine ⟨hq, ?_⟩
    rcases hq with rfl | hsort
    · cases expected <;> nomatch ha
    · exact FrameType.isExpected_of_sort hsort ha
  wide := by
    rintro a b (rfl | hsort) hb
    · exact .inr rfl
    · exact .inl ((FrameType.isWide_of_sort hsort).trans hb)
  unready := False.elim
  element := by
    intro a b type _ ha
    refine ⟨fun type' hb => .inr ?_, False.elim⟩
    rw [Frame.sort_elementOf ha, Frame.sort_elementOf hb]
  construct := by
    intro a b name hq ha
    have hnot := isInitialized_of_constructed ha
    obtain rfl : b = a := by
      rcases hq with rfl | hsort
      · nomatch hnot
      · exact FrameType.eq_of_sort hsort hnot
    have hsame (other : Bytes) (c d : FrameType) (hcd : c.IsOfSort d) :
        FrameType.IsOfSort (if c = b then .object name else c)
          (if d = b then .object other else d) := by
      rcases hcd with rfl | hsort
      · refine .inl (if_neg ?_)
        rintro rfl
        nomatch hnot
      · have hiff : c = b ↔ d = b := by
          constructor
          · rintro rfl
            exact FrameType.eq_of_sort hsort hnot
          · rintro rfl
            exact FrameType.eq_of_sort hsort.symm hnot
        rw [if_congr hiff rfl rfl]
        split_ifs
        · exact .inr rfl
        · exact .inr hsort
    exact ⟨fun other _ => ⟨hsame other, hsame other⟩, False.elim⟩

/-! ### Frames that arrive -/

namespace Course

variable {course : Course} {entry : Frame} {frames : Array (Option Frame)}

/-- Whether control can arrive at an instruction with a frame, along a single path, whatever is
declared. -/
inductive Arrives (course : Course) (entry : Frame) : Nat → Frame → Prop
  | entry : Arrives course entry 0 entry
  | edge {index target : Nat} {step : Step} {before after sent : Frame}
      (h : Arrives course entry index before) (hs : course.scene.steps[index]? = some step)
      (hx : course.scene.execute step before = .ok after)
      (he : course.Edge index step before after target sent) :
      Arrives course entry target sent

/-- Control goes on in the same way from frames that correspond. -/
theorem Edge.corresponds {Q : FrameType → FrameType → Prop} {index target : Nat} {step : Step}
    {before before' after after' sent' : Frame} (hv : ∀ name, Q (.object name) (.object name))
    (hb : before.Corresponds Q Q before') (ha : after.Corresponds Q Q after')
    (he : course.Edge index step before' after' target sent') :
    ∃ sent, course.Edge index step before after target sent ∧ sent.Corresponds Q Q sent' := by
  have hcaught (name : Bytes) {frame frame' : Frame} (hf : frame.Corresponds Q Q frame') :
      (Frame.catching frame.locals name).Corresponds Q Q (.catching frame'.locals name) :=
    ⟨.cons (hv name) .nil, hf.locals⟩
  cases he with
  | jump hm ht => exact ⟨after, .jump hm ht, ha⟩
  | next hf => exact ⟨after, .next hf, ha⟩
  | thrownBefore hr hi => exact ⟨_, .thrownBefore hr hi, hcaught _ hb⟩
  | thrownAfter hr hi => exact ⟨_, .thrownAfter hr hi, hcaught _ ha⟩

/-- What fits a held frame, and has the sorts of another one, is held with the sorts of that. -/
theorem isOfSort_of_fits {held sent sent' : Frame}
    (hf : sent.Fits course.scene.hierarchy held)
    (hs : sent.Corresponds FrameType.IsOfSort FrameType.IsOfSort sent') :
    held.Corresponds FrameType.IsOfSort FrameType.IsOfSort sent' :=
  ⟨FrameType.isOfSort_words hf.stack hs.stack, fun slot =>
    (Hierarchy.isOfSort_of_accepts (hf.locals slot)).trans (hs.locals slot)⟩

/-- The frame that is held at an instruction has the sorts of every frame that arrives there. -/
theorem IsConsistent.exists_sorted (h : course.IsConsistent entry frames) {index : Nat}
    {frame : Frame} (ha : course.Arrives entry index frame) :
    ∃ held, frames[index]? = some (some held) ∧
      held.Corresponds FrameType.IsOfSort FrameType.IsOfSort frame := by
  induction ha with
  | entry =>
    obtain ⟨held, hheld, hfits⟩ := h.entry
    refine ⟨held, hheld, isOfSort_of_fits hfits ⟨?_, fun slot => ?_⟩⟩
    · exact List.forall₂_same.mpr fun type _ => FrameType.isOfSort_refl type
    · exact FrameType.isOfSort_refl _
  | @edge index target step before after sent _ hs hx he ih =>
    obtain ⟨held, hheld, hcorr⟩ := ih
    obtain ⟨after', hexecute, -, -, hedges⟩ := h.steps index step held hs hheld
    have hkept := course.scene.ties_sort.execute (FrameType.isOfSort_refl _) hcorr hexecute
    obtain ⟨sent', hedge, hsent⟩ := he.corresponds (fun _ => FrameType.isOfSort_refl _) hcorr
      (hkept.holds after hx)
    obtain ⟨held', hheld', hfits⟩ := hedges target sent' hedge
    exact ⟨held', hheld', isOfSort_of_fits hfits hsent⟩

/-- Whether paths do not agree on a local of an instruction: it is unusable on one of them, or two
of them bring types of different sorts. -/
def IsUnsure (course : Course) (entry : Frame) (index slot : Nat) : Prop :=
  ∃ frame other, course.Arrives entry index frame ∧ course.Arrives entry index other ∧
    (frame.localAt slot = .top ∨ (frame.localAt slot).sort ≠ (other.localAt slot).sort)

/-- What paths do not agree on is unusable in the frame that is held. -/
theorem IsConsistent.localAt_of_isUnsure (h : course.IsConsistent entry frames) {index slot : Nat}
    {held : Frame} (hheld : frames[index]? = some (some held))
    (hu : course.IsUnsure entry index slot) : held.localAt slot = .top := by
  obtain ⟨frame, other, hframe, hother, hdiffer⟩ := hu
  have hsort {frame : Frame} (ha : course.Arrives entry index frame) :
      (held.localAt slot).IsOfSort (frame.localAt slot) := by
    obtain ⟨held', hheld', hcorr⟩ := h.exists_sorted ha
    obtain rfl := Option.some.inj (Option.some.inj (hheld.symm.trans hheld'))
    exact hcorr.locals slot
  rcases hsort hframe with htop | hsame
  · exact htop
  · rcases hsort hother with htop | hsame'
    · exact htop
    · rcases hdiffer with hnone | hne
      · rw [hnone] at hsame
        exact FrameType.eq_top_of_sort hsame
      · exact absurd (hsame.symm.trans hsame') hne

end Course

end ClassGraft

import ClassGraft.Proofs.Frame.Slots
import ClassGraft.Proofs.Hierarchy.Extends
import ClassGraft.Proofs.Outcome

/-!
# The order of frames

`Frame.Below` orders frames slot by slot, with `top` as the greatest type of a slot and the order of
the class hierarchy on references.  Unlike `Hierarchy.accepts`, which trusts what it does not know,
it is transitive, so what arrived at an instruction stays below its frame however often that is
merged (`below_merge`), and what is below is accepted (`Frame.Below.fits`).

Where a frame is declared, what arrives is only accepted by it, not below it.  The declared types
never change though (`Frame.Declares`), as merging a type with itself gives it back.
-/

namespace ClassGraft

/-! ### Types -/

namespace Hierarchy

/-- The types that hold every value of a type, as far as merging goes. -/
inductive Below (hierarchy : Hierarchy) : FrameType → FrameType → Prop
  | refl (type : FrameType) : Below hierarchy type type
  | top (type : FrameType) : Below hierarchy type .top
  | null (name : Bytes) : Below hierarchy .null (.object name)
  | object {name upper : Bytes} (h : hierarchy.Extends name upper) :
      Below hierarchy (.object name) (.object upper)

variable {hierarchy : Hierarchy}

theorem Below.trans (hp : hierarchy.IsProper) {a b c : FrameType} (h : hierarchy.Below a b)
    (h' : hierarchy.Below b c) : hierarchy.Below a c := by
  cases h with
  | refl => exact h'
  | top =>
    cases h' with
    | refl => exact .top _
    | top => exact .top _
  | null =>
    cases h' with
    | refl => exact .null _
    | top => exact .top _
    | object => exact .null _
  | object h =>
    cases h' with
    | refl => exact .object h
    | top => exact .top _
    | object h' => exact .object (h.trans hp h')

theorem accepts_self (type : FrameType) : hierarchy.accepts type type = true := by
  cases type with
  | object name => simp [accepts, assignableReference]
  | _ => simp [accepts]

theorem Below.accepts (hp : hierarchy.IsProper) {a b : FrameType} (h : hierarchy.Below a b) :
    hierarchy.accepts a b = true := by
  cases h with
  | refl => exact accepts_self a
  | top => rfl
  | null => rfl
  | object h => simpa [Hierarchy.accepts] using assignableReference_of_extends hp h

/-- What two types meet in is above both. -/
theorem below_meet (hp : hierarchy.IsProper) {a b type : FrameType}
    (h : hierarchy.meet a b = .ok type) : hierarchy.Below a type ∧ hierarchy.Below b type := by
  unfold meet at h
  split_ifs at h with he
  · obtain rfl := Except.ok.inj h
    exact ⟨.refl _, he ▸ .refl _⟩
  · split at h
    · obtain rfl := Except.ok.inj h
      exact ⟨.null _, .refl _⟩
    · obtain rfl := Except.ok.inj h
      exact ⟨.refl _, .null _⟩
    · split at h
      · rename_i name hc
        obtain rfl := Except.ok.inj h
        have := extends_commonReference hp hc
        exact ⟨.object this.1, .object this.2⟩
      · simp at h
    · simp at h

theorem meet_self (type : FrameType) : hierarchy.meet type type = .ok type := if_pos rfl

theorem below_meetLocal (hp : hierarchy.IsProper) (a b : FrameType) :
    hierarchy.Below a (hierarchy.meetLocal a b) ∧ hierarchy.Below b (hierarchy.meetLocal a b) := by
  unfold meetLocal
  split
  · rename_i type h
    exact below_meet hp h
  · exact ⟨.top _, .top _⟩

theorem meetLocal_self (type : FrameType) : hierarchy.meetLocal type type = type := by
  rw [meetLocal, meet_self]

end Hierarchy

/-! ### Wide values that lost a slot -/

namespace FrameType

theorem getElem?_dropHalves (slots : List FrameType) (i : Nat) :
    (dropHalves slots)[i]? = slots[i]?.map fun type =>
      if type.isWide ∧ slots[i + 1]? ≠ some top then top else type := by
  induction slots generalizing i with
  | nil => rfl
  | cons type rest ih =>
    cases i with
    | zero => simp [dropHalves, List.head?_eq_getElem?]
    | succ i => simp [dropHalves, ih]

/-- A slot that does not lose its second one stays. -/
theorem getElem?_dropHalves_of_next {slots : List FrameType} {i : Nat} {type : FrameType}
    (hi : slots[i]? = some type) (hn : type.isWide = true → slots[i + 1]? = some top) :
    (dropHalves slots)[i]? = some type := by
  rw [getElem?_dropHalves, hi, Option.map_some, if_neg]
  rintro ⟨hw, hne⟩
  exact hne (hn hw)

/-- Wide values that lost a slot are the only ones that are not paired. -/
theorem paired_dropHalves (slots : List FrameType) : Paired (dropHalves slots) := by
  intro i type hi hw
  rw [getElem?_dropHalves] at hi ⊢
  obtain ⟨found, hfound, rfl⟩ := Option.map_eq_some_iff.mp hi
  split_ifs at hw with hhalf
  · simp at hw
  · have hnext : slots[i + 1]? = some top := by
      by_contra hne
      exact hhalf ⟨hw, hne⟩
    rw [hnext, Option.map_some, if_neg (by simp)]

theorem dropHalves_of_paired {slots : List FrameType} (h : Paired slots) :
    dropHalves slots = slots := by
  refine List.ext_getElem? fun i => ?_
  rw [getElem?_dropHalves]
  cases hi : slots[i]? with
  | none => rfl
  | some type => rw [Option.map_some, if_neg fun hw => hw.2 (h i type hi hw.1)]

end FrameType

/-! ### Frames -/

namespace Frame

/-- The type of a local; those that the frame does not list cannot be used. -/
def localAt (frame : Frame) (slot : Nat) : FrameType := frame.locals.getD slot .top

/-- A frame from which a merged one comes: every slot is below that of the other. -/
structure Below (hierarchy : Hierarchy) (lower upper : Frame) : Prop where
  stack : List.Forall₂ hierarchy.Below lower.stack upper.stack
  locals : ∀ slot, hierarchy.Below (lower.localAt slot) (upper.localAt slot)

/-- Whether an arriving frame can be used where another one is held: the stacks have one height, and
every slot is accepted. -/
structure Fits (hierarchy : Hierarchy) (arriving held : Frame) : Prop where
  stack : List.Forall₂ (fun found wanted => hierarchy.accepts found wanted = true)
    arriving.stack held.stack
  locals : ∀ slot, hierarchy.accepts (arriving.localAt slot) (held.localAt slot) = true

variable {hierarchy : Hierarchy}

theorem Below.refl (frame : Frame) : Below hierarchy frame frame :=
  ⟨List.forall₂_same.mpr fun type _ => .refl type, fun _ => .refl _⟩

theorem Below.trans (hp : hierarchy.IsProper) {a b c : Frame} (h : Below hierarchy a b)
    (h' : Below hierarchy b c) : Below hierarchy a c := by
  refine ⟨?_, fun slot => (h.locals slot).trans hp (h'.locals slot)⟩
  obtain ⟨hab, -⟩ := h
  obtain ⟨hbc, -⟩ := h'
  -- word by word, as long as the stacks go on
  generalize a.stack = as, b.stack = bs, c.stack = cs at hab hbc
  induction hab generalizing cs with
  | nil => exact hbc
  | cons hab _ ih =>
    cases hbc with
    | cons hbc hrest => exact .cons (hab.trans hp hbc) (ih _ hrest)

theorem Below.fits (hp : hierarchy.IsProper) {lower upper : Frame}
    (h : Below hierarchy lower upper) : Fits hierarchy lower upper :=
  ⟨h.stack.imp fun _ _ h => h.accepts hp, fun slot => (h.locals slot).accepts hp⟩

/-! ### Merging -/

theorem merge_eq_ok {old new merged : Frame} :
    merge hierarchy old new = .ok merged ↔ old.stack.length = new.stack.length ∧
      ∃ words, List.Forall₂ (fun pair word => hierarchy.meet pair.1 pair.2 = .ok word)
        (old.fromBottom.zip new.fromBottom) words ∧
      merged = ⟨FrameType.trim (FrameType.dropHalves
        (List.zipWith hierarchy.meetLocal old.locals new.locals)), words.reverse⟩ := by
  simp only [merge, Except.guard_eq_ok, not_not, Except.bind_eq_ok, Except.mapM_eq_ok,
    Except.mapError_eq_ok, Except.pure_eq_ok, ne_eq, eq_comm (a := merged)]

/-- The locals of a merged frame hold no half of a wide value. -/
theorem paired_merge {old new merged : Frame} (h : merge hierarchy old new = .ok merged) :
    FrameType.Paired merged.locals := by
  obtain ⟨-, words, -, rfl⟩ := merge_eq_ok.mp h
  exact FrameType.paired_trim (FrameType.paired_dropHalves _)

/-- The words that two stacks meet in are above those of both. -/
theorem below_of_meet_words (hp : hierarchy.IsProper) {first second words : List FrameType}
    (hl : first.length = second.length)
    (h : List.Forall₂ (fun pair word => hierarchy.meet pair.1 pair.2 = .ok word)
      (first.zip second) words) :
    List.Forall₂ hierarchy.Below first words ∧ List.Forall₂ hierarchy.Below second words := by
  induction first generalizing second words with
  | nil =>
    obtain rfl := List.length_eq_zero_iff.mp hl.symm
    cases h
    exact ⟨.nil, .nil⟩
  | cons a first ih =>
    obtain ⟨b, second, rfl⟩ := List.exists_cons_of_length_eq_add_one hl.symm
    cases h with
    | cons hw h =>
      obtain ⟨ha, hb⟩ := Hierarchy.below_meet hp hw
      obtain ⟨hf, hs⟩ := ih (Nat.succ.inj hl) h
      exact ⟨.cons ha hf, .cons hb hs⟩

/-- A local of a merged frame: what two locals meet in, unless that is wide and lost a slot. -/
theorem localAt_merged (hierarchy : Hierarchy) (old new words : List FrameType) (slot : Nat) :
    localAt ⟨FrameType.trim (FrameType.dropHalves (List.zipWith hierarchy.meetLocal old new)),
        words⟩ slot = .top ∨
      ∃ a b, old[slot]? = some a ∧ new[slot]? = some b ∧
        localAt ⟨FrameType.trim (FrameType.dropHalves
          (List.zipWith hierarchy.meetLocal old new)), words⟩ slot = hierarchy.meetLocal a b := by
  simp only [localAt, FrameType.getD_trim]
  simp only [List.getD_eq_getElem?_getD, FrameType.getElem?_dropHalves, List.getElem?_zipWith]
  cases ha : old[slot]? with
  | none => exact .inl (by simp)
  | some a =>
    cases hb : new[slot]? with
    | none => exact .inl (by simp)
    | some b =>
      simp only [Option.map_some, Option.getD_some]
      split_ifs
      · exact .inl rfl
      · exact .inr ⟨a, b, rfl, rfl, rfl⟩

/-- What two frames are merged to is above both. -/
theorem below_merge (hp : hierarchy.IsProper) {old new merged : Frame}
    (h : merge hierarchy old new = .ok merged) :
    Below hierarchy old merged ∧ Below hierarchy new merged := by
  obtain ⟨hl, words, hw, rfl⟩ := merge_eq_ok.mp h
  have hs := below_of_meet_words hp (by simpa [fromBottom] using hl) hw
  have hlocals := localAt_merged hierarchy old.locals new.locals words.reverse
  -- a slot that both frames have is met in, and any other becomes unusable
  refine ⟨⟨?_, fun slot => ?_⟩, ⟨?_, fun slot => ?_⟩⟩
  · exact List.forall₂_reverse_iff.mp (by simpa [fromBottom] using hs.1)
  · rcases hlocals slot with ht | ⟨a, b, ha, -, hm⟩
    · rw [ht]
      exact .top _
    · rw [hm, localAt, List.getD_eq_getElem?_getD, ha]
      exact (Hierarchy.below_meetLocal hp a b).1
  · exact List.forall₂_reverse_iff.mp (by simpa [fromBottom] using hs.2)
  · rcases hlocals slot with ht | ⟨a, b, -, hb, hm⟩
    · rw [ht]
      exact .top _
    · rw [hm, localAt, List.getD_eq_getElem?_getD, hb]
      exact (Hierarchy.below_meetLocal hp a b).2

/-! ### Declared frames -/

/-- What is declared of an instruction and never changes: the stack, the locals that the declared
frame lists, and the second slots of wide ones among them. -/
structure Declares (declared held : Frame) : Prop where
  stack : held.stack = declared.stack
  locals : ∀ slot < declared.locals.length, held.localAt slot = declared.localAt slot
  seconds : ∀ slot type, declared.locals[slot]? = some type → type.isWide = true →
    held.locals[slot + 1]? = some .top

/-- A search that passes every item of a numbered list passes each of them under some number. -/
theorem exists_of_findSome?_zipIdx_eq_none {α β : Type} {f : α × Nat → Option β} {items : List α}
    (h : items.zipIdx.findSome? f = none) {item : α} (hm : item ∈ items) :
    ∃ i, f (item, i) = none := by
  obtain ⟨i, hi, rfl⟩ := List.mem_iff_getElem.mp hm
  refine ⟨i, List.findSome?_eq_none_iff.mp h _ ?_⟩
  rw [List.mem_zipIdx_iff_getElem?]
  exact List.getElem?_eq_getElem hi

theorem fits_of_misfit?_eq_none {declared arriving : Frame}
    (h : misfit? hierarchy declared arriving = none) : Fits hierarchy arriving declared := by
  unfold misfit? at h
  split_ifs at h with hl
  obtain ⟨hwords, hlocals⟩ := Option.or_eq_none_iff.mp h
  constructor
  · refine List.forall₂_reverse_iff.mp (List.forall₂_iff_zip.mpr ⟨?_, ?_⟩)
    · simp only [ne_eq, not_not] at hl
      simp [hl]
    · intro found wanted hm
      obtain ⟨i, hi⟩ := exists_of_findSome?_zipIdx_eq_none hwords hm
      simpa using hi
  · intro slot
    -- Only the slots that are declared are compared; beyond them everything is unusable.
    by_cases hs : slot < declared.locals.length
    · -- a local that is listed is compared with the one that arrives, or with `top`
      have hm : (arriving.localAt slot, declared.localAt slot) ∈
          (arriving.locals ++ List.replicate (declared.locals.length - arriving.locals.length)
            FrameType.top).zip declared.locals := by
        refine List.mem_iff_getElem?.mpr ⟨slot, ?_⟩
        rw [List.getElem?_zip_eq_some]
        constructor
        · rw [List.getElem?_append]
          split_ifs with ha
          · simp [localAt, ha]
          · simp [localAt, Nat.le_of_not_lt ha, List.getElem?_replicate]
            omega
        · simp [localAt, hs]
      obtain ⟨i, hi⟩ := exists_of_findSome?_zipIdx_eq_none hlocals hm
      simpa using hi
    · have ht : declared.localAt slot = .top := by simp [localAt, Nat.le_of_not_lt hs]
      rw [ht]
      simp [Hierarchy.accepts]

theorem fit_eq_ok {declared arriving held : Frame} :
    fit hierarchy declared arriving = .ok held ↔ misfit? hierarchy declared arriving = none ∧
      held = ⟨FrameType.trim (declared.locals ++ arriving.locals.drop declared.locals.length),
        declared.stack⟩ := by
  unfold fit
  split
  · simp_all
  · simp_all [eq_comm]

/-- Locals that a declared frame lists are taken from it, others from the frame that arrived. -/
theorem localAt_fit {declared arriving held : Frame}
    (h : fit hierarchy declared arriving = .ok held) (slot : Nat) :
    held.localAt slot =
      if slot < declared.locals.length then declared.localAt slot else arriving.localAt slot := by
  obtain ⟨-, rfl⟩ := fit_eq_ok.mp h
  simp only [localAt, FrameType.getD_trim]
  simp only [List.getD_eq_getElem?_getD, List.getElem?_append, List.getElem?_drop]
  split_ifs with hs
  · rfl
  · rw [Nat.add_sub_cancel' (Nat.le_of_not_lt hs)]

theorem declares_fit {declared arriving held : Frame} (hd : FrameType.Paired declared.locals)
    (h : fit hierarchy declared arriving = .ok held) : Declares declared held := by
  refine ⟨?_, fun slot hs => ?_, fun slot type hi hw => ?_⟩
  · obtain ⟨-, rfl⟩ := fit_eq_ok.mp h
    rfl
  · rw [localAt_fit h, if_pos hs]
  · obtain ⟨-, rfl⟩ := fit_eq_ok.mp h
    have hnext := hd slot type hi hw
    -- trimming stops at the second slot of a wide local, even though it is unusable
    refine @FrameType.getElem?_trim_of_isWide _ _ type ?_ hw ?_
    · rw [List.getElem?_append_left (List.getElem?_eq_some_iff.mp hi).1]
      exact hi
    · rw [List.getElem?_append_left (List.getElem?_eq_some_iff.mp hnext).1]
      exact hnext

/-- Words that meet themselves stay. -/
theorem eq_of_meet_words {words merged : List FrameType}
    (h : List.Forall₂ (fun pair word => hierarchy.meet pair.1 pair.2 = .ok word)
      (words.zip words) merged) : merged = words := by
  induction words generalizing merged with
  | nil =>
    cases h
    rfl
  | cons word words ih =>
    cases h with
    | cons hw h => rw [ih h, Except.ok.inj (hw.symm.trans (Hierarchy.meet_self word))]

/-- A slot that meets itself stays, unless it is wide and its second one is gone. -/
theorem getElem?_dropHalves_of_same (hierarchy : Hierarchy) {old new : List FrameType} {slot : Nat}
    {type : FrameType}
    (ho : old[slot]? = some type) (hn : new[slot]? = some type)
    (hs : type.isWide = true → old[slot + 1]? = some .top ∧ new[slot + 1]? = some .top) :
    (FrameType.dropHalves (List.zipWith hierarchy.meetLocal old new))[slot]? = some type := by
  refine FrameType.getElem?_dropHalves_of_next ?_ fun hw => ?_
  · simp [List.getElem?_zipWith, ho, hn, Hierarchy.meetLocal_self]
  · obtain ⟨ho', hn'⟩ := hs hw
    simp [List.getElem?_zipWith, ho', hn', Hierarchy.meetLocal_self]

theorem Declares.getElem?_locals {declared held : Frame} (h : Declares declared held) {slot : Nat}
    (hd : slot < declared.locals.length) (hh : slot < held.locals.length) :
    held.locals[slot]? = some (declared.localAt slot) := by
  rw [← h.locals slot hd, localAt, List.getD_eq_getElem?_getD, List.getElem?_eq_getElem hh]
  rfl

/-- Frames in which the same is declared are merged to one in which that is. -/
theorem declares_merge {declared old new merged : Frame} (ho : Declares declared old)
    (hn : Declares declared new) (h : merge hierarchy old new = .ok merged) :
    Declares declared merged := by
  obtain ⟨-, words, hw, rfl⟩ := merge_eq_ok.mp h
  have hsecond : ∀ slot < declared.locals.length, (declared.localAt slot).isWide = true →
      old.locals[slot + 1]? = some .top ∧ new.locals[slot + 1]? = some .top := by
    intro slot hs hwide
    have hat : declared.locals[slot]? = some (declared.localAt slot) := by simp [localAt, hs]
    exact ⟨ho.seconds slot _ hat hwide, hn.seconds slot _ hat hwide⟩
  refine ⟨?_, fun slot hs => ?_, fun slot type hi hwide => ?_⟩
  · simp only [fromBottom, ho.stack, hn.stack] at hw
    rw [eq_of_meet_words hw, List.reverse_reverse]
  · by_cases hlen : slot < old.locals.length ∧ slot < new.locals.length
    · have := getElem?_dropHalves_of_same hierarchy
        (ho.getElem?_locals hs hlen.1) (hn.getElem?_locals hs hlen.2) (hsecond slot hs)
      rw [localAt, FrameType.getD_trim, List.getD_eq_getElem?_getD, this]
      rfl
    · -- a local that one of the frames does not list is declared to be unusable
      have ht : declared.localAt slot = .top := by
        rcases not_and_or.mp hlen with hl | hl
        · rw [← ho.locals slot hs]
          simp [localAt, Nat.le_of_not_lt hl]
        · rw [← hn.locals slot hs]
          simp [localAt, Nat.le_of_not_lt hl]
      rcases localAt_merged hierarchy old.locals new.locals words.reverse slot with
        hm | ⟨a, b, ha, hb, -⟩
      · rw [hm, ht]
      · exact absurd ⟨(List.getElem?_eq_some_iff.mp ha).1, (List.getElem?_eq_some_iff.mp hb).1⟩ hlen
  · have hs : slot < declared.locals.length := (List.getElem?_eq_some_iff.mp hi).1
    have hat : declared.localAt slot = type := by
      rw [localAt, List.getD_eq_getElem?_getD, hi]
      rfl
    -- both slots meet themselves, so the wide local keeps its second one
    obtain ⟨ho', hn'⟩ := hsecond slot hs (hat ▸ hwide)
    have hlo := (List.getElem?_eq_some_iff.mp ho').1
    have hln := (List.getElem?_eq_some_iff.mp hn').1
    refine @FrameType.getElem?_trim_of_isWide _ _ type ?_ hwide ?_
    · have := getElem?_dropHalves_of_same hierarchy
        (ho.getElem?_locals hs (Nat.lt_of_succ_lt hlo))
        (hn.getElem?_locals hs (Nat.lt_of_succ_lt hln)) (hsecond slot hs)
      rwa [hat] at this
    · exact getElem?_dropHalves_of_same hierarchy ho' hn' (by simp)

end Frame

end ClassGraft

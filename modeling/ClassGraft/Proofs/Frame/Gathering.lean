import ClassGraft.Proofs.Frame.Invariants
import ClassGraft.Proofs.Hierarchy.MeetLaws

/-!
# Frames that gather

Where paths meet, the frames that arrive are merged one after another (`Frame.gather`).  With
classes that are known, null, class and array types always meet, in a type that holds both, and
neither the order of two types nor that of three matters (`Hierarchy.meet_comm`,
`Hierarchy.exists_meet_of_meet`).  So frames can arrive in any order (`Frame.gather_perm`), but for
the words that a fault is first found at.

Types of other kinds only meet themselves.  Where they do not, that is a fault on the stack,
whatever the order, and a local becomes unusable, which it then stays.
-/

namespace ClassGraft

/-! ### Types -/

/-- Whether a type is one that values meet in: that of null, of a class or of an array. -/
def FrameType.IsObjectOrNull : FrameType → Prop
  | .null | .object _ => True
  | _ => False

/-- Whether the class that a type names, or the elements of an array that it names, is known. -/
def ClassPath.KnowsType (path : ClassPath) : FrameType → Prop
  | .object name => path.Knows name
  | _ => True

namespace Hierarchy

/-- The types that two types meet in. -/
inductive MeetsIn (hierarchy : Hierarchy) : FrameType → FrameType → FrameType → Prop
  | same (type : FrameType) : MeetsIn hierarchy type type type
  | nullLeft (name : Bytes) : MeetsIn hierarchy .null (.object name) (.object name)
  | nullRight (name : Bytes) : MeetsIn hierarchy (.object name) .null (.object name)
  | objects {x y z : Bytes} (h : hierarchy.commonReference x y = some z) :
      MeetsIn hierarchy (.object x) (.object y) (.object z)

variable {hierarchy : Hierarchy} {path : ClassPath} {a b c u w : FrameType}

theorem meet_eq_ok : hierarchy.meet a b = .ok u ↔ hierarchy.MeetsIn a b u := by
  constructor
  · intro h
    unfold meet at h
    split_ifs at h with hab
    · rw [← Except.ok.inj h, ← hab]
      exact .same a
    · split at h
      · exact Except.ok.inj h ▸ .nullLeft _
      · exact Except.ok.inj h ▸ .nullRight _
      · split at h
        · rename_i name hcommon
          exact Except.ok.inj h ▸ .objects hcommon
        · exact absurd h nofun
      · exact absurd h nofun
  · intro h
    cases h with
    | same => exact meet_self _
    | nullLeft => rfl
    | nullRight => rfl
    | @objects x y z h =>
      unfold meet
      split_ifs with hxy
      · obtain rfl := FrameType.object.inj hxy
        rw [commonReference_self] at h
        rw [Option.some.inj h]
      · simp only [h]

theorem meet_comm (hu : hierarchy.IsUnique) (h : hierarchy.meet a b = .ok u) :
    hierarchy.meet b a = .ok u := by
  rw [meet_eq_ok] at h ⊢
  cases h with
  | same => exact .same _
  | nullLeft name => exact .nullRight name
  | nullRight name => exact .nullLeft name
  | objects h => exact .objects ((commonReference_comm hu _ _).trans h)

/-- Null, class and array types meet in one of these, which holds both. -/
theorem exists_meet (hp : (classPath path).IsProper) (hi : path.HasNoInterfaceAbove)
    (hoa : a.IsObjectOrNull) (hob : b.IsObjectOrNull) (ha : path.KnowsType a)
    (hb : path.KnowsType b) : ∃ u, (classPath path).meet a b = .ok u ∧ u.IsObjectOrNull ∧
      path.KnowsType u ∧ (classPath path).accepts a u = true ∧
      (classPath path).accepts b u = true := by
  -- which of the types are null decides how they meet; only two objects need the hierarchy
  have hmeets : ∃ u, (classPath path).MeetsIn a b u ∧ u.IsObjectOrNull ∧ path.KnowsType u := by
    cases a with
    | null =>
      cases b with
      | null => exact ⟨_, .same _, hoa, ha⟩
      | object name => exact ⟨_, .nullLeft name, hob, hb⟩
      | _ => exact hob.elim
    | object x =>
      cases b with
      | null => exact ⟨_, .nullRight x, hoa, ha⟩
      | object y =>
        obtain ⟨z, hz, hk, -⟩ := exists_commonReference hp hi ha hb
        exact ⟨_, .objects hz, trivial, hk⟩
      | _ => exact hob.elim
    | _ => exact hoa.elim
  obtain ⟨u, hu, hou, hk⟩ := hmeets
  have hmeet := meet_eq_ok.mpr hu
  obtain ⟨hau, hbu⟩ := below_meet hp hmeet
  exact ⟨u, hmeet, hou, hk, hau.accepts hp, hbu.accepts hp⟩

theorem knowsType_of_meet (hp : (classPath path).IsProper) (hi : path.HasNoInterfaceAbove)
    (ha : path.KnowsType a) (hb : path.KnowsType b) (hmeet : (classPath path).meet a b = .ok u) :
    path.KnowsType u := by
  cases meet_eq_ok.mp hmeet with
  | same => exact ha
  | nullLeft => exact hb
  | nullRight => exact ha
  | objects h =>
    obtain ⟨z, hz, hk, -⟩ := exists_commonReference hp hi ha hb
    exact Option.some.inj (hz.symm.trans h) ▸ hk

/-- A type that two types and then a third meet in, the first and what the others meet in meet in
too. -/
theorem exists_meet_of_meet (hp : (classPath path).IsProper) (hi : path.HasNoInterfaceAbove)
    (ha : path.KnowsType a) (hb : path.KnowsType b) (hc : path.KnowsType c)
    (h : (classPath path).meet a b = .ok u) (h' : (classPath path).meet u c = .ok w) :
    ∃ v, (classPath path).meet b c = .ok v ∧ (classPath path).meet a v = .ok w := by
  simp only [meet_eq_ok] at h h' ⊢
  have hcomm := commonReference_comm hp.isUnique
  -- by how the first two meet, and then what they meet in with the third
  cases h with
  | same =>
    cases h' with
    | same => exact ⟨_, .same _, .same _⟩
    | nullLeft name => exact ⟨_, .nullLeft name, .nullLeft name⟩
    | nullRight name => exact ⟨_, .nullRight name, .same _⟩
    | objects h => exact ⟨_, .objects h, .objects (commonReference_absorb hp hi ha hc h)⟩
  | nullLeft name =>
    cases h' with
    | same => exact ⟨_, .same _, .nullLeft name⟩
    | nullRight => exact ⟨_, .nullRight name, .nullLeft name⟩
    | objects h => exact ⟨_, .objects h, .nullLeft _⟩
  | nullRight name =>
    cases h' with
    | same => exact ⟨_, .nullLeft name, .same _⟩
    | nullRight => exact ⟨_, .same _, .nullRight name⟩
    | objects h => exact ⟨_, .nullLeft _, .objects h⟩
  | @objects x y z h =>
    cases h' with
    | same =>
      have habsorb := commonReference_absorb hp hi hb ha ((hcomm y x).trans h)
      exact ⟨_, .objects habsorb, .objects (commonReference_absorb hp hi ha hb h)⟩
    | nullRight => exact ⟨_, .nullRight y, .objects h⟩
    | @objects _ third _ h' =>
      obtain ⟨v, hv, -, -⟩ := exists_commonReference hp hi hb hc
      have hassoc := commonReference_assoc hp hi ha hb hc
      rw [h, hv, Option.bind_some, Option.bind_some, h'] at hassoc
      exact ⟨_, .objects hv, .objects hassoc.symm⟩

/-! ### Locals -/

theorem meet_top (h : hierarchy.meet .top a = .ok u) : u = .top := by
  cases meet_eq_ok.mp h
  rfl

theorem meetLocal_eq (h : hierarchy.meet a b = .ok u) : hierarchy.meetLocal a b = u := by
  rw [meetLocal, h]

theorem meetLocal_comm (hu : hierarchy.IsUnique) (a b : FrameType) :
    hierarchy.meetLocal a b = hierarchy.meetLocal b a := by
  cases hab : hierarchy.meet a b with
  | ok u => rw [meetLocal_eq hab, meetLocal_eq (meet_comm hu hab)]
  | error fault =>
    cases hba : hierarchy.meet b a with
    | ok u => exact absurd (hab.symm.trans (meet_comm hu hba)) nofun
    | error fault' => rw [meetLocal, hab, meetLocal, hba]

/-- What cannot be used stays so. -/
theorem meetLocal_top_left (hierarchy : Hierarchy) (a : FrameType) :
    hierarchy.meetLocal .top a = .top := by
  unfold meetLocal
  split
  · rename_i h
    exact meet_top h
  · rfl

/-- A local that can be used after two others arrived comes from types that meet. -/
theorem exists_meet_of_meetLocal (hw : hierarchy.meetLocal (hierarchy.meetLocal a b) c = w)
    (hne : w ≠ .top) : ∃ u, hierarchy.meet a b = .ok u ∧ hierarchy.meet u c = .ok w := by
  cases hab : hierarchy.meet a b with
  | error fault =>
    have htop : hierarchy.meetLocal a b = .top := by rw [meetLocal, hab]
    rw [htop, meetLocal_top_left] at hw
    exact absurd hw.symm hne
  | ok u =>
    rw [meetLocal_eq hab] at hw
    cases huc : hierarchy.meet u c with
    | error fault =>
      rw [meetLocal, huc] at hw
      exact absurd hw.symm hne
    | ok w' =>
      rw [meetLocal_eq huc] at hw
      exact ⟨u, rfl, hw ▸ huc⟩

theorem meetLocal_assoc_of_ne_top (hp : (classPath path).IsProper) (hi : path.HasNoInterfaceAbove)
    (ha : path.KnowsType a) (hb : path.KnowsType b) (hc : path.KnowsType c)
    (hw : (classPath path).meetLocal ((classPath path).meetLocal a b) c = w) (hne : w ≠ .top) :
    (classPath path).meetLocal a ((classPath path).meetLocal b c) = w := by
  obtain ⟨u, h, h'⟩ := exists_meet_of_meetLocal hw hne
  obtain ⟨v, hv, hw⟩ := exists_meet_of_meet hp hi ha hb hc h h'
  rw [meetLocal_eq hv, meetLocal_eq hw]

theorem meetLocal_assoc (hp : (classPath path).IsProper) (hi : path.HasNoInterfaceAbove)
    (ha : path.KnowsType a) (hb : path.KnowsType b) (hc : path.KnowsType c) :
    (classPath path).meetLocal ((classPath path).meetLocal a b) c =
      (classPath path).meetLocal a ((classPath path).meetLocal b c) := by
  have hcomm := meetLocal_comm hp.isUnique
  by_cases hleft : (classPath path).meetLocal ((classPath path).meetLocal a b) c = .top
  · by_contra hne
    -- otherwise the local could be used if the types arrived the other way round
    have hright := meetLocal_assoc_of_ne_top hp hi hc hb ha rfl
      fun htop => hne (by rw [hleft, hcomm a, hcomm b, htop])
    rw [hcomm c, hcomm b a, hcomm c b, hcomm _ a] at hright
    exact hne hright
  · exact (meetLocal_assoc_of_ne_top hp hi ha hb hc rfl hleft).symm

theorem knowsType_meetLocal (hp : (classPath path).IsProper) (hi : path.HasNoInterfaceAbove)
    (ha : path.KnowsType a) (hb : path.KnowsType b) :
    path.KnowsType ((classPath path).meetLocal a b) := by
  unfold meetLocal
  split
  · rename_i h
    exact knowsType_of_meet hp hi ha hb h
  · trivial

end Hierarchy

/-! ### Words -/

namespace Frame

/-- The words that two stacks meet in, word by word. -/
inductive WordsMeetIn (hierarchy : Hierarchy) :
    List FrameType → List FrameType → List FrameType → Prop
  | nil : WordsMeetIn hierarchy [] [] []
  | cons {a b u : FrameType} {first second words : List FrameType}
      (h : hierarchy.meet a b = .ok u) (hrest : WordsMeetIn hierarchy first second words) :
      WordsMeetIn hierarchy (a :: first) (b :: second) (u :: words)

variable {hierarchy : Hierarchy} {path : ClassPath} {first second third words met : List FrameType}

theorem wordsMeetIn_iff : WordsMeetIn hierarchy first second words ↔
    first.length = second.length ∧ List.Forall₂ (fun pair word =>
      hierarchy.meet pair.1 pair.2 = .ok word) (first.zip second) words := by
  constructor
  · intro h
    induction h with
    | nil => exact ⟨rfl, .nil⟩
    | cons h _ ih => exact ⟨congrArg (· + 1) ih.1, .cons h ih.2⟩
  · rintro ⟨hl, h⟩
    induction first generalizing second words with
    | nil =>
      obtain rfl := List.length_eq_zero_iff.mp hl.symm
      cases h
      exact .nil
    | cons a first ih =>
      obtain ⟨b, second, rfl⟩ := List.exists_cons_of_length_eq_add_one hl.symm
      cases h with
      | cons h hrest => exact .cons h (ih (Nat.succ.inj hl) hrest)

theorem WordsMeetIn.symm (hu : hierarchy.IsUnique) (h : WordsMeetIn hierarchy first second words) :
    WordsMeetIn hierarchy second first words := by
  induction h with
  | nil => exact .nil
  | cons h _ ih => exact .cons (Hierarchy.meet_comm hu h) ih

theorem WordsMeetIn.knowsType (hp : (Hierarchy.classPath path).IsProper)
    (hi : path.HasNoInterfaceAbove) (h : WordsMeetIn (.classPath path) first second words)
    (hf : ∀ type ∈ first, path.KnowsType type) (hs : ∀ type ∈ second, path.KnowsType type) :
    ∀ type ∈ words, path.KnowsType type := by
  induction h with
  | nil => exact hf
  | cons h _ ih =>
    rw [List.forall_mem_cons] at hf hs ⊢
    exact ⟨Hierarchy.knowsType_of_meet hp hi hf.1 hs.1 h, ih hf.2 hs.2⟩

theorem WordsMeetIn.exists_assoc (hp : (Hierarchy.classPath path).IsProper)
    (hi : path.HasNoInterfaceAbove) (hf : ∀ type ∈ first, path.KnowsType type)
    (hs : ∀ type ∈ second, path.KnowsType type) (ht : ∀ type ∈ third, path.KnowsType type)
    (h : WordsMeetIn (.classPath path) first second words)
    (h' : WordsMeetIn (.classPath path) words third met) :
    ∃ others, WordsMeetIn (.classPath path) second third others ∧
      WordsMeetIn (.classPath path) first others met := by
  induction h generalizing third met with
  | nil =>
    cases h'
    exact ⟨[], .nil, .nil⟩
  | cons h _ ih =>
    cases h' with
    | cons h' hrest' =>
      rw [List.forall_mem_cons] at hf hs ht
      obtain ⟨v, hv, hw⟩ := Hierarchy.exists_meet_of_meet hp hi hf.1 hs.1 ht.1 h h'
      obtain ⟨others, ho, hm⟩ := ih hf.2 hs.2 ht.2 hrest'
      exact ⟨v :: others, .cons hv ho, .cons hw hm⟩

/-! ### Frames -/

/-- The frame held at an instruction after another one arrived there. -/
def joined (hierarchy : Hierarchy) (held : Option Frame) (arriving : Frame) :
    Except FrameFault (Option Frame) :=
  match held with
  | none => .ok (some arriving)
  | some old => (merge hierarchy old arriving).map some

/-- The frame of an instruction where frames arrived one after another. -/
def gather (hierarchy : Hierarchy) (frames : List Frame) : Except FrameFault (Option Frame) :=
  frames.foldlM (joined hierarchy) none

/-- Whether a frame names known types only and has no half of a wide value among its locals. -/
structure IsKnown (path : ClassPath) (frame : Frame) : Prop where
  holds : frame.Holds path.KnowsType
  paired : FrameType.Paired frame.locals

theorem IsKnown.knowsType_localAt {frame : Frame} (h : frame.IsKnown path) (slot : Nat) :
    path.KnowsType (frame.localAt slot) := by
  rw [localAt, List.getD_eq_getElem?_getD]
  cases hs : frame.locals[slot]? with
  | none => trivial
  | some type => exact h.holds.locals type (List.mem_of_getElem? hs)

variable {first second third merged other : Frame}

/-- What locals meet in is wide only if both are. -/
theorem eq_of_isWide_meetLocal {a b : FrameType} (h : (hierarchy.meetLocal a b).isWide = true) :
    hierarchy.meetLocal a b = a ∧ a = b := by
  unfold Hierarchy.meetLocal at h ⊢
  split at h
  · rename_i hmeet
    cases Hierarchy.meet_eq_ok.mp hmeet with
    | same => exact ⟨rfl, rfl⟩
    | nullLeft => exact absurd h nofun
    | nullRight => exact absurd h nofun
    | objects => exact absurd h nofun
  · exact absurd h nofun

theorem paired_zipWith_meetLocal {slots others : List FrameType} (h : FrameType.Paired slots)
    (h' : FrameType.Paired others) :
    FrameType.Paired (List.zipWith hierarchy.meetLocal slots others) := by
  intro i type hi hw
  obtain ⟨a, b, ha, hb, rfl⟩ := List.getElem?_zipWith_eq_some.mp hi
  obtain ⟨he, rfl⟩ := eq_of_isWide_meetLocal hw
  rw [he] at hw
  rw [List.getElem?_zipWith, h i a ha hw, h' i a hb hw]
  exact congrArg some (Hierarchy.meetLocal_self .top)

/-- What two frames are merged to: their words meet, their locals meet or become unusable, and
nothing is listed after the last local that can be used. -/
structure MergeIn (hierarchy : Hierarchy) (first second merged : Frame) : Prop where
  words : WordsMeetIn hierarchy first.stack second.stack merged.stack
  locals : ∀ slot, merged.localAt slot =
    hierarchy.meetLocal (first.localAt slot) (second.localAt slot)
  paired : FrameType.Paired merged.locals
  trimmed : FrameType.trim merged.locals = merged.locals

/-- A local of a merged frame, where no half of a wide value was lost before. -/
theorem localAt_merged_of_paired (hu : hierarchy.IsUnique) (hf : FrameType.Paired first.locals)
    (hs : FrameType.Paired second.locals) (words : List FrameType) (slot : Nat) :
    localAt ⟨FrameType.trim (FrameType.dropHalves
        (List.zipWith hierarchy.meetLocal first.locals second.locals)), words⟩ slot =
      hierarchy.meetLocal (first.localAt slot) (second.localAt slot) := by
  rw [FrameType.dropHalves_of_paired (paired_zipWith_meetLocal hf hs)]
  simp only [localAt, FrameType.getD_trim]
  simp only [List.getD_eq_getElem?_getD, List.getElem?_zipWith]
  cases first.locals[slot]? with
  | none => exact (Hierarchy.meetLocal_top_left hierarchy _).symm
  | some a =>
    cases second.locals[slot]? with
    | none =>
      rw [Hierarchy.meetLocal_comm hu]
      exact (Hierarchy.meetLocal_top_left hierarchy _).symm
    | some b => rfl

theorem trim_trim {slots : List FrameType} (h : FrameType.Paired slots) :
    FrameType.trim (FrameType.trim slots) = FrameType.trim slots :=
  FrameType.trim_congr (FrameType.paired_trim h) h (FrameType.getD_trim slots)

theorem wordsMeetIn_of_merge (h : merge hierarchy first second = .ok merged) :
    WordsMeetIn hierarchy first.stack second.stack merged.stack := by
  obtain ⟨hl, words, hwords, rfl⟩ := merge_eq_ok.mp h
  have hzip : (first.fromBottom.zip second.fromBottom) =
      (first.stack.zip second.stack).reverse := (List.reverse_zipWith hl).symm
  rw [hzip, ← List.forall₂_reverse_iff, List.reverse_reverse] at hwords
  exact wordsMeetIn_iff.mpr ⟨hl, hwords⟩

theorem merge_iff (hu : hierarchy.IsUnique) (hf : FrameType.Paired first.locals)
    (hs : FrameType.Paired second.locals) :
    merge hierarchy first second = .ok merged ↔ MergeIn hierarchy first second merged := by
  constructor
  · intro h
    -- the locals are known slot by slot, and as they are trimmed that is all there is to them
    refine ⟨wordsMeetIn_of_merge h, fun slot => ?_, paired_merge h, ?_⟩
    · obtain ⟨-, words, -, rfl⟩ := merge_eq_ok.mp h
      exact localAt_merged_of_paired hu hf hs _ slot
    · obtain ⟨-, words, -, rfl⟩ := merge_eq_ok.mp h
      exact trim_trim (FrameType.paired_dropHalves _)
  · rintro ⟨hwords, hlocals, hpaired, htrimmed⟩
    obtain ⟨hl, hwords⟩ := wordsMeetIn_iff.mp hwords
    refine merge_eq_ok.mpr ⟨hl, merged.stack.reverse, ?_, ?_⟩
    · have hzip : (first.fromBottom.zip second.fromBottom) =
          (first.stack.zip second.stack).reverse := (List.reverse_zipWith hl).symm
      rw [hzip, ← List.forall₂_reverse_iff, List.reverse_reverse, List.reverse_reverse]
      exact hwords
    · obtain ⟨locals, stack⟩ := merged
      rw [List.reverse_reverse]
      refine congrArg (Frame.mk · stack) ?_
      refine htrimmed.symm.trans ?_
      refine FrameType.trim_congr hpaired (FrameType.paired_dropHalves _) fun slot => ?_
      have hslot := localAt_merged_of_paired hu hf hs stack slot
      rw [localAt, FrameType.getD_trim] at hslot
      exact (hlocals slot).trans hslot.symm

/-! ### Any order -/

theorem MergeIn.symm (hu : hierarchy.IsUnique) (h : MergeIn hierarchy first second merged) :
    MergeIn hierarchy second first merged :=
  ⟨h.words.symm hu, fun slot => (h.locals slot).trans (Hierarchy.meetLocal_comm hu _ _), h.paired,
    h.trimmed⟩

theorem MergeIn.isKnown (hp : (Hierarchy.classPath path).IsProper) (hi : path.HasNoInterfaceAbove)
    (hf : first.IsKnown path) (hs : second.IsKnown path)
    (h : MergeIn (.classPath path) first second merged) : merged.IsKnown path := by
  refine ⟨⟨fun type ht => ?_, h.words.knowsType hp hi hf.holds.stack hs.holds.stack⟩, h.paired⟩
  obtain ⟨slot, hslot⟩ := List.mem_iff_getElem?.mp ht
  have hat : merged.localAt slot = type := by rw [localAt, List.getD_eq_getElem?_getD, hslot]; rfl
  rw [← hat, h.locals slot]
  exact Hierarchy.knowsType_meetLocal hp hi (hf.knowsType_localAt slot) (hs.knowsType_localAt slot)

/-- Frames with these words and locals. -/
theorem exists_mergeIn (hierarchy : Hierarchy) {words : List FrameType}
    (hf : FrameType.Paired first.locals) (hs : FrameType.Paired second.locals)
    (hu : hierarchy.IsUnique) (hw : WordsMeetIn hierarchy first.stack second.stack words) :
    ∃ merged, MergeIn hierarchy first second merged ∧ merged.stack = words := by
  refine ⟨⟨_, words⟩, ⟨hw, localAt_merged_of_paired hu hf hs words,
    FrameType.paired_trim (FrameType.paired_dropHalves _),
    trim_trim (FrameType.paired_dropHalves _)⟩, rfl⟩

/-- A frame that two frames and then a third are merged to, the first and what the others are
merged to are merged to too. -/
theorem MergeIn.exists_assoc (hp : (Hierarchy.classPath path).IsProper)
    (hi : path.HasNoInterfaceAbove) (hf : first.IsKnown path) (hs : second.IsKnown path)
    (ht : third.IsKnown path) (h : MergeIn (.classPath path) first second other)
    (h' : MergeIn (.classPath path) other third merged) :
    ∃ rest, MergeIn (.classPath path) second third rest ∧
      MergeIn (.classPath path) first rest merged := by
  obtain ⟨words, hwords, hmet⟩ := WordsMeetIn.exists_assoc hp hi hf.holds.stack hs.holds.stack
    ht.holds.stack h.words h'.words
  obtain ⟨rest, hrest, rfl⟩ := exists_mergeIn _ hs.paired ht.paired hp.isUnique hwords
  refine ⟨rest, hrest, hmet, fun slot => ?_, h'.paired, h'.trimmed⟩
  rw [h'.locals, h.locals, hrest.locals]
  exact Hierarchy.meetLocal_assoc hp hi (hf.knowsType_localAt slot) (hs.knowsType_localAt slot)
    (ht.knowsType_localAt slot)

theorem joined_some_eq_ok (hu : hierarchy.IsUnique) (hf : FrameType.Paired first.locals)
    (hs : FrameType.Paired second.locals) {held : Option Frame} :
    joined hierarchy (some first) second = .ok held ↔
      ∃ merged, MergeIn hierarchy first second merged ∧ held = some merged := by
  simp only [joined, Except.map_eq_ok, merge_iff hu hf hs, eq_comm (a := held)]

theorem isKnown_joined (hp : (Hierarchy.classPath path).IsProper) (hi : path.HasNoInterfaceAbove)
    {held joint : Option Frame} (hh : ∀ frame ∈ held, frame.IsKnown path) (hs : second.IsKnown path)
    (h : joined (.classPath path) held second = .ok joint) :
    ∀ frame ∈ joint, frame.IsKnown path := by
  cases held with
  | none =>
    obtain rfl := Except.ok.inj h
    rintro frame ⟨⟩
    exact hs
  | some first =>
    have hf := hh first rfl
    obtain ⟨merged, hm, rfl⟩ := (joined_some_eq_ok hp.isUnique hf.paired hs.paired).mp h
    rintro frame ⟨⟩
    exact hm.isKnown hp hi hf hs

/-- Of two frames that arrive one after another, either can be the first. -/
theorem joined_swap (hp : (Hierarchy.classPath path).IsProper) (hi : path.HasNoInterfaceAbove)
    {held joint result : Option Frame} (hh : ∀ frame ∈ held, frame.IsKnown path)
    (hs : second.IsKnown path) (ht : third.IsKnown path)
    (h : joined (.classPath path) held second = .ok joint)
    (h' : joined (.classPath path) joint third = .ok result) :
    ∃ other, joined (.classPath path) held third = .ok other ∧
      joined (.classPath path) other second = .ok result := by
  have hu := hp.isUnique
  cases held with
  | none =>
    obtain rfl := Except.ok.inj h
    obtain ⟨merged, hm, rfl⟩ := (joined_some_eq_ok hu hs.paired ht.paired).mp h'
    exact ⟨some third, rfl, (joined_some_eq_ok hu ht.paired hs.paired).mpr ⟨_, hm.symm hu, rfl⟩⟩
  | some first =>
    have hf := hh first rfl
    obtain ⟨merged, hm, rfl⟩ := (joined_some_eq_ok hu hf.paired hs.paired).mp h
    obtain ⟨final, hfinal, rfl⟩ :=
      (joined_some_eq_ok hu (hm.isKnown hp hi hf hs).paired ht.paired).mp h'
    -- the first frame comes last, and then changes places with what the others are merged to
    obtain ⟨rest, hrest, hlast⟩ := hm.exists_assoc hp hi hf hs ht hfinal
    obtain ⟨other, hother, hback⟩ := hrest.exists_assoc hp hi hs ht hf (hlast.symm hu)
    refine ⟨some other, ?_, ?_⟩
    · exact (joined_some_eq_ok hu hf.paired ht.paired).mpr ⟨other, hother.symm hu, rfl⟩
    · exact (joined_some_eq_ok hu hother.paired hs.paired).mpr ⟨final, hback.symm hu, rfl⟩

theorem foldlM_joined_perm (hp : (Hierarchy.classPath path).IsProper)
    (hi : path.HasNoInterfaceAbove) {frames frames' : List Frame} (hperm : frames.Perm frames')
    (hknown : ∀ frame ∈ frames, frame.IsKnown path) {held result : Option Frame}
    (hh : ∀ frame ∈ held, frame.IsKnown path)
    (h : frames.foldlM (joined (.classPath path)) held = .ok result) :
    frames'.foldlM (joined (.classPath path)) held = .ok result := by
  induction hperm generalizing held with
  | nil => exact h
  | cons frame hperm ih =>
    obtain ⟨hframe, hrest⟩ := List.forall_mem_cons.mp hknown
    rw [List.foldlM_cons, Except.bind_eq_ok] at h ⊢
    obtain ⟨joint, hjoint, h⟩ := h
    exact ⟨joint, hjoint, ih hrest (isKnown_joined hp hi hh hframe hjoint) h⟩
  | swap first second rest =>
    obtain ⟨hs, hknown⟩ := List.forall_mem_cons.mp hknown
    obtain ⟨hf, -⟩ := List.forall_mem_cons.mp hknown
    simp only [List.foldlM_cons, Except.bind_eq_ok] at h ⊢
    obtain ⟨joint, hjoint, next, hnext, h⟩ := h
    obtain ⟨other, hother, hnext'⟩ := joined_swap hp hi hh hs hf hjoint hnext
    exact ⟨other, hother, next, hnext', h⟩
  | trans hperm _ ih ih' =>
    exact ih' (fun frame hin => hknown frame (hperm.mem_iff.mpr hin)) hh (ih hknown hh h)

/-- The order in which frames arrive does not matter to the frame that they gather to. -/
theorem gather_perm (hp : (Hierarchy.classPath path).IsProper) (hi : path.HasNoInterfaceAbove)
    {frames frames' : List Frame} (hperm : frames.Perm frames')
    (hknown : ∀ frame ∈ frames, frame.IsKnown path) {result : Option Frame} :
    gather (.classPath path) frames = .ok result ↔
      gather (.classPath path) frames' = .ok result := by
  have hknown' : ∀ frame ∈ frames', frame.IsKnown path := fun frame hin =>
    hknown frame (hperm.mem_iff.mpr hin)
  exact ⟨foldlM_joined_perm hp hi hperm hknown nofun,
    foldlM_joined_perm hp hi hperm.symm hknown' nofun⟩

end Frame

/-! ### Merging -/

namespace Hierarchy

/-- With a class path on which no class has an array type or an interface above it, the types that
name known classes meet as in a lattice: null, class and array types always meet, in a type that
holds both; one with itself in itself, two the same way in either order, and three whichever two
meet first.  So the frame where paths meet is the same in whatever order they arrive. -/
theorem meets_in_any_order {path : ClassPath} (hb : (classPath path).IsBuilt)
    (hc : (classPath path).HasClassSupers) (hi : path.HasNoInterfaceAbove) :
    (∀ a : FrameType, (classPath path).meet a a = .ok a) ∧
    (∀ a b : FrameType, a.IsObjectOrNull → b.IsObjectOrNull → path.KnowsType a →
      path.KnowsType b → ∃ u, (classPath path).meet a b = .ok u ∧
        (classPath path).meet b a = .ok u ∧ u.IsObjectOrNull ∧ path.KnowsType u ∧
        (classPath path).accepts a u = true ∧ (classPath path).accepts b u = true) ∧
    (∀ a b c : FrameType, a.IsObjectOrNull → b.IsObjectOrNull → c.IsObjectOrNull →
      path.KnowsType a → path.KnowsType b → path.KnowsType c →
      ∃ u v w, (classPath path).meet a b = .ok u ∧ (classPath path).meet u c = .ok w ∧
        (classPath path).meet b c = .ok v ∧ (classPath path).meet a v = .ok w) ∧
    ∀ frames frames' : List Frame, frames.Perm frames' →
      (∀ frame ∈ frames, frame.IsKnown path) → ∀ result,
      Frame.gather (classPath path) frames = .ok result ↔
        Frame.gather (classPath path) frames' = .ok result := by
  have hp := hb.isProper hc
  refine ⟨meet_self, fun a b hoa hob ha hb => ?_, fun a b c hoa hob hoc ha hb hc => ?_,
    fun frames frames' hperm hknown result => Frame.gather_perm hp hi hperm hknown⟩
  · obtain ⟨u, hu, hrest⟩ := exists_meet hp hi hoa hob ha hb
    exact ⟨u, hu, meet_comm hp.isUnique hu, hrest⟩
  · obtain ⟨u, hu, hou, hku, -⟩ := exists_meet hp hi hoa hob ha hb
    obtain ⟨w, hw, -⟩ := exists_meet hp hi hou hoc hku hc
    obtain ⟨v, hv, hav⟩ := exists_meet_of_meet hp hi ha hb hc hu hw
    exact ⟨u, v, w, hu, hw, hv, hav⟩

end Hierarchy

/-! ### Two classes below a third one -/

namespace Meeting

/-- Both classes are below a third one. -/
def path (upper : Bytes) : ClassPath :=
  [⟨upper, none, false⟩, ⟨first, some upper, false⟩, ⟨second, some upper, false⟩].foldl
    ClassPath.add []

theorem knows_of_supers {upper name : Bytes} (h : Descriptor.isArray name = false)
    (hc : ((path upper).supers name).isSome = true) : (path upper).KnowsType (.object name) :=
  (ClassPath.knows_of_class h).mpr (Option.isSome_iff_exists.mp hc)

/-- Classes below a class meet in one that holds the objects of both. -/
theorem meets_in_any_order_below_class :
    (hierarchy (Bytes.ofAscii "P")).IsBuilt ∧ (hierarchy (Bytes.ofAscii "P")).HasClassSupers ∧
      (path (Bytes.ofAscii "P")).HasNoInterfaceAbove ∧
      ∃ u, (hierarchy (Bytes.ofAscii "P")).meet (.object first) (.object second) = .ok u ∧
        (hierarchy (Bytes.ofAscii "P")).meet (.object second) (.object first) = .ok u ∧
        (hierarchy (Bytes.ofAscii "P")).accepts (.object first) u = true ∧
        (hierarchy (Bytes.ofAscii "P")).accepts (.object second) u = true := by
  have hb := isBuilt_hierarchy (Bytes.ofAscii "P")
  have hc : (hierarchy (Bytes.ofAscii "P")).HasClassSupers := by
    unfold Hierarchy.HasClassSupers hierarchy
    decide +kernel
  have hi : (path (Bytes.ofAscii "P")).HasNoInterfaceAbove := by
    unfold ClassPath.HasNoInterfaceAbove path
    decide +kernel
  have hfirst : (path (Bytes.ofAscii "P")).KnowsType (.object first) :=
    knows_of_supers (by decide) (by decide +kernel)
  have hsecond : (path (Bytes.ofAscii "P")).KnowsType (.object second) :=
    knows_of_supers (by decide) (by decide +kernel)
  have h : (Hierarchy.classPath (path (Bytes.ofAscii "P"))).IsBuilt := hb
  obtain ⟨u, hu, hu', -, -, hf, hs⟩ := (Hierarchy.meets_in_any_order h hc hi).2.1
    (.object first) (.object second) trivial trivial hfirst hsecond
  exact ⟨hb, hc, hi, u, hu, hu', hf, hs⟩

/-- Classes below an array type meet in it, although neither can be used as an array. -/
theorem not_accepts_below_array :
    (hierarchy (Bytes.ofAscii "[I")).IsBuilt ∧ (path (Bytes.ofAscii "[I")).HasNoInterfaceAbove ∧
      (path (Bytes.ofAscii "[I")).KnowsType (.object first) ∧
      (path (Bytes.ofAscii "[I")).KnowsType (.object second) ∧
      ∃ u, (hierarchy (Bytes.ofAscii "[I")).meet (.object first) (.object second) = .ok u ∧
        (hierarchy (Bytes.ofAscii "[I")).accepts (.object first) u = false := by
  refine ⟨isBuilt_hierarchy _, ?_, knows_of_supers (by decide) (by decide +kernel),
    knows_of_supers (by decide) (by decide +kernel), .object (Bytes.ofAscii "[I"), ?_, ?_⟩
  · unfold ClassPath.HasNoInterfaceAbove path
    decide +kernel
  · decide +kernel
  · decide +kernel

end Meeting

end ClassGraft

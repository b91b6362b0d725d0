import ClassGraft.Frame.Merge
import Mathlib.Data.List.Nodup
import Mathlib.Logic.Relation
import Mathlib.Tactic.SplitIfs

/-!
# The order of class and array types

`Hierarchy.Extends` relates a class to the classes above it, an array to the arrays of what its
elements extend, and everything to the root of all classes.  It is the order that merging moves
along: what two types have in common extends neither less than both (`extends_commonReference`), and
a type can be used wherever one that it extends is declared (`assignableReference_of_extends`).

Both need that no class has an array type above it, since arrays extend nothing but arrays and are
extended by nothing else (`Hierarchy.IsProper`).
-/

namespace ClassGraft

/-! ### Classes by name -/

namespace ClassPath

/-- The class directly above another one, as far as that is known. -/
def Super (path : ClassPath) (name above : Bytes) : Prop :=
  name ≠ objectName ∧ ∃ entry, path.find? name = some entry ∧ entry.super.getD objectName = above

/-- A class and one that is reached from it by going up any number of times. -/
def Above (path : ClassPath) : Bytes → Bytes → Prop := Relation.ReflTransGen path.Super

/-- Every name is that of one class. -/
def HasUniqueNames (path : ClassPath) : Prop := (path.map ClassEntry.name).Nodup

theorem hasUniqueNames_add {path : ClassPath} (h : path.HasUniqueNames) (entry : ClassEntry) :
    (path.add entry).HasUniqueNames := by
  unfold HasUniqueNames add at *
  rw [List.map_append, List.nodup_append]
  refine ⟨h.sublist (List.filter_sublist.map _), List.nodup_singleton _, ?_⟩
  intro name hname other hother he
  simp only [List.map_cons, List.map_nil, List.mem_singleton] at hother
  obtain ⟨found, hf, rfl⟩ := List.mem_map.mp hname
  have hne := (List.mem_filter.mp hf).2
  rw [he, hother] at hne
  simp at hne

theorem hasUniqueNames_foldl_add (entries : List ClassEntry) {path : ClassPath}
    (h : path.HasUniqueNames) : HasUniqueNames (entries.foldl add path) := by
  induction entries generalizing path with
  | nil => exact h
  | cons entry rest ih => exact ih (hasUniqueNames_add h entry)

theorem find?_eq_some_of_mem {path : ClassPath} (h : path.HasUniqueNames) {entry : ClassEntry}
    (hm : entry ∈ path) : path.find? entry.name = some entry := by
  induction path with
  | nil => simp at hm
  | cons first rest ih =>
    obtain ⟨hfirst, hrest⟩ := List.nodup_cons.mp h
    rcases List.mem_cons.mp hm with rfl | hm
    · simp [find?]
    · have hne : first.name ≠ entry.name := fun he => hfirst (he ▸ List.mem_map_of_mem hm)
      have := ih hrest hm
      simpa [find?, List.find?_cons, hne] using this

/-! ### Chains of super classes -/

/-- What holds of the root, and of a class with a chain if it holds of the class above with the rest
of it, holds of every chain that `supers` gives. -/
theorem supers_induction {path : ClassPath} (h : path.HasUniqueNames)
    {motive : Bytes → List Bytes → Prop} (root : motive objectName [objectName])
    (step : ∀ name entry rest, name ≠ objectName → path.find? name = some entry →
      motive (entry.super.getD objectName) rest → motive name (name :: rest))
    {name : Bytes} {chain : List Bytes} (hc : path.supers name = some chain) :
    motive name chain := by
  -- `supers` goes on with a part of the path, in which less is known
  suffices hg : ∀ (length : Nat) (part : ClassPath) (name : Bytes) (chain : List Bytes),
      part.length = length → part.Sublist path → part.supers name = some chain →
      motive name chain from hg _ path name chain rfl (.refl _) hc
  intro length
  induction length using Nat.strongRecOn with
  | ind length ih =>
  intro part name chain hl hs hc
  rw [supers] at hc
  split_ifs at hc with ho
  · obtain rfl := Option.some.inj hc
    rw [ho]
    exact root
  · split at hc
    · simp at hc
    · rename_i index hi
      have hlt : index < part.length := (List.findIdx?_eq_some_iff_findIdx_eq.mp hi).1
      obtain ⟨rest, hr, rfl⟩ := Option.map_eq_some_iff.mp hc
      have hat : part[index].name = name := by
        have := (List.findIdx?_eq_some_iff_getElem.mp hi).2.1
        simpa using this
      have hf : path.find? name = some part[index] := by
        rw [← hat]
        exact find?_eq_some_of_mem h (hs.subset (List.getElem_mem hlt))
      refine step name _ rest ho hf (ih _ ?_ _ _ _ rfl ((List.eraseIdx_sublist _ _).trans hs) hr)
      rw [List.length_eraseIdx_of_lt hlt]
      omega

theorem head_mem_supers {path : ClassPath} (h : path.HasUniqueNames) {name : Bytes}
    {chain : List Bytes} (hc : path.supers name = some chain) : name ∈ chain :=
  supers_induction h (motive := fun name chain => name ∈ chain) (List.mem_singleton_self _)
    (fun _ _ _ _ _ _ => List.mem_cons_self) hc

/-- Every class of a chain is reached from its first one. -/
theorem above_of_mem_supers {path : ClassPath} (h : path.HasUniqueNames) {name above : Bytes}
    {chain : List Bytes} (hc : path.supers name = some chain) (hm : above ∈ chain) :
    path.Above name above := by
  refine supers_induction h (motive := fun name chain => above ∈ chain → path.Above name above)
    ?_ ?_ hc hm
  · intro hm
    rw [List.mem_singleton.mp hm]
    exact .refl
  · intro name entry rest ho hf ih hm
    rcases List.mem_cons.mp hm with rfl | hm
    · exact .refl
    · exact .head ⟨ho, entry, hf, rfl⟩ (ih hm)

/-- A chain goes on with the class above each of its classes. -/
theorem mem_supers_of_super {path : ClassPath} (h : path.HasUniqueNames) {name lower upper : Bytes}
    {chain : List Bytes} (hc : path.supers name = some chain) (hm : lower ∈ chain)
    (hs : path.Super lower upper) : upper ∈ chain := by
  obtain ⟨ho, entry, hf, rfl⟩ := hs
  refine (supers_induction h (motive := fun name chain => name ∈ chain ∧
    (lower ∈ chain → entry.super.getD objectName ∈ chain)) ?_ ?_ hc).2 hm
  · exact ⟨List.mem_singleton_self _, fun hm => absurd (List.mem_singleton.mp hm) ho⟩
  · intro name entry' rest _ hf' ih
    refine ⟨List.mem_cons_self, fun hm => List.mem_cons_of_mem _ ?_⟩
    rcases List.mem_cons.mp hm with rfl | hm
    · rw [Option.some.inj (hf.symm.trans hf')]
      exact ih.1
    · exact ih.2 hm

/-- A chain holds all that is reached from its first class. -/
theorem mem_supers_of_above {path : ClassPath} (h : path.HasUniqueNames) {name above : Bytes}
    {chain : List Bytes} (hc : path.supers name = some chain) (ha : path.Above name above) :
    above ∈ chain := by
  induction ha with
  | refl => exact head_mem_supers h hc
  | tail _ hs ih => exact mem_supers_of_super h hc ih hs

/-- Nothing is above the root of all classes. -/
theorem eq_objectName_of_above {path : ClassPath} {above : Bytes}
    (h : path.Above objectName above) : above = objectName := by
  rcases Relation.ReflTransGen.cases_head h with rfl | ⟨_, ⟨hne, -⟩, -⟩
  · rfl
  · exact absurd rfl hne

end ClassPath

/-! ### Array types -/

namespace Descriptor

theorem isArray_of_elementName? {array name : Bytes} (h : elementName? array = some name) :
    isArray array = true := by
  obtain ⟨element, he, -⟩ := Option.bind_eq_some_iff.mp h
  simp [isArray, he]

theorem className?_ofClass (name : Bytes) : className? (ofClass name) = some name := by
  unfold ofClass
  split_ifs with hb
  · obtain ⟨rest, rfl⟩ := List.head?_eq_some_iff.mp hb
    simp [className?]
  · simp [className?, classMark, bracket]

theorem ofClass_ne_nil (name : Bytes) : ofClass name ≠ [] := by
  intro h
  have := className?_ofClass name
  simp [h, className?] at this

/-- The elements of an array of a class or array type are of that type. -/
theorem elementName?_arrayOf (name : Bytes) : elementName? (arrayOf name) = some name := by
  have he : element? (arrayOf name) = some (ofClass name) := by
    simp [element?, arrayOf, ofClass_ne_nil]
  rw [elementName?, he, Option.bind_some, className?_ofClass]

theorem isArray_objectName : isArray objectName = false := by decide

end Descriptor

/-! ### The order -/

namespace Hierarchy

/-- The class or array types that a value of one also has. -/
inductive Extends (hierarchy : Hierarchy) : Bytes → Bytes → Prop
  | refl (name : Bytes) : Extends hierarchy name name
  | object (name : Bytes) : Extends hierarchy name objectName
  | above {path : ClassPath} {name upper : Bytes} (hh : hierarchy = .classPath path)
      (hn : Descriptor.isArray name = false) (ha : path.Above name upper) :
      Extends hierarchy name upper
  | array {lower upper element above : Bytes} (hl : Descriptor.elementName? lower = some element)
      (hu : Descriptor.elementName? upper = some above) (he : Extends hierarchy element above) :
      Extends hierarchy lower upper

/-- Every class is known once, and none has an array type directly above it. -/
def IsProper : Hierarchy → Prop
  | unknown => True
  | classPath path => path.HasUniqueNames ∧
      ∀ entry ∈ path, ∀ name, entry.super = some name → Descriptor.isArray name = false

variable {hierarchy : Hierarchy}

theorem IsProper.hasUniqueNames {path : ClassPath} (h : (classPath path).IsProper) :
    path.HasUniqueNames := h.1

/-- What is reached from a class is not an array type. -/
theorem IsProper.isArray_of_above {path : ClassPath} (h : (classPath path).IsProper)
    {name upper : Bytes} (hn : Descriptor.isArray name = false) (ha : path.Above name upper) :
    Descriptor.isArray upper = false := by
  induction ha with
  | refl => exact hn
  | tail _ hs _ =>
    obtain ⟨-, entry, hf, rfl⟩ := hs
    cases he : entry.super with
    | none => exact Descriptor.isArray_objectName
    | some name => exact h.2 entry (List.mem_of_find?_eq_some hf) name he

/-- Nothing but the root is above the root. -/
theorem Extends.eq_objectName {name : Bytes} (h : hierarchy.Extends objectName name) :
    name = objectName := by
  cases h with
  | refl => rfl
  | object => rfl
  | above _ _ ha => exact ClassPath.eq_objectName_of_above ha
  | array hl _ _ =>
    have := Descriptor.isArray_of_elementName? hl
    rw [Descriptor.isArray_objectName] at this
    exact absurd this (by simp)

theorem Extends.trans (hp : hierarchy.IsProper) {a b c : Bytes} (h : hierarchy.Extends a b)
    (h' : hierarchy.Extends b c) : hierarchy.Extends a c := by
  induction h generalizing c with
  | refl => exact h'
  | object =>
    rw [h'.eq_objectName]
    exact .object _
  | above hh hn ha =>
    subst hh
    cases h' with
    | refl => exact .above rfl hn ha
    | object => exact .object _
    | above hh' _ ha' =>
      obtain rfl := Hierarchy.classPath.inj hh'
      exact .above rfl hn (Relation.ReflTransGen.trans ha ha')
    | array hl _ _ =>
      -- what is above a class is a class
      have := Descriptor.isArray_of_elementName? hl
      rw [hp.isArray_of_above hn ha] at this
      exact absurd this (by simp)
  | array hl hu he ih =>
    cases h' with
    | refl => exact .array hl hu he
    | object => exact .object _
    | above _ hn _ =>
      rw [Descriptor.isArray_of_elementName? hu] at hn
      exact absurd hn (by simp)
    | array hl' hu' he' =>
      obtain rfl := Option.some.inj (hu.symm.trans hl')
      exact .array hl hu' (ih he')

/-! ### What two types have in common -/

open Descriptor

variable {a b x y : Bytes}

theorem common_self (hierarchy : Hierarchy) (a : Bytes) : hierarchy.common a a = some a := by
  cases hierarchy <;> simp [common]

theorem common_objectName (h : a = objectName ∨ b = objectName) :
    hierarchy.common a b = some objectName := by
  by_cases hab : a = b
  · subst hab
    rw [common_self, or_self_iff.mp h]
  · cases hierarchy with
    | unknown => simp only [common, if_neg hab, if_pos h]
    | classPath path =>
      simp only [common, if_neg hab]
      rw [if_pos (h.elim .inl fun h => .inr (.inl h))]

/-- Whether two types are of different kinds: a class and an array, or two arrays not both of which
have elements of class or array types. -/
structure IsApart (a b : Bytes) : Prop where
  ne : a ≠ b
  classes : ¬(isArray a = false ∧ isArray b = false)
  elements : ¬((elementName? a).isSome ∧ (elementName? b).isSome)

theorem IsApart.symm (h : IsApart a b) : IsApart b a :=
  ⟨h.ne.symm, fun hc => h.classes hc.symm, fun he => h.elements he.symm⟩

/-- How two types can be related by their kinds. -/
theorem kinds (a b : Bytes) : a = b ∨ (isArray a = false ∧ isArray b = false) ∨
    (a ≠ b ∧ ∃ x y, elementName? a = some x ∧ elementName? b = some y) ∨ IsApart a b := by
  by_cases hab : a = b
  · exact .inl hab
  by_cases hclasses : isArray a = false ∧ isArray b = false
  · exact .inr (.inl hclasses)
  by_cases helements : (elementName? a).isSome ∧ (elementName? b).isSome
  · obtain ⟨x, hx⟩ := Option.isSome_iff_exists.mp helements.1
    obtain ⟨y, hy⟩ := Option.isSome_iff_exists.mp helements.2
    exact .inr (.inr (.inl ⟨hab, x, y, hx, hy⟩))
  · exact .inr (.inr (.inr ⟨hab, hclasses, helements⟩))

theorem commonReference_self (hierarchy : Hierarchy) (a : Bytes) :
    hierarchy.commonReference a a = some a := by
  rw [commonReference, if_pos rfl]

theorem commonReference_objectName (h : a = objectName ∨ b = objectName) :
    hierarchy.commonReference a b = some objectName := by
  rw [commonReference]
  split_ifs with hab
  · rcases h with rfl | rfl
    · rfl
    · rw [hab]
  · rfl

theorem commonReference_of_classes (ha : isArray a = false) (hb : isArray b = false) :
    hierarchy.commonReference a b = hierarchy.common a b := by
  rw [commonReference]
  simp only [ha, hb, Bool.false_eq_true, and_self, or_self, if_false]
  split_ifs with hab ho
  · rw [hab, common_self]
  · exact (common_objectName ho).symm
  · rfl

theorem commonReference_of_elements (hne : a ≠ b) (ha : elementName? a = some x)
    (hb : elementName? b = some y) :
    hierarchy.commonReference a b = (hierarchy.commonReference x y).map arrayOf := by
  have harrA := isArray_of_elementName? ha
  have harrB := isArray_of_elementName? hb
  have ho : ¬(a = objectName ∨ b = objectName) := by
    rintro (rfl | rfl)
    · exact absurd (harrA.symm.trans isArray_objectName) nofun
    · exact absurd (harrB.symm.trans isArray_objectName) nofun
  rw [commonReference, if_neg hne, if_neg ho, if_pos ⟨harrA, harrB⟩]
  split
  · rename_i x' y' hx hy
    rw [Option.some.inj (ha.symm.trans hx), Option.some.inj (hb.symm.trans hy)]
  · rename_i hnone
    exact (hnone x y ha hb).elim

/-- Types of different kinds only have the root in common. -/
theorem IsApart.commonReference (h : IsApart a b) :
    hierarchy.commonReference a b = some objectName := by
  rw [Hierarchy.commonReference, if_neg h.ne]
  split_ifs with ho hboth hone
  · rfl
  · split
    · rename_i x y hx hy
      exact absurd ⟨by rw [hx]; rfl, by rw [hy]; rfl⟩ h.elements
    · rfl
  · rfl
  · exact absurd (by simpa using hone) h.classes

/-- What two classes have in common is above both. -/
theorem extends_common (hp : hierarchy.IsProper) {a b name : Bytes}
    (ha : isArray a = false) (hb : isArray b = false)
    (h : hierarchy.common a b = some name) :
    hierarchy.Extends a name ∧ hierarchy.Extends b name := by
  cases hierarchy with
  | unknown =>
    simp only [common] at h
    split_ifs at h with he ho
    · obtain rfl := Option.some.inj h
      exact ⟨.refl _, he ▸ .refl _⟩
    · obtain rfl := Option.some.inj h
      exact ⟨.object _, .object _⟩
  | classPath path =>
    simp only [common] at h
    split_ifs at h with he ho
    · obtain rfl := Option.some.inj h
      exact ⟨.refl _, he ▸ .refl _⟩
    · obtain rfl := Option.some.inj h
      exact ⟨.object _, .object _⟩
    · -- the first class in the chain of one that stands in the chain of the other
      obtain ⟨aboveA, hca, h⟩ := Option.bind_eq_some_iff.mp h
      obtain ⟨aboveB, hcb, h⟩ := Option.bind_eq_some_iff.mp h
      have hma : name ∈ aboveA := by simpa using List.find?_some h
      have hmb : name ∈ aboveB := List.mem_of_find?_eq_some h
      exact ⟨.above rfl ha (ClassPath.above_of_mem_supers hp.hasUniqueNames hca hma),
        .above rfl hb (ClassPath.above_of_mem_supers hp.hasUniqueNames hcb hmb)⟩

theorem extends_commonReference (hp : hierarchy.IsProper) {a b name : Bytes}
    (h : hierarchy.commonReference a b = some name) :
    hierarchy.Extends a name ∧ hierarchy.Extends b name := by
  rcases kinds a b with rfl | ⟨ha, hb⟩ | ⟨hne, x, y, hx, hy⟩ | hapart
  · rw [commonReference_self] at h
    obtain rfl := Option.some.inj h
    exact ⟨.refl _, .refl _⟩
  · rw [commonReference_of_classes ha hb] at h
    exact extends_common hp ha hb h
  · rw [commonReference_of_elements hne hx hy] at h
    obtain ⟨common, hc, rfl⟩ := Option.map_eq_some_iff.mp h
    obtain ⟨hxc, hyc⟩ := extends_commonReference hp hc
    have he := elementName?_arrayOf common
    exact ⟨.array hx he hxc, .array hy he hyc⟩
  · rw [hapart.commonReference] at h
    obtain rfl := Option.some.inj h
    exact ⟨.object _, .object _⟩
  termination_by a.length
  decreasing_by exact length_of_elementName? hx

/-! ### Where a type can be used -/

/-- A class can be used as what is above it. -/
theorem assignable_of_above (hp : hierarchy.IsProper) {path : ClassPath} {name upper : Bytes}
    (hh : hierarchy = .classPath path) (ha : path.Above name upper) :
    hierarchy.assignable name upper ≠ some false := by
  subst hh
  simp only [assignable]
  split_ifs
  · simp
  · simp
  · cases hc : path.supers name with
    | none => simp
    | some chain => simp [ClassPath.mem_supers_of_above hp.hasUniqueNames hc ha]

theorem assignableReference_of_extends (hp : hierarchy.IsProper) {a b : Bytes}
    (h : hierarchy.Extends a b) : hierarchy.assignableReference a b ≠ some false := by
  induction h with
  | refl => simp [assignableReference]
  | object => simp [assignableReference]
  | @above path name upper hh hn ha =>
    have hu : isArray upper = false := by
      subst hh
      exact hp.isArray_of_above hn ha
    rw [assignableReference]
    simp only [hn, hu, Bool.false_eq_true, false_and, if_false]
    split_ifs
    · simp
    · exact assignable_of_above hp hh ha
  | @array lower upper element above hl hu he ih =>
    rw [assignableReference]
    have hla := isArray_of_elementName? hl
    have hua := isArray_of_elementName? hu
    simp only [hla, hua, and_self, if_true]
    split_ifs
    · simp
    · split
      · rename_i x y hx hy
        obtain rfl := Option.some.inj (hl.symm.trans hx)
        obtain rfl := Option.some.inj (hu.symm.trans hy)
        exact ih
      · rename_i hnone
        exact (hnone element above hl hu).elim

end Hierarchy

end ClassGraft

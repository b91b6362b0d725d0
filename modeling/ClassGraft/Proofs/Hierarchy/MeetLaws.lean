import ClassGraft.Proofs.Hierarchy.Dimensions

/-!
# Laws of meeting

Where every class that occurs is known up to the root, and no class has an interface or an array
type above it, any two class or array types have something in common, and it does not matter in
which order several are compared: `Hierarchy.commonReference` gives the same for both orders of its
arguments (`Hierarchy.commonReference_comm`), and is associative
(`Hierarchy.commonReference_assoc`).

Types of different kinds (`Hierarchy.IsApart`) only have the root in common.  Of two classes it is
the lowest one above both, and of two arrays the array of what their elements have in common, up to
the spelling: an array type that meets itself keeps its spelling, and with another one loses it.
-/

namespace ClassGraft

open Descriptor

/-! ### Classes -/

namespace ClassPath

variable {path : ClassPath} {a b c name upper upper' : Bytes} {chain : List Bytes}

/-- Whether no class that is known has an interface as its super class. -/
def HasNoInterfaceAbove (path : ClassPath) : Prop :=
  ∀ entry ∈ path, ∀ name, entry.super = some name → path.isInterface name = false

/-- Whether a class meets others where their chains meet: the root does, and what is no
interface. -/
def IsPlain (path : ClassPath) (name : Bytes) : Prop :=
  name = objectName ∨ path.isInterface name = false

theorem name_of_find? {entry : ClassEntry} (h : path.find? name = some entry) :
    entry.name = name :=
  eq_of_beq (List.find?_some (p := fun entry : ClassEntry => entry.name == name) h)

/-- The chain of a class goes on with that of its super class, among the other classes. -/
theorem supers_eq (path : ClassPath) (name : Bytes) : path.supers name =
    if name = objectName then some [name]
    else (path.find? name).bind fun entry =>
      (supers (path.eraseP (·.name == name)) (entry.super.getD objectName)).map (name :: ·) := by
  rw [supers]
  split_ifs with ho
  · rfl
  split
  · rename_i hnone
    rw [List.findIdx?_eq_none_iff] at hnone
    have hfind : path.find? name = none := List.find?_eq_none.mpr fun entry hin => by
      simpa using hnone entry hin
    rw [hfind]
    rfl
  · rename_i index hindex
    obtain ⟨hlt, hat⟩ := List.findIdx?_eq_some_iff_findIdx_eq.mp hindex
    have hfind : path.find? name = some path[index] := by
      rw [find?, List.find?_eq_getElem?_findIdx, hat, List.getElem?_eq_getElem hlt]
    have herase : path.eraseP (·.name == name) = path.eraseIdx index := by
      rw [List.eraseP_eq_eraseIdx, hindex]
    rw [hfind, herase]
    rfl

/-- What is known of a class without some others is known with them. -/
theorem supers_of_sublist {part : ClassPath} (h : path.HasUniqueNames) (hs : part.Sublist path)
    (hc : part.supers name = some chain) : path.supers name = some chain := by
  -- on the length of the part, from which `supers` takes a class away
  induction hl : part.length using Nat.strong_induction_on generalizing part path name chain with
  | _ length ih =>
  rw [supers_eq] at hc ⊢
  split_ifs at hc ⊢ with ho
  · exact hc
  obtain ⟨entry, hfind, hrest⟩ := Option.bind_eq_some_iff.mp hc
  obtain ⟨rest, hrest', rfl⟩ := Option.map_eq_some_iff.mp hrest
  have hname : (entry.name == name) = true := beq_iff_eq.mpr (name_of_find? hfind)
  have hin : entry ∈ part := List.mem_of_find?_eq_some hfind
  have hfind' : path.find? name = some entry := by
    rw [← name_of_find? hfind]
    exact find?_eq_some_of_mem h (hs.subset hin)
  have hless : (part.eraseP (·.name == name)).length < length := by
    rw [List.length_eraseP_of_mem hin hname, ← hl]
    exact Nat.sub_lt (List.length_pos_of_mem hin) Nat.one_pos
  have hunique : HasUniqueNames (path.eraseP (·.name == name)) :=
    h.sublist (List.eraseP_sublist.map _)
  rw [hfind', Option.bind_some, ih _ hless hunique hs.eraseP hrest' rfl]
  rfl

/-- The class above one whose chain is known has a chain. -/
theorem exists_supers_of_above (h : path.HasUniqueNames)
    (hc : ∃ chain, path.supers name = some chain) (ha : path.Above name upper) :
    ∃ chain, path.supers upper = some chain := by
  induction ha with
  | refl => exact hc
  | tail _ hs ih =>
    obtain ⟨chain, hchain⟩ := ih
    obtain ⟨ho, entry, hfind, rfl⟩ := hs
    rw [supers_eq, if_neg ho, hfind, Option.bind_some] at hchain
    obtain ⟨rest, hrest, -⟩ := Option.map_eq_some_iff.mp hchain
    exact ⟨rest, supers_of_sublist h List.eraseP_sublist hrest⟩

/-- Every chain ends at the root. -/
theorem objectName_mem_supers (h : path.HasUniqueNames) (hc : path.supers name = some chain) :
    objectName ∈ chain :=
  supers_induction h (motive := fun _ chain => objectName ∈ chain) (List.mem_singleton_self _)
    (fun _ _ _ _ _ hin => List.mem_cons_of_mem _ hin) hc

theorem supers_objectName (path : ClassPath) : path.supers objectName = some [objectName] := by
  rw [supers_eq, if_pos rfl]

theorem Meets.unique (h : path.Meets a b upper) (h' : path.Meets a b upper') : upper = upper' :=
  h.ends.antisymm (h.least upper' h'.left h'.right) (h'.least upper h.left h.right)

/-- Two classes whose chains are known meet at the first class of one chain that stands in the
other. -/
theorem exists_meets (h : path.HasUniqueNames) {aboveA aboveB : List Bytes}
    (ha : path.supers a = some aboveA) (hb : path.supers b = some aboveB) :
    ∃ upper, aboveB.find? (aboveA.contains ·) = some upper ∧ path.Meets a b upper := by
  have hsome : (aboveB.find? (aboveA.contains ·)).isSome := by
    refine List.find?_isSome.mpr ⟨objectName, objectName_mem_supers h hb, ?_⟩
    simpa using objectName_mem_supers h ha
  obtain ⟨upper, hupper⟩ := Option.isSome_iff_exists.mp hsome
  exact ⟨upper, hupper, meets_of_supers h ha hb hupper⟩

/-- Interfaces only stand where going up starts. -/
theorem IsPlain.above (hi : path.HasNoInterfaceAbove) (ha : path.Above a b)
    (h : b = a → path.IsPlain a) : path.IsPlain b := by
  rcases Relation.ReflTransGen.cases_tail ha with rfl | ⟨_, -, -, entry, hfind, rfl⟩
  · exact h rfl
  · cases hsuper : entry.super with
    | none => exact .inl rfl
    | some super => exact .inr (hi entry (List.mem_of_find?_eq_some hfind) super hsuper)

end ClassPath

namespace Hierarchy

variable {path : ClassPath} {hierarchy : Hierarchy} {a b c u v x y z : Bytes}

theorem common_comm (hu : hierarchy.IsUnique) (a b : Bytes) :
    hierarchy.common a b = hierarchy.common b a := by
  cases hierarchy with
  | unknown =>
    simp only [common]
    by_cases hab : a = b
    · rw [if_pos hab, if_pos hab.symm, hab]
    · rw [if_neg hab, if_neg (Ne.symm hab)]
      exact if_congr or_comm rfl rfl
  | classPath path =>
    simp only [common]
    by_cases hab : a = b
    · rw [if_pos hab, if_pos hab.symm, hab]
    rw [if_neg hab, if_neg (Ne.symm hab)]
    refine if_congr (by tauto) rfl ?_
    cases ha : path.supers a with
    | none => cases path.supers b <;> rfl
    | some aboveA =>
      cases hb : path.supers b with
      | none => rfl
      | some aboveB =>
        -- Both searches end at the lowest class above the two, and there is one only.
        obtain ⟨upper, hfind, hm⟩ := ClassPath.exists_meets hu ha hb
        obtain ⟨upper', hfind', hm'⟩ := ClassPath.exists_meets hu hb ha
        obtain rfl := hm.unique hm'.symm
        exact hfind.trans hfind'.symm

/-- Classes that are no interfaces have in common where they meet. -/
theorem exists_common_of_isPlain (hu : path.HasUniqueNames)
    (ha : ∃ chain, path.supers a = some chain) (hb : ∃ chain, path.supers b = some chain)
    (hpa : path.IsPlain a) (hpb : path.IsPlain b) :
    ∃ u, (classPath path).common a b = some u ∧ path.Meets a b u := by
  obtain ⟨aboveA, hca⟩ := ha
  obtain ⟨aboveB, hcb⟩ := hb
  obtain ⟨upper, hfind, hm⟩ := ClassPath.exists_meets hu hca hcb
  refine ⟨upper, ?_, hm⟩
  simp only [common]
  split_ifs with hab hspecial
  · subst hab
    exact congrArg some (hm.ends.antisymm (hm.least a .refl .refl) hm.left).symm
  · -- one of the two is the root, as no other interface meets anything
    have hroot : a = objectName ∨ b = objectName := by
      rcases hspecial with h | h | h | h
      · exact .inl h
      · exact .inr h
      · exact .inl (hpa.resolve_right (by simp [h]))
      · exact .inr (hpb.resolve_right (by simp [h]))
    rcases hroot with rfl | rfl
    · rw [ClassPath.eq_objectName_of_above hm.left]
    · rw [ClassPath.eq_objectName_of_above hm.right]
  · rw [hca, hcb]
    exact hfind

/-- Two different classes one of which is an interface only have the root in common. -/
theorem common_of_not_isPlain (hne : a ≠ b) (h : ¬path.IsPlain a ∨ ¬path.IsPlain b) :
    (classPath path).common a b = some objectName := by
  have hspecial : path.isInterface a = true ∨ path.isInterface b = true :=
    h.imp (fun ha => by simpa using fun hf => ha (.inr hf))
      fun hb => by simpa using fun hf => hb (.inr hf)
  simp only [common]
  rw [if_neg hne, if_pos (.inr (.inr hspecial))]

/-- Two different classes have in common the root or a class that is no interface. -/
theorem exists_common (hp : (classPath path).IsProper) (hi : path.HasNoInterfaceAbove)
    (ha : ∃ chain, path.supers a = some chain) (hb : ∃ chain, path.supers b = some chain) :
    ∃ u, (classPath path).common a b = some u ∧ (∃ chain, path.supers u = some chain) ∧
      (a ≠ b → path.IsPlain u) ∧ (isArray a = false → isArray u = false) := by
  by_cases hne : a = b
  · subst hne
    exact ⟨a, common_self _ a, ha, fun h => absurd rfl h, id⟩
  by_cases hplain : path.IsPlain a ∧ path.IsPlain b
  · obtain ⟨u, hu, hm⟩ := exists_common_of_isPlain hp.hasUniqueNames ha hb hplain.1 hplain.2
    exact ⟨u, hu, ClassPath.exists_supers_of_above hp.hasUniqueNames ha hm.left,
      fun _ => .above hi hm.left fun _ => hplain.1, fun h => hp.isArray_of_above h hm.left⟩
  · exact ⟨objectName, common_of_not_isPlain hne (not_and_or.mp hplain),
      ⟨_, ClassPath.supers_objectName path⟩, fun _ => .inl rfl, fun _ => isArray_objectName⟩

/-- What two classes have in common, one of them has in common with it. -/
theorem common_absorb (hp : (classPath path).IsProper) (hi : path.HasNoInterfaceAbove)
    (ha : ∃ chain, path.supers a = some chain) (hb : ∃ chain, path.supers b = some chain)
    (h : (classPath path).common a b = some u) : (classPath path).common a u = some u := by
  by_cases hne : a = b
  · subst hne
    rw [common_self] at h
    rw [← Option.some.inj h, common_self]
  by_cases hplain : path.IsPlain a ∧ path.IsPlain b
  · obtain ⟨u', hu', hm⟩ := exists_common_of_isPlain hp.hasUniqueNames ha hb hplain.1 hplain.2
    obtain rfl := Option.some.inj (hu'.symm.trans h)
    obtain ⟨w, hw, hm'⟩ := exists_common_of_isPlain hp.hasUniqueNames ha
      (ClassPath.exists_supers_of_above hp.hasUniqueNames ha hm.left) hplain.1
      (.above hi hm.left fun _ => hplain.1)
    rw [hw, hm'.unique ⟨hm.left, .refl, fun _ _ habove => habove, hm.ends⟩]
  · rw [common_of_not_isPlain hne (not_and_or.mp hplain)] at h
    rw [← Option.some.inj h, common_objectName (.inr rfl)]

/-- Three classes of which not all meet others only have the root in common. -/
theorem common_bind_of_not_isPlain (hp : (classPath path).IsProper) (hi : path.HasNoInterfaceAbove)
    (ha : ∃ chain, path.supers a = some chain) (hb : ∃ chain, path.supers b = some chain)
    (hne : a ≠ b) (h : ¬(path.IsPlain a ∧ path.IsPlain b ∧ path.IsPlain c)) :
    (((classPath path).common a b).bind fun u => (classPath path).common u c) =
      some objectName := by
  by_cases hplain : path.IsPlain a ∧ path.IsPlain b
  · have hc : ¬path.IsPlain c := fun hc => h ⟨hplain.1, hplain.2, hc⟩
    obtain ⟨u, hu, -, hpu, -⟩ := exists_common hp hi ha hb
    have huc : u ≠ c := fun he => hc (he ▸ hpu hne)
    rw [hu, Option.bind_some, common_of_not_isPlain huc (.inr hc)]
  · rw [common_of_not_isPlain hne (not_and_or.mp hplain), Option.bind_some,
      common_objectName (.inl rfl)]

theorem common_assoc (hp : (classPath path).IsProper) (hi : path.HasNoInterfaceAbove)
    (ha : ∃ chain, path.supers a = some chain) (hb : ∃ chain, path.supers b = some chain)
    (hc : ∃ chain, path.supers c = some chain) (hab : a ≠ b) (hbc : b ≠ c) :
    (((classPath path).common a b).bind fun u => (classPath path).common u c) =
      ((classPath path).common b c).bind fun v => (classPath path).common a v := by
  have hu := hp.hasUniqueNames
  by_cases hplain : path.IsPlain a ∧ path.IsPlain b ∧ path.IsPlain c
  · obtain ⟨hpa, hpb, hpc⟩ := hplain
    obtain ⟨u, hcu, hmu⟩ := exists_common_of_isPlain hu ha hb hpa hpb
    obtain ⟨v, hcv, hmv⟩ := exists_common_of_isPlain hu hb hc hpb hpc
    obtain ⟨w, hcw, hmw⟩ := exists_common_of_isPlain hu
      (ClassPath.exists_supers_of_above hu ha hmu.left) hc (.above hi hmu.left fun _ => hpa) hpc
    obtain ⟨w', hcw', hmw'⟩ := exists_common_of_isPlain hu ha
      (ClassPath.exists_supers_of_above hu hb hmv.left) hpa (.above hi hmv.left fun _ => hpb)
    -- each of the two is above all three classes, so the other one is no higher
    have hup : path.Above w w' := hmw.least w'
      (hmu.least w' hmw'.left (hmv.left.trans hmw'.right)) (hmv.right.trans hmw'.right)
    have hdown : path.Above w' w := hmw'.least w (hmu.left.trans hmw.left)
      (hmv.least w (hmu.right.trans hmw.left) hmw.right)
    rw [hcu, hcv, Option.bind_some, Option.bind_some, hcw, hcw', hmw.ends.antisymm hup hdown]
  · have hleft := common_bind_of_not_isPlain hp hi ha hb hab hplain
    have hright := common_bind_of_not_isPlain (c := a) hp hi hc hb hbc.symm (by tauto)
    have hunique : (classPath path).IsUnique := hu
    rw [hleft, ← hright, common_comm hunique b c]
    simp only [common_comm hunique a]

/-! ### Class and array types -/

/-- An array type that arose from meeting meets others as its elements do. -/
theorem commonReference_arrayOf (z : Bytes) (hb : elementName? b = some y) :
    hierarchy.commonReference (arrayOf z) b = (hierarchy.commonReference z y).map arrayOf := by
  by_cases hne : arrayOf z = b
  · subst hne
    obtain rfl := Option.some.inj ((elementName?_arrayOf z).symm.trans hb)
    rw [commonReference_self, commonReference_self, Option.map_some]
  · exact commonReference_of_elements hne (elementName?_arrayOf z) hb

theorem IsProper.isUnique (hp : hierarchy.IsProper) : hierarchy.IsUnique := by
  cases hierarchy with
  | unknown => trivial
  | classPath path => exact hp.hasUniqueNames

theorem commonReference_comm (hu : hierarchy.IsUnique) (a b : Bytes) :
    hierarchy.commonReference a b = hierarchy.commonReference b a := by
  rcases kinds a b with rfl | ⟨ha, hb⟩ | ⟨hne, x, y, hx, hy⟩ | hapart
  · rfl
  · rw [commonReference_of_classes ha hb, commonReference_of_classes hb ha, common_comm hu]
  · rw [commonReference_of_elements hne hx hy, commonReference_of_elements hne.symm hy hx,
      commonReference_comm hu x y]
  · rw [hapart.commonReference, hapart.symm.commonReference]
  termination_by a.length
  decreasing_by exact length_of_elementName? hx

end Hierarchy

/-- Whether the class of a class type, or that of the elements of an array, is known up to the
root. -/
def ClassPath.Knows (path : ClassPath) (name : Bytes) : Prop :=
  isArray (base name) = false → ∃ chain, path.supers (base name) = some chain

namespace ClassPath

variable {path : ClassPath} {a b name element : Bytes}

theorem knows_of_element (h : elementName? name = some element) :
    path.Knows name ↔ path.Knows element := by
  rw [Knows, Knows, base_of_some h]

theorem knows_arrayOf : path.Knows (arrayOf name) ↔ path.Knows name :=
  knows_of_element (elementName?_arrayOf name)

theorem knows_of_class (h : isArray name = false) :
    path.Knows name ↔ ∃ chain, path.supers name = some chain := by
  rw [Knows, base_of_none (elementName?_of_isArray h)]
  exact ⟨fun hk => hk h, fun hk _ => hk⟩

theorem knows_objectName (path : ClassPath) : path.Knows objectName :=
  (knows_of_class isArray_objectName).mpr ⟨_, supers_objectName path⟩

end ClassPath

namespace Hierarchy

variable {path : ClassPath} {a b c u x y : Bytes}

/-- Two known types have a known type in common; two classes have a class, and two arrays of
class or array types an array in common. -/
theorem exists_commonReference (hp : (classPath path).IsProper) (hi : path.HasNoInterfaceAbove)
    {a b : Bytes} (ha : path.Knows a) (hb : path.Knows b) :
    ∃ u, (classPath path).commonReference a b = some u ∧ path.Knows u ∧
      (isArray a = false → isArray b = false → isArray u = false) := by
  rcases kinds a b with rfl | ⟨hca, hcb⟩ | ⟨hne, x, y, hx, hy⟩ | hapart
  · exact ⟨a, commonReference_self _ a, ha, fun h _ => h⟩
  · obtain ⟨u, hu, hk, -, harr⟩ := exists_common hp hi ((ClassPath.knows_of_class hca).mp ha)
      ((ClassPath.knows_of_class hcb).mp hb)
    exact ⟨u, (commonReference_of_classes hca hcb).trans hu,
      (ClassPath.knows_of_class (harr hca)).mpr hk, fun _ _ => harr hca⟩
  · obtain ⟨z, hz, hk, -⟩ := exists_commonReference hp hi
      ((ClassPath.knows_of_element hx).mp ha) ((ClassPath.knows_of_element hy).mp hb)
    refine ⟨arrayOf z, ?_, ClassPath.knows_arrayOf.mpr hk, fun h => ?_⟩
    · rw [commonReference_of_elements hne hx hy, hz, Option.map_some]
    · exact absurd (h.symm.trans (isArray_of_elementName? hx)) nofun
  · exact ⟨objectName, hapart.commonReference, path.knows_objectName,
      fun _ _ => isArray_objectName⟩
  termination_by a.length
  decreasing_by exact length_of_elementName? hx

/-- What two types have in common, one of them has in common with it. -/
theorem commonReference_absorb (hp : (classPath path).IsProper) (hi : path.HasNoInterfaceAbove)
    {a b u : Bytes} (ha : path.Knows a) (hb : path.Knows b)
    (h : (classPath path).commonReference a b = some u) :
    (classPath path).commonReference a u = some u := by
  rcases kinds a b with rfl | ⟨hca, hcb⟩ | ⟨hne, x, y, hx, hy⟩ | hapart
  · rw [commonReference_self] at h
    rw [← Option.some.inj h, commonReference_self]
  · have hka := (ClassPath.knows_of_class hca).mp ha
    have hkb := (ClassPath.knows_of_class hcb).mp hb
    rw [commonReference_of_classes hca hcb] at h
    obtain ⟨u', hu', -, -, harr⟩ := exists_common hp hi hka hkb
    obtain rfl := Option.some.inj (hu'.symm.trans h)
    rw [commonReference_of_classes hca (harr hca), common_absorb hp hi hka hkb h]
  · rw [commonReference_of_elements hne hx hy] at h
    obtain ⟨z, hz, rfl⟩ := Option.map_eq_some_iff.mp h
    rw [commonReference_comm hp.isUnique, commonReference_arrayOf z hx,
      commonReference_comm hp.isUnique, commonReference_absorb hp hi
        ((ClassPath.knows_of_element hx).mp ha) ((ClassPath.knows_of_element hy).mp hb) hz,
      Option.map_some]
  · rw [hapart.commonReference] at h
    rw [← Option.some.inj h, commonReference_objectName (.inr rfl)]
  termination_by a.length
  decreasing_by exact length_of_elementName? hx

/-- Three types that are not all classes, and not all arrays of class or array types, only have the
root in common. -/
theorem commonReference_bind_of_mixed (hp : (classPath path).IsProper)
    (hi : path.HasNoInterfaceAbove) (ha : path.Knows a) (hb : path.Knows b) (hne : a ≠ b)
    (hclasses : ¬(isArray a = false ∧ isArray b = false ∧ isArray c = false))
    (harrays : ¬((elementName? a).isSome ∧ (elementName? b).isSome ∧
      (elementName? c).isSome)) :
    (((classPath path).commonReference a b).bind fun u => (classPath path).commonReference u c) =
      some objectName := by
  obtain ⟨u, hu, -, harr⟩ := exists_commonReference hp hi ha hb
  rw [hu, Option.bind_some]
  rcases kinds a b with rfl | ⟨hca, hcb⟩ | ⟨-, x, y, hx, hy⟩ | hapart
  · exact absurd rfl hne
  · -- a class and what is no class
    have hcu := harr hca hcb
    have hcc : isArray c ≠ false := fun h => hclasses ⟨hca, hcb, h⟩
    refine IsApart.commonReference ⟨fun he => hcc (he ▸ hcu), fun h => hcc h.2, fun h => ?_⟩
    rw [elementName?_of_isArray hcu] at h
    exact absurd h.1 nofun
  · -- an array of class or array types and what is none
    rw [commonReference_of_elements hne hx hy] at hu
    obtain ⟨z, -, rfl⟩ := Option.map_eq_some_iff.mp hu
    have hcc : ¬(elementName? c).isSome := fun h =>
      harrays ⟨by rw [hx]; rfl, by rw [hy]; rfl, h⟩
    have hcu := elementName?_arrayOf z
    refine IsApart.commonReference ⟨fun he => hcc ?_, fun h => ?_, fun h => hcc h.2⟩
    · rw [← he, hcu]
      rfl
    · exact absurd (h.1.symm.trans (isArray_of_elementName? hcu)) nofun
  · rw [hapart.commonReference] at hu
    exact commonReference_objectName (.inl (Option.some.inj hu).symm)

theorem commonReference_assoc (hp : (classPath path).IsProper) (hi : path.HasNoInterfaceAbove)
    {a b c : Bytes} (ha : path.Knows a) (hb : path.Knows b) (hc : path.Knows c) :
    (((classPath path).commonReference a b).bind fun u => (classPath path).commonReference u c) =
      ((classPath path).commonReference b c).bind fun v =>
        (classPath path).commonReference a v := by
  have hcomm := commonReference_comm hp.isUnique
  obtain ⟨u, hu, hku, harru⟩ := exists_commonReference hp hi ha hb
  obtain ⟨v, hv, hkv, harrv⟩ := exists_commonReference hp hi hb hc
  rw [hu, hv, Option.bind_some, Option.bind_some]
  by_cases hab : a = b
  · subst hab
    rw [commonReference_self] at hu
    rw [← Option.some.inj hu, hv, commonReference_absorb hp hi ha hc hv]
  by_cases hbc : b = c
  · subst hbc
    rw [commonReference_self] at hv
    rw [← Option.some.inj hv, hu, hcomm u b]
    exact commonReference_absorb hp hi hb ha ((hcomm b a).trans hu)
  -- For classes the law is that of the class path, for arrays it is that of their elements; where
  -- classes and arrays are mixed, both sides are the top class.
  by_cases hclasses : isArray a = false ∧ isArray b = false ∧ isArray c = false
  · obtain ⟨hca, hcb, hcc⟩ := hclasses
    have hassoc := common_assoc hp hi ((ClassPath.knows_of_class hca).mp ha)
      ((ClassPath.knows_of_class hcb).mp hb) ((ClassPath.knows_of_class hcc).mp hc) hab hbc
    rw [commonReference_of_classes hca hcb] at hu
    rw [commonReference_of_classes hcb hcc] at hv
    rw [hu, hv, Option.bind_some, Option.bind_some] at hassoc
    rw [commonReference_of_classes (harru hca hcb) hcc,
      commonReference_of_classes hca (harrv hcb hcc), hassoc]
  by_cases harrays : (elementName? a).isSome ∧ (elementName? b).isSome ∧ (elementName? c).isSome
  · obtain ⟨x, hx⟩ := Option.isSome_iff_exists.mp harrays.1
    obtain ⟨y, hy⟩ := Option.isSome_iff_exists.mp harrays.2.1
    obtain ⟨z, hz⟩ := Option.isSome_iff_exists.mp harrays.2.2
    have hassoc := commonReference_assoc hp hi ((ClassPath.knows_of_element hx).mp ha)
      ((ClassPath.knows_of_element hy).mp hb) ((ClassPath.knows_of_element hz).mp hc)
    rw [commonReference_of_elements hab hx hy] at hu
    rw [commonReference_of_elements hbc hy hz] at hv
    obtain ⟨s, hs, rfl⟩ := Option.map_eq_some_iff.mp hu
    obtain ⟨t, ht, rfl⟩ := Option.map_eq_some_iff.mp hv
    rw [hs, ht, Option.bind_some, Option.bind_some] at hassoc
    rw [commonReference_arrayOf s hz, hcomm a, commonReference_arrayOf t hx, hcomm t, hassoc]
  · have hleft := commonReference_bind_of_mixed hp hi ha hb hab hclasses harrays
    have hright := commonReference_bind_of_mixed (c := a) hp hi hc hb (Ne.symm hbc) (by tauto)
      (by tauto)
    rw [hu, Option.bind_some] at hleft
    rw [hcomm c b, hv, Option.bind_some] at hright
    rw [hleft, hcomm a, hright]
  termination_by a.length
  decreasing_by exact length_of_elementName? hx

end Hierarchy

end ClassGraft

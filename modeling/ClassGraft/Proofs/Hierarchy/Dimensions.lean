import ClassGraft.Proofs.Hierarchy.Extends
import Mathlib.Data.Finset.Card
import Mathlib.Data.Finset.Dedup
import Mathlib.Data.Finset.Image
import Mathlib.Order.WellFounded
import Mathlib.Tactic.Ring

/-!
# Where super classes meet, and the dimensions of array types

Every class has one class directly above it, so the known classes form trees.  What a hierarchy
finds for two classes is the lowest class above both (`ClassPath.meets_of_supers`).  If a class meets
two others at different places, these meet at one of the places (`ClassPath.Meets.of_ne`).  So some
classes meet in fewer places than there are classes (`ClassPath.card_le_of_meets`).

An array type has a number of dimensions over a base.  What two types have in common has the base of
the first one or one above it (`Hierarchy.lifts_of_commonReference`).  A super class may itself be
named as an array type, so that dimensions are won on the way up; but as classes meet in fewer places
than there are classes, fewer and fewer bases are left with more and more dimensions.  So those of
all types that arise from some are bounded (`Hierarchy.dimensions_le_of_spans`).
-/

namespace ClassGraft

namespace ClassPath

variable {path : ClassPath} {a b c upper upper' : Bytes}

/-- Whether going up from a class comes to an end. -/
def Ends (path : ClassPath) (name : Bytes) : Prop :=
  Acc (fun above below => path.Super below above) name

/-- Whether a class is the lowest one above two others. -/
structure Meets (path : ClassPath) (a b upper : Bytes) : Prop where
  left : path.Above a upper
  right : path.Above b upper
  least : ∀ other, path.Above a other → path.Above b other → path.Above upper other
  ends : path.Ends upper

/-! ### Going up -/

theorem super_unique (path : ClassPath) : Relator.RightUnique path.Super := by
  rintro name above other ⟨-, entry, hfind, rfl⟩ ⟨-, entry', hfind', rfl⟩
  rw [Option.some.inj (hfind.symm.trans hfind')]

/-- Of two classes above a class one is above the other. -/
theorem Above.total (h : path.Above a b) (h' : path.Above a c) :
    path.Above b c ∨ path.Above c b :=
  Relation.ReflTransGen.total_of_right_unique path.super_unique h h'

theorem Ends.above (h : path.Ends a) (ha : path.Above a b) : path.Ends b := by
  induction ha with
  | refl => exact h
  | tail _ hs ih => exact ih.inv hs

/-- Where going up comes to an end, no class is above itself. -/
theorem Ends.not_transGen (h : path.Ends a) : ¬ Relation.TransGen path.Super a a := by
  intro hcircle
  have hacc : Acc (Relation.TransGen fun above below => path.Super below above) a := h.transGen
  induction hacc with
  | intro a _ ih => exact ih a (Relation.transGen_swap.mp hcircle) h hcircle

theorem Ends.antisymm (h : path.Ends a) (hab : path.Above a b) (hba : path.Above b a) : a = b := by
  rcases Relation.reflTransGen_iff_eq_or_transGen.mp hab with rfl | hab
  · rfl
  · exact absurd (hab.trans_left hba) h.not_transGen

/-- A class whose chain is known comes to an end. -/
theorem ends_of_supers (h : path.HasUniqueNames) {name : Bytes} {chain : List Bytes}
    (hc : path.supers name = some chain) : path.Ends name := by
  refine supers_induction h (motive := fun name _ => path.Ends name) ?_ ?_ hc
  · exact ⟨_, fun above hs => absurd rfl hs.1⟩
  · rintro name entry rest - hfind ih
    refine ⟨_, fun above hs => ?_⟩
    obtain ⟨-, entry', hfind', rfl⟩ := hs
    obtain rfl := Option.some.inj (hfind.symm.trans hfind')
    exact ih

/-- What comes later in a chain is above what comes earlier. -/
theorem pairwise_supers (h : path.HasUniqueNames) {name : Bytes} {chain : List Bytes}
    (hc : path.supers name = some chain) : chain.Pairwise path.Above := by
  refine (supers_induction h (motive := fun name chain => chain.Pairwise path.Above ∧
    ∀ above ∈ chain, path.Above name above) ?_ ?_ hc).1
  · refine ⟨List.pairwise_singleton _ _, fun above hin => ?_⟩
    rw [List.mem_singleton.mp hin]
    exact .refl
  · rintro name entry rest hne hfind ⟨hrest, habove⟩
    have hfirst : ∀ above ∈ rest, path.Above name above := fun above hin =>
      .head ⟨hne, entry, hfind, rfl⟩ (habove above hin)
    refine ⟨List.pairwise_cons.mpr ⟨hfirst, hrest⟩, fun above hin => ?_⟩
    rcases List.mem_cons.mp hin with rfl | hin
    · exact .refl
    · exact hfirst above hin

/-! ### The lowest class above two others -/

/-- The first class in the chain of one that stands in the chain of another is the lowest one above
both. -/
theorem meets_of_supers (h : path.HasUniqueNames) {aboveA aboveB : List Bytes}
    (ha : path.supers a = some aboveA) (hb : path.supers b = some aboveB)
    (hf : aboveB.find? (aboveA.contains ·) = some upper) : path.Meets a b upper := by
  obtain ⟨hupper, earlier, later, heq, hearlier⟩ := List.find?_eq_some_iff_append.mp hf
  have hupperA : path.Above a upper := above_of_mem_supers h ha (by simpa using hupper)
  have hupperB : path.Above b upper := above_of_mem_supers h hb (List.mem_of_find?_eq_some hf)
  refine ⟨hupperA, hupperB, fun other hotherA hotherB => ?_, (ends_of_supers h ha).above hupperA⟩
  have hinA := mem_supers_of_above h ha hotherA
  have hinB := mem_supers_of_above h hb hotherB
  rw [heq] at hinB
  rcases List.mem_append.mp hinB with hin | hin
  · exact absurd hinA (by simpa using hearlier other hin)
  · rcases List.mem_cons.mp hin with rfl | hin
    · exact .refl
    · have hordered := pairwise_supers h hb
      rw [heq] at hordered
      exact (List.pairwise_cons.mp (List.pairwise_append.mp hordered).2.1).1 other hin

theorem Meets.symm (h : path.Meets a b upper) : path.Meets b a upper :=
  ⟨h.right, h.left, fun other hb ha => h.least other ha hb, h.ends⟩

/-- If one class meets two others at different classes, the others meet at the upper one. -/
theorem Meets.of_above (h : path.Meets a b upper) (h' : path.Meets a c upper')
    (hne : upper ≠ upper') (hup : path.Above upper upper') : path.Meets b c upper' := by
  refine ⟨h.right.trans hup, h'.right, fun other hb hc => ?_, h'.ends⟩
  rcases h.right.total hb with hother | hother
  · exact h'.least other (h.left.trans hother) hc
  · -- otherwise `c` would meet `a` at the lower class already
    have hback : path.Above upper' upper := h'.least upper h.left (hc.trans hother)
    exact absurd (h.ends.antisymm hup hback) hne

/-- If one class meets two others at different classes, the others meet at one of these. -/
theorem Meets.of_ne (h : path.Meets a b upper) (h' : path.Meets a c upper') (hne : upper ≠ upper') :
    path.Meets b c upper ∨ path.Meets b c upper' := by
  rcases h.left.total h'.left with hup | hup
  · exact .inr (h.of_above h' hne hup)
  · exact .inl (h'.of_above h hne.symm hup).symm

/-- Some classes meet in fewer places than there are classes. -/
theorem card_le_of_meets {names uppers : Finset Bytes}
    (h : ∀ upper ∈ uppers, ∃ a ∈ names, ∃ b ∈ names, a ≠ b ∧ path.Meets a b upper) :
    uppers.card ≤ names.card - 1 := by
  classical
  induction names using Finset.induction_on generalizing uppers with
  | empty =>
    have hempty : uppers = ∅ := Finset.eq_empty_of_forall_notMem fun upper hin => by
      obtain ⟨a, ha, -⟩ := h upper hin
      exact absurd ha (Finset.notMem_empty a)
    rw [hempty]
    exact Nat.zero_le _
  | insert name names hnew ih =>
    -- where the others meet, and where only the new class meets one of them
    let old := uppers.filter fun upper => ∃ a ∈ names, ∃ b ∈ names, a ≠ b ∧ path.Meets a b upper
    let rest := uppers.filter fun upper =>
      ¬ ∃ a ∈ names, ∃ b ∈ names, a ≠ b ∧ path.Meets a b upper
    have hsum : old.card + rest.card = uppers.card := Finset.card_filter_add_card_filter_not _
    have hold : old.card ≤ names.card - 1 := ih fun upper hin => (Finset.mem_filter.mp hin).2
    have hmeets : ∀ upper ∈ rest, ∃ b ∈ names, path.Meets name b upper := by
      intro upper hin
      obtain ⟨hupper, hfew⟩ := Finset.mem_filter.mp hin
      obtain ⟨a, ha, b, hb, hne, hm⟩ := h upper hupper
      rcases Finset.mem_insert.mp ha with rfl | ha
      · exact ⟨b, (Finset.mem_insert.mp hb).resolve_left hne.symm, hm⟩
      · rcases Finset.mem_insert.mp hb with he | hb
        · exact ⟨a, ha, he ▸ hm.symm⟩
        · exact absurd ⟨a, ha, b, hb, hne, hm⟩ hfew
    have hrest : rest.card ≤ 1 := by
      refine Finset.card_le_one.mpr fun upper hin upper' hin' => ?_
      obtain ⟨b, hb, hm⟩ := hmeets upper hin
      obtain ⟨c, hc, hm'⟩ := hmeets upper' hin'
      by_contra hne
      have hbc : b ≠ c := by
        rintro rfl
        exact hne (hm.ends.antisymm (hm.least upper' hm'.left hm'.right)
          (hm'.least upper hm.left hm.right))
      rcases hm.of_ne hm' hne with hboth | hboth
      · exact (Finset.mem_filter.mp hin).2 ⟨b, hb, c, hc, hbc, hboth⟩
      · exact (Finset.mem_filter.mp hin').2 ⟨b, hb, c, hc, hbc, hboth⟩
    rw [Finset.card_insert_of_notMem hnew, Nat.add_sub_cancel]
    rcases names.eq_empty_or_nonempty with rfl | hsome
    · have hnone : rest = ∅ := Finset.eq_empty_of_forall_notMem fun upper hin => by
        obtain ⟨b, hb, -⟩ := hmeets upper hin
        exact absurd hb (Finset.notMem_empty b)
      rw [hnone, Finset.card_empty] at hsum
      omega
    · have hpos := hsome.card_pos
      omega

end ClassPath

namespace Descriptor

/-! ### Bases -/

/-- The number of times that elements can be taken. -/
def dimensions (name : Bytes) : Nat :=
  match _h : elementName? name with
  | some element => dimensions element + 1
  | none => 0
  termination_by name.length
  decreasing_by exact length_of_elementName? _h

/-- The class or array type whose elements are of no class or array type. -/
def base (name : Bytes) : Bytes :=
  match _h : elementName? name with
  | some element => base element
  | none => name
  termination_by name.length
  decreasing_by exact length_of_elementName? _h

/-- The number of dimensions that are not spelled as `arrayOf` does, like that of `[L[I;`. -/
def detours (name : Bytes) : Nat :=
  match _h : elementName? name with
  | some element => detours element + if arrayOf element = name then 0 else 1
  | none => 0
  termination_by name.length
  decreasing_by exact length_of_elementName? _h

variable {name element : Bytes}

theorem dimensions_of_some (h : elementName? name = some element) :
    dimensions name = dimensions element + 1 := by
  rw [dimensions]
  split
  · rename_i other ho
    rw [Option.some.inj (ho.symm.trans h)]
  · rename_i ho
    exact absurd (ho.symm.trans h) nofun

theorem dimensions_of_none (h : elementName? name = none) : dimensions name = 0 := by
  rw [dimensions]
  split
  · rename_i other ho
    exact absurd (ho.symm.trans h) nofun
  · rfl

theorem base_of_some (h : elementName? name = some element) : base name = base element := by
  rw [base]
  split
  · rename_i other ho
    rw [Option.some.inj (ho.symm.trans h)]
  · rename_i ho
    exact absurd (ho.symm.trans h) nofun

theorem base_of_none (h : elementName? name = none) : base name = name := by
  rw [base]
  split
  · rename_i other ho
    exact absurd (ho.symm.trans h) nofun
  · rfl

theorem detours_of_some (h : elementName? name = some element) :
    detours name = detours element + if arrayOf element = name then 0 else 1 := by
  rw [detours]
  split
  · rename_i other ho
    rw [Option.some.inj (ho.symm.trans h)]
  · rename_i ho
    exact absurd (ho.symm.trans h) nofun

theorem detours_of_none (h : elementName? name = none) : detours name = 0 := by
  rw [detours]
  split
  · rename_i other ho
    exact absurd (ho.symm.trans h) nofun
  · rfl

@[simp] theorem dimensions_arrayOf (name : Bytes) :
    dimensions (arrayOf name) = dimensions name + 1 :=
  dimensions_of_some (elementName?_arrayOf name)

@[simp] theorem base_arrayOf (name : Bytes) : base (arrayOf name) = base name :=
  base_of_some (elementName?_arrayOf name)

@[simp] theorem detours_arrayOf (name : Bytes) : detours (arrayOf name) = detours name := by
  rw [detours_of_some (elementName?_arrayOf name), if_pos rfl, Nat.add_zero]

/-- What is no array type is its own base. -/
theorem elementName?_of_isArray (h : isArray name = false) : elementName? name = none := by
  rw [← Option.not_isSome_iff_eq_none]
  intro hsome
  obtain ⟨element, he⟩ := Option.isSome_iff_exists.mp hsome
  rw [isArray_of_elementName? he] at h
  nomatch h

theorem dimensions_objectName : dimensions objectName = 0 :=
  dimensions_of_none (elementName?_of_isArray isArray_objectName)

theorem base_objectName : base objectName = objectName :=
  base_of_none (elementName?_of_isArray isArray_objectName)

theorem detours_objectName : detours objectName = 0 :=
  detours_of_none (elementName?_of_isArray isArray_objectName)

theorem dimensions_le_length (name : Bytes) : dimensions name ≤ name.length := by
  induction name using dimensions.induct with
  | case1 name element h ih =>
    rw [dimensions_of_some h]
    exact (Nat.succ_le_succ ih).trans (length_of_elementName? h)
  | case2 name h =>
    rw [dimensions_of_none h]
    exact Nat.zero_le _

theorem detours_le_dimensions (name : Bytes) : detours name ≤ dimensions name := by
  induction name using dimensions.induct with
  | case1 name element h ih =>
    rw [dimensions_of_some h, detours_of_some h]
    split_ifs <;> omega
  | case2 name h =>
    rw [detours_of_none h]
    exact Nat.zero_le _

end Descriptor

open Descriptor

/-! ### What types have in common -/

namespace ClassPath

/-- The classes directly above those that are known. -/
def uppers (path : ClassPath) : Finset Bytes :=
  (path.map fun entry => entry.super.getD objectName).toFinset

theorem card_uppers_le (path : ClassPath) : path.uppers.card ≤ path.length :=
  (List.toFinset_card_le _).trans_eq (List.length_map ..)

theorem mem_uppers_of_super {path : ClassPath} {name above : Bytes} (h : path.Super name above) :
    above ∈ path.uppers := by
  obtain ⟨-, entry, hfind, rfl⟩ := h
  exact List.mem_toFinset.mpr (List.mem_map_of_mem (List.mem_of_find?_eq_some hfind))

theorem mem_uppers_of_above {path : ClassPath} {name above : Bytes} (h : path.Above name above)
    (hne : above ≠ name) : above ∈ path.uppers := by
  rcases Relation.ReflTransGen.cases_tail h with rfl | ⟨_, -, hs⟩
  · exact absurd rfl hne
  · exact mem_uppers_of_super hs

end ClassPath

namespace Hierarchy

variable {hierarchy : Hierarchy} {a b name : Bytes} {limit most : Nat}

/-- Whether every class is known once. -/
def IsUnique : Hierarchy → Prop
  | unknown => True
  | classPath path => path.HasUniqueNames

/-- How a type that two others have in common can differ from the first one of them: only in the
spelling, by being one of objects, or by a base that is above the one of the first. -/
inductive Lifts (hierarchy : Hierarchy) (a b name : Bytes) : Prop
  | same (h : name = a)
  | respelled (hd : dimensions name = dimensions a) (hb : base name = base a)
      (hs : detours name < detours a)
  | object (hb : base name = objectName) (hs : detours name = 0)
      (hd : dimensions name < dimensions a ∨
        dimensions name ≤ dimensions a ∧ base a ≠ objectName)
  | climb {path : ClassPath} {upper : Bytes} (hh : hierarchy = .classPath path)
      (hm : path.Meets (base a) (base b) upper) (hne : base a ≠ base b) (hup : upper ≠ base a)
      (ha : base a ≠ objectName) (hb : base b ≠ objectName) (hab : dimensions b = dimensions a)
      (hd : dimensions name = dimensions a + dimensions upper) (hbase : base name = base upper)
      (hs : detours name = detours upper)

/-- Whatever two types are, the root can be what they have in common. -/
theorem lifts_objectName : hierarchy.Lifts a b objectName := by
  by_cases hne : objectName = a
  · exact .same hne
  refine .object base_objectName detours_objectName ?_
  rw [dimensions_objectName]
  cases he : elementName? a with
  | some element =>
    rw [dimensions_of_some he]
    exact .inl (Nat.succ_pos _)
  | none =>
    rw [base_of_none he]
    exact .inr ⟨Nat.zero_le _, Ne.symm hne⟩

/-- Arrays have in common what their elements have. -/
theorem Lifts.arrayOf {x y z : Bytes} (h : hierarchy.Lifts x y z) (ha : elementName? a = some x)
    (hb : elementName? b = some y) : hierarchy.Lifts a b (arrayOf z) := by
  have hda := dimensions_of_some ha
  have hba := base_of_some ha
  have hsa := detours_of_some ha
  cases h with
  | same h =>
    subst h
    by_cases heq : Descriptor.arrayOf z = a
    · exact .same heq
    · rw [if_neg heq] at hsa
      exact .respelled (by simp [hda]) (by simp [hba]) (by simp [hsa])
  | respelled hd hbase hs =>
    refine .respelled (by simp [hda, hd]) (by simp [hba, hbase]) ?_
    rw [detours_arrayOf, hsa]
    omega
  | object hbase hs hd =>
    refine .object (by simp [hbase]) (by simp [hs]) ?_
    rw [dimensions_arrayOf, hda, hba]
    exact hd.imp Nat.succ_lt_succ fun hless => ⟨Nat.succ_le_succ hless.1, hless.2⟩
  | climb hh hm hne hup hx hy hxy hd hbase hs =>
    rw [← hba] at hm hne hup hx
    rw [← base_of_some hb] at hm hne hy
    refine .climb hh hm hne hup hx hy ?_ ?_ (by simp [hbase]) (by simp [hs])
    · rw [dimensions_of_some hb, hda, hxy]
    · rw [dimensions_arrayOf, hda, hd]
      omega

/-- Classes have in common the root, or the lowest class above both. -/
theorem lifts_of_common (hu : hierarchy.IsUnique) (ha : isArray a = false) (hb : isArray b = false)
    (h : hierarchy.common a b = some name) : hierarchy.Lifts a b name := by
  by_cases hab : a = b
  · rw [hab, common_self] at h
    exact .same (hab.trans (Option.some.inj h)).symm
  by_cases ho : a = objectName ∨ b = objectName
  · rw [common_objectName ho] at h
    obtain rfl := Option.some.inj h
    exact lifts_objectName
  obtain ⟨hoa, hob⟩ := not_or.mp ho
  have hea := elementName?_of_isArray ha
  have heb := elementName?_of_isArray hb
  cases hierarchy with
  | unknown => simp [common, hab, hoa, hob] at h
  | classPath path =>
    simp only [common, hab, hoa, hob, false_or, if_false] at h
    split_ifs at h
    · obtain rfl := Option.some.inj h
      exact lifts_objectName
    · obtain ⟨aboveA, hca, h⟩ := Option.bind_eq_some_iff.mp h
      obtain ⟨aboveB, hcb, h⟩ := Option.bind_eq_some_iff.mp h
      have hm := ClassPath.meets_of_supers hu hca hcb h
      by_cases hup : name = a
      · exact .same hup
      · rw [← base_of_none hea] at hm hup hab hoa
        rw [← base_of_none heb] at hm hab hob
        refine .climb rfl hm hab hup hoa hob ?_ ?_ rfl rfl
        · rw [dimensions_of_none hea, dimensions_of_none heb]
        · rw [dimensions_of_none hea, Nat.zero_add]

theorem lifts_of_commonReference (hu : hierarchy.IsUnique) {a b name : Bytes}
    (h : hierarchy.commonReference a b = some name) : hierarchy.Lifts a b name := by
  rcases kinds a b with rfl | ⟨ha, hb⟩ | ⟨hne, x, y, hx, hy⟩ | hapart
  · rw [commonReference_self] at h
    exact .same (Option.some.inj h).symm
  · rw [commonReference_of_classes ha hb] at h
    exact lifts_of_common hu ha hb h
  · rw [commonReference_of_elements hne hx hy] at h
    obtain ⟨common, hc, rfl⟩ := Option.map_eq_some_iff.mp h
    exact (lifts_of_commonReference hu hc).arrayOf hx hy
  · rw [hapart.commonReference] at h
    obtain rfl := Option.some.inj h
    exact lifts_objectName
  termination_by a.length
  decreasing_by exact length_of_elementName? hx

/-! ### The types that arise from some -/

/-- The types that arise from those with a number of dimensions, by taking elements and by meeting. -/
inductive Spans (hierarchy : Hierarchy) (limit : Nat) : Bytes → Prop
  | given {name : Bytes} (h : dimensions name ≤ limit) : Spans hierarchy limit name
  | element {array name : Bytes} (ha : Spans hierarchy limit array)
      (h : elementName? array = some name) : Spans hierarchy limit name
  | common {a b name : Bytes} (ha : Spans hierarchy limit a) (hb : Spans hierarchy limit b)
      (h : hierarchy.commonReference a b = some name) : Spans hierarchy limit name

/-- Whether a base other than the root occurs with a number of dimensions or more. -/
structure Piles (hierarchy : Hierarchy) (limit height : Nat) (name : Bytes) : Prop where
  spans : ∃ array, hierarchy.Spans limit array ∧ height ≤ dimensions array ∧ base array = name
  proper : name ≠ objectName

/-- A base with more dimensions than were given is that of a class where two others meet, which
occur with as many dimensions but for those of that class. -/
theorem Spans.exists_meets (hu : hierarchy.IsUnique) {array : Bytes} {height : Nat}
    (h : hierarchy.Spans limit array) (hl : limit < height) (hd : height ≤ dimensions array)
    (ho : base array ≠ objectName) : ∃ path upper, hierarchy = .classPath path ∧
      upper ∈ path.uppers ∧ base array = base upper ∧ ∃ a b, a ≠ b ∧ path.Meets a b upper ∧
        hierarchy.Piles limit (height - dimensions upper) a ∧
        hierarchy.Piles limit (height - dimensions upper) b := by
  induction h with
  | given h => omega
  | element _ he ih =>
    have hd' := dimensions_of_some he
    rw [← base_of_some he] at ho ⊢
    exact ih (by omega) ho
  | @common a b name ha hb hc iha =>
    cases lifts_of_commonReference hu hc with
    | same h =>
      subst h
      exact iha hd ho
    | respelled hd' hbase =>
      rw [hbase] at ho ⊢
      exact iha (hd' ▸ hd) ho
    | object hbase => exact absurd hbase ho
    | @climb path upper hh hm hne hup hoa hob hab hd' hbase =>
      refine ⟨path, upper, hh, ClassPath.mem_uppers_of_above hm.left hup, hbase, base a, base b,
        hne, hm, ⟨⟨a, ha, by omega, rfl⟩, hoa⟩, ⟨⟨b, hb, by omega, rfl⟩, hob⟩⟩

theorem Piles.mono {height height' : Nat} (h : hierarchy.Piles limit height name)
    (hl : height' ≤ height) : hierarchy.Piles limit height' name := by
  obtain ⟨⟨array, hs, hd, hb⟩, ho⟩ := h
  exact ⟨⟨array, hs, hl.trans hd, hb⟩, ho⟩

/-- With every so many dimensions more, there is one base less that occurs with them. -/
theorem card_piles_le {path : ClassPath} (hu : (classPath path).IsUnique)
    (hm : ∀ upper ∈ path.uppers, dimensions upper ≤ most) (count : Nat) (bases : Finset Bytes)
    (h : ∀ name ∈ bases, (classPath path).Piles limit (limit + 1 + count * most) name) :
    bases.card ≤ path.length - count := by
  classical
  induction count generalizing bases with
  | zero =>
    have hsub : bases ⊆ path.uppers.image base := by
      intro name hin
      obtain ⟨⟨array, hs, hd, rfl⟩, ho⟩ := h name hin
      obtain ⟨path', upper, hp, hupper, hb, -⟩ := hs.exists_meets hu (by omega) hd ho
      obtain rfl := Hierarchy.classPath.inj hp
      exact Finset.mem_image.mpr ⟨upper, hupper, hb.symm⟩
    exact (Finset.card_le_card hsub).trans (Finset.card_image_le.trans path.card_uppers_le)
  | succ count ih =>
    -- the bases that occur with fewer dimensions, and the classes where two of them meet
    let lower := (path.uppers.image base).filter
      ((classPath path).Piles limit (limit + 1 + count * most))
    let meeting := path.uppers.filter fun upper =>
      ∃ a ∈ lower, ∃ b ∈ lower, a ≠ b ∧ path.Meets a b upper
    have hlower : lower.card ≤ path.length - count := ih _ fun name hin =>
      (Finset.mem_filter.mp hin).2
    have hmem : ∀ name, (classPath path).Piles limit (limit + 1 + count * most) name →
        name ∈ lower := by
      rintro name ⟨⟨array, hs, hd, rfl⟩, ho⟩
      obtain ⟨path', upper, hp, hupper, hb, -⟩ := hs.exists_meets hu (by omega) hd ho
      obtain rfl := Hierarchy.classPath.inj hp
      exact Finset.mem_filter.mpr ⟨Finset.mem_image.mpr ⟨upper, hupper, hb.symm⟩,
        ⟨array, hs, hd, rfl⟩, ho⟩
    have hsub : bases ⊆ meeting.image base := by
      intro name hin
      obtain ⟨⟨array, hs, hd, rfl⟩, ho⟩ := h name hin
      obtain ⟨path', upper, hp, hupper, hb, a, b, hne, hmeets, ha, hb'⟩ :=
        hs.exists_meets hu (by omega) hd ho
      obtain rfl := Hierarchy.classPath.inj hp
      have hless : limit + 1 + count * most ≤
          limit + 1 + (count + 1) * most - dimensions upper := by
        have := hm upper hupper
        rw [Nat.succ_mul]
        omega
      exact Finset.mem_image.mpr ⟨upper, Finset.mem_filter.mpr ⟨hupper, a, hmem a (ha.mono hless),
        b, hmem b (hb'.mono hless), hne, hmeets⟩, hb.symm⟩
    calc bases.card ≤ meeting.card := (Finset.card_le_card hsub).trans Finset.card_image_le
      _ ≤ lower.card - 1 := ClassPath.card_le_of_meets fun upper hin =>
          (Finset.mem_filter.mp hin).2
      _ ≤ path.length - (count + 1) := by omega

/-- The dimensions of the types that arise from some are bounded. -/
theorem dimensions_le_of_spans (hu : hierarchy.IsUnique)
    (hm : ∀ path, hierarchy = .classPath path → ∀ upper ∈ path.uppers, dimensions upper ≤ most)
    (h : hierarchy.Spans limit name) :
    dimensions name ≤ limit + (hierarchy.size + 1) * most := by
  induction h with
  | given h => omega
  | element _ he ih =>
    have := dimensions_of_some he
    omega
  | @common a b name ha hb hc iha =>
    cases lifts_of_commonReference hu hc with
    | same h => exact h ▸ iha
    | respelled hd => exact hd ▸ iha
    | object _ _ hd => omega
    | @climb path upper hh hmeets hne hup hoa hob hab hd =>
      subst hh
      by_contra hmany
      have hupper := hm path rfl upper (ClassPath.mem_uppers_of_above hmeets.left hup)
      have hsize : (classPath path).size = path.length := rfl
      rw [hsize, Nat.succ_mul] at hmany
      -- no base is left with as many dimensions
      have hpiles : (classPath path).Piles limit (limit + 1 + path.length * most) (base a) :=
        ⟨⟨a, ha, by omega, rfl⟩, hoa⟩
      have hcard := card_piles_le hu (hm path rfl) path.length {base a} fun name hin =>
        Finset.mem_singleton.mp hin ▸ hpiles
      rw [Finset.card_singleton] at hcard
      omega

end Hierarchy

end ClassGraft

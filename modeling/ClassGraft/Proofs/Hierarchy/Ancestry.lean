import ClassGraft.Proofs.Hierarchy.MeetLaws

/-!
# The lowest class above two others

However classes were added, with super classes that are not known or that form a circle too, going
up from a class comes to an end after as many rounds as there are classes (`ClassPath.climbs_supers`).
What two classes have in common does not depend on their order, and both can be used as it, as far
as that is known (`Hierarchy.assignable_common`).  Of two classes with complete chains, neither an
interface, it is the lowest class on both chains (`ClassPath.exists_least_common`).
-/

namespace ClassGraft

namespace ClassPath

variable {path part : ClassPath} {name other upper : Bytes} {chain : List Bytes}

/-! ### Going up -/

/-- The rounds of going up from a class, when some classes were passed already.  It ends at the root,
where it comes back to a class that was passed, and at a class that is not known; the result is the
chain of the classes it went through, if that ends at the root. -/
inductive Climbs (path : ClassPath) : (rounds : Nat) → (passed : List Bytes) → Bytes →
    Option (List Bytes) → Prop
  | root (passed : List Bytes) : Climbs path 0 passed objectName (some [objectName])
  | circle {passed : List Bytes} {name : Bytes} (ho : name ≠ objectName) (hp : name ∈ passed) :
      Climbs path 0 passed name none
  | unknown {passed : List Bytes} {name : Bytes} (ho : name ≠ objectName) (hp : name ∉ passed)
      (hf : path.find? name = none) : Climbs path 0 passed name none
  | up {rounds : Nat} {passed : List Bytes} {name : Bytes} {entry : ClassEntry}
      {found : Option (List Bytes)} (ho : name ≠ objectName) (hp : name ∉ passed)
      (hf : path.find? name = some entry)
      (hr : Climbs path rounds (name :: passed) (entry.super.getD objectName) found) :
      Climbs path (rounds + 1) passed name (found.map (name :: ·))

/-- Without a class, what is known of the others is the same. -/
theorem find?_eraseP (hu : path.HasUniqueNames) (name other : Bytes) :
    find? (path.eraseP (·.name == name)) other =
      if other = name then none else path.find? other := by
  induction path with
  | nil => simp [find?]
  | cons first rest ih =>
    obtain ⟨hfirst, hrest⟩ := List.nodup_cons.mp hu
    by_cases hname : first.name = name
    · rw [List.eraseP_cons_of_pos (by simpa using hname)]
      split_ifs with hother
      · -- the name of the class that is gone does not occur again
        refine List.find?_eq_none.mpr fun entry hin => ?_
        rw [beq_iff_eq, hother, ← hname]
        exact fun he => hfirst (he ▸ List.mem_map_of_mem hin)
      · rw [find?, find?, List.find?_cons_of_neg (by simpa [hname] using Ne.symm hother)]
    · rw [List.eraseP_cons_of_neg (by simpa using hname)]
      by_cases hother : first.name = other
      · rw [if_neg (hother ▸ hname), find?, find?, List.find?_cons_of_pos (by simpa using hother),
          List.find?_cons_of_pos (by simpa using hother)]
      · have hsame := ih hrest
        rw [find?, find?] at hsame ⊢
        rw [List.find?_cons_of_neg (by simpa using hother),
          List.find?_cons_of_neg (by simpa using hother), hsame]

/-- Going up ends, with the chain of the class as the result, after at most as many rounds as there
are classes. -/
theorem climbs_supers (hu : path.HasUniqueNames) (name : Bytes) :
    ∃ rounds ≤ path.length, path.Climbs rounds [] name (path.supers name) := by
  -- `supers` goes on with the classes that were not passed, one less in each round
  suffices h : ∀ (part : ClassPath) (passed : List Bytes) (name : Bytes), part.HasUniqueNames →
      (∀ other, part.find? other = if other ∈ passed then none else path.find? other) →
      ∃ rounds ≤ part.length, path.Climbs rounds passed name (part.supers name) from
    h path [] name hu fun other => (if_neg List.not_mem_nil).symm
  intro part passed name hpart hfind
  induction hlength : part.length using Nat.strong_induction_on generalizing part passed name with
  | _ length ih =>
  rw [supers_eq]
  split_ifs with ho
  · exact ⟨0, Nat.zero_le _, ho ▸ .root passed⟩
  have hname := hfind name
  cases hentry : part.find? name with
  | none =>
    refine ⟨0, Nat.zero_le _, ?_⟩
    rw [Option.bind_none]
    split_ifs at hname with hin
    · exact .circle ho hin
    · exact .unknown ho hin (hname.symm.trans hentry)
  | some entry =>
    have hnew : name ∉ passed := fun hin => by
      rw [hentry, if_pos hin] at hname
      nomatch hname
    rw [hentry, if_neg hnew] at hname
    have hat : (entry.name == name) = true := beq_iff_eq.mpr (name_of_find? hentry)
    have hless : (part.eraseP (·.name == name)).length + 1 = length := by
      rw [List.length_eraseP_of_mem (List.mem_of_find?_eq_some hentry) hat, ← hlength]
      exact Nat.sub_add_cancel (List.length_pos_of_mem (List.mem_of_find?_eq_some hentry))
    obtain ⟨rounds, hle, hclimbs⟩ := ih _ (by omega) (part.eraseP (·.name == name))
      (name :: passed) (entry.super.getD objectName) (hpart.sublist (List.eraseP_sublist.map _))
      (fun other => by
        rw [find?_eraseP hpart, hfind]
        simp only [List.mem_cons]
        split_ifs <;> tauto) rfl
    exact ⟨rounds + 1, by omega, .up ho hnew hname.symm hclimbs⟩

/-! ### The lowest class on two chains -/

/-- Of two classes that are no interfaces and have complete chains, there is a lowest class on both
chains, and that is what they have in common. -/
theorem exists_least_common (hu : path.HasUniqueNames) {a b : Bytes} {chainA chainB : List Bytes}
    (hia : path.isInterface a = false) (hib : path.isInterface b = false)
    (ha : path.supers a = some chainA) (hb : path.supers b = some chainB) :
    ∃ upper chain, (Hierarchy.classPath path).common a b = some upper ∧
      path.supers upper = some chain ∧ upper ∈ chainA ∧ upper ∈ chainB ∧
      ∀ other ∈ chainA, other ∈ chainB → other ∈ chain := by
  obtain ⟨upper, hcommon, hmeets⟩ :=
    Hierarchy.exists_common_of_isPlain hu ⟨chainA, ha⟩ ⟨chainB, hb⟩ (.inr hia) (.inr hib)
  obtain ⟨chain, hchain⟩ := exists_supers_of_above hu ⟨chainA, ha⟩ hmeets.left
  refine ⟨upper, chain, hcommon, hchain, mem_supers_of_above hu ha hmeets.left,
    mem_supers_of_above hu hb hmeets.right, fun other hina hinb => ?_⟩
  exact mem_supers_of_above hu hchain
    (hmeets.least other (above_of_mem_supers hu ha hina) (above_of_mem_supers hu hb hinb))

end ClassPath

/-! ### What two classes can be used as -/

namespace Hierarchy

variable {path : ClassPath} {a b name : Bytes}

/-- A class can be used as what its chain goes through, as far as that is known. -/
theorem assignable_of_mem_supers {chain : List Bytes} (hc : path.supers a = some chain)
    (hin : name ∈ chain) : (classPath path).assignable a name ≠ some false := by
  simp only [assignable, hc, Option.map_some]
  split_ifs
  · simp
  · simp
  · simp [hin]

/-- Neither of two classes is known not to be usable as what they have in common. -/
theorem assignable_common (h : (classPath path).common a b = some name) :
    (classPath path).assignable a name ≠ some false ∧
      (classPath path).assignable b name ≠ some false := by
  have hself (name : Bytes) : (classPath path).assignable name name ≠ some false := by
    simp [assignable]
  have hroot (name : Bytes) : (classPath path).assignable name objectName ≠ some false := by
    simp [assignable]
  simp only [common] at h
  split_ifs at h with hab hspecial
  · obtain rfl := Option.some.inj h
    exact ⟨hself a, hab ▸ hself a⟩
  · obtain rfl := Option.some.inj h
    exact ⟨hroot a, hroot b⟩
  · -- the first class in the chain of one that stands in the chain of the other
    obtain ⟨chainA, ha, h⟩ := Option.bind_eq_some_iff.mp h
    obtain ⟨chainB, hb, h⟩ := Option.bind_eq_some_iff.mp h
    have hin : name ∈ chainA := by simpa using List.find?_some h
    exact ⟨assignable_of_mem_supers ha hin,
      assignable_of_mem_supers hb (List.mem_of_find?_eq_some h)⟩

/-- Whatever classes were added, going up from any of them ends; what two classes have in common is
the same in both orders, and no class that one of them is known not to be usable as; and if both have
complete chains and neither is an interface, it is the lowest class on both. -/
theorem common_is_least (entries : List ClassEntry) (a b : Bytes) :
    let path : ClassPath := entries.foldl ClassPath.add []
    (∀ name, ∃ rounds ≤ path.length, path.Climbs rounds [] name (path.supers name)) ∧
      (classPath path).common a b = (classPath path).common b a ∧
      (∀ upper, (classPath path).common a b = some upper →
        (classPath path).assignable a upper ≠ some false ∧
        (classPath path).assignable b upper ≠ some false) ∧
      (path.isInterface a = false → path.isInterface b = false → ∀ chainA chainB,
        path.supers a = some chainA → path.supers b = some chainB →
        ∃ upper chain, (classPath path).common a b = some upper ∧
          path.supers upper = some chain ∧ upper ∈ chainA ∧ upper ∈ chainB ∧
          ∀ other ∈ chainA, other ∈ chainB → other ∈ chain) := by
  intro path
  have hu : path.HasUniqueNames := ClassPath.hasUniqueNames_foldl_add entries List.nodup_nil
  exact ⟨ClassPath.climbs_supers hu, @common_comm (classPath path) hu a b,
    fun _ => assignable_common, fun hia hib _ _ => ClassPath.exists_least_common hu hia hib⟩

/-! ### Two classes below a third one

The super class of one of them is not known at first, and two others are above each other. -/

namespace Siblings

def upper : Bytes := Bytes.ofAscii "P"

def first : Bytes := Bytes.ofAscii "A"

def second : Bytes := Bytes.ofAscii "B"

def entries : List ClassEntry :=
  [⟨first, some (Bytes.ofAscii "Q"), false⟩, ⟨second, some upper, false⟩,
    ⟨upper, some objectName, false⟩, ⟨first, some upper, false⟩,
    ⟨Bytes.ofAscii "X", some (Bytes.ofAscii "Y"), false⟩,
    ⟨Bytes.ofAscii "Y", some (Bytes.ofAscii "X"), false⟩]

def known : ClassPath := entries.foldl ClassPath.add []

theorem common_is_least_siblings :
    known.isInterface first = false ∧ known.isInterface second = false ∧
      known.supers first = some [first, upper, objectName] ∧
      known.supers second = some [second, upper, objectName] ∧
      ∃ name chain, (classPath known).common first second = some name ∧
        known.supers name = some chain ∧ name ∈ [first, upper, objectName] ∧
        name ∈ [second, upper, objectName] ∧
        ∀ other ∈ [first, upper, objectName], other ∈ [second, upper, objectName] →
          other ∈ chain := by
  have hia : known.isInterface first = false := by decide +kernel
  have hib : known.isInterface second = false := by decide +kernel
  have ha : known.supers first = some [first, upper, objectName] := by decide +kernel
  have hb : known.supers second = some [second, upper, objectName] := by decide +kernel
  exact ⟨hia, hib, ha, hb, (common_is_least entries first second).2.2.2 hia hib _ _ ha hb⟩

end Siblings

end Hierarchy

end ClassGraft

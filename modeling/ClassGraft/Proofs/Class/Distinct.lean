import ClassGraft.Class.Verification
import ClassGraft.Proofs.Class.Naming
import ClassGraft.Proofs.Class.Parsed
import ClassGraft.Proofs.Text.Forms

/-!
# Members told apart

Two fields, or two methods, are told apart by the bytes of their names and descriptors
(`ClassFile.IsDistinct`), and a class is refused for two members that are alike exactly if there
are such (`ClassFile.duplicateRefusal?_eq_none_iff`,
`ClassFile.IsDistinct.not_isDuplicate_of_verify`).  Whether a class has a member is asked by text
instead.  The search finds one if the texts of some member are the ones asked for, whichever form
its bytes have (`ClassFile.isSome_memberIndex?`).
-/

namespace ClassGraft

variable {pool later : Pool} {index : UInt16} {text : String}

/-! ### Texts of a pool -/

/-- Bytes are compared with both forms of a text, which are all that it has. -/
theorem Pool.utf8Is_iff : pool.utf8Is index text = true ↔ pool.Spells index text := by
  refine ⟨spells_of_utf8Is, fun ⟨bytes, hbytes, hspells⟩ => ?_⟩
  rw [utf8Is, hbytes, Bool.or_eq_true, beq_iff_eq, beq_iff_eq]
  exact ModifiedUtf8.spells_iff.mp hspells

theorem Pool.isMember_iff {nameIndex descriptorIndex : UInt16} {name descriptor : String} :
    pool.isMember nameIndex descriptorIndex name descriptor = true ↔
      pool.Spells nameIndex name ∧ pool.Spells descriptorIndex descriptor := by
  rw [isMember, Bool.and_eq_true, utf8Is_iff, utf8Is_iff]

/-! ### Repeated keys -/

section Repeated

variable {α κ : Type} [BEq κ] [LawfulBEq κ] [Hashable κ] {key : α → κ}

theorem firstRepeated?_go_eq_none_iff {known : Std.HashSet κ} {items : List α} :
    firstRepeated?.go key known items = none ↔
      (items.map key).Nodup ∧ ∀ item ∈ items, key item ∉ known := by
  induction items generalizing known with
  | nil => simp [firstRepeated?.go]
  | cons item rest ih =>
    rw [firstRepeated?.go, List.map_cons, List.nodup_cons, List.forall_mem_cons]
    split_ifs with hknown
    · rw [← Std.HashSet.mem_iff_contains] at hknown
      simp [hknown]
    · rw [← Std.HashSet.mem_iff_contains] at hknown
      rw [ih]
      -- what is known of the rest is what was known before, or the key of the item
      simp only [Std.HashSet.mem_insert, beq_iff_eq, not_or, List.mem_map, not_exists, not_and]
      constructor
      · rintro ⟨hnodup, hfresh⟩
        exact ⟨⟨fun other ho he => (hfresh other ho).1 he.symm, hnodup⟩, hknown,
          fun other ho => (hfresh other ho).2⟩
      · rintro ⟨⟨hnot, hnodup⟩, -, hfresh⟩
        exact ⟨hnodup, fun other ho => ⟨fun he => hnot other ho he.symm, hfresh other ho⟩⟩

/-- No item has the key of an earlier one exactly if all keys are different. -/
theorem firstRepeated?_eq_none_iff {items : List α} :
    firstRepeated? key items = none ↔ (items.map key).Nodup := by
  rw [firstRepeated?, firstRepeated?_go_eq_none_iff]
  exact and_iff_left fun item _ => Std.HashSet.not_mem_empty

end Repeated

/-! ### Fields and methods -/

/-- The two sorts of members. -/
inductive MemberSort where
  | field
  | method
  deriving DecidableEq, Repr

namespace ClassFile

variable {file : ClassFile} {sort : MemberSort} {signature : Signature}

/-- The names and descriptors of all fields, or of all methods, in order. -/
def memberNames (file : ClassFile) : MemberSort → List (UInt16 × UInt16)
  | .field => file.fields.map fun field => (field.name, field.descriptor)
  | .method => file.methods.map fun method => (method.name, method.descriptor)

/-- The bytes that the members are told apart by. -/
def memberKeys (file : ClassFile) (sort : MemberSort) : List (Option Bytes × Option Bytes) :=
  (file.memberNames sort).map fun row => (file.pool.utf8 row.1, file.pool.utf8 row.2)

/-- Whether all fields and methods have a name and a descriptor. -/
def NamesMembers (file : ClassFile) : Prop :=
  ∀ sort, ∀ row ∈ file.memberNames sort,
    (file.pool.utf8 row.1).isSome ∧ (file.pool.utf8 row.2).isSome

/-- Whether no two fields and no two methods have the bytes of their names and descriptors in
common. -/
def IsDistinct (file : ClassFile) : Prop := ∀ sort, (file.memberKeys sort).Nodup

/-- Whether a class has a member with a name and a descriptor. -/
def HasMember (file : ClassFile) (sort : MemberSort) (signature : Signature) : Prop :=
  ∃ row ∈ file.memberNames sort, file.pool.Spells row.1 signature.name ∧
    file.pool.Spells row.2 signature.descriptor

/-- The index of the member with a name and a descriptor. -/
def memberIndex? (file : ClassFile) (sort : MemberSort) (signature : Signature) : Option Nat :=
  match sort with
  | .field => file.fieldIndex? signature.name signature.descriptor
  | .method => file.methodIndex? signature.name signature.descriptor

/-- All members of a class that was read have names and descriptors. -/
theorem IsParsed.namesMembers (h : file.IsParsed) : file.NamesMembers := by
  rintro (_ | _) row hrow
  · obtain ⟨field, hfield, rfl⟩ := List.mem_map.mp hrow
    exact ⟨(h.fields field hfield).name, (h.fields field hfield).descriptor⟩
  · obtain ⟨method, hmethod, rfl⟩ := List.mem_map.mp hrow
    exact ⟨(h.methods method hmethod).name, (h.methods method hmethod).descriptor⟩

/-- A member is found exactly if there is one of that name and descriptor. -/
theorem isSome_memberIndex? :
    (file.memberIndex? sort signature).isSome ↔ file.HasMember sort signature := by
  unfold HasMember
  cases sort with
  | field =>
    rw [memberIndex?, fieldIndex?, List.findIdx?_isSome, List.any_eq_true]
    simp only [memberNames, Pool.isMember_iff, List.mem_map, exists_exists_and_eq_and]
  | method =>
    rw [memberIndex?, methodIndex?, List.findIdx?_isSome, List.any_eq_true]
    simp only [memberNames, Pool.isMember_iff, List.mem_map, exists_exists_and_eq_and]

/-- No class is refused for members that are alike unless there are some. -/
theorem duplicateRefusal?_eq_none_iff : file.duplicateRefusal? = none ↔ file.IsDistinct := by
  have hfields : (file.fields.map fun field =>
      (file.pool.utf8 field.name, file.pool.utf8 field.descriptor)) =
        file.memberKeys .field := by
    rw [memberKeys, memberNames, List.map_map]
    rfl
  have hmethods : (file.methods.map fun method =>
      (file.pool.utf8 method.name, file.pool.utf8 method.descriptor)) =
        file.memberKeys .method := by
    rw [memberKeys, memberNames, List.map_map]
    rfl
  rw [duplicateRefusal?, Option.orElse_eq_orElse, Option.orElse_eq_or, Option.or_eq_none_iff,
    Option.map_eq_none_iff, Option.map_eq_none_iff, firstRepeated?_eq_none_iff,
    firstRepeated?_eq_none_iff, hfields, hmethods]
  constructor
  · rintro ⟨hfield, hmethod⟩ (_ | _)
    · exact hfield
    · exact hmethod
  · exact fun h => ⟨h .field, h .method⟩

end ClassFile

/-! ### Refusals -/

/-- Whether a class is refused for two members that are alike. -/
def Refusal.isDuplicate (refusal : Refusal) : Bool :=
  match refusal.flaw with
  | .duplicateField _ | .duplicateMethod => true
  | _ => false

theorem Refusal.isDuplicate_inMethod (method : String) (refusal : Refusal) :
    (refusal.inMethod method).isDuplicate = refusal.isDuplicate :=
  rfl

variable {refusal : Refusal}

theorem Body.not_isDuplicate_of_referenceRefusal? {body : Body}
    (h : body.referenceRefusal? pool = some refusal) : refusal.isDuplicate = false := by
  rw [referenceRefusal?, Option.orElse_eq_orElse, Option.orElse_eq_or, Option.or_eq_some_iff] at h
  rcases h with hstep | ⟨-, hhandler⟩
  · obtain ⟨⟨step, place⟩, -, hfound⟩ := List.exists_of_findSome?_eq_some hstep
    obtain ⟨flaw, hflaw, rfl⟩ := Option.map_eq_some_iff.mp hfound
    obtain ⟨constant, -, hcause⟩ := Option.bind_eq_some_iff.mp hflaw
    split at hcause
    · obtain rfl := Option.some.inj hcause
      rfl
    · split_ifs at hcause
      obtain rfl := Option.some.inj hcause
      rfl
  · obtain ⟨handler, -, hflaw⟩ := List.exists_of_findSome?_eq_some hhandler
    split_ifs at hflaw
    obtain rfl := Option.some.inj hflaw
    rfl

theorem Field.not_isDuplicate_of_referenceRefusal? {field : Field}
    (h : field.referenceRefusal? pool = some refusal) : refusal.isDuplicate = false := by
  unfold referenceRefusal? at h
  split at h
  · obtain rfl := Option.some.inj h
    rfl
  · split_ifs at h
    obtain rfl := Option.some.inj h
    rfl

theorem Method.not_isDuplicate_of_referenceRefusal? {method : Method}
    (h : method.referenceRefusal? pool = some refusal) : refusal.isDuplicate = false := by
  obtain ⟨inner, hinner, rfl⟩ := Option.map_eq_some_iff.mp h
  rw [Refusal.isDuplicate_inMethod]
  split at hinner
  · obtain rfl := Option.some.inj hinner
    rfl
  · split_ifs at hinner
    · obtain rfl := Option.some.inj hinner
      rfl
    · obtain ⟨body, -, hbody⟩ := Option.bind_eq_some_iff.mp hinner
      exact Body.not_isDuplicate_of_referenceRefusal? hbody

theorem Method.not_isDuplicate_of_bodyRefusal? {method : Method} {thisClass : Bytes}
    {hierarchy : Hierarchy} (h : method.bodyRefusal? pool thisClass hierarchy = some refusal) :
    refusal.isDuplicate = false := by
  obtain ⟨body, -, hbody⟩ := Option.bind_eq_some_iff.mp h
  split_ifs at hbody
  obtain ⟨inner, hinner, rfl⟩ := Option.map_eq_some_iff.mp hbody
  rw [Refusal.isDuplicate_inMethod]
  split at hinner
  · obtain rfl := Option.some.inj hinner
    rfl
  · split_ifs at hinner
    · obtain rfl := Option.some.inj hinner
      rfl
    · obtain rfl := Option.some.inj hinner
      rfl

namespace ClassFile

variable {file : ClassFile} {hierarchy : Hierarchy}

theorem not_isDuplicate_of_referenceRefusal? (h : file.referenceRefusal? = some refusal) :
    refusal.isDuplicate = false := by
  simp only [referenceRefusal?, Option.orElse_eq_orElse, Option.orElse_eq_or,
    Option.or_eq_some_iff] at h
  rcases h with hclass | ⟨-, hfield | ⟨-, hmethod⟩⟩
  · obtain ⟨flaw, hflaw, rfl⟩ := Option.map_eq_some_iff.mp hclass
    unfold classFlaw? at hflaw
    dsimp only at hflaw
    split_ifs at hflaw
    · obtain rfl := Option.some.inj hflaw
      rfl
    · obtain rfl := Option.some.inj hflaw
      rfl
    · obtain ⟨interface, -, rfl⟩ := Option.map_eq_some_iff.mp hflaw
      rfl
  · obtain ⟨field, -, hfield⟩ := List.exists_of_findSome?_eq_some hfield
    exact Field.not_isDuplicate_of_referenceRefusal? hfield
  · obtain ⟨method, -, hmethod⟩ := List.exists_of_findSome?_eq_some hmethod
    exact Method.not_isDuplicate_of_referenceRefusal? hmethod

/-- A class without two members that are alike is refused for other reasons only. -/
theorem IsDistinct.not_isDuplicate_of_verify (hd : file.IsDistinct)
    (h : file.verify hierarchy = .error refusal) : refusal.isDuplicate = false := by
  have hrefusal : file.refusal? hierarchy = some refusal := by
    unfold verify at h
    split at h
    · rename_i found hfound
      rw [hfound, Except.error.inj h]
    · nomatch h
  rw [refusal?, Option.orElse_eq_orElse, Option.orElse_eq_or, Option.or_eq_some_iff] at hrefusal
  rcases hrefusal with hreference | ⟨-, hother⟩
  · exact not_isDuplicate_of_referenceRefusal? hreference
  · split at hother
    · obtain rfl := Option.some.inj hother
      rfl
    · rw [Option.orElse_eq_or, duplicateRefusal?_eq_none_iff.mpr hd, Option.or_none] at hother
      obtain ⟨method, -, hmethod⟩ := List.exists_of_findSome?_eq_some hother
      exact Method.not_isDuplicate_of_bodyRefusal? hmethod

end ClassFile

end ClassGraft

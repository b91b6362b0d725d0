import ClassGraft.Proofs.Graft.Deeds
import ClassGraft.Proofs.Graft.Sites
import ClassGraft.Proofs.Pool.Numbering
import ClassGraft.Proofs.Text.ModifiedUtf8

/-!
# Members by their names

Constants hold names in modified UTF-8.  A member that is declared is found by its strings, which
are looked for in ordinary and in modified UTF-8; a member that is referred to is looked for in
ordinary UTF-8 only, so a reference that was made from strings is found by them if they are plain,
and only then (`Pool.Member.is_iff_of_encoded`).  In neither case is a member found by other strings
(`ClassFile.finds_by_strings`).
-/

namespace ClassGraft

/-! ### Texts of a pool -/

/-- Whether the text at an index spells the given one. -/
def Pool.Spells (pool : Pool) (index : UInt16) (text : String) : Prop :=
  ∃ bytes, pool.utf8 index = some bytes ∧ ModifiedUtf8.Spells bytes text

variable {pool later : Pool} {index : UInt16} {text other : String}

theorem Pool.Spells.unique (h : pool.Spells index text) (h' : pool.Spells index other) :
    text = other := by
  obtain ⟨bytes, hbytes, h⟩ := h
  obtain ⟨bytes', hbytes', h'⟩ := h'
  obtain rfl := Option.some.inj (hbytes.symm.trans hbytes')
  exact h.unique h'

theorem Pool.spells_of_utf8Is (h : pool.utf8Is index text = true) : pool.Spells index text := by
  unfold Pool.utf8Is at h
  split at h
  · rename_i bytes hbytes
    rw [Bool.or_eq_true, beq_iff_eq, beq_iff_eq] at h
    rcases h with rfl | rfl
    · exact ⟨_, hbytes, ModifiedUtf8.decode_ofText text⟩
    · exact ⟨_, hbytes, ModifiedUtf8.decode_encode text⟩
  · simp at h

/-- A text that was added is the text that was given. -/
theorem Pool.isMember_of_utf8 {between : Pool} {nameIndex descriptorIndex : UInt16}
    {name descriptor : String} (hname : Interning.utf8 name pool = (.ok nameIndex, between))
    (hdescriptor : Interning.utf8 descriptor between = (.ok descriptorIndex, later)) :
    later.isMember nameIndex descriptorIndex name descriptor = true := by
  obtain ⟨-, hn⟩ := Interning.utf8Bytes_spec hname
  obtain ⟨hx, hd⟩ := Interning.utf8Bytes_spec hdescriptor
  rw [Pool.isMember, Bool.and_eq_true]
  exact ⟨Pool.utf8Is_of_encode (hx.grows.utf8 hn), Pool.utf8Is_of_encode hd⟩

theorem Pool.spells_of_isMember {nameIndex descriptorIndex : UInt16} {name descriptor : String}
    (h : pool.isMember nameIndex descriptorIndex name descriptor = true) :
    pool.Spells nameIndex name ∧ pool.Spells descriptorIndex descriptor := by
  rw [Pool.isMember, Bool.and_eq_true] at h
  exact ⟨Pool.spells_of_utf8Is h.1, Pool.spells_of_utf8Is h.2⟩

/-! ### References -/

/-- Whether all characters of the three strings take the same bytes in ordinary and in modified
UTF-8. -/
structure MemberName.IsPlain (named : MemberName) : Prop where
  owner : ModifiedUtf8.IsPlain named.owner
  name : ModifiedUtf8.IsPlain named.name
  descriptor : ModifiedUtf8.IsPlain named.descriptor

namespace Pool.Member

variable {member : Member} {named callee : MemberName}

/-- Whether the member is the one that three strings name. -/
structure Spells (member : Member) (named : MemberName) : Prop where
  owner : ModifiedUtf8.Spells member.owner named.owner
  name : ModifiedUtf8.Spells member.name named.name
  descriptor : ModifiedUtf8.Spells member.descriptor named.descriptor

theorem is_iff : member.is callee.owner callee.name callee.descriptor = true ↔
    member.owner = Bytes.ofText callee.owner ∧ member.name = Bytes.ofText callee.name ∧
      member.descriptor = Bytes.ofText callee.descriptor := by
  rw [is, Bool.and_eq_true, Bool.and_eq_true, beq_iff_eq, beq_iff_eq, beq_iff_eq, and_assoc]

/-- A reference is found by the strings that it spells. -/
theorem spells_of_is (h : member.is callee.owner callee.name callee.descriptor = true) :
    member.Spells callee := by
  obtain ⟨howner, hname, hdescriptor⟩ := is_iff.mp h
  exact ⟨howner ▸ ModifiedUtf8.decode_ofText _, hname ▸ ModifiedUtf8.decode_ofText _,
    hdescriptor ▸ ModifiedUtf8.decode_ofText _⟩

/-- A reference in modified UTF-8 is found by its own strings, and by these only if they are
plain. -/
theorem is_iff_of_encoded {kind : MemberKind} :
    Member.is ⟨kind, ModifiedUtf8.encode named.owner, ModifiedUtf8.encode named.name,
        ModifiedUtf8.encode named.descriptor⟩ callee.owner callee.name callee.descriptor = true ↔
      callee = named ∧ named.IsPlain := by
  have hsame {text other : String} : ModifiedUtf8.encode text = Bytes.ofText other ↔
      other = text ∧ ModifiedUtf8.IsPlain text :=
    eq_comm.trans ModifiedUtf8.ofText_eq_encode_iff
  rw [is_iff, hsame, hsame, hsame]
  constructor
  · rintro ⟨⟨howner, ho⟩, ⟨hname, hn⟩, hdescriptor, hd⟩
    cases callee
    cases named
    exact ⟨MemberName.mk.injEq .. ▸ ⟨howner, hname, hdescriptor⟩, ho, hn, hd⟩
  · rintro ⟨rfl, h⟩
    exact ⟨⟨rfl, h.owner⟩, ⟨rfl, h.name⟩, rfl, h.descriptor⟩

end Pool.Member

/-- What a call of a reference that was made from strings is found by. -/
theorem Instruction.calls_iff_of_member {τ : Type} {instruction : Instruction τ}
    {kind : Pool.MemberKind} {named callee : MemberName}
    (h : Interning.member kind named.owner named.name named.descriptor pool = (.ok index, later))
    (hi : instruction.calleeIndex? = some index) :
    instruction.calls later callee = true ↔ callee = named ∧ named.IsPlain := by
  rw [calls_eq, hi, Option.bind_some, (Interning.member_spec h).2, Option.any_some]
  exact Pool.Member.is_iff_of_encoded

/-! ### Declarations -/

namespace ClassFile

variable {file later : ClassFile} {access : UInt16} {body : Option Body} {position : Nat}
  {named callee : MemberName}

/-- A search finds what comes last, or something before it. -/
theorem exists_findIdx?_append {α : Type} {rows : List α} {row : α} {p : α → Bool}
    (h : p row = true) : ∃ first ≤ rows.length, (rows ++ [row]).findIdx? p = some first := by
  rw [List.findIdx?_append, List.findIdx?_singleton, h]
  cases hrows : rows.findIdx? p with
  | none => exact ⟨rows.length, Nat.le_refl _, by simp⟩
  | some first =>
    obtain ⟨hlt, -⟩ := List.findIdx?_eq_some_iff_getElem.mp hrows
    exact ⟨first, Nat.le_of_lt hlt, rfl⟩

theorem exists_of_methodIndex? {name descriptor : String}
    (h : file.methodIndex? name descriptor = some position) :
    ∃ method, file.methods[position]? = some method ∧
      file.pool.Spells method.name name ∧ file.pool.Spells method.descriptor descriptor := by
  obtain ⟨hlt, hmatch, -⟩ := List.findIdx?_eq_some_iff_getElem.mp h
  exact ⟨_, List.getElem?_eq_getElem hlt, Pool.spells_of_isMember hmatch⟩

theorem exists_of_fieldIndex? {name descriptor : String}
    (h : file.fieldIndex? name descriptor = some position) :
    ∃ field, file.fields[position]? = some field ∧
      file.pool.Spells field.name name ∧ file.pool.Spells field.descriptor descriptor := by
  obtain ⟨hlt, hmatch, -⟩ := List.findIdx?_eq_some_iff_getElem.mp h
  exact ⟨_, List.getElem?_eq_getElem hlt, Pool.spells_of_isMember hmatch⟩

/-- A method that was added is found by its strings, or one before it that spells them, and it is
found by no others. -/
theorem methodIndex?_of_addMethod
    (h : Changing.addMethod access named.name named.descriptor body file =
      (.ok position, later)) :
    (∃ first ≤ position, later.methodIndex? named.name named.descriptor = some first) ∧
      (later.methodIndex? callee.name callee.descriptor = some position →
        callee.name = named.name ∧ callee.descriptor = named.descriptor) := by
  obtain ⟨rfl, nameIndex, descriptorIndex, between, pool, hname, hdescriptor, rfl⟩ :=
    Changing.addMethod_eq_ok h
  have hadded := Pool.isMember_of_utf8 hname hdescriptor
  refine ⟨exists_findIdx?_append hadded, fun hfound => ?_⟩
  obtain ⟨method, hmethod, hspelled⟩ := exists_of_methodIndex? hfound
  obtain rfl := Option.some.inj (List.getElem?_concat_length.symm.trans hmethod)
  obtain ⟨hn, hd⟩ := Pool.spells_of_isMember hadded
  exact ⟨hspelled.1.unique hn, hspelled.2.unique hd⟩

/-- A field that was added is found by its strings, or one before it that spells them, and it is
found by no others. -/
theorem fieldIndex?_of_addField
    (h : Changing.addField access named.name named.descriptor file = (.ok position, later)) :
    (∃ first ≤ position, later.fieldIndex? named.name named.descriptor = some first) ∧
      (later.fieldIndex? callee.name callee.descriptor = some position →
        callee.name = named.name ∧ callee.descriptor = named.descriptor) := by
  obtain ⟨rfl, nameIndex, descriptorIndex, between, pool, hname, hdescriptor, rfl⟩ :=
    Changing.addField_eq_ok h
  have hadded := Pool.isMember_of_utf8 hname hdescriptor
  refine ⟨exists_findIdx?_append hadded, fun hfound => ?_⟩
  obtain ⟨field, hfield, hspelled⟩ := exists_of_fieldIndex? hfound
  obtain rfl := Option.some.inj (List.getElem?_concat_length.symm.trans hfield)
  obtain ⟨hn, hd⟩ := Pool.spells_of_isMember hadded
  exact ⟨hspelled.1.unique hn, hspelled.2.unique hd⟩

/-- What is found by strings.  A reference that was made from strings is found by these if they are
plain, and only then, and so are its calls; a method or a field that was added is found by its
strings.  Whatever is found by strings spells them. -/
theorem finds_by_strings (file : ClassFile) (named callee : MemberName) :
    (∀ kind index pool,
      Interning.member kind named.owner named.name named.descriptor file.pool = (.ok index, pool) →
        (∃ found, pool.member index = some found ∧ found.kind = kind ∧
          (found.is callee.owner callee.name callee.descriptor = true ↔
            callee = named ∧ named.IsPlain)) ∧
        ∀ instruction : Instruction Mark, instruction.calleeIndex? = some index →
          (instruction.calls pool callee = true ↔ callee = named ∧ named.IsPlain)) ∧
    (∀ access body position later,
      Changing.addMethod access named.name named.descriptor body file = (.ok position, later) →
        (∃ first ≤ position, later.methodIndex? named.name named.descriptor = some first) ∧
        (later.methodIndex? callee.name callee.descriptor = some position →
          callee.name = named.name ∧ callee.descriptor = named.descriptor)) ∧
    (∀ access position later,
      Changing.addField access named.name named.descriptor file = (.ok position, later) →
        (∃ first ≤ position, later.fieldIndex? named.name named.descriptor = some first) ∧
        (later.fieldIndex? callee.name callee.descriptor = some position →
          callee.name = named.name ∧ callee.descriptor = named.descriptor)) ∧
    (∀ index found, file.pool.member index = some found →
      found.is callee.owner callee.name callee.descriptor = true → found.Spells callee) ∧
    (∀ position, file.methodIndex? callee.name callee.descriptor = some position →
      ∃ method, file.methods[position]? = some method ∧
        file.pool.Spells method.name callee.name ∧
        file.pool.Spells method.descriptor callee.descriptor) ∧
    ∀ position, file.fieldIndex? callee.name callee.descriptor = some position →
      ∃ field, file.fields[position]? = some field ∧
        file.pool.Spells field.name callee.name ∧
        file.pool.Spells field.descriptor callee.descriptor := by
  refine ⟨fun kind index pool h => ⟨?_, fun instruction hi => ?_⟩,
    fun access body position later h => methodIndex?_of_addMethod h,
    fun access position later h => fieldIndex?_of_addField h,
    fun index found _ h => Pool.Member.spells_of_is h,
    fun position h => exists_of_methodIndex? h, fun position h => exists_of_fieldIndex? h⟩
  · exact ⟨_, (Interning.member_spec h).2, rfl, Pool.Member.is_iff_of_encoded⟩
  · exact Instruction.calls_iff_of_member h hi

/-- A reference to a class whose name is the character U+0000 is not found by the strings that it
was made from, and neither is a call of it. -/
theorem calls_eq_false_of_nul : ∃ index pool,
    Interning.member .method "\x00" "m" "()V" Pool.empty = (.ok index, pool) ∧
    (∃ found, pool.member index = some found ∧ found.is "\x00" "m" "()V" = false) ∧
    ∀ op, (Instruction.invoke (τ := Mark) op index).calls pool ⟨"\x00", "m", "()V"⟩ = false := by
  obtain ⟨index, pool, hmember, -⟩ :=
    (Interning.fits_member .method "\x00" "m" "()V").exists_eq_ok Pool.empty (by decide)
  let named : MemberName := ⟨"\x00", "m", "()V"⟩
  have hplain : ¬named.IsPlain := fun h => absurd (h.owner '\x00' (by decide)) (by decide)
  have hfound := @Pool.Member.is_iff_of_encoded named named .method
  have hcalls op := @Instruction.calls_iff_of_member _ _ _ Mark (.invoke op index) _ named named
    hmember rfl
  exact ⟨index, pool, hmember, ⟨_, (Interning.member_spec hmember).2,
      Bool.eq_false_iff.mpr fun h => hplain (hfound.mp h).2⟩,
    fun op => Bool.eq_false_iff.mpr fun h => hplain ((hcalls op).mp h).2⟩

end ClassFile

end ClassGraft

import ClassGraft.Code.Listing
import ClassGraft.Proofs.Pool.Numbering
import ClassGraft.Proofs.Template.Resolving
import ClassGraft.Proofs.Text.ModifiedUtf8

/-!
# Instructions from listings

The text that a listing shows for an instruction is a template, which becomes the instruction again
(`Instruction.exists_steps_of_text`): the same one up to the index of its constant, where the pool
has a constant that stands for the same.  The text leaves out of which kind a member is, so that it
is taken to be of the kind that the opcode suggests: a call of a method of an interface that is not
made by `invokeinterface` comes back as a call of a method of a class
(`Calling.not_isAt_of_steps`).
-/

namespace ClassGraft

open ModifiedUtf8 (Spells)
open Text (IsWord)

/-! ### What instructions refer to -/

/-- Whether a constant is the one at an index, whatever its texts are spelled like. -/
def Constant.IsSpelledAt (pool : Pool) (index : UInt16) : Constant → Prop
  | int value => pool.get index = some (.integer value)
  | float bits => pool.get index = some (.float bits)
  | long value => pool.get index = some (.long value)
  | double bits => pool.get index = some (.double bits)
  | string value => ∃ text bytes, pool.get index = some (.named .string text) ∧
    pool.utf8 text = some bytes ∧ Spells bytes value
  | classRef name => ∃ bytes, pool.className index = some bytes ∧ Spells bytes name

/-- Whether the member of a kind that is named is the one at an index, whatever its names are
spelled like. -/
def MemberName.IsSpelledAt (pool : Pool) (index : UInt16) (kind : Pool.MemberKind)
    (member : MemberName) : Prop :=
  ∃ found, pool.member index = some found ∧ found.kind = kind ∧
    Spells found.owner member.owner ∧ Spells found.name member.name ∧
    Spells found.descriptor member.descriptor

/-- What an instruction may refer to. -/
inductive Reference where
  | constant (value : Constant)
  | member (kind : Pool.MemberKind) (member : MemberName)

/-- Whether an index leads to what is referred to. -/
def Reference.IsAt (pool : Pool) (index : UInt16) : Reference → Prop
  | constant value => value.IsSpelledAt pool index
  | member kind named => named.IsSpelledAt pool index kind

/-- The kind of member that the text of an instruction suggests. -/
def Instruction.memberKind? {τ : Type} : Instruction τ → Option Pool.MemberKind
  | field _ _ => some .field
  | invoke _ _ => some .method
  | invokeInterface _ _ => some .interfaceMethod
  | _ => none

/-- What the text of an instruction tells of what it refers to: a member is of the kind that the
text suggests, whichever it is of. -/
def Instruction.told {τ : Type} (instruction : Instruction τ) : Reference → Reference
  | .constant value => .constant value
  | .member kind named => .member (instruction.memberKind?.getD kind) named

/-- The instruction with another index of its constant. -/
def Instruction.mapIndex {τ : Type} (f : UInt16 → UInt16) : Instruction τ → Instruction τ
  | constant index => constant (f index)
  | field op index => field op (f index)
  | invoke op index => invoke op (f index)
  | invokeInterface index count => invokeInterface (f index) count
  | invokeDynamic index => invokeDynamic (f index)
  | classOp op index => classOp op (f index)
  | newMultiArray index dimensions => newMultiArray (f index) dimensions
  | other => other

/-- Whether the text of a constant tells it: the name of a class is a word, and a number is one. -/
def Constant.IsTold : Constant → Prop
  | classRef name => IsWord name.toList
  | value => (Line.constant value).loadsNaN = false

/-- Whether the text of an instruction tells it, but for the kind of a member.  It is no jump, no
return to an address and no computed call.  Names are words, a call of an interface states the number
that the descriptor gives, and an element type has a name. -/
def Instruction.IsTold (pool : Pool) : Instruction Mark → Prop
  | constant index => ∃ value : Constant, value.IsSpelledAt pool index ∧ value.IsTold
  | access op _ => op ≠ Opcode.ret
  | field _ index | invoke _ index => ∃ kind, ∃ member : MemberName,
    member.IsSpelledAt pool index kind ∧ member.IsSpellable
  | invokeInterface index count => ∃ kind, ∃ member : MemberName,
    member.IsSpelledAt pool index kind ∧ member.IsSpellable ∧
    interfaceCount member.descriptor = .ok count
  | classOp _ index | newMultiArray index _ => ∃ name,
    (Constant.classRef name).IsSpelledAt pool index ∧ IsWord name.toList
  | newArray element => (ElementType.name? element).isSome
  | jump _ _ | tableSwitch _ _ _ _ | lookupSwitch _ _ | invokeDynamic _ => False
  | plain _ | bytePush _ | shortPush _ | increment _ _ => True

variable {pool later : Pool} {index again : UInt16}

/-- Whether an index leads to what the text of an instruction tells of what it refers to. -/
def Instruction.Retells (pool later : Pool) (instruction : Instruction Mark)
    (index again : UInt16) : Prop :=
  ∃ reference : Reference, reference.IsAt pool index ∧
    (instruction.told reference).IsAt later again ∧
    ((∃ same : Reference, same.IsAt pool index ∧ same.IsAt later again) ↔
      instruction.told reference = reference)

theorem Constant.IsAt.isSpelledAt {value : Constant} (h : value.IsAt pool index) :
    value.IsSpelledAt pool index := by
  cases value with
  | string value =>
    obtain ⟨text, hget, htext⟩ := h
    exact ⟨text, _, hget, htext, ModifiedUtf8.decode_encode value⟩
  | classRef name => exact ⟨_, h, ModifiedUtf8.decode_encode name⟩
  | _ => exact h

theorem MemberName.isSpelledAt_of_encoded {member : MemberName} {kind : Pool.MemberKind}
    (h : pool.member index = some (member.encoded kind)) : member.IsSpelledAt pool index kind :=
  ⟨_, h, rfl, ModifiedUtf8.decode_encode _, ModifiedUtf8.decode_encode _,
    ModifiedUtf8.decode_encode _⟩

/-- Where there is a member, there is nothing but members of its kind. -/
theorem Reference.exists_eq_member {kind : Pool.MemberKind} {named : MemberName}
    (h : (member kind named).IsAt pool index) {other : Reference} (ho : other.IsAt pool index) :
    ∃ again, other = .member kind again := by
  obtain ⟨found, hfound, rfl, -⟩ := h
  have hget : ∃ owner signature, pool.get index = some (.member found.kind owner signature) := by
    unfold Pool.member at hfound
    split at hfound
    · rename_i kind owner signature hget
      obtain ⟨class', -, hrest⟩ := Option.bind_eq_some_iff.mp hfound
      obtain ⟨names, -, hrest⟩ := Option.bind_eq_some_iff.mp hrest
      obtain rfl := Option.some.inj hrest
      exact ⟨owner, signature, hget⟩
    · cases hfound
  obtain ⟨owner, signature, hget⟩ := hget
  cases other with
  | member kind' again =>
    obtain ⟨found', hfound', rfl, -⟩ := ho
    obtain rfl := Option.some.inj (hfound.symm.trans hfound')
    exact ⟨again, rfl⟩
  | constant value =>
    -- the entry would have to be of another kind
    cases value with
    | string value =>
      obtain ⟨text, bytes, htext, -⟩ := ho
      cases hget.symm.trans htext
    | classRef name =>
      obtain ⟨bytes, hname, -⟩ := ho
      rw [Pool.className, hget] at hname
      cases hname
    | _ => cases hget.symm.trans ho

/-- What is told of a reference is the reference if it is to be found again at all. -/
theorem Instruction.retells {instruction : Instruction Mark} {reference : Reference}
    (h : reference.IsAt pool index) (ht : (instruction.told reference).IsAt later again) :
    instruction.Retells pool later index again := by
  refine ⟨reference, h, ht, fun ⟨same, hsame, hagain⟩ => ?_, fun heq => ⟨reference, h, heq ▸ ht⟩⟩
  cases reference with
  | constant value => rfl
  | member kind named =>
    obtain ⟨other, rfl⟩ := Reference.exists_eq_member h hsame
    obtain ⟨another, heq⟩ := Reference.exists_eq_member ht hagain
    obtain ⟨hkind, -⟩ := Reference.member.inj heq
    rw [told, ← hkind]

/-! ### Texts of instructions and lines -/

theorem Pool.classText_eq {name : String} (h : (Constant.classRef name).IsSpelledAt pool index) :
    pool.classText index = name := by
  obtain ⟨bytes, hname, hspells⟩ := h
  rw [classText, hname]
  exact hspells.display_eq

theorem Pool.memberText_eq {member : MemberName} {kind : MemberKind}
    (h : member.IsSpelledAt pool index kind) : pool.memberText index = member.text := by
  obtain ⟨found, hfound, -, howner, hname, hdescriptor⟩ := h
  rw [memberText, hfound]
  show found.text = _
  rw [Member.text, howner.display_eq, hname.display_eq, hdescriptor.display_eq, MemberName.text]

theorem Pool.constantText_eq {value : Constant} (h : value.IsSpelledAt pool index) :
    pool.constantText index = value.text := by
  cases value with
  | string value =>
    obtain ⟨text, bytes, hget, hbytes, hspells⟩ := h
    rw [constantText, hget]
    show Quoted.encode (pool.utf8Text text) = _
    rw [utf8Text, hbytes]
    exact congrArg Quoted.encode hspells.display_eq
  | classRef name =>
    have hclass := classText_eq h
    obtain ⟨bytes, hname, -⟩ := h
    unfold className at hname
    split at hname
    · rename_i text hget
      rw [constantText, hget]
      exact congrArg ("class " ++ ·) hclass
    · cases hname
  | _ =>
    rw [constantText, show pool.get index = _ from h]
    rfl

/-- Whether a line stands for an instruction, whatever the texts of its constant are spelled like
and whichever kind its member is of. -/
inductive Line.StandsFor (pool : Pool) : Line → Instruction Mark → Prop
  | plain (op : Opcode) : StandsFor pool (.plain op) (.plain op)
  | bytePush (value : Int8) : StandsFor pool (.bytePush value) (.bytePush value)
  | shortPush (value : Int16) : StandsFor pool (.shortPush value) (.shortPush value)
  | constant {value : Constant} {index : UInt16} (h : value.IsSpelledAt pool index) :
      StandsFor pool (.constant value) (.constant index)
  | access (op : Opcode) (slot : UInt16) : StandsFor pool (.access op slot) (.access op slot)
  | increment (slot : UInt16) (delta : Int16) :
      StandsFor pool (.increment slot delta) (.increment slot delta)
  | field (op : Opcode) {kind : Pool.MemberKind} {member : MemberName} {index : UInt16}
      (h : member.IsSpelledAt pool index kind) :
      StandsFor pool (.field op member) (.field op index)
  | invoke {op : Opcode} (ho : op ≠ Opcode.invokeInterface) {kind : Pool.MemberKind}
      {member : MemberName} {index : UInt16} (h : member.IsSpelledAt pool index kind) :
      StandsFor pool (.invoke op member false) (.invoke op index)
  | invokeInterface {kind : Pool.MemberKind} {member : MemberName} {index : UInt16} {count : UInt8}
      (h : member.IsSpelledAt pool index kind)
      (hc : interfaceCount member.descriptor = .ok count) :
      StandsFor pool (.invoke Opcode.invokeInterface member true) (.invokeInterface index count)
  | classOp (op : Opcode) {name : String} {index : UInt16}
      (h : (Constant.classRef name).IsSpelledAt pool index) :
      StandsFor pool (.classOp op name) (.classOp op index)
  | newArray (element : UInt8) : StandsFor pool (.newArray element) (.newArray element)
  | newMultiArray {name : String} {index : UInt16} (dimensions : UInt8)
      (h : (Constant.classRef name).IsSpelledAt pool index) :
      StandsFor pool (.newMultiArray name dimensions) (.newMultiArray index dimensions)

variable {line : Line} {instruction : Instruction Mark}

namespace Line.StandsFor

/-- The text of an instruction is that of the line. -/
theorem text_eq (h : line.StandsFor pool instruction) : instruction.text pool = line.text := by
  -- both are a mnemonic, and operands after a blank unless there are none
  have hoperands {op : Opcode} {operands : String} (hw : line.written? = some (op, operands))
      (ho : instruction.opcode = op) (ht : instruction.operandsText pool = " " ++ operands) :
      instruction.text pool = line.text := by
    rw [text_of_written? hw, Instruction.text, ho, ht, String.append_assoc]
  cases h with
  | plain op => exact String.append_empty
  | constant hat => exact hoperands rfl rfl (congrArg (" " ++ ·) (Pool.constantText_eq hat))
  | field op hat => exact hoperands rfl rfl (congrArg (" " ++ ·) (Pool.memberText_eq hat))
  | invoke ho hat =>
    refine hoperands rfl rfl (congrArg (" " ++ ·) ((Pool.memberText_eq hat).trans ?_))
    exact String.empty_append.symm
  | invokeInterface hat hc =>
    refine hoperands rfl rfl (congrArg (" " ++ ·) ((Pool.memberText_eq hat).trans ?_))
    exact String.empty_append.symm
  | classOp op hat => exact hoperands rfl rfl (congrArg (" " ++ ·) (Pool.classText_eq hat))
  | newMultiArray dimensions hat =>
    refine hoperands rfl rfl ?_
    show " " ++ pool.classText _ ++ (" " ++ toString dimensions) = _
    rw [Pool.classText_eq hat, String.append_assoc]
  | access op slot => exact hoperands rfl rfl rfl
  | increment slot delta =>
    refine hoperands rfl rfl ?_
    show " " ++ toString slot ++ " " ++ Decimal.integer delta.toInt = _
    rw [String.append_assoc, String.append_assoc]
  | _ => exact hoperands rfl rfl rfl

/-- The line is no label. -/
theorem label?_eq_none (h : line.StandsFor pool instruction) : line.label? = none := by
  cases h <;> rfl

/-- What the line becomes is the instruction, with the index of what its text tells. -/
theorem exists_mapIndex (h : line.StandsFor pool instruction) {marks : String → Mark}
    {made : Instruction Mark} (hm : line.Becomes later marks made) :
    ∃ f, made = instruction.mapIndex f ∧
      ∀ index ∈ instruction.constantIndex?, instruction.Retells pool later index (f index) := by
  -- where there is a constant, what is told of it is found at the given index afterwards
  have hconstant {index : UInt16} (reference : Reference) (hat : reference.IsAt pool index)
      (again : UInt16) (hagain : (instruction.told reference).IsAt later again)
      (hi : instruction.constantIndex? = some index)
      (hmade : made = instruction.mapIndex fun _ => again) :
      ∃ f, made = instruction.mapIndex f ∧
        ∀ index ∈ instruction.constantIndex?, instruction.Retells pool later index (f index) := by
    refine ⟨fun _ => again, hmade, fun other hother => ?_⟩
    obtain rfl := Option.some.inj (hi.symm.trans hother)
    exact Instruction.retells hat hagain
  have hname (name : String) (again : UInt16)
      (h : later.className again = some (ModifiedUtf8.encode name)) :
      (Constant.classRef name).IsAt later again := h
  cases h with
  | @constant value index hat =>
    obtain ⟨again, hagain, rfl⟩ := hm
    exact hconstant (.constant value) hat again hagain.isSpelledAt rfl rfl
  | @field op kind member index hat =>
    obtain ⟨again, hagain, rfl⟩ := hm
    exact hconstant (.member kind member) hat again
      (MemberName.isSpelledAt_of_encoded hagain) rfl rfl
  | @invoke op ho kind member index hat =>
    obtain ⟨again, hagain, hcall⟩ := hm
    rw [callInstruction, if_neg (by simpa using ho)] at hcall
    obtain rfl := Except.ok.inj hcall
    exact hconstant (.member kind member) hat again
      (MemberName.isSpelledAt_of_encoded hagain) rfl rfl
  | @invokeInterface kind member index count hat hc =>
    obtain ⟨again, hagain, hcall⟩ := hm
    rw [callInstruction, if_pos (beq_self_eq_true _), hc] at hcall
    obtain rfl := Except.ok.inj hcall
    exact hconstant (.member kind member) hat again
      (MemberName.isSpelledAt_of_encoded hagain) rfl rfl
  | @classOp op name index hat =>
    obtain ⟨again, hagain, rfl⟩ := hm
    exact hconstant (.constant (.classRef name)) hat again
      (hname name again hagain).isSpelledAt rfl rfl
  | @newMultiArray name index dimensions hat =>
    obtain ⟨again, hagain, rfl⟩ := hm
    exact hconstant (.constant (.classRef name)) hat again
      (hname name again hagain).isSpelledAt rfl rfl
  | _ => exact ⟨id, hm, nofun⟩

end Line.StandsFor

/-! ### Instructions that are told by their texts -/

namespace Constant

variable {value : Constant}

/-- A number is read as it is, and the name of a class as well. -/
theorem isSpellable_of_isTold (h : value.IsTold) : value.IsSpellable ∧ value.quiet = value := by
  cases value with
  | float bits =>
    have hsmall : bits.toNat % 2 ^ 31 ≤ 0x7F800000 := by
      rw [← Nat.and_two_pow_sub_one_eq_mod]
      exact Nat.le_of_not_lt fun hlt => of_decide_eq_false h (UInt32.lt_iff_toNat_lt.mpr hlt)
    have hquiet : BinaryFormat.single.quiet bits.toNat = bits.toNat :=
      if_neg (Nat.not_lt_of_le hsmall)
    refine ⟨.inl hquiet, ?_⟩
    rw [quiet, hquiet, UInt32.ofNat_toNat]
  | double bits =>
    have hsmall : bits.toNat % 2 ^ 63 ≤ 0x7FF0000000000000 := by
      rw [← Nat.and_two_pow_sub_one_eq_mod]
      exact Nat.le_of_not_lt fun hlt => of_decide_eq_false h (UInt64.lt_iff_toNat_lt.mpr hlt)
    have hquiet : BinaryFormat.double.quiet bits.toNat = bits.toNat :=
      if_neg (Nat.not_lt_of_le hsmall)
    refine ⟨.inl hquiet, ?_⟩
    rw [quiet, hquiet, UInt64.ofNat_toNat]
  | classRef name =>
    have hword : IsWord name.toList := h
    exact ⟨⟨hword.ne_nil, hword.isTrimmed⟩, rfl⟩
  | _ => exact ⟨trivial, rfl⟩

end Constant

/-- An element type is found by its name. -/
theorem ElementType.exists_byName? {element : UInt8} (h : (name? element).isSome) :
    ∃ name, byName? name = some element := by
  obtain ⟨name, hname⟩ := Option.isSome_iff_exists.mp h
  obtain ⟨entry, hentry, -⟩ := Option.map_eq_some_iff.mp hname
  have hall : ∀ entry ∈ table, byName? entry.2.1 = some entry.1 := by decide +kernel
  refine ⟨entry.2.1, ?_⟩
  have hfound := List.find?_some hentry
  rw [hall entry (List.mem_of_find?_eq_some hentry), eq_of_beq hfound]

/-- An instruction that its text tells has a line that stands for it and is read as it is. -/
theorem Instruction.exists_standsFor (hr : instruction.isReadable = true)
    (h : instruction.IsTold pool) : ∃ line : Line, line.StandsFor pool instruction ∧
      line.IsSpellable ∧ line.quiet = line ∧ line.IsOneLine := by
  -- only a loaded class could have a name of several lines
  have hone {line : Line} (hs : line.StandsFor pool instruction) (hl : line.IsSpellable)
      (hq : line.quiet = line) (hn : ∀ value, line ≠ .constant value) :
      ∃ line : Line, line.StandsFor pool instruction ∧ line.IsSpellable ∧ line.quiet = line ∧
        line.IsOneLine :=
    ⟨line, hs, hl, hq, line.isOneLine_of_isSpellable hl hs.label?_eq_none
      fun name hname => absurd hname (hn _)⟩
  cases instruction with
  | plain op => exact hone (.plain op) hr rfl nofun
  | bytePush value => exact hone (.bytePush value) trivial rfl nofun
  | shortPush value => exact hone (.shortPush value) trivial rfl nofun
  | increment slot delta => exact hone (.increment slot delta) trivial rfl nofun
  | access op slot =>
    have haccess : (op.isLoad || op.isStore || op == Opcode.ret) = true := hr
    have hop : (op == Opcode.ret) = false := beq_eq_false_iff_ne.mpr h
    rw [hop, Bool.or_false] at haccess
    exact hone (.access op slot) haccess rfl nofun
  | constant index =>
    obtain ⟨value, hat, htold⟩ := h
    obtain ⟨hspellable, hquiet⟩ := Constant.isSpellable_of_isTold htold
    refine ⟨.constant value, .constant hat, hspellable, congrArg _ hquiet,
      Line.isOneLine_of_isSpellable hspellable rfl fun name hname => ?_⟩
    obtain rfl := Line.constant.inj hname
    exact (isPhrase_of_isWord htold).newline
  | field op index =>
    obtain ⟨kind, member, hat, hmember⟩ := h
    exact hone (.field op hat) ⟨hr, hmember⟩ rfl nofun
  | invoke op index =>
    obtain ⟨kind, member, hat, hmember⟩ := h
    have hop : op.isInvoke = true := hr
    have hne : op ≠ Opcode.invokeInterface := by
      rintro rfl
      cases hop
    exact hone (.invoke hne hat) ⟨by rw [hop, Bool.true_or], hmember, fun he => absurd he hne⟩ rfl
      nofun
  | invokeInterface index count =>
    obtain ⟨kind, member, hat, hmember, hcount⟩ := h
    exact hone (.invokeInterface hat hcount) ⟨rfl, hmember, fun _ => rfl⟩ rfl nofun
  | classOp op index =>
    obtain ⟨name, hat, hword⟩ := h
    exact hone (.classOp op hat) ⟨hr, hword⟩ rfl nofun
  | newArray element =>
    exact hone (.newArray element) (ElementType.exists_byName? h) rfl nofun
  | newMultiArray index dimensions =>
    obtain ⟨name, hat, hword⟩ := h
    exact hone (.newMultiArray dimensions hat) hword rfl nofun
  | jump | tableSwitch | lookupSwitch | invokeDynamic => exact h.elim

/-! ### Room for what a line adds -/

namespace Supplied

variable {α β : Type} {count others : Nat}

/-- Whether the step adds constants for no more than so many slots, and fails only if there is no
room for them, as the pool is full. -/
def Fits (run : Supplied α) (count : Nat) : Prop :=
  ∀ supply : Supply,
    (∃ value later, run supply = (.ok value, later) ∧
      later.pool.slots.size ≤ supply.pool.slots.size + count) ∨
    65535 ≤ supply.pool.slots.size + count ∧ ∃ kind index later,
      run supply = (.error (.file (.poolFull kind index)), later)

theorem fits_intern {step : Interning α} (h : step.Fits count) : Fits (intern step) count := by
  rintro ⟨nextMark, pool⟩
  rcases h pool with ⟨value, later, hstep, hsize⟩ | ⟨hfull, kind, index, later, hstep⟩
  · exact .inl ⟨value, ⟨nextMark, later⟩, intern_eq_ok.mpr ⟨later, hstep, rfl⟩, hsize⟩
  · refine .inr ⟨hfull, kind, index, ⟨nextMark, later⟩, ?_⟩
    unfold intern
    dsimp only
    rw [hstep]
    rfl

theorem fits_pure (value : α) : Fits (pure value) 0 :=
  fun supply => .inl ⟨value, supply, rfl, Nat.le_refl _⟩

theorem fits_lift {value : α} {result : Except TemplateFault α} (h : result = .ok value) :
    Fits (liftM result) 0 :=
  fun supply => .inl ⟨value, supply, ExceptT.lift_eq_ok.mpr ⟨h, rfl⟩, Nat.le_refl _⟩

theorem Fits.bind {run : Supplied α} {next : α → Supplied β} (h : Fits run count)
    (hn : ∀ value, Fits (next value) others) : Fits (run >>= next) (others + count) := by
  intro supply
  rcases h supply with ⟨value, between, hvalue, hbetween⟩ | ⟨hfull, kind, index, later, herror⟩
  · rcases hn value between with ⟨result, later, hresult, hlater⟩ |
      ⟨hfull, kind, index, later, herror⟩
    · exact .inl ⟨result, later, (ExceptT.bind_of_ok hvalue).trans hresult, by omega⟩
    · exact .inr ⟨by omega, kind, index, later, (ExceptT.bind_of_ok hvalue).trans herror⟩
  · exact .inr ⟨by omega, kind, index, later, ExceptT.bind_of_error herror⟩

end Supplied

theorem Constant.exists_fits_intern (value : Constant) : ∃ count ≤ 6, value.intern.Fits count := by
  cases value with
  | int value => exact ⟨1, by decide, Interning.fits_entry rfl⟩
  | float bits => exact ⟨1, by decide, Interning.fits_entry rfl⟩
  | long value => exact ⟨2, by decide, Interning.fits_entry rfl⟩
  | double bits => exact ⟨2, by decide, Interning.fits_entry rfl⟩
  | string value => exact ⟨2, by decide, Interning.fits_string value⟩
  | classRef name => exact ⟨2, by decide, Interning.fits_classRef name⟩

/-- A line that stands for an instruction takes six slots at most. -/
theorem Line.StandsFor.exists_fits (h : line.StandsFor pool instruction)
    (labels : Template.Labels) :
    ∃ count ≤ 6, Supplied.Fits (Template.instruction labels line) count := by
  -- only what is added takes room; the instruction that refers to it never fails
  have hintern {step : Interning UInt16} (hstep : ∃ count ≤ 6, step.Fits count)
      (given : UInt16 → Except TemplateFault (Instruction Mark))
      (hg : ∀ index, ∃ made, given index = .ok made) :
      ∃ count ≤ 6, Supplied.Fits (do
        let index ← Supplied.intern step
        return (some (← liftM (given index)), labels)) count := by
    obtain ⟨count, hle, hfits⟩ := hstep
    refine ⟨0 + 0 + count, by omega, (Supplied.fits_intern hfits).bind fun index => ?_⟩
    obtain ⟨made, hmade⟩ := hg index
    exact (Supplied.fits_lift hmade).bind fun _ => Supplied.fits_pure _
  have hmember (kind : Pool.MemberKind) (member : MemberName) : ∃ count ≤ 6, Interning.Fits
      (Interning.member kind member.owner member.name member.descriptor) count :=
    ⟨6, Nat.le_refl 6, Interning.fits_member kind _ _ _⟩
  have hclass (name : String) : ∃ count ≤ 6, Interning.Fits (Interning.classRef name) count :=
    ⟨2, by decide, Interning.fits_classRef name⟩
  cases h with
  | @constant value index hat =>
    exact hintern value.exists_fits_intern (fun index => .ok (.constant index))
      fun index => ⟨_, rfl⟩
  | @field op kind member index hat =>
    exact hintern (hmember .field member) (fun index => .ok (.field op index))
      fun index => ⟨_, rfl⟩
  | @invoke op ho kind member index hat =>
    exact hintern (hmember .method member) _ fun index => ⟨_, if_neg (by simpa using ho)⟩
  | @invokeInterface kind member index count hat hc =>
    refine hintern (hmember .interfaceMethod member) _ fun index =>
      ⟨.invokeInterface index count, ?_⟩
    rw [callInstruction, if_pos (beq_self_eq_true _), hc]
    rfl
  | @classOp op name index hat =>
    exact hintern (hclass name) (fun index => .ok (.classOp op index)) fun index => ⟨_, rfl⟩
  | @newMultiArray name index dimensions hat =>
    exact hintern (hclass name) (fun index => .ok (.newMultiArray index dimensions))
      fun index => ⟨_, rfl⟩
  | _ => exact ⟨0, by decide, Supplied.fits_pure _⟩

namespace Template

/-- A template of one instruction. -/
theorem steps_singleton (hl : line.label? = none) (supply : Supply) : steps [line] supply =
    stepsFrom supply.nextMark ∅ [] [line] ⟨supply.nextMark + 1, supply.pool⟩ := by
  have hcount : ([line].filter (·.label?.isNone)).length = 1 := by
    rw [List.filter_cons_of_pos (by rw [hl]; rfl)]
    rfl
  have hmarks : labelMarks supply.nextMark [] ∅ [line] = (∅, []) := by
    rw [labelMarks, hl]
    rfl
  have hget : (get : Supplied Supply) supply = (.ok supply, supply) := rfl
  have hset : (set (⟨supply.nextMark + 1, supply.pool⟩ : Supply) : Supplied PUnit) supply =
      (.ok ⟨⟩, ⟨supply.nextMark + 1, supply.pool⟩) := rfl
  unfold steps
  rw [hcount]
  refine (ExceptT.bind_of_ok hget).trans ((ExceptT.bind_of_ok hset).trans ?_)
  rw [hmarks]

theorem fits_steps_singleton {count : Nat} (hf : Supplied.Fits (Template.instruction ∅ line) count)
    (mark : Nat) : Supplied.Fits (stepsFrom mark ∅ [] [line]) count := by
  rw [← Nat.zero_add count]
  refine hf.bind fun result => ?_
  obtain ⟨made, labels⟩ := result
  cases made with
  | none => exact Supplied.fits_pure _
  | some instruction => exact Supplied.fits_pure _

end Template

/-! ### Instructions that come back -/

/-- The text of an instruction is a template of the line that stands for it. -/
theorem Line.StandsFor.read_text (h : line.StandsFor pool instruction) (hs : line.IsSpellable)
    (hq : line.quiet = line) (ho : line.IsOneLine) :
    Template.read (instruction.text pool) = .ok [line] := by
  have hnames : Template.labelNames [line] = [] := by
    rw [Template.labelNames_cons, h.label?_eq_none]
    rfl
  have hspellable : Template.IsSpellable [line] := List.forall_mem_singleton.mpr hs
  have hlines := Template.ofLines_lines_of_isSpellable hspellable
    (List.forall_mem_singleton.mpr ho) (hnames ▸ List.nodup_nil)
  have hquiet : Template.quiet [line] = [line] := congrArg (· :: []) hq
  rw [h.text_eq]
  rwa [hquiet, Template.ofLines, Template.lines, List.map_singleton,
    String.intercalate_singleton] at hlines

/-- What a line becomes in a body is the instruction that it stands for, up to its index. -/
theorem Line.StandsFor.exists_of_stepsIn (h : line.StandsFor pool instruction) {body body' : Body}
    {before later : Pool} {steps : List Step}
    (hs : Template.stepsIn [line] body before = (.ok steps, body', later)) :
    ∃ f, steps = [⟨⟨body.nextMark⟩, instruction.mapIndex f⟩] ∧
      ∀ index ∈ instruction.constantIndex?,
        instruction.Retells pool later index (f index) := by
  obtain ⟨next, hsteps, -⟩ := Template.stepsIn_eq_ok.mp hs
  have hlabel := h.label?_eq_none
  have hnames : (Template.labelNames [line]).Nodup := by
    rw [Template.labelNames_cons, hlabel]
    exact List.nodup_nil
  obtain ⟨marks, hresolved⟩ := Template.exists_isResolved hnames hsteps
  have hlines : Template.instructions [line] = [line] :=
    List.filter_cons_of_pos (by rw [hlabel]; rfl)
  have hall := hresolved.becomes
  rw [hlines] at hall
  cases hall with
  | @cons _ step _ _ hbecomes hnil =>
    cases hnil
    have hmark : step.mark = ⟨body.nextMark⟩ := (List.cons.inj hresolved.marked).1
    obtain ⟨f, hmade, hsame⟩ := h.exists_mapIndex hbecomes
    exact ⟨f, by rw [← hmark, ← hmade], hsame⟩

/-- A line becomes the instruction that it stands for, up to its index, where there is room for what
it adds. -/
theorem Line.StandsFor.exists_steps (h : line.StandsFor pool instruction) (body : Body) :
    (∃ f body' later, Template.stepsIn [line] body pool =
        (.ok [⟨⟨body.nextMark⟩, instruction.mapIndex f⟩], body', later) ∧
      ∀ index ∈ instruction.constantIndex?, instruction.Retells pool later index (f index)) ∨
    65535 ≤ pool.slots.size + 6 ∧ ∃ kind index body' later,
      Template.stepsIn [line] body pool =
        (.error (.file (.poolFull kind index)), body', later) := by
  obtain ⟨count, hcount, hfits⟩ := h.exists_fits ∅
  have hsteps := Template.fits_steps_singleton hfits body.nextMark ⟨body.nextMark + 1, pool⟩
  rw [← Template.steps_singleton h.label?_eq_none ⟨body.nextMark, pool⟩] at hsteps
  rcases hsteps with ⟨steps, ⟨next, later⟩, hok, -⟩ | ⟨hfull, kind, index, ⟨next, later⟩, herror⟩
  · have hin := Template.stepsIn_of_steps hok
    obtain ⟨f, rfl, hretells⟩ := h.exists_of_stepsIn hin
    exact .inl ⟨f, _, later, hin, hretells⟩
  · exact .inr ⟨Nat.le_trans hfull (Nat.add_le_add_left hcount _), kind, index, _, later,
      Template.stepsIn_of_steps herror⟩

/-- The text of an instruction is a template of one line, which becomes the instruction again in a
body.  Its constant is at an index where the pool has what the text tells of it, which is the same
unless it is a member of another kind than the text suggests, and nothing else differs.  It fails
only if the pool has no room for what the line adds. -/
theorem Instruction.exists_steps_of_text (hr : instruction.isReadable = true)
    (h : instruction.IsTold pool) (body : Body) :
    ∃ line, Template.read (instruction.text pool) = .ok [line] ∧
      ((∃ f body' later, Template.stepsIn [line] body pool =
          (.ok [⟨⟨body.nextMark⟩, instruction.mapIndex f⟩], body', later) ∧
        ∀ index ∈ instruction.constantIndex?,
          instruction.Retells pool later index (f index)) ∨
      65535 ≤ pool.slots.size + 6 ∧ ∃ kind index body' later,
        Template.stepsIn [line] body pool =
          (.error (.file (.poolFull kind index)), body', later)) := by
  obtain ⟨line, hstands, hspellable, hquiet, hone⟩ := exists_standsFor hr h
  exact ⟨line, hstands.read_text hspellable hquiet hone, hstands.exists_steps body⟩

/-! ### Calls of a method of an interface -/

namespace Calling

/-- The constants of a call of `I.m`. -/
def constants : Pool :=
  let one := Pool.empty.push (.utf8 (Bytes.ofText "I")) (by decide)
  let two := one.push (.named .classRef 1) (by decide +kernel)
  let three := two.push (.utf8 (Bytes.ofText "m")) (by decide +kernel)
  let four := three.push (.utf8 (Bytes.ofText "()V")) (by decide +kernel)
  let five := four.push (.nameAndType 3 4) (by decide +kernel)
  five.push (.member .interfaceMethod 2 5) (by decide +kernel)

/-- The method that is called. -/
def named : MemberName := ⟨"I", "m", "()V"⟩

/-- A call of it by `invokeinterface`. -/
def call : Instruction Mark := .invokeInterface 6 1

/-- A call of it by `invokestatic`. -/
def staticCall : Instruction Mark := .invoke Opcode.invokeStatic 6

theorem isSpelledAt_named : named.IsSpelledAt constants 6 .interfaceMethod :=
  ⟨⟨.interfaceMethod, Bytes.ofText "I", Bytes.ofText "m", Bytes.ofText "()V"⟩, by decide +kernel,
    rfl, ModifiedUtf8.decode_ofText _, ModifiedUtf8.decode_ofText _, ModifiedUtf8.decode_ofText _⟩

theorem isSpellable_named : named.IsSpellable := by
  have hword {text : String} (h : (!text.toList.isEmpty &&
      text.toList.all fun c => Text.isBlank c == false) = true) : IsWord text.toList := by
    rw [Bool.and_eq_true] at h
    exact ⟨by simpa using h.1, by simpa using h.2⟩
  exact ⟨hword (by decide +kernel), hword (by decide +kernel), hword (by decide +kernel),
    by decide, by decide, by decide⟩

theorem isTold_call : call.IsTold constants :=
  ⟨.interfaceMethod, named, isSpelledAt_named, isSpellable_named, by decide +kernel⟩

theorem isTold_staticCall : staticCall.IsTold constants :=
  ⟨.interfaceMethod, named, isSpelledAt_named, isSpellable_named⟩

/-- A call by `invokeinterface` comes back. -/
theorem exists_steps_call : call.isReadable = true ∧ call.IsTold constants ∧
    ∃ line, Template.read (call.text constants) = .ok [line] ∧
      ∃ f body' later, Template.stepsIn [line] (Body.new 1) constants =
          (.ok [⟨⟨0⟩, call.mapIndex f⟩], body', later) ∧
        ∃ same : Reference, same.IsAt constants 6 ∧ same.IsAt later (f 6) := by
  obtain ⟨line, hread, hsteps⟩ := Instruction.exists_steps_of_text rfl isTold_call (Body.new 1)
  refine ⟨rfl, isTold_call, line, hread, ?_⟩
  rcases hsteps with ⟨f, body', later, hsteps, hretells⟩ | ⟨hfull, -⟩
  · obtain ⟨reference, hat, -, hsame⟩ := hretells 6 rfl
    have hmember : (Reference.member .interfaceMethod named).IsAt constants 6 := isSpelledAt_named
    obtain ⟨again, rfl⟩ := Reference.exists_eq_member hmember hat
    exact ⟨f, body', later, hsteps, hsame.mpr rfl⟩
  · exact absurd hfull (by decide +kernel)

/-- A call by `invokestatic` does not: what its text becomes refers to something else, a method of a
class. -/
theorem not_isAt_of_steps : staticCall.isReadable = true ∧ named.IsSpellable ∧
    (Reference.member .interfaceMethod named).IsAt constants 6 ∧
    ∃ line, Template.read (staticCall.text constants) = .ok [line] ∧
      ∃ again body' later, Template.stepsIn [line] (Body.new 1) constants =
          (.ok [⟨⟨0⟩, .invoke Opcode.invokeStatic again⟩], body', later) ∧
        ∀ reference : Reference, reference.IsAt constants 6 → ¬reference.IsAt later again := by
  have hmember : (Reference.member .interfaceMethod named).IsAt constants 6 := isSpelledAt_named
  obtain ⟨line, hstands, hspellable, hquiet, hone⟩ :=
    Instruction.exists_standsFor rfl isTold_staticCall
  refine ⟨rfl, isSpellable_named, hmember, line, hstands.read_text hspellable hquiet hone, ?_⟩
  rcases hstands.exists_steps (Body.new 1) with ⟨f, body', later, hsteps, hretells⟩ | ⟨hfull, -⟩
  · refine ⟨f 6, body', later, hsteps, fun same hsix hagain => ?_⟩
    obtain ⟨reference, hat, -, hsame⟩ := hretells 6 rfl
    obtain ⟨other, rfl⟩ := Reference.exists_eq_member hmember hat
    cases hsame.mp ⟨same, hsix, hagain⟩
  · exact absurd hfull (by decide +kernel)

end Calling

end ClassGraft

import ClassGraft.Proofs.Code.Decoding
import ClassGraft.Proofs.Decimal.Rereading
import ClassGraft.Proofs.Outcome
import ClassGraft.Proofs.Text.Words
import ClassGraft.Template.Printer
import ClassGraft.Template.Reader
import Mathlib.Data.List.Infix
import Mathlib.Data.List.TakeWhile

/-!
# Lines that can be spelled

The names in a line that was read are made of what its text is made of: labels are letters, classes
and members words, and the opcode is one of those that take such operands (`Line.isSpellable_of_read`).
So every line of a template that was read can be spelled (`Template.isSpellable_of_read`).
-/

namespace ClassGraft

open Text (IsTrimmed IsWord)

/-- Whether the member can be told from its text: there is a dot only before its name, and a colon
only before its descriptor. -/
structure MemberName.IsSpellable (member : MemberName) : Prop where
  owner : IsWord member.owner.toList
  name : IsWord member.name.toList
  descriptor : IsWord member.descriptor.toList
  owner_colon : ':' ∉ member.owner.toList
  name_colon : ':' ∉ member.name.toList
  name_dot : '.' ∉ member.name.toList

/-- Whether the constant can be told from its text. -/
def Constant.IsSpellable : Constant → Prop
  | .float bits => BinaryFormat.single.IsSpelled bits.toNat
  | .double bits => BinaryFormat.double.IsSpelled bits.toNat
  | .classRef name => name.toList ≠ [] ∧ IsTrimmed name.toList
  | _ => True

/-- Whether the line can be told from its text. -/
def Line.IsSpellable : Line → Prop
  | .label name => isLabelName name.toList = true
  | .plain op => op.isPlain = true
  | .constant value => value.IsSpellable
  | .access op _ => (op.isLoad || op.isStore) = true
  | .jump op name =>
    (op.isCondition || op == Opcode.goto) = true ∧ isLabelName name.toList = true ∧
      IsWord name.toList
  | .field op member => op.isField = true ∧ member.IsSpellable
  | .invoke op member interface =>
    (op.isInvoke || op == Opcode.invokeInterface) = true ∧ member.IsSpellable ∧
      (op = Opcode.invokeInterface → interface = true)
  | .classOp op name => op.isClassOp = true ∧ IsWord name.toList
  | .newArray element => ∃ name, ElementType.byName? name = some element
  | .newMultiArray name _ => IsWord name.toList
  | _ => True

/-- Whether all lines can be told from their texts. -/
def Template.IsSpellable (template : Template) : Prop := ∀ line ∈ template, line.IsSpellable

/-! ### Names -/

/-- The parts of a word that a member is read from make it up. -/
theorem MemberName.isSpellable_of_read {text : List Char} {member : MemberName} (ht : IsWord text)
    (h : read text = .ok member) : member.IsSpellable := by
  unfold read at h
  extract_lets fault path descriptor name owner at h
  split_ifs at h with hempty
  obtain rfl := Except.ok.inj h
  rw [Bool.or_eq_true, Bool.or_eq_true, List.isEmpty_iff, List.isEmpty_iff, List.isEmpty_iff,
    not_or, not_or] at hempty
  obtain ⟨⟨howner, hname⟩, hdescriptor⟩ := hempty
  -- Each part is a piece of the text, cut off at the first mark that cannot be in it.
  have hpath : ∀ c ∈ path, c ∈ text ∧ c ≠ ':' := fun c hc =>
    ⟨(List.takeWhile_prefix _).subset hc, by
      simpa using List.mem_takeWhile_imp (p := (· != ':')) hc⟩
  have hin_owner : ∀ c ∈ owner, c ∈ path := fun c hc =>
    List.mem_of_mem_take (List.mem_of_mem_dropLast hc)
  have hin_name : ∀ c ∈ name, c ∈ path ∧ c ≠ '.' := fun c hc =>
    have hc := List.mem_reverse.mp hc
    ⟨List.mem_reverse.mp ((List.takeWhile_prefix _).subset hc), by
      simpa using List.mem_takeWhile_imp (p := (· != '.')) hc⟩
  have hin_descriptor : ∀ c ∈ descriptor, c ∈ text := fun c hc =>
    (List.dropWhile_suffix _).subset (List.mem_of_mem_drop hc)
  constructor <;> simp only [String.toList_ofList]
  · exact ⟨howner, fun c hc => ht.not_blank c (hpath c (hin_owner c hc)).1⟩
  · exact ⟨hname, fun c hc => ht.not_blank c (hpath c (hin_name c hc).1).1⟩
  · exact ⟨hdescriptor, fun c hc => ht.not_blank c (hin_descriptor c hc)⟩
  · exact fun hc => (hpath _ (hin_owner _ hc)).2 rfl
  · exact fun hc => (hpath _ (hin_name _ hc).1).2 rfl
  · exact fun hc => (hin_name _ hc).2 rfl

theorem Constant.isSpellable_of_read {text : List Char} {value : Constant} (ht : IsTrimmed text)
    (h : read text = .ok value) : value.IsSpellable := by
  unfold read at h
  extract_lets whole at h
  split at h
  · rename_i quoted
    obtain ⟨text, -, rfl⟩ := Except.map_eq_ok.mp (Except.mapError_eq_ok.mp h)
    trivial
  · rename_i name
    obtain rfl := Except.ok.inj h
    show (String.ofList (Text.trim name)).toList ≠ [] ∧
      IsTrimmed (String.ofList (Text.trim name)).toList
    rw [String.toList_ofList]
    refine ⟨fun hnone => ?_, Text.isTrimmed_trim name⟩
    -- the name would be blank to its end, but a trimmed text does not end with a blank
    have hlast := ht.last
    simp only [List.getLast?_cons_cons] at hlast
    obtain ⟨c, hc⟩ : ∃ c, (' ' :: name).getLast? = some c :=
      Option.isSome_iff_exists.mp (List.getLast?_isSome.mpr (List.cons_ne_nil ' ' name))
    have hblank : Text.isBlank c = true := by
      rcases List.mem_cons.mp (List.mem_of_getLast? hc) with rfl | hin
      · rfl
      · exact Text.isBlank_of_trim_eq_nil hnone c hin
    exact absurd hblank (Bool.eq_false_iff.mp (hlast c hc))
  · split at h
    · obtain ⟨number, -, rfl⟩ := Except.map_eq_ok.mp (Except.mapError_eq_ok.mp h)
      trivial
    split at h
    · obtain ⟨bits, hbits, rfl⟩ := Except.map_eq_ok.mp (Except.mapError_eq_ok.mp h)
      obtain ⟨hlt, hspelled⟩ := Decimal.isSpelled_of_readFloat hbits
      show BinaryFormat.single.IsSpelled (UInt32.ofNat bits).toNat
      rwa [UInt32.toNat_ofNat_of_lt' hlt]
    split at h
    · obtain ⟨bits, hbits, rfl⟩ := Except.map_eq_ok.mp (Except.mapError_eq_ok.mp h)
      obtain ⟨hlt, hspelled⟩ := Decimal.isSpelled_of_readFloat hbits
      show BinaryFormat.double.IsSpelled (UInt64.ofNat bits).toNat
      rwa [UInt64.toNat_ofNat_of_lt' hlt]
    · obtain ⟨number, -, rfl⟩ := Except.map_eq_ok.mp (Except.mapError_eq_ok.mp h)
      trivial

/-! ### Lines -/

namespace Line

variable {mnemonic : String} {operands : List (List Char)} {line : Line}

theorem eq_of_noOperand {made : Line} (h : noOperand mnemonic operands made = .ok line) :
    made = line := by
  unfold noOperand at h
  split_ifs at h
  exact Except.ok.inj h

theorem exists_of_oneOperand {read : List Char → Except LineFault Line}
    (h : oneOperand mnemonic operands read = .ok line) :
    ∃ text ∈ operands, read text = .ok line := by
  unfold oneOperand at h
  split at h
  · exact ⟨_, List.mem_cons_self, h⟩
  · cases h

theorem exists_of_twoOperands {read : List Char → List Char → Except LineFault Line}
    (h : twoOperands mnemonic operands read = .ok line) :
    ∃ text ∈ operands, ∃ other ∈ operands, read text other = .ok line := by
  unfold twoOperands at h
  split at h
  · exact ⟨_, List.mem_cons_self, _, List.mem_cons_of_mem _ List.mem_cons_self, h⟩
  · cases h

theorem exists_of_readInvoke {op : Opcode} {rest : List Char}
    (h : readInvoke op mnemonic rest operands = .ok line) :
    ∃ text ∈ operands, ∃ member interface, MemberName.read text = .ok member ∧
      line = .invoke op member interface ∧ (op = Opcode.invokeInterface → interface = true) := by
  unfold readInvoke at h
  split at h
  · obtain ⟨member, hmember, rfl⟩ := Except.map_eq_ok.mp h
    exact ⟨_, List.mem_cons_self, member, _, hmember, rfl, fun hop => beq_iff_eq.mpr hop⟩
  · split_ifs at h
    obtain ⟨member, hmember, rfl⟩ := Except.map_eq_ok.mp h
    exact ⟨_, List.mem_cons_of_mem _ List.mem_cons_self, member, _, hmember, rfl, fun _ => rfl⟩
  · cases h

/-- A jump in its long form is read as the short one. -/
theorem isJump_of_isMove {op : Opcode}
    (h : (op.isCondition || op == Opcode.goto || op == Opcode.gotoWide) = true) :
    ((if op == Opcode.gotoWide then Opcode.goto else op).isCondition ||
      (if op == Opcode.gotoWide then Opcode.goto else op) == Opcode.goto) = true := by
  grind

theorem isInvoke_of_isBetween {op : Opcode}
    (h : Opcode.isBetween Opcode.invokeVirtual Opcode.invokeInterface op = true) :
    (op.isInvoke || op == Opcode.invokeInterface) = true := by
  grind

/-- The constant that the line loads. -/
def constant? : Line → Option Constant
  | constant value => some value
  | _ => none

/-- An instruction that is read from a text has operands that are words of it, or a constant that
was read from it, and an opcode that takes them, as that is how its operands are chosen. -/
theorem isSpellable_of_readOperands {op : Opcode} {rest : List Char} (hr : IsTrimmed rest)
    (h : readOperands op mnemonic rest = .ok line) :
    line.IsSpellable ∧ line.label? = none ∧
      ∀ value ∈ line.constant?, Constant.read rest = .ok value := by
  have hwords : ∀ word ∈ Text.words rest, IsWord word := fun _ hin => Text.isWord_of_mem_words hin
  have hnone : ∀ value ∈ (none : Option Constant), Constant.read rest = .ok value :=
    fun value hin => absurd hin (Option.not_mem_none value)
  unfold readOperands at h
  dsimp only at h
  -- one case for each kind of operands, in the order in which the opcode is looked at
  rcases ite_eq_iff.mp h with ⟨hplain, h⟩ | ⟨-, h⟩
  · obtain rfl := eq_of_noOperand h
    exact ⟨hplain, rfl, hnone⟩
  rcases ite_eq_iff.mp h with ⟨-, h⟩ | ⟨-, h⟩
  · obtain ⟨text, -, h⟩ := exists_of_oneOperand h
    obtain ⟨value, -, rfl⟩ := Except.map_eq_ok.mp h
    exact ⟨trivial, rfl, hnone⟩
  rcases ite_eq_iff.mp h with ⟨-, h⟩ | ⟨-, h⟩
  · obtain ⟨text, -, h⟩ := exists_of_oneOperand h
    obtain ⟨value, -, rfl⟩ := Except.map_eq_ok.mp h
    exact ⟨trivial, rfl, hnone⟩
  rcases ite_eq_iff.mp h with ⟨-, h⟩ | ⟨-, h⟩
  · rcases ite_eq_iff.mp h with ⟨-, h⟩ | ⟨-, h⟩
    · cases h
    · obtain ⟨value, hvalue, rfl⟩ := Except.map_eq_ok.mp h
      refine ⟨Constant.isSpellable_of_read hr hvalue, rfl, fun other hother => ?_⟩
      obtain rfl := Option.some.inj hother
      exact hvalue
  rcases ite_eq_iff.mp h with ⟨haccess, h⟩ | ⟨-, h⟩
  · obtain ⟨text, -, h⟩ := exists_of_oneOperand h
    obtain ⟨slot, -, rfl⟩ := Except.map_eq_ok.mp h
    exact ⟨haccess, rfl, hnone⟩
  rcases ite_eq_iff.mp h with ⟨hload, h⟩ | ⟨-, h⟩
  · obtain rfl := eq_of_noOperand h
    exact ⟨Bool.or_eq_true_iff.mpr (.inl (Opcode.isLoad_of_isShortLoad hload)), rfl, hnone⟩
  rcases ite_eq_iff.mp h with ⟨hstore, h⟩ | ⟨-, h⟩
  · obtain rfl := eq_of_noOperand h
    exact ⟨Bool.or_eq_true_iff.mpr (.inr (Opcode.isStore_of_isShortStore hstore)), rfl, hnone⟩
  rcases ite_eq_iff.mp h with ⟨-, h⟩ | ⟨-, h⟩
  · obtain ⟨text, -, other, -, h⟩ := exists_of_twoOperands h
    obtain ⟨slot, -, h⟩ := Except.bind_eq_ok.mp h
    obtain ⟨delta, -, h⟩ := Except.bind_eq_ok.mp h
    obtain rfl := Except.pure_eq_ok.mp h
    exact ⟨trivial, rfl, hnone⟩
  rcases ite_eq_iff.mp h with ⟨hjump, h⟩ | ⟨-, h⟩
  · obtain ⟨text, hin, h⟩ := exists_of_oneOperand h
    rcases ite_eq_iff.mp h with ⟨hlabel, h⟩ | ⟨-, h⟩
    · obtain rfl := Except.ok.inj h
      refine ⟨⟨isJump_of_isMove hjump, ?_⟩, rfl, hnone⟩
      rw [String.toList_ofList]
      exact ⟨hlabel, hwords text hin⟩
    · cases h
  rcases ite_eq_iff.mp h with ⟨hfield, h⟩ | ⟨-, h⟩
  · obtain ⟨text, hin, h⟩ := exists_of_oneOperand h
    obtain ⟨member, hmember, rfl⟩ := Except.map_eq_ok.mp h
    exact ⟨⟨hfield, MemberName.isSpellable_of_read (hwords text hin) hmember⟩, rfl, hnone⟩
  rcases ite_eq_iff.mp h with ⟨hinvoke, h⟩ | ⟨-, h⟩
  · obtain ⟨text, hin, member, interface, hmember, rfl, hinterface⟩ := exists_of_readInvoke h
    exact ⟨⟨isInvoke_of_isBetween hinvoke, MemberName.isSpellable_of_read (hwords text hin) hmember,
      hinterface⟩, rfl, hnone⟩
  rcases ite_eq_iff.mp h with ⟨hclass, h⟩ | ⟨-, h⟩
  · obtain ⟨text, hin, h⟩ := exists_of_oneOperand h
    obtain rfl := Except.ok.inj h
    refine ⟨⟨?_, ?_⟩, rfl, hnone⟩
    · simpa [Opcode.isClassOp, or_assoc] using hclass
    · rw [String.toList_ofList]
      exact hwords text hin
  rcases ite_eq_iff.mp h with ⟨-, h⟩ | ⟨-, h⟩
  · obtain ⟨text, -, h⟩ := exists_of_oneOperand h
    split at h
    · rename_i element helement
      obtain rfl := Except.ok.inj h
      exact ⟨⟨_, helement⟩, rfl, hnone⟩
    · cases h
  rcases ite_eq_iff.mp h with ⟨-, h⟩ | ⟨-, h⟩
  · obtain ⟨text, hin, other, -, h⟩ := exists_of_twoOperands h
    obtain ⟨dimensions, -, h⟩ := Except.bind_eq_ok.mp h
    obtain rfl := Except.pure_eq_ok.mp h
    refine ⟨?_, rfl, hnone⟩
    show IsWord (String.ofList text).toList
    rw [String.toList_ofList]
    exact hwords text hin
  · cases h

/-- A line that was read can be told from its text. -/
theorem isSpellable_of_read {text : List Char} (h : read text = .ok line) : line.IsSpellable := by
  unfold read at h
  split at h
  · rename_i name hname
    obtain rfl := Except.ok.inj h
    show isLabelName (String.ofList name).toList = true
    rw [String.toList_ofList]
    exact (Option.filter_eq_some_iff.mp hname).2
  · dsimp only at h
    split at h
    · exact (isSpellable_of_readOperands (Text.isTrimmed_trim _) h).1
    · cases h

end Line

namespace Template

variable {template : Template}

theorem exists_read_of_readFrom {texts : List (List Char)} {number : Nat}
    {labels : Std.HashMap String Nat} {found : Template}
    (hf : ∀ line ∈ found, ∃ text, Line.read text = .ok line)
    (h : readFrom number labels found texts = .ok template) :
    ∀ line ∈ template, ∃ text, Line.read text = .ok line := by
  induction texts generalizing number labels found with
  | nil =>
    obtain rfl := Except.ok.inj h
    exact fun line hline => hf line (List.mem_reverse.mp hline)
  | cons text rest ih =>
    unfold readFrom at h
    dsimp only at h
    split_ifs at h
    · exact ih hf h
    · split at h
      · cases h
      · rename_i name hread
        split at h
        · cases h
        · exact ih (List.forall_mem_cons.mpr ⟨⟨_, hread⟩, hf⟩) h
      · rename_i line _ hread
        exact ih (List.forall_mem_cons.mpr ⟨⟨_, hread⟩, hf⟩) h

/-- Every line of a template that was read was read from a text. -/
theorem exists_read_of_read {text : String} (h : read text = .ok template) :
    ∀ line ∈ template, ∃ text, Line.read text = .ok line :=
  exists_read_of_readFrom (List.forall_mem_nil _) h

/-- Every line of a template that was read can be told from its text. -/
theorem isSpellable_of_read {text : String} (h : read text = .ok template) :
    template.IsSpellable := by
  intro line hline
  obtain ⟨text, hread⟩ := exists_read_of_read h line hline
  exact Line.isSpellable_of_read hread

end Template

end ClassGraft

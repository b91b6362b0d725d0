import ClassGraft.Proofs.Decimal.Rereading
import ClassGraft.Proofs.Template.Spelling
import ClassGraft.Proofs.Text.Quoting
import Mathlib.Data.List.Nodup

/-!
# Lines that read back

A line that can be told from its text is read back from it, except that the values which are no
number become one (`Line.read_text`).  So templates with the same lines are the same up to the sign
of such values (`Template.quiet_eq_of_lines_eq`), and the same if none of these has the sign bit
(`Template.quiet_eq_self`).
-/

namespace ClassGraft

open Text (IsTrimmed IsWord)

/-! ### Letters -/

namespace Text

theorem not_isBlank_of_isAlphanum {c : Char} (h : c.isAlphanum = true) : isBlank c = false := by
  -- upper case, lower case, digits
  change (decide (65 ≤ c.val ∧ c.val ≤ 90) || (decide (97 ≤ c.val) && decide (c.val ≤ 122)) ||
    (decide (48 ≤ c.val) && decide (c.val ≤ 57))) = true at h
  simp only [Bool.or_eq_true, Bool.and_eq_true, decide_eq_true_eq, UInt32.le_iff_toNat_le] at h
  change ((65 ≤ c.toNat ∧ c.toNat ≤ 90) ∨ (97 ≤ c.toNat ∧ c.toNat ≤ 122)) ∨
    (48 ≤ c.toNat ∧ c.toNat ≤ 57) at h
  simp only [isBlank, Bool.or_eq_false_iff, Bool.and_eq_false_iff, decide_eq_false_iff_not,
    beq_eq_false_iff_ne]
  omega

theorem not_isBlank_of_isDigit {c : Char} (h : c.isDigit = true) : isBlank c = false :=
  not_isBlank_of_isAlphanum (by rw [Char.isAlphanum, h, Bool.or_true])

end Text

/-! ### Mnemonics -/

namespace Opcode

/-- A number for the letters of a text. -/
def digest (text : String) : Nat :=
  text.toByteArray.data.toList.foldl (fun value byte => value * 256 + byte.toNat) 0

theorem nodup_mnemonics : mnemonics.toList.Nodup :=
  List.Nodup.of_map digest (by decide +kernel)

theorem findIdx?_getElem {names : Array String} (hn : names.toList.Nodup) {i : Nat}
    (hi : i < names.size) : names.findIdx? (· == names[i]) = some i := by
  refine Array.findIdx?_eq_some_iff_getElem.mpr ⟨hi, beq_self_eq_true _, fun j hj heq => ?_⟩
  have hlast : i < names.toList.length := Array.length_toList ▸ hi
  have hfirst : j < names.toList.length := hj.trans hlast
  have hsame : names.toList[j] = names.toList[i] := by
    rw [Array.getElem_toList, Array.getElem_toList]
    exact eq_of_beq heq
  exact hj.ne (hn.getElem_inj_iff.mp hsame)

theorem exists_name_eq {op : Opcode} (h : op ≤ jsrWide) :
    ∃ _ : op.toNat < mnemonics.size, op.name = mnemonics[op.toNat] := by
  have hle : op.toNat ≤ 201 := UInt8.le_iff_toNat_le.mp h
  have hlt : op.toNat < mnemonics.size := Nat.lt_of_le_of_lt hle (by decide +kernel)
  refine ⟨hlt, ?_⟩
  unfold name mnemonic?
  rw [Array.getElem?_eq_getElem hlt, Option.getD_some]

/-- The mnemonics of the instructions that are written with operands of their own. -/
def withOperands : List (Opcode × String) :=
  [(iinc, "iinc"), (newMultiArray, "multianewarray"), (newArray, "newarray"), (bipush, "bipush"),
    (sipush, "sipush"), (ldc, "ldc")]

theorem name_append_of_mem {op : Opcode} {t : String} (h : (op, t) ∈ withOperands) :
    t ++ " " = op.name ++ " " := by
  have hall : ∀ entry ∈ withOperands, entry.2 = entry.1.name := by decide +kernel
  exact congrArg (· ++ " ") (hall _ h)

/-- An opcode is found by its mnemonic. -/
theorem byName?_name {op : Opcode} (h : op ≤ jsrWide) : byName? op.name = some op := by
  obtain ⟨hlt, hname⟩ := exists_name_eq h
  unfold byName?
  rw [hname, findIdx?_getElem nodup_mnemonics hlt, Option.map_some, UInt8.ofNat_toNat]

/-- Mnemonics are words, and none ends like a label. -/
theorem letters_name {op : Opcode} (h : op ≤ jsrWide) :
    op.name.toList ≠ [] ∧ ∀ c ∈ op.name.toList, c.isAlphanum = true ∨ c = '_' := by
  have hall : ∀ name ∈ mnemonics.toList,
      name.toList ≠ [] ∧ name.toList.all fun c => c.isAlphanum = true ∨ c = '_' := by
    decide +kernel
  obtain ⟨hlt, hname⟩ := exists_name_eq h
  rw [hname]
  exact (hall _ (Array.mem_toList_iff.mpr (Array.getElem_mem _))).imp_right
    List.all_iff_forall_prop.mp

theorem isWord_name {op : Opcode} (h : op ≤ jsrWide) : IsWord op.name.toList := by
  obtain ⟨hsome, hletters⟩ := letters_name h
  refine ⟨hsome, fun c hc => ?_⟩
  rcases hletters c hc with hletter | rfl
  · exact Text.not_isBlank_of_isAlphanum hletter
  · rfl

end Opcode

/-! ### Labels -/

theorem withoutLast?_append (letter c : Char) (text : List Char) :
    withoutLast? letter (text ++ [c]) = if c = letter then some text else none := by
  unfold withoutLast?
  rw [List.getLast?_concat, List.dropLast_concat]
  simp only [Option.some.injEq]

/-- A label is no text with a blank. -/
theorem filter_isLabelName_of_mem {text : List Char} (h : ' ' ∈ text) :
    (withoutLast? ':' text).filter isLabelName = none := by
  rcases List.eq_nil_or_concat text with rfl | ⟨start, c, rfl⟩
  · cases h
  · rw [List.concat_eq_append, withoutLast?_append]
    split_ifs with hc
    · have hstart : ' ' ∈ start := by
        rcases List.mem_append.mp (List.concat_eq_append ▸ h) with hin | hin
        · exact hin
        · rw [hc] at hin
          exact absurd (List.mem_singleton.mp hin) (by decide)
      have hlabel : isLabelName start = false := by
        unfold isLabelName
        rw [Bool.and_eq_false_iff]
        exact .inr (List.all_eq_false.mpr ⟨' ', hstart, by decide⟩)
      rw [Option.filter_some_neg (by simp [hlabel])]
    · rfl

/-! ### Members -/

theorem MemberName.read_text {member : MemberName} (h : member.IsSpellable) :
    MemberName.read member.text.toList = .ok member := by
  obtain ⟨owner, name, descriptor⟩ := member
  have htext : (MemberName.text ⟨owner, name, descriptor⟩).toList =
      (owner.toList ++ '.' :: name.toList) ++ ':' :: descriptor.toList := by
    simp [MemberName.text]
  -- the first colon ends the name, and the last dot before it the owner
  have hpath : ∀ c ∈ owner.toList ++ '.' :: name.toList, (c != ':') = true := by
    intro c hc
    refine bne_iff_ne.mpr ?_
    rintro rfl
    rcases List.mem_append.mp hc with hin | hin
    · exact h.owner_colon hin
    · rcases List.mem_cons.mp hin with heq | hin
      · exact absurd heq (by decide)
      · exact h.name_colon hin
  have hname : ∀ c ∈ name.toList.reverse, (c != '.') = true := by
    intro c hc
    refine bne_iff_ne.mpr ?_
    rintro rfl
    exact h.name_dot (List.mem_reverse.mp hc)
  have hbefore : ((owner.toList ++ '.' :: name.toList) ++ ':' :: descriptor.toList).takeWhile
      (· != ':') = owner.toList ++ '.' :: name.toList := by
    rw [List.takeWhile_append_of_pos hpath, List.takeWhile_cons_of_neg (by decide), List.append_nil]
  have hafter : ((owner.toList ++ '.' :: name.toList) ++ ':' :: descriptor.toList).dropWhile
      (· != ':') = ':' :: descriptor.toList := by
    rw [List.dropWhile_append_of_pos hpath, List.dropWhile_cons_of_neg (by decide)]
  have hlast : ((owner.toList ++ '.' :: name.toList).reverse.takeWhile (· != '.')).reverse =
      name.toList := by
    rw [List.reverse_append, List.reverse_cons, List.append_assoc,
      List.takeWhile_append_of_pos hname, List.singleton_append,
      List.takeWhile_cons_of_neg (by decide), List.append_nil, List.reverse_reverse]
  have hfirst : ((owner.toList ++ '.' :: name.toList).take
      ((owner.toList ++ '.' :: name.toList).length - name.toList.length)).dropLast =
        owner.toList := by
    rw [show (owner.toList ++ '.' :: name.toList).length - name.toList.length =
        (owner.toList ++ ['.']).length by simp; omega,
      List.append_cons owner.toList '.' name.toList, List.take_left,
      List.dropLast_concat]
  unfold MemberName.read
  rw [htext]
  simp only [hbefore, hafter, hlast, hfirst, List.drop_one, List.tail_cons, String.ofList_toList]
  rw [if_neg]
  rw [Bool.or_eq_true, Bool.or_eq_true, List.isEmpty_iff, List.isEmpty_iff, List.isEmpty_iff]
  rintro ((howner | hname) | hdescriptor)
  · exact h.owner.ne_nil howner
  · exact h.name.ne_nil hname
  · exact h.descriptor.ne_nil hdescriptor

/-! ### Constants -/

namespace Constant

/-- The constant, or the one value of its type that is no number. -/
def quiet : Constant → Constant
  | float bits => .float (UInt32.ofNat (BinaryFormat.single.quiet bits.toNat))
  | double bits => .double (UInt64.ofNat (BinaryFormat.double.quiet bits.toNat))
  | value => value

/-- The number that a text spells, of the type that its last letter tells. -/
def readNumber (text : List Char) : Except LineFault Constant :=
  if let some digits := withoutLast? 'L' text then
    ((Decimal.readInt64 digits).map long).mapError (.badInteger (String.ofList text))
  else if let some digits := withoutLast? 'f' text then
    ((Decimal.readFloat .single digits).map fun bits =>
      float (UInt32.ofNat bits)).mapError (.badFloat (String.ofList text))
  else if let some digits := withoutLast? 'd' text then
    ((Decimal.readFloat .double digits).map fun bits =>
      double (UInt64.ofNat bits)).mapError (.badFloat (String.ofList text))
  else ((Decimal.readInt32 text).map int).mapError (.badInteger (String.ofList text))

/-- A text that is no string and no class is read as a number. -/
theorem read_eq_readNumber {text : List Char} (hsome : text ≠ [])
    (h : ∀ c ∈ text, c ≠ '"' ∧ c ≠ 'c') : Constant.read text = readNumber text := by
  obtain ⟨c, rest, rfl⟩ := List.exists_cons_of_ne_nil hsome
  obtain ⟨hquote, hclass⟩ := h c List.mem_cons_self
  unfold Constant.read
  extract_lets whole
  split
  · rename_i heq
    exact absurd (List.cons.inj heq).1 hquote
  · rename_i heq
    exact absurd (List.cons.inj heq).1 hclass
  · rfl

theorem readNumber_int (value : Int32) :
    readNumber (Decimal.integer value.toInt).toList = .ok (int value) := by
  obtain ⟨start, c, htext⟩ :=
    (List.eq_nil_or_concat _).resolve_left (Decimal.integer_ne_nil value.toInt)
  rw [List.concat_eq_append] at htext
  have hc : c ≠ 'L' ∧ c ≠ 'f' ∧ c ≠ 'd' := by
    have hin : c ∈ (Decimal.integer value.toInt).toList :=
      htext ▸ List.mem_append_right _ List.mem_cons_self
    rcases Decimal.mem_integer hin with hdigit | rfl
    · refine ⟨?_, ?_, ?_⟩ <;> rintro rfl <;> cases hdigit
    · decide
  have hnone {letter : Char} (hl : c ≠ letter) :
      withoutLast? letter (Decimal.integer value.toInt).toList = none := by
    rw [htext, withoutLast?_append, if_neg hl]
  unfold readNumber
  rw [hnone hc.1, hnone hc.2.1, hnone hc.2.2]
  dsimp only
  rw [Decimal.readInt32_integer]
  rfl

theorem readNumber_long (value : Int64) :
    readNumber ((Decimal.integer value.toInt).toList ++ ['L']) = .ok (long value) := by
  unfold readNumber
  rw [withoutLast?_append, if_pos rfl]
  dsimp only
  rw [Decimal.readInt64_integer]
  rfl

theorem readNumber_float (bits : UInt32) :
    readNumber ((Decimal.single bits).toList ++ ['f']) = .ok (quiet (float bits)) := by
  unfold readNumber
  rw [withoutLast?_append, withoutLast?_append, if_neg (by decide), if_pos rfl]
  dsimp only
  rw [Decimal.single, Decimal.readFloat_float BinaryFormat.isModerate_single bits.toNat_lt]
  rfl

theorem readNumber_double (bits : UInt64) :
    readNumber ((Decimal.double bits).toList ++ ['d']) = .ok (quiet (double bits)) := by
  unfold readNumber
  rw [withoutLast?_append, withoutLast?_append, withoutLast?_append, if_neg (by decide),
    if_neg (by decide), if_pos rfl]
  dsimp only
  rw [Decimal.double, Decimal.readFloat_float BinaryFormat.isModerate_double bits.toNat_lt]
  rfl

theorem ne_of_isFloatLetter {c : Char} (h : Decimal.IsFloatLetter c) : c ≠ '"' ∧ c ≠ 'c' := by
  rcases h with hdigit | hin
  · refine ⟨?_, ?_⟩ <;> rintro rfl <;> cases hdigit
  · refine ⟨?_, ?_⟩ <;> rintro rfl <;> exact absurd hin (by decide)

theorem isFloatLetter_of_mem_integer {value : Int} {c : Char}
    (h : c ∈ (Decimal.integer value).toList) : Decimal.IsFloatLetter c := by
  rcases Decimal.mem_integer h with hdigit | rfl
  · exact .inl hdigit
  · exact .inr (by decide)

/-- A number with a letter for its type is read as a number. -/
theorem read_append {text : List Char} {letter : Char} (hl : letter ≠ '"' ∧ letter ≠ 'c')
    (h : ∀ c ∈ text, Decimal.IsFloatLetter c) :
    Constant.read (text ++ [letter]) = readNumber (text ++ [letter]) := by
  refine read_eq_readNumber (List.append_ne_nil_of_right_ne_nil _ (List.cons_ne_nil _ _)) ?_
  intro c hc
  rcases List.mem_append.mp hc with hc | hc
  · exact ne_of_isFloatLetter (h c hc)
  · rwa [List.mem_singleton.mp hc]

theorem not_isBlank_of_isFloatLetter {c : Char} (h : Decimal.IsFloatLetter c) :
    Text.isBlank c = false := by
  rcases h with hdigit | hin
  · exact Text.not_isBlank_of_isDigit hdigit
  · have hall : ∀ c ∈ ['-', '.', 'i', 'n', 'f', 'N', 'a'], Text.isBlank c = false :=
      List.all_iff_forall_prop.mp (by decide)
    exact hall c hin

theorem isWord_append {text : List Char} {letter : Char} (hl : Text.isBlank letter = false)
    (h : ∀ c ∈ text, Decimal.IsFloatLetter c) : IsWord (text ++ [letter]) := by
  refine ⟨List.append_ne_nil_of_right_ne_nil _ (List.cons_ne_nil _ _), fun c hc => ?_⟩
  rcases List.mem_append.mp hc with hc | hc
  · exact not_isBlank_of_isFloatLetter (h c hc)
  · rwa [List.mem_singleton.mp hc]

/-- Whether the constant is a number. -/
def isNumber : Constant → Bool
  | string _ | classRef _ => false
  | _ => true

/-- The text of a number is a word. -/
theorem isWord_text {value : Constant} (h : value.isNumber = true) : IsWord value.text.toList := by
  cases value with
  | int value =>
    exact ⟨Decimal.integer_ne_nil _, fun c hc =>
      not_isBlank_of_isFloatLetter (isFloatLetter_of_mem_integer hc)⟩
  | float bits =>
    show IsWord (Decimal.single bits ++ "f").toList
    rw [String.toList_append]
    exact isWord_append (by decide) (Decimal.letters_float _ _).2
  | long value =>
    show IsWord (Decimal.integer value.toInt ++ "L").toList
    rw [String.toList_append]
    exact isWord_append (by decide) fun c => isFloatLetter_of_mem_integer
  | double bits =>
    show IsWord (Decimal.double bits ++ "d").toList
    rw [String.toList_append]
    exact isWord_append (by decide) (Decimal.letters_float _ _).2
  | string value => cases h
  | classRef name => cases h

/-- The text of a constant neither starts nor ends with a blank. -/
theorem isTrimmed_text {value : Constant} (h : value.IsSpellable) :
    value.text.toList ≠ [] ∧ IsTrimmed value.text.toList := by
  cases value with
  | string value =>
    show (Quoted.encode value).toList ≠ [] ∧ IsTrimmed (Quoted.encode value).toList
    unfold Quoted.encode
    rw [String.toList_ofList]
    refine ⟨List.cons_ne_nil _ _, fun c hc => ?_, fun c hc => ?_⟩
    · obtain rfl := Option.some.inj hc
      rfl
    · rw [← List.cons_append, List.getLast?_concat] at hc
      obtain rfl := Option.some.inj hc
      rfl
  | classRef name =>
    have htext : (Constant.classRef name).text.toList =
        "class ".toList ++ name.toList := String.toList_append
    rw [htext]
    refine ⟨List.append_ne_nil_of_right_ne_nil _ h.1, fun c hc => ?_, fun c hc => ?_⟩
    · obtain rfl := Option.some.inj hc
      rfl
    · rw [List.getLast?_append_of_ne_nil _ h.1] at hc
      exact h.2.last c hc
  | _ => exact ⟨(isWord_text rfl).ne_nil, (isWord_text rfl).isTrimmed⟩

/-- A constant that can be told from its text is read back from it. -/
theorem read_text {value : Constant} (h : value.IsSpellable) :
    Constant.read value.text.toList = .ok value.quiet := by
  cases value with
  | int value =>
    show Constant.read (Decimal.integer value.toInt).toList = _
    rw [read_eq_readNumber (Decimal.integer_ne_nil _) fun c hc =>
      ne_of_isFloatLetter (isFloatLetter_of_mem_integer hc), readNumber_int]
    rfl
  | float bits =>
    show Constant.read (Decimal.single bits ++ "f").toList = _
    rw [String.toList_append]
    exact (read_append (by decide) (Decimal.letters_float _ _).2).trans (readNumber_float bits)
  | long value =>
    show Constant.read (Decimal.integer value.toInt ++ "L").toList = _
    rw [String.toList_append]
    exact (read_append (by decide) fun c => isFloatLetter_of_mem_integer).trans
      (readNumber_long value)
  | double bits =>
    show Constant.read (Decimal.double bits ++ "d").toList = _
    rw [String.toList_append]
    exact (read_append (by decide) (Decimal.letters_float _ _).2).trans (readNumber_double bits)
  | string value =>
    show Constant.read (Quoted.encode value).toList = _
    unfold Quoted.encode
    rw [String.toList_ofList]
    show ((Quoted.decode _).map Constant.string).mapError _ = _
    rw [Quoted.decode_encode]
    rfl
  | classRef name =>
    have htext : (Constant.classRef name).text.toList =
        'c' :: 'l' :: 'a' :: 's' :: 's' :: ' ' :: name.toList := by
      simp [text]
    rw [htext]
    show Except.ok (classRef (String.ofList (Text.trim name.toList))) = _
    rw [Text.trim_of_isTrimmed h.2, String.ofList_toList]
    rfl

end Constant

/-! ### Lines -/

namespace Line

/-- The line, with a constant that is no number replaced by the one that is read. -/
def quiet : Line → Line
  | constant value => constant value.quiet
  | line => line

section Reading

variable {op : Opcode} {mnemonic : String} {rest word : List Char} {slot : UInt16}

/-- What follows a mnemonic and a blank is read as the operands. -/
theorem read_mnemonic (h : op ≤ Opcode.jsrWide) :
    read (op.name.toList ++ ' ' :: rest) = readOperands op op.name (Text.trim rest) := by
  have hlabel : ' ' ∈ op.name.toList ++ ' ' :: rest :=
    List.mem_append_right _ List.mem_cons_self
  unfold read
  rw [filter_isLabelName_of_mem hlabel, Text.splitAtBlank_append (Opcode.isWord_name h)]
  dsimp only
  rw [String.ofList_toList, Opcode.byName?_name h]
  rfl

theorem read_name (h : op ≤ Opcode.jsrWide) : read op.name.toList = readOperands op op.name [] := by
  obtain ⟨hsome, hletters⟩ := Opcode.letters_name h
  have hlabel : (withoutLast? ':' op.name.toList).filter isLabelName = none := by
    obtain ⟨start, c, htext⟩ := (List.eq_nil_or_concat _).resolve_left hsome
    rw [List.concat_eq_append] at htext
    have hc : c ≠ ':' := by
      rintro rfl
      rcases hletters ':' (htext ▸ List.mem_append_right _ List.mem_cons_self) with hin | hin
      · cases hin
      · exact absurd hin (by decide)
    rw [htext, withoutLast?_append, if_neg hc]
    rfl
  unfold read
  rw [hlabel, Text.splitAtBlank_of_isWord (Opcode.isWord_name h)]
  dsimp only
  rw [String.ofList_toList, Opcode.byName?_name h]
  rfl

/-! #### Operands by opcode -/

theorem readOperands_plain (h : op.isPlain = true) :
    readOperands op mnemonic [] = .ok (.plain op) := by
  unfold readOperands
  rw [if_pos h]
  rfl

theorem readOperands_access (h : (op.isLoad || op.isStore) = true) (hw : IsWord word) :
    readOperands op mnemonic word =
      (readNumber Decimal.readUInt16 word).map (.access op) := by
  have hplain : op.isPlain = false ∧ (op == Opcode.bipush) = false ∧
      (op == Opcode.sipush) = false ∧ Opcode.isBetween Opcode.ldc Opcode.ldcDouble op = false := by
    grind
  simp only [readOperands, hplain, h, Text.words_of_isWord hw, oneOperand, Bool.false_eq_true,
    if_false, if_true]

theorem readOperands_jump (h : (op.isCondition || op == Opcode.goto) = true) (hw : IsWord word)
    (hl : isLabelName word = true) :
    readOperands op mnemonic word = .ok (.jump op (String.ofList word)) := by
  have hop : ∀ op : Opcode, (op.isCondition || op == Opcode.goto) = true →
      op.isPlain = false ∧ (op == Opcode.bipush) = false ∧ (op == Opcode.sipush) = false ∧
      Opcode.isBetween Opcode.ldc Opcode.ldcDouble op = false ∧
      (op.isLoad || op.isStore) = false ∧ op.isShortLoad = false ∧ op.isShortStore = false ∧
      (op == Opcode.iinc) = false ∧ (op == Opcode.gotoWide) = false :=
    Opcode.forall_of_fin (by decide +kernel)
  obtain ⟨hplain, hbyte, hshort, hldc, haccess, hload, hstore, hiinc, hlong⟩ := hop op h
  simp only [readOperands, hplain, hbyte, hshort, hldc, haccess, hload, hstore, hiinc, hlong, h, hl,
    Text.words_of_isWord hw, oneOperand, Bool.or_false, Bool.false_eq_true, if_false, if_true]

theorem readOperands_field (h : op.isField = true) (hw : IsWord word) :
    readOperands op mnemonic word = (MemberName.read word).map (.field op) := by
  have hop : op = Opcode.getStatic ∨ op = Opcode.putStatic ∨ op = Opcode.getField ∨
      op = Opcode.putField := by grind
  rcases hop with rfl | rfl | rfl | rfl
  all_goals
    show oneOperand _ (Text.words word) _ = _
    rw [Text.words_of_isWord hw]
    rfl

theorem readOperands_invoke (h : (op.isInvoke || op == Opcode.invokeInterface) = true) :
    readOperands op mnemonic rest = readInvoke op mnemonic rest (Text.words rest) := by
  have hop : op = Opcode.invokeVirtual ∨ op = Opcode.invokeSpecial ∨ op = Opcode.invokeStatic ∨
      op = Opcode.invokeInterface := by grind
  rcases hop with rfl | rfl | rfl | rfl
  all_goals rfl

theorem readOperands_classOp (h : op.isClassOp = true) (hw : IsWord word) :
    readOperands op mnemonic word = .ok (.classOp op (String.ofList word)) := by
  have hop : op = Opcode.newObject ∨ op = Opcode.newObjectArray ∨ op = Opcode.checkCast ∨
      op = Opcode.instanceOf := by grind
  rcases hop with rfl | rfl | rfl | rfl
  all_goals
    show oneOperand _ (Text.words word) _ = _
    rw [Text.words_of_isWord hw]
    rfl

end Reading

/-! #### Lines by kind -/

theorem isWord_integer (value : Int) : IsWord (Decimal.integer value).toList := by
  refine ⟨Decimal.integer_ne_nil value, fun c hc => ?_⟩
  rcases Decimal.mem_integer hc with hdigit | rfl
  · exact Text.not_isBlank_of_isDigit hdigit
  · rfl

theorem isWord_natural (n : Nat) : IsWord (toString n).toList := by
  rw [Nat.toString_eq_ofList_toDigits]
  exact isWord_integer n

theorem isWord_memberText {member : MemberName} (h : member.IsSpellable) :
    IsWord member.text.toList := by
  have htext : member.text.toList = member.owner.toList ++ '.' :: member.name.toList ++
      ':' :: member.descriptor.toList := by
    simp [MemberName.text]
  rw [htext]
  refine ⟨List.append_ne_nil_of_right_ne_nil _ (List.cons_ne_nil _ _), fun c hc => ?_⟩
  rcases List.mem_append.mp hc with hc | hc
  · rcases List.mem_append.mp hc with hc | hc
    · exact h.owner.not_blank c hc
    · rcases List.mem_cons.mp hc with rfl | hc
      · rfl
      · exact h.name.not_blank c hc
  · rcases List.mem_cons.mp hc with rfl | hc
    · rfl
    · exact h.descriptor.not_blank c hc

theorem name_of_byName? {element : UInt8} {name : String}
    (h : ElementType.byName? name = some element) :
    ElementType.byName? (ElementType.name element) = some element ∧
      IsWord (ElementType.name element).toList := by
  obtain ⟨entry, hentry, rfl⟩ := Option.map_eq_some_iff.mp h
  have hall : ∀ entry ∈ ElementType.table,
      ElementType.byName? (ElementType.name entry.1) = some entry.1 ∧
        (ElementType.name entry.1).toList ≠ [] ∧
        (ElementType.name entry.1).toList.all fun c => Text.isBlank c = false := by decide +kernel
  obtain ⟨hname, hsome, hletters⟩ := hall entry (List.mem_of_find?_eq_some hentry)
  exact ⟨hname, hsome, List.all_iff_forall_prop.mp hletters⟩

/-- The opcode of a line with operands, and these as they are written. -/
def written? : Line → Option (Opcode × String)
  | label _ | plain _ => none
  | bytePush value => some (Opcode.bipush, Decimal.integer value.toInt)
  | shortPush value => some (Opcode.sipush, Decimal.integer value.toInt)
  | constant value => some (Opcode.ldc, value.text)
  | access op slot => some (op, toString slot)
  | increment slot delta =>
    some (Opcode.iinc, toString slot ++ (" " ++ Decimal.integer delta.toInt))
  | jump op target => some (op, target)
  | field op member => some (op, member.text)
  | invoke op member interface => some (op, ownerMark op interface ++ member.text)
  | classOp op name => some (op, name)
  | newArray element => some (Opcode.newArray, ElementType.name element)
  | newMultiArray name dimensions =>
    some (Opcode.newMultiArray, name ++ (" " ++ toString dimensions))

theorem text_of_written? {line : Line} {op : Opcode} {operands : String}
    (h : line.written? = some (op, operands)) : line.text = op.name ++ " " ++ operands := by
  have hname {op : Opcode} {t : String} (hin : (op, t) ∈ Opcode.withOperands) (rest : String) :
      t ++ " " ++ rest = op.name ++ " " ++ rest :=
    congrArg (· ++ rest) (Opcode.name_append_of_mem hin)
  cases line <;> cases h
  case bytePush value => exact hname (t := "bipush") (by simp [Opcode.withOperands]) _
  case shortPush value => exact hname (t := "sipush") (by simp [Opcode.withOperands]) _
  case constant value => exact hname (t := "ldc") (by simp [Opcode.withOperands]) _
  case newArray element => exact hname (t := "newarray") (by simp [Opcode.withOperands]) _
  case increment slot delta =>
    rw [← hname (t := "iinc") (by simp [Opcode.withOperands])]
    show "iinc " ++ toString slot ++ " " ++ Decimal.integer delta.toInt = _
    rw [String.append_assoc, String.append_assoc]
    rfl
  case newMultiArray name dimensions =>
    rw [← hname (t := "multianewarray") (by simp [Opcode.withOperands])]
    show "multianewarray " ++ name ++ (" " ++ toString dimensions) = _
    rw [String.append_assoc]
    rfl
  case access => exact (String.append_assoc ..).symm
  case invoke => exact String.append_assoc ..
  all_goals rfl

theorem read_operands {op : Opcode} {operands : String} (h : op ≤ Opcode.jsrWide)
    (ht : IsTrimmed operands.toList) :
    read (op.name ++ " " ++ operands).toList = readOperands op op.name operands.toList := by
  have htext : (op.name ++ " " ++ operands).toList = op.name.toList ++ ' ' :: operands.toList := by
    rw [String.toList_append, String.toList_append, List.append_assoc]
    rfl
  rw [htext, read_mnemonic h, Text.trim_of_isTrimmed ht]

theorem read_label {name : String} (h : isLabelName name.toList = true) :
    read (label name).text.toList = .ok (label name) := by
  show read (name ++ ":").toList = _
  rw [String.toList_append, show ":".toList = [':'] from rfl]
  unfold read
  rw [withoutLast?_append, if_pos rfl, Option.filter_some_pos h]
  exact congrArg (fun name => Except.ok (label name)) String.ofList_toList

theorem read_bytePush (value : Int8) :
    read (bytePush value).text.toList = .ok (bytePush value) := by
  have hw := isWord_integer value.toInt
  rw [text_of_written? rfl, read_operands (by decide) hw.isTrimmed]
  show oneOperand _ (Text.words _) _ = _
  rw [Text.words_of_isWord hw]
  show ((Decimal.readInt8 _).mapError _).map _ = _
  rw [Decimal.readInt8_integer]
  rfl

theorem read_shortPush (value : Int16) :
    read (shortPush value).text.toList = .ok (shortPush value) := by
  have hw := isWord_integer value.toInt
  rw [text_of_written? rfl, read_operands (by decide) hw.isTrimmed]
  show oneOperand _ (Text.words _) _ = _
  rw [Text.words_of_isWord hw]
  show ((Decimal.readInt16 _).mapError _).map _ = _
  rw [Decimal.readInt16_integer]
  rfl

/-- A constant is all of the text behind the mnemonic, as it may have blanks. -/
theorem read_constant {value : Constant} (h : value.IsSpellable) :
    read (constant value).text.toList = .ok (constant value).quiet := by
  obtain ⟨hsome, htrimmed⟩ := Constant.isTrimmed_text h
  rw [text_of_written? rfl, read_operands (by decide) htrimmed]
  show (if value.text.toList.isEmpty then _ else (Constant.read value.text.toList).map _) = _
  rw [if_neg (by simpa using hsome), Constant.read_text h]
  rfl

theorem read_access {op : Opcode} (hop : (op.isLoad || op.isStore) = true) (slot : UInt16) :
    read (access op slot).text.toList = .ok (access op slot) := by
  have hw : IsWord (toString slot).toList := isWord_natural slot.toNat
  rw [text_of_written? rfl, read_operands (by grind) hw.isTrimmed, readOperands_access hop hw]
  show ((Decimal.readUInt16 _).mapError _).map _ = _
  rw [Decimal.readUInt16_toString]
  rfl

theorem read_increment (slot : UInt16) (delta : Int16) :
    read (increment slot delta).text.toList = .ok (increment slot delta) := by
  have hslot : IsWord (toString slot).toList := isWord_natural slot.toNat
  have hdelta := isWord_integer delta.toInt
  have hpair : (toString slot ++ (" " ++ Decimal.integer delta.toInt)).toList =
      (toString slot).toList ++ ' ' :: (Decimal.integer delta.toInt).toList := by
    rw [String.toList_append, String.toList_append]
    rfl
  rw [text_of_written? rfl, read_operands (by decide) (hpair ▸ hslot.isTrimmed_append hdelta), hpair]
  show twoOperands _ (Text.words _) _ = _
  rw [Text.words_append hslot, Text.words_of_isWord hdelta]
  show ((Decimal.readUInt16 _).mapError _).bind _ = _
  rw [Decimal.readUInt16_toString]
  show (((Decimal.readInt16 _).mapError _).bind _ : Except LineFault Line) = _
  rw [Decimal.readInt16_integer]
  rfl

theorem read_newMultiArray {name : String} (h : IsWord name.toList) (dimensions : UInt8) :
    read (newMultiArray name dimensions).text.toList = .ok (newMultiArray name dimensions) := by
  have hdimensions : IsWord (toString dimensions).toList := isWord_natural dimensions.toNat
  have hpair : (name ++ (" " ++ toString dimensions)).toList =
      name.toList ++ ' ' :: (toString dimensions).toList := by
    rw [String.toList_append, String.toList_append]
    rfl
  rw [text_of_written? rfl, read_operands (by decide) (hpair ▸ h.isTrimmed_append hdimensions),
    hpair]
  show twoOperands _ (Text.words _) _ = _
  rw [Text.words_append h, Text.words_of_isWord hdimensions]
  show (((Decimal.readUInt8 _).mapError _).bind _ : Except LineFault Line) = _
  rw [Decimal.readUInt8_toString]
  exact congrArg (fun name => Except.ok (newMultiArray name dimensions)) String.ofList_toList

theorem read_newArray {element : UInt8} {name : String}
    (h : ElementType.byName? name = some element) :
    read (newArray element).text.toList = .ok (newArray element) := by
  obtain ⟨hname, hw⟩ := name_of_byName? h
  rw [text_of_written? rfl, read_operands (by decide) hw.isTrimmed]
  show oneOperand _ (Text.words _) _ = _
  rw [Text.words_of_isWord hw, oneOperand, String.ofList_toList, hname]

/-- The mark of an interface is read back, and calls of interfaces need none. -/
theorem read_invoke {op : Opcode} {member : MemberName} {interface : Bool}
    (h : (invoke op member interface).IsSpellable) :
    read (invoke op member interface).text.toList = .ok (invoke op member interface) := by
  obtain ⟨hop, hmember, hinterface⟩ := h
  have hw := isWord_memberText hmember
  have hle : op ≤ Opcode.jsrWide := by grind
  rw [text_of_written? rfl]
  -- Only a call that is not one of interfaces writes the mark in front of its member.
  by_cases hmark : (interface && op != Opcode.invokeInterface) = true
  · have hpair : ("interface " ++ member.text).toList =
        "interface".toList ++ ' ' :: member.text.toList := by
      rw [String.toList_append]
      rfl
    have hword : IsWord "interface".toList :=
      ⟨List.cons_ne_nil _ _, List.all_iff_forall_prop.mp (by decide)⟩
    rw [ownerMark, if_pos hmark,
      read_operands hle (hpair ▸ hword.isTrimmed_append hw), hpair, readOperands_invoke hop,
      Text.words_append hword, Text.words_of_isWord hw, readInvoke,
      if_pos String.ofList_toList, MemberName.read_text hmember]
    rw [(Bool.and_eq_true_iff.mp hmark).1]
    rfl
  · have hsame : (op == Opcode.invokeInterface) = interface := by
      cases interface with
      | true => simpa using hmark
      | false => exact beq_eq_false_iff_ne.mpr fun heq => Bool.noConfusion (hinterface heq)
    rw [ownerMark, if_neg hmark, String.empty_append, read_operands hle hw.isTrimmed,
      readOperands_invoke hop, Text.words_of_isWord hw, readInvoke, MemberName.read_text hmember,
      hsame]
    rfl

/-- A line that can be told from its text is read back from it. -/
theorem read_text {line : Line} (h : line.IsSpellable) : read line.text.toList = .ok line.quiet := by
  cases line with
  | label name => exact read_label h
  | plain op =>
    show read op.name.toList = _
    have hop : op.isPlain = true := h
    rw [read_name (by grind), readOperands_plain hop]
    rfl
  | bytePush value => exact read_bytePush value
  | shortPush value => exact read_shortPush value
  | constant value => exact read_constant h
  | access op slot => exact read_access h slot
  | increment slot delta => exact read_increment slot delta
  | jump op name =>
    obtain ⟨hop, hlabel, hw⟩ := h
    rw [text_of_written? rfl, read_operands (by grind) hw.isTrimmed,
      readOperands_jump hop hw hlabel, String.ofList_toList]
    rfl
  | field op member =>
    obtain ⟨hop, hmember⟩ := h
    have hw := isWord_memberText hmember
    rw [text_of_written? rfl, read_operands (by grind) hw.isTrimmed, readOperands_field hop hw,
      MemberName.read_text hmember]
    rfl
  | invoke op member interface => exact read_invoke h
  | classOp op name =>
    obtain ⟨hop, hw⟩ := h
    rw [text_of_written? rfl, read_operands (by grind) hw.isTrimmed, readOperands_classOp hop hw,
      String.ofList_toList]
    rfl
  | newArray element =>
    obtain ⟨name, hname⟩ := h
    exact read_newArray hname
  | newMultiArray name dimensions => exact read_newMultiArray h dimensions

end Line

/-! ### Values that are no number -/

/-- Whether the line loads a float or a double that is no number and has the sign bit. -/
def Line.loadsNegativeNaN : Line → Bool
  | .constant (.float bits) => 0xFF800000 < bits
  | .constant (.double bits) => 0xFFF0000000000000 < bits
  | _ => false

/-- The template, with constants that are no number replaced by those that are read. -/
def Template.quiet (template : Template) : Template := template.map Line.quiet

/-- Of what can be spelled, only one float and one double are read as others. -/
theorem Line.quiet_eq_self_or {line : Line} (h : line.IsSpellable) :
    line.quiet = line ∨ line = constant (.float 0xFFC00000) ∨
      line = constant (.double 0xFFF8000000000000) := by
  cases line with
  | constant value =>
    cases value with
    | float bits =>
      rcases h with hkept | hnone
      · exact .inl (congrArg (fun bits => constant (.float bits))
          ((congrArg UInt32.ofNat hkept).trans UInt32.ofNat_toNat))
      · obtain rfl : bits = 0xFFC00000 := UInt32.toNat_inj.mp hnone
        exact .inr (.inl rfl)
    | double bits =>
      rcases h with hkept | hnone
      · exact .inl (congrArg (fun bits => constant (.double bits))
          ((congrArg UInt64.ofNat hkept).trans UInt64.ofNat_toNat))
      · obtain rfl : bits = 0xFFF8000000000000 := UInt64.toNat_inj.mp hnone
        exact .inr (.inr rfl)
    | _ => exact .inl rfl
  | _ => exact .inl rfl

theorem Line.quiet_of_isSpellable {line : Line} (h : line.IsSpellable)
    (hn : line.loadsNegativeNaN = false) : line.quiet = line := by
  rcases quiet_eq_self_or h with hsame | rfl | rfl
  · exact hsame
  · cases hn
  · cases hn

namespace Template

variable {first second : Template}

/-- Templates that were read are told apart by their lines, up to the sign of values that are no
number. -/
theorem quiet_eq_of_lines_eq (hf : first.IsSpellable) (hs : second.IsSpellable)
    (h : first.lines = second.lines) : first.quiet = second.quiet := by
  have hread {template : Template} (ht : template.IsSpellable) :
      template.lines.map (fun text => Line.read text.toList) =
        template.quiet.map (@Except.ok LineFault Line) := by
    unfold lines quiet
    rw [List.map_map, List.map_map]
    exact List.map_congr_left fun line hline => Line.read_text (ht line hline)
  have hok : Function.Injective (@Except.ok LineFault Line) := fun _ _ => Except.ok.inj
  refine List.map_injective_iff.mpr hok ?_
  rw [← hread hf, ← hread hs, h]

theorem quiet_eq_self (h : first.IsSpellable) (hn : ∀ line ∈ first, line.loadsNegativeNaN = false) :
    first.quiet = first := by
  have hsame : ∀ line ∈ first, line.quiet = id line := fun line hline =>
    Line.quiet_of_isSpellable (h line hline) (hn line hline)
  exact (List.map_congr_left hsame).trans (List.map_id first)

end Template

end ClassGraft

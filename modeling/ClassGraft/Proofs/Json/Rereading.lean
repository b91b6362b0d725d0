import ClassGraft.Json.Printer
import ClassGraft.Json.Reader
import ClassGraft.Proofs.Decimal.Integers
import Mathlib.Data.Bool.AllAny
import Mathlib.Data.List.TakeWhile
import Mathlib.Tactic.IntervalCases

/-!
# JSON that reads back

A value that was written reads back as itself (`Json.outline_compact`, `Json.outline_indented`), in
every style that puts nothing but blanks between the tokens.  So no two values are written alike
(`Json.compact_injective`).
-/

namespace ClassGraft.Json

open Decimal (integer)

/-! ### The characters that are written -/

/-- The characters of a string in quotes. -/
def quoteChars (text : String) : List Char := '"' :: (text.toList.flatMap escape ++ ['"'])

mutual

/-- The characters of a value at a depth. -/
def chars (style : Style) (depth : Nat) : Json → List Char
  | bool value => (if value then "true" else "false").toList
  | number value => (integer value).toList
  | string value => quoteChars value
  | array [] => ['[', ']']
  | array (element :: rest) =>
    '[' :: ((style.lineBreak (depth + 1)).toList ++ (chars style (depth + 1) element ++
      (elementChars style (depth + 1) rest ++ ((style.lineBreak depth).toList ++ [']']))))
  | object [] => ['\x7b', '\x7d']
  | object ((key, value) :: rest) =>
    '\x7b' :: ((style.lineBreak (depth + 1)).toList ++ (quoteChars key ++ (style.colon.toList ++
      (chars style (depth + 1) value ++ (entryChars style (depth + 1) rest ++
        ((style.lineBreak depth).toList ++ ['\x7d']))))))

/-- The characters of the elements after the first one. -/
def elementChars (style : Style) (depth : Nat) : List Json → List Char
  | [] => []
  | element :: rest =>
    ',' :: ((style.lineBreak depth).toList ++ (chars style depth element ++
      elementChars style depth rest))

/-- The characters of the entries after the first one. -/
def entryChars (style : Style) (depth : Nat) : List (String × Json) → List Char
  | [] => []
  | (key, value) :: rest =>
    ',' :: ((style.lineBreak depth).toList ++ (quoteChars key ++ (style.colon.toList ++
      (chars style depth value ++ entryChars style depth rest))))

end

theorem toList_quote (text : String) : (quote text).toList = quoteChars text := String.toList_ofList

variable {style : Style}

mutual

theorem toList_writeTo (depth : Nat) (out : String) : ∀ value : Json,
    (writeTo style depth out value).toList = out.toList ++ chars style depth value
  | bool value => by rw [writeTo, chars, String.toList_append]
  | number value => by rw [writeTo, chars, String.toList_append]
  | string value => by rw [writeTo, chars, String.toList_append, toList_quote]
  | array [] => by
    rw [writeTo, chars, String.toList_append]
    rfl
  | array (element :: rest) => by
    simp only [writeTo, chars, String.toList_append, toList_writeElementsTo, toList_writeTo _ _ element,
      List.append_assoc]
    rfl
  | object [] => by
    rw [writeTo, chars, String.toList_append]
    rfl
  | object ((key, value) :: rest) => by
    simp only [writeTo, chars, String.toList_append, toList_writeEntriesTo, toList_writeTo _ _ value,
      toList_quote, List.append_assoc]
    rfl

theorem toList_writeElementsTo (depth : Nat) (out : String) : ∀ elements : List Json,
    (writeElementsTo style depth out elements).toList =
      out.toList ++ elementChars style depth elements
  | [] => (List.append_nil _).symm
  | element :: rest => by
    simp only [writeElementsTo, elementChars, String.toList_append, toList_writeElementsTo _ _ rest,
      toList_writeTo _ _ element, List.append_assoc]
    rfl

theorem toList_writeEntriesTo (depth : Nat) (out : String) :
    ∀ entries : List (String × Json), (writeEntriesTo style depth out entries).toList =
      out.toList ++ entryChars style depth entries
  | [] => (List.append_nil _).symm
  | (key, value) :: rest => by
    simp only [writeEntriesTo, entryChars, String.toList_append, toList_writeEntriesTo _ _ rest,
      toList_writeTo _ _ value, toList_quote, List.append_assoc]
    rfl

end

/-! ### What follows a value -/

/-- Whether no number goes on in the text: it is at its end, or starts with a blank, a comma or a
closing bracket. -/
def IsClear (text : List Char) : Prop :=
  ∀ c ∈ text.head?, isBlank c = true ∨ c ∈ [',', ']', '\x7d']

theorem IsClear.nil : IsClear [] := fun _ h => by cases h

theorem IsClear.cons {c : Char} {rest : List Char} (h : c ∈ [',', ']', '\x7d']) :
    IsClear (c :: rest) := by
  intro d hd
  obtain rfl := Option.some.inj hd
  exact .inr h

theorem IsClear.append {blanks rest : List Char} (hb : ∀ c ∈ blanks, isBlank c = true)
    (hr : IsClear rest) : IsClear (blanks ++ rest) := by
  cases blanks with
  | nil => exact hr
  | cons c blanks =>
    intro d hd
    obtain rfl := Option.some.inj hd
    exact .inl (hb c List.mem_cons_self)

theorem skipBlank_append {blanks : List Char} {c : Char} {rest : List Char}
    (hb : ∀ c ∈ blanks, isBlank c = true) (hc : isBlank c = false) :
    skipBlank (blanks ++ c :: rest) = c :: rest := by
  unfold skipBlank
  rw [List.dropWhile_append_of_pos hb, List.dropWhile_cons_of_neg (by simp [hc])]

theorem skipBlank_cons {c : Char} {rest : List Char} (hc : isBlank c = false) :
    skipBlank (c :: rest) = c :: rest :=
  @skipBlank_append [] c rest (List.forall_mem_nil _) hc

/-! ### Numbers -/

theorem not_isBlank_of_isDigit {c : Char} (h : c.isDigit = true) : isBlank c = false := by
  unfold isBlank
  simp only [Bool.or_eq_false_iff, beq_eq_false_iff_ne]
  refine ⟨⟨⟨?_, ?_⟩, ?_⟩, ?_⟩ <;> rintro rfl <;> cases h

/-- What can stand in front of a number that goes on cannot follow a value. -/
theorem IsClear.ne {text : List Char} (h : IsClear text) : ∀ c ∈ text.head?,
    isDigit c = false ∧ c ≠ '.' ∧ c ≠ 'e' ∧ c ≠ 'E' := by
  intro c hc
  rcases h c hc with hblank | hin
  · unfold isBlank at hblank
    simp only [Bool.or_eq_true, beq_iff_eq] at hblank
    rcases hblank with ((rfl | rfl) | rfl) | rfl <;> decide
  · have hall : ∀ c ∈ [',', ']', '\x7d'],
        isDigit c = false ∧ c ≠ '.' ∧ c ≠ 'e' ∧ c ≠ 'E' := List.all_iff_forall_prop.mp (by decide)
    exact hall c hin

theorem skipFraction?_of_isClear {rest : List Char} (h : IsClear rest) :
    skipFraction? rest = some rest := by
  unfold skipFraction?
  split
  · exact absurd rfl (h.ne '.' rfl).2.1
  · rfl

theorem skipExponent?_of_isClear {rest : List Char} (h : IsClear rest) :
    skipExponent? rest = some rest := by
  cases rest with
  | nil => rfl
  | cons c rest =>
    obtain ⟨-, -, hlower, hupper⟩ := h.ne c rfl
    exact if_neg (not_or.mpr ⟨hlower, hupper⟩)

theorem valueOf_toDigits (n : Nat) : valueOf (Nat.toDigits 10 n) = n := by
  have hvalue := Nat.ofDigitChars_ten_toDigits (n := n)
  rw [Nat.ofDigitChars_eq_foldl] at hvalue
  unfold valueOf
  simp only [Nat.mul_comm _ 10]
  exact hvalue

/-- The digits at the start of a text are taken as far as they go. -/
theorem takeWhile_toDigits_append {rest : List Char} (n : Nat) (h : IsClear rest) :
    (Nat.toDigits 10 n ++ rest).takeWhile isDigit = Nat.toDigits 10 n ∧
      (Nat.toDigits 10 n ++ rest).dropWhile isDigit = rest := by
  have hdigits : ∀ c ∈ Nat.toDigits 10 n, isDigit c = true :=
    fun c hc => Nat.isDigit_of_mem_toDigits (by decide) (by decide) hc
  rw [List.takeWhile_append_of_pos hdigits, List.dropWhile_append_of_pos hdigits]
  cases rest with
  | nil => exact ⟨List.append_nil _, rfl⟩
  | cons c rest =>
    have hc := (h.ne c rfl).1
    rw [List.takeWhile_cons_of_neg (by simp [hc]), List.dropWhile_cons_of_neg (by simp [hc])]
    exact ⟨List.append_nil _, rfl⟩

theorem noLeadingZero (n : Nat) : ((Nat.toDigits 10 n).isEmpty ||
    (decide ((Nat.toDigits 10 n).length > 1) && (Nat.toDigits 10 n).head? == some '0')) = false := by
  have hsome : (Nat.toDigits 10 n).isEmpty = false :=
    List.isEmpty_eq_false_iff.mpr Nat.toDigits_ne_nil
  rw [hsome, Bool.false_or, Bool.and_eq_false_iff, decide_eq_false_iff_not, beq_eq_false_iff_ne]
  rcases Nat.eq_zero_or_pos n with rfl | hpos
  · exact .inl (by decide)
  · exact .inr (Decimal.head?_toDigits_ne (by decide) hpos)

/-- A whole number is read back from its decimal form. -/
theorem readNumber?_integer {rest : List Char} (value : Int) (h : IsClear rest) :
    readNumber? ((integer value).toList ++ rest) = some (some value, rest) := by
  cases value with
  | ofNat n =>
    obtain ⟨htake, hdrop⟩ := takeWhile_toDigits_append n h
    obtain ⟨d, digits, hdigits⟩ := @Decimal.exists_toDigits 10 (by decide) n
    have hminus : d.digitChar ≠ '-' := Nat.digitChar_ne _ (by decide)
    rw [integer, Decimal.natural, String.toList_ofList]
    unfold readNumber?
    split
    rename_i negative text heq
    split at heq
    · rename_i hcons
      rw [hdigits] at hcons
      exact absurd (List.cons.inj hcons).1 hminus
    · obtain ⟨rfl, rfl⟩ := Prod.mk.inj heq
      simp [htake, hdrop, noLeadingZero, skipFraction?_of_isClear h, skipExponent?_of_isClear h,
        valueOf_toDigits]
  | negSucc n =>
    obtain ⟨htake, hdrop⟩ := takeWhile_toDigits_append (n + 1) h
    rw [integer, String.toList_ofList]
    simp [readNumber?, htake, hdrop, noLeadingZero, skipFraction?_of_isClear h,
      skipExponent?_of_isClear h, valueOf_toDigits, Int.negSucc_eq]

/-! ### Strings -/

/-- No character is half of a surrogate pair. -/
theorem push_toNat (found : List Char) (c : Char) :
    Draft.push c.toNat ⟨found, none, true⟩ = ⟨c :: found, none, true⟩ := by
  have hvalid : c.toNat.isValidChar := c.valid
  have hlow : ¬ (0xDC00 ≤ c.toNat ∧ c.toNat ≤ 0xDFFF) := by
    rcases hvalid with h | h <;> omega
  have hhigh : ¬ (0xD800 ≤ c.toNat ∧ c.toNat ≤ 0xDBFF) := by
    rcases hvalid with h | h <;> omega
  unfold Draft.push
  dsimp only
  rw [if_neg hhigh, if_neg hlow, Char.ofNat_toNat]

/-- The hexadecimal digits of a control character stand for it. -/
theorem hexDigits_of_lt : ∀ n < 32, ∃ a b c d : Char,
    List.replicate (4 - (Nat.toDigits 16 n).length) '0' ++ Nat.toDigits 16 n = [a, b, c, d] ∧
      hexValue? a b c d = some n := by
  intro n hn
  refine ⟨'0', '0', (n / 16).digitChar, (n % 16).digitChar, ?_, ?_⟩
  · interval_cases n <;> rfl
  · interval_cases n <;> rfl

/-- A character is read back from how it is written. -/
theorem readString?_escape {found rest : List Char} (c : Char) :
    readString? ⟨found, none, true⟩ (escape c ++ rest) =
      readString? ⟨c :: found, none, true⟩ rest := by
  have hpush := push_toNat found c
  unfold escape
  -- Characters with an escape of their own, control characters by their number, and all others.
  split_ifs with hquote hslash hline hreturn htab hback hfeed hcontrol
  · obtain rfl := hquote
    rfl
  · obtain rfl := hslash
    rfl
  · obtain rfl := hline
    rfl
  · obtain rfl := hreturn
    rfl
  · obtain rfl := htab
    rfl
  · obtain rfl := hback
    rfl
  · obtain rfl := hfeed
    rfl
  · have hlt : c.toNat < 32 := hcontrol
    obtain ⟨a, b, d, e, hdigits, hvalue⟩ := hexDigits_of_lt c.toNat hlt
    have htext : (Decimal.padLeft '0' 4 (Decimal.hex c.toNat)).toList = [a, b, d, e] := by
      unfold Decimal.padLeft Decimal.hex
      rw [String.toList_append, String.toList_ofList, String.toList_ofList, String.length_ofList,
        hdigits]
    rw [htext]
    show readString? _ ('\\' :: 'u' :: a :: b :: d :: e :: rest) = _
    rw [readString?, hvalue]
    dsimp only
    rw [hpush]
  · rw [List.singleton_append, readString?.eq_def]
    split
    · rename_i heq
      exact absurd (List.cons.inj heq).1 hquote
    · rename_i heq
      exact absurd (List.cons.inj heq).1 hslash
    · rename_i heq
      exact absurd (List.cons.inj heq).1 hslash
    · rename_i heq
      obtain ⟨rfl, rfl⟩ := List.cons.inj heq
      rw [if_neg (by simp [hcontrol, hslash]), hpush]
    · rename_i heq
      cases heq

/-- A string is read back after its opening quote. -/
theorem readString?_flatMap {found rest : List Char} (text : List Char) :
    readString? ⟨found, none, true⟩ (text.flatMap escape ++ '"' :: rest) =
      some (⟨text.reverse ++ found, none, true⟩, rest) := by
  induction text generalizing found with
  | nil => rfl
  | cons c text ih =>
    rw [List.flatMap_cons, List.append_assoc, readString?_escape, ih, List.reverse_cons,
      List.append_assoc, List.singleton_append]

/-- The string that was read from a string in quotes. -/
def draftOf (text : String) : Draft := ⟨text.toList.reverse, none, true⟩

theorem text?_draftOf (text : String) : (draftOf text).text? = some text := by
  show some (String.ofList text.toList.reverse.reverse) = _
  rw [List.reverse_reverse, String.ofList_toList]

theorem quoteChars_append (text : String) (rest : List Char) :
    ∃ quoted, quoteChars text ++ rest = '"' :: quoted ∧
      readString? .empty quoted = some (draftOf text, rest) := by
  refine ⟨text.toList.flatMap escape ++ '"' :: rest, ?_, ?_⟩
  · rw [quoteChars, List.cons_append, List.append_assoc, List.singleton_append]
  · rw [Draft.empty, readString?_flatMap, List.append_nil]
    rfl

/-! ### Values -/

mutual

/-- What a text that spells the value holds. -/
def toOutline : Json → Outline
  | bool value => .bool value
  | number value => .number (some value)
  | string value => .string (some value)
  | array elements => .array (elementOutlines elements) true
  | object entries => .object (entryOutlines entries) true

def elementOutlines : List Json → List Outline
  | [] => []
  | element :: rest => element.toOutline :: elementOutlines rest

def entryOutlines : List (String × Json) → List (Option String × Outline)
  | [] => []
  | (key, value) :: rest => (some key, value.toOutline) :: entryOutlines rest

end

/-- Whether the style puts nothing but blanks between the tokens. -/
structure Style.IsBlank (style : Style) : Prop where
  lineBreak : ∀ depth, ∀ c ∈ (style.lineBreak depth).toList, Json.isBlank c = true
  colon : ∃ blanks, style.colon.toList = ':' :: blanks ∧ ∀ c ∈ blanks, Json.isBlank c = true

/-- Whether the text is no blank or closing bracket at its start, and is read as a value whatever
follows. -/
structure Spells (text : List Char) (outline : Outline) : Prop where
  start : ∃ c rest, text = c :: rest ∧ isBlank c = false ∧ c ≠ ']'
  readValue : ∀ {fuel rest}, 2 * text.length ≤ fuel → IsClear rest →
    readValue fuel (text ++ rest) = (outline, some rest)

section Steps

variable {text blanks rest after : List Char} {outline : Outline} {fuel : Nat}

/-- Blanks in front of a value are skipped. -/
theorem Spells.readValue_append (h : Spells text outline)
    (hb : ∀ c ∈ blanks, isBlank c = true) (hf : 2 * text.length ≤ fuel) (hr : IsClear rest) :
    Json.readValue fuel (blanks ++ (text ++ rest)) = (outline, some rest) := by
  obtain ⟨c, others, htext, hc, -⟩ := h.start
  have hskip : skipBlank (blanks ++ (text ++ rest)) = skipBlank (text ++ rest) := by
    rw [htext, List.cons_append, skipBlank_append hb hc, skipBlank_cons hc]
  rw [← h.readValue hf hr]
  cases fuel with
  | zero => rfl
  | succ fuel =>
    unfold Json.readValue
    rw [hskip]

/-- An element is read; a comma says that another one follows, and the closing bracket that it is
the last one. -/
theorem Spells.readElements_append {found : List Outline} (h : Spells text outline)
    (hb : ∀ c ∈ blanks, isBlank c = true) (hf : 2 * text.length ≤ fuel) (hr : IsClear rest) :
    (skipBlank rest = ',' :: after → readElements (fuel + 1) found (blanks ++ (text ++ rest)) =
      readElements fuel (outline :: found) after) ∧
    (skipBlank rest = ']' :: after → readElements (fuel + 1) found (blanks ++ (text ++ rest)) =
      (.array (outline :: found).reverse true, some after)) := by
  have hvalue := h.readValue hf hr
  obtain ⟨c, others, rfl, hc, hclosing⟩ := h.start
  have hskip : skipBlank (blanks ++ (c :: others ++ rest)) = c :: others ++ rest :=
    skipBlank_append hb hc
  rw [readElements]
  · rw [hskip, hvalue]
    constructor <;> intro hnext <;> simp only [hnext]
  · rintro next - heq
    rw [hskip] at heq
    exact hclosing (List.cons.inj heq).1

/-- An entry is read; a comma says that another one follows, and the closing brace that it is the
last one. -/
theorem Spells.readEntries_append {found : List (Option String × Outline)}
    (h : Spells text outline) (hb : ∀ c ∈ blanks, isBlank c = true) (hf : 2 * text.length ≤ fuel)
    (hs : style.IsBlank) (hr : IsClear rest) (key : String) :
    (skipBlank rest = ',' :: after → readEntries (fuel + 1) found
      (blanks ++ (quoteChars key ++ (style.colon.toList ++ (text ++ rest)))) =
        readEntries fuel ((some key, outline) :: found) after) ∧
    (skipBlank rest = '\x7d' :: after → readEntries (fuel + 1) found
      (blanks ++ (quoteChars key ++ (style.colon.toList ++ (text ++ rest)))) =
        (.object ((some key, outline) :: found).reverse true, some after)) := by
  obtain ⟨spaces, hcolon, hspaces⟩ := hs.colon
  have hvalue := h.readValue_append hspaces hf hr
  obtain ⟨quoted, hquoted, hkey⟩ := quoteChars_append key (':' :: (spaces ++ (text ++ rest)))
  have hskip : skipBlank (blanks ++ '"' :: quoted) = '"' :: quoted := skipBlank_append hb rfl
  rw [hcolon, List.cons_append, hquoted]
  simp only [readEntries, hskip, hkey, @skipBlank_cons ':' _ rfl, hvalue, text?_draftOf]
  constructor <;> intro hnext <;> simp only [hnext]

end Steps

theorem spells_bool (depth : Nat) (value : Bool) :
    Spells (chars style depth (bool value)) (toOutline (bool value)) := by
  cases value with
  | true =>
    refine ⟨⟨'t', ['r', 'u', 'e'], rfl, by decide, by decide⟩, fun {fuel rest} hf _ => ?_⟩
    have hlength : (chars style depth (bool true)).length = 4 := rfl
    obtain ⟨fuel, rfl⟩ : ∃ n, fuel = n + 1 := ⟨fuel - 1, by omega⟩
    rfl
  | false =>
    refine ⟨⟨'f', ['a', 'l', 's', 'e'], rfl, by decide, by decide⟩, fun {fuel rest} hf _ => ?_⟩
    have hlength : (chars style depth (bool false)).length = 5 := rfl
    obtain ⟨fuel, rfl⟩ : ∃ n, fuel = n + 1 := ⟨fuel - 1, by omega⟩
    rfl

theorem spells_string (depth : Nat) (value : String) :
    Spells (chars style depth (string value)) (toOutline (string value)) := by
  refine ⟨⟨'"', _, rfl, by decide, by decide⟩, fun {fuel rest} hf _ => ?_⟩
  obtain ⟨quoted, hquoted, hread⟩ := quoteChars_append value rest
  have hlength : 0 < (chars style depth (string value)).length := Nat.succ_pos _
  obtain ⟨fuel, rfl⟩ : ∃ n, fuel = n + 1 := ⟨fuel - 1, by omega⟩
  show readValue (fuel + 1) (quoteChars value ++ rest) = _
  rw [hquoted]
  simp only [readValue, @skipBlank_cons '"' _ rfl, hread, text?_draftOf]
  rfl

theorem spells_number (depth : Nat) (value : Int) :
    Spells (chars style depth (number value)) (toOutline (number value)) := by
  show Spells (integer value).toList _
  obtain ⟨c, digits, hdigits⟩ := List.exists_cons_of_ne_nil (Decimal.integer_ne_nil value)
  have hc : c.isDigit = true ∨ c = '-' := Decimal.mem_integer (hdigits ▸ List.mem_cons_self)
  have hblank : isBlank c = false := by
    rcases hc with hdigit | rfl
    · exact not_isBlank_of_isDigit hdigit
    · rfl
  have hne {d : Char} (hd : d.isDigit = false ∧ d ≠ '-') : c ≠ d := by
    rintro rfl
    rcases hc with hdigit | heq
    · exact Bool.noConfusion (hdigit.symm.trans hd.1)
    · exact hd.2 heq
  refine ⟨⟨c, digits, hdigits, hblank, hne (by decide)⟩, fun {fuel rest} hf hr => ?_⟩
  have hread := readNumber?_integer value hr
  have hlength : 0 < (integer value).toList.length := hdigits ▸ Nat.succ_pos _
  obtain ⟨fuel, rfl⟩ : ∃ n, fuel = n + 1 := ⟨fuel - 1, by omega⟩
  rw [hdigits, List.cons_append] at hread ⊢
  rw [readValue.eq_def]
  dsimp only
  rw [skipBlank_cons hblank]
  split
  case h_7 =>
    rw [hread]
    rfl
  all_goals
    rename_i heq
    exact absurd (List.cons.inj heq).1 (hne (by decide))

mutual

theorem spells_chars (hs : style.IsBlank) (depth : Nat) : ∀ value : Json,
    Spells (chars style depth value) value.toOutline
  | bool value => spells_bool depth value
  | number value => spells_number depth value
  | string value => spells_string depth value
  | array [] => by
    refine ⟨⟨'[', _, rfl, by decide, by decide⟩, fun {fuel rest} hf _ => ?_⟩
    have hlength : (chars style depth (array [])).length = 2 := rfl
    obtain ⟨fuel, rfl⟩ : ∃ n, fuel = n + 2 := ⟨fuel - 2, by omega⟩
    rfl
  | array (element :: rest) => by
    refine ⟨⟨'[', _, rfl, by decide, by decide⟩, fun {fuel after} hf _ => ?_⟩
    have hlength : (chars style (depth + 1) element).length +
        (elementChars style (depth + 1) rest).length + 2 ≤
          (chars style depth (array (element :: rest))).length := by
      simp only [chars, List.length_cons, List.length_append, List.length_nil]
      omega
    obtain ⟨fuel, rfl⟩ : ∃ n, fuel = n + 1 := ⟨fuel - 1, by omega⟩
    simp only [chars, List.cons_append, List.append_assoc, List.nil_append]
    exact readElements_elementChars hs (depth + 1) rest (spells_chars hs (depth + 1) element) []
      (by omega) (hs.lineBreak (depth + 1)) (hs.lineBreak depth)
  | object [] => by
    refine ⟨⟨'\x7b', _, rfl, by decide, by decide⟩, fun {fuel rest} hf _ => ?_⟩
    have hlength : (chars style depth (object [])).length = 2 := rfl
    obtain ⟨fuel, rfl⟩ : ∃ n, fuel = n + 2 := ⟨fuel - 2, by omega⟩
    rfl
  | object ((key, value) :: rest) => by
    refine ⟨⟨'\x7b', _, rfl, by decide, by decide⟩, fun {fuel after} hf _ => ?_⟩
    have hlength : (chars style (depth + 1) value).length +
        (entryChars style (depth + 1) rest).length + 2 ≤
          (chars style depth (object ((key, value) :: rest))).length := by
      simp only [chars, List.length_cons, List.length_append, List.length_nil]
      omega
    obtain ⟨fuel, rfl⟩ : ∃ n, fuel = n + 1 := ⟨fuel - 1, by omega⟩
    simp only [chars, List.cons_append, List.append_assoc, List.nil_append]
    exact readEntries_entryChars hs (depth + 1) rest key (spells_chars hs (depth + 1) value) []
      (by omega) (hs.lineBreak (depth + 1)) (hs.lineBreak depth)

/-- The elements from some element to the closing bracket are read one after the other. -/
theorem readElements_elementChars (hs : style.IsBlank) (depth : Nat) :
    ∀ (elements : List Json) {text : List Char} {outline : Outline} (_ : Spells text outline)
      (found : List Outline) {fuel : Nat} {blanks spaces after : List Char},
      2 * text.length + 2 * (elementChars style depth elements).length + 1 ≤ fuel →
      (∀ c ∈ blanks, isBlank c = true) → (∀ c ∈ spaces, isBlank c = true) →
      readElements fuel found
          (blanks ++ (text ++ (elementChars style depth elements ++ (spaces ++ ']' :: after)))) =
        (.array (found.reverse ++ outline :: elementOutlines elements) true, some after)
  | [], text, outline, h, found, fuel, blanks, spaces, after, hf, hb, hc => by
    obtain ⟨fuel, rfl⟩ : ∃ n, fuel = n + 1 := ⟨fuel - 1, by omega⟩
    have hclear : IsClear (spaces ++ ']' :: after) := IsClear.append hc (IsClear.cons (by decide))
    show readElements (fuel + 1) found (blanks ++ (text ++ (spaces ++ ']' :: after))) =
      (.array (found.reverse ++ [outline]) true, some after)
    rw [← List.reverse_cons]
    exact (h.readElements_append hb (by omega) hclear).2 (skipBlank_append hc rfl)
  | element :: rest, text, outline, h, found, fuel, blanks, spaces, after, hf, hb, hc => by
    simp only [elementChars, List.length_cons, List.length_append] at hf
    obtain ⟨fuel, rfl⟩ : ∃ n, fuel = n + 1 := ⟨fuel - 1, by omega⟩
    simp only [elementChars, List.cons_append, List.append_assoc]
    refine ((h.readElements_append hb (by omega) (IsClear.cons (by decide))).1
      (skipBlank_cons rfl)).trans ?_
    rw [readElements_elementChars hs depth rest (spells_chars hs depth element) _ (by omega)
      (hs.lineBreak depth) hc, List.reverse_cons, List.append_assoc, List.singleton_append]
    rfl

/-- The entries from some entry to the closing brace are read one after the other. -/
theorem readEntries_entryChars (hs : style.IsBlank) (depth : Nat) :
    ∀ (entries : List (String × Json)) (key : String) {text : List Char} {outline : Outline}
      (_ : Spells text outline) (found : List (Option String × Outline)) {fuel : Nat}
      {blanks spaces after : List Char},
      2 * text.length + 2 * (entryChars style depth entries).length + 1 ≤ fuel →
      (∀ c ∈ blanks, isBlank c = true) → (∀ c ∈ spaces, isBlank c = true) →
      readEntries fuel found (blanks ++ (quoteChars key ++ (style.colon.toList ++
          (text ++ (entryChars style depth entries ++ (spaces ++ '\x7d' :: after)))))) =
        (.object (found.reverse ++ (some key, outline) :: entryOutlines entries) true, some after)
  | [], key, text, outline, h, found, fuel, blanks, spaces, after, hf, hb, hc => by
    obtain ⟨fuel, rfl⟩ : ∃ n, fuel = n + 1 := ⟨fuel - 1, by omega⟩
    have hclear : IsClear (spaces ++ '\x7d' :: after) :=
      IsClear.append hc (IsClear.cons (by decide))
    show readEntries (fuel + 1) found (blanks ++ (quoteChars key ++ (style.colon.toList ++
      (text ++ (spaces ++ '\x7d' :: after))))) =
        (.object (found.reverse ++ [(some key, outline)]) true, some after)
    rw [← List.reverse_cons]
    exact (h.readEntries_append hb (by omega) hs hclear key).2 (skipBlank_append hc rfl)
  | (next, value) :: rest, key, text, outline, h, found, fuel, blanks, spaces, after, hf, hb, hc => by
    simp only [entryChars, List.length_cons, List.length_append] at hf
    obtain ⟨fuel, rfl⟩ : ∃ n, fuel = n + 1 := ⟨fuel - 1, by omega⟩
    simp only [entryChars, List.cons_append, List.append_assoc]
    refine ((h.readEntries_append hb (by omega) hs (IsClear.cons (by decide)) key).1
      (skipBlank_cons rfl)).trans ?_
    rw [readEntries_entryChars hs depth rest next (spells_chars hs depth value) _ (by omega)
      (hs.lineBreak depth) hc, List.reverse_cons, List.append_assoc, List.singleton_append]
    rfl

end

/-! ### Texts -/

theorem isBlank_compact : Style.compact.IsBlank :=
  ⟨fun _ _ hc => absurd hc List.not_mem_nil, [], rfl, List.forall_mem_nil _⟩

theorem isBlank_indented : Style.indented.IsBlank where
  lineBreak depth c hc := by
    have hin : c ∈ '\n' :: List.replicate (2 * depth) ' ' := by
      rwa [Style.indented, String.toList_ofList] at hc
    rcases List.mem_cons.mp hin with rfl | hin
    · rfl
    · rw [List.eq_of_mem_replicate hin]
      rfl
  colon := ⟨[' '], rfl, List.forall_mem_singleton.mpr rfl⟩

/-- A value that was written reads back, whatever blanks stand between the tokens. -/
theorem outline_writeTo (hs : style.IsBlank) (value : Json) :
    outline (writeTo style 0 "" value) = (value.toOutline, true) := by
  have hchars : (writeTo style 0 "" value).toList = chars style 0 value ++ [] := by
    rw [toList_writeTo, List.append_nil]
    rfl
  unfold outline
  dsimp only
  rw [hchars, (spells_chars hs 0 value).readValue (by rw [List.append_nil]; omega) IsClear.nil]
  rfl

theorem outline_compact (value : Json) : outline value.compact = (value.toOutline, true) :=
  outline_writeTo isBlank_compact value

theorem outline_indented (value : Json) : outline value.indented = (value.toOutline, true) :=
  outline_writeTo isBlank_indented value

mutual

theorem toOutline_injective : ∀ {a b : Json}, a.toOutline = b.toOutline → a = b
  | bool value, other, h => by
    cases other with
    | bool other => exact congrArg bool (Outline.bool.inj h)
    | _ => cases h
  | number value, other, h => by
    cases other with
    | number other => exact congrArg number (Option.some.inj (Outline.number.inj h))
    | _ => cases h
  | string value, other, h => by
    cases other with
    | string other => exact congrArg string (Option.some.inj (Outline.string.inj h))
    | _ => cases h
  | array elements, other, h => by
    cases other with
    | array others => exact congrArg array (elementOutlines_injective (Outline.array.inj h).1)
    | _ => cases h
  | object entries, other, h => by
    cases other with
    | object others => exact congrArg object (entryOutlines_injective (Outline.object.inj h).1)
    | _ => cases h

theorem elementOutlines_injective : ∀ {a b : List Json},
    elementOutlines a = elementOutlines b → a = b
  | [], other, h => by
    cases other with
    | nil => rfl
    | cons => cases h
  | element :: rest, other, h => by
    cases other with
    | nil => cases h
    | cons first others =>
      obtain ⟨hfirst, hrest⟩ := List.cons.inj h
      rw [toOutline_injective hfirst, elementOutlines_injective hrest]

theorem entryOutlines_injective : ∀ {a b : List (String × Json)},
    entryOutlines a = entryOutlines b → a = b
  | [], other, h => by
    cases other with
    | nil => rfl
    | cons => cases h
  | (key, value) :: rest, other, h => by
    cases other with
    | nil => cases h
    | cons first others =>
      obtain ⟨hfirst, hrest⟩ := List.cons.inj h
      obtain ⟨hkey, hvalue⟩ := Prod.mk.inj hfirst
      rw [toOutline_injective hvalue, entryOutlines_injective hrest, Option.some.inj hkey]

end

/-- No two values are written alike. -/
theorem compact_injective {a b : Json} (h : a.compact = b.compact) : a = b := by
  have houtlines : (a.toOutline, true) = (b.toOutline, true) := by
    rw [← outline_compact, ← outline_compact, h]
  exact toOutline_injective (Prod.mk.inj houtlines).1

end ClassGraft.Json

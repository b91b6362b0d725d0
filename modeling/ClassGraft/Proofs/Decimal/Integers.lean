import ClassGraft.Decimal.Integer
import ClassGraft.Proofs.Outcome
import Mathlib.Tactic.IntervalCases
import Mathlib.Tactic.Ring

/-!
# Whole numbers that read back

The digits of a number read back as that number if it lies in the range that is asked for
(`Decimal.readInteger_toDigits`, `Decimal.readInteger_integer`), so all numbers of a machine type
read back from their decimal form.
-/

namespace ClassGraft.Decimal

variable {base n : Nat} {lo hi value : Int} {negative : Bool}

/-! ### Digits -/

theorem digit?_digitChar {d : Nat} (hb : base ≤ 16) (hd : d < base) :
    digit? base d.digitChar = some d := by
  have hlt : d < 16 := hd.trans_le hb
  unfold digit?
  interval_cases d <;> simp [Nat.digitChar, hd]

theorem readDigits_append (digits rest : List Char) :
    readDigits base lo hi negative value (digits ++ rest) =
      (readDigits base lo hi negative value digits).bind fun value =>
        readDigits base lo hi negative value rest := by
  induction digits generalizing value with
  | nil => rfl
  | cons c digits ih =>
    rw [List.cons_append, readDigits, readDigits]
    cases digit? base c with
    | none => rfl
    | some d =>
      dsimp only
      generalize (if negative then value * base - d else value * base + d) = next
      rcases Int.lt_or_le hi next with hlarge | hle
      · simp only [if_pos hlarge]
        rfl
      rcases Int.lt_or_le next lo with hsmall | hge
      · simp only [if_neg (Int.not_lt.mpr hle), if_pos hsmall]
        rfl
      · simp only [if_neg (Int.not_lt.mpr hle), if_neg (Int.not_lt.mpr hge)]
        exact ih

/-- The number or its negative. -/
def signed (negative : Bool) (n : Nat) : Int := if negative then -n else n

theorem readDigits_digitChar {d : Nat} (hb : base ≤ 16) (hd : d < base)
    (hl : lo ≤ signed negative (n * base + d)) (hh : signed negative (n * base + d) ≤ hi) :
    readDigits base lo hi negative (signed negative n) [d.digitChar] =
      .ok (signed negative (n * base + d)) := by
  have hnext : (if negative then signed negative n * base - d else signed negative n * base + d) =
      signed negative (n * base + d) := by
    unfold signed
    push_cast
    cases negative
    · rfl
    · simp only [↓reduceIte]
      ring
  rw [readDigits, digit?_digitChar hb hd]
  dsimp only
  rw [hnext, if_neg (Int.not_lt.mpr hh), if_neg (Int.not_lt.mpr hl), readDigits]

/-- The digits of a number lead to it, or to its negative, if that is in the range. -/
theorem readDigits_toDigits (hb : 1 < base) (hbase : base ≤ 16) (hz : lo ≤ 0 ∧ 0 ≤ hi)
    (hl : lo ≤ signed negative n) (hh : signed negative n ≤ hi) :
    readDigits base lo hi negative 0 (Nat.toDigits base n) = .ok (signed negative n) := by
  have hstart : signed negative 0 = 0 := by cases negative <;> rfl
  induction n using Nat.strong_induction_on with
  | _ n ih =>
    have hlast : ∀ q d, d < base → q * base + d = n →
        readDigits base lo hi negative (signed negative q) [d.digitChar] =
          .ok (signed negative n) := by
      rintro q d hd rfl
      exact readDigits_digitChar hbase hd hl hh
    rcases Nat.lt_or_ge n base with hlt | hge
    · rw [Nat.toDigits_of_lt_base hlt, ← hstart]
      exact hlast 0 n hlt (by rw [Nat.zero_mul, Nat.zero_add])
    · have hmod : n / base * base + n % base = n := Nat.div_add_mod' _ _
      have hle : (n / base : Nat) ≤ n := Nat.div_le_self _ _
      have hbefore : lo ≤ signed negative (n / base) ∧ signed negative (n / base) ≤ hi := by
        unfold signed at hl hh ⊢
        generalize n / base = q at hle
        split_ifs at hl hh ⊢ <;> omega
      rw [Nat.toDigits_of_base_le hb hge, readDigits_append,
        ih _ (Nat.div_lt_self (by omega) hb) hbefore.1 hbefore.2]
      exact hlast (n / base) (n % base) (Nat.mod_lt n (by omega)) hmod

/-! ### Numbers -/

/-- The digits of a number start with a digit. -/
theorem exists_toDigits (hb : 1 < base) (n : Nat) :
    ∃ d rest, Nat.toDigits base n = Nat.digitChar d :: rest := by
  induction n using Nat.strong_induction_on with
  | _ n ih =>
    rcases Nat.lt_or_ge n base with hlt | hge
    · exact ⟨n, [], Nat.toDigits_of_lt_base hlt⟩
    · obtain ⟨d, rest, hdigits⟩ := ih (n / base) (Nat.div_lt_self (by omega) hb)
      exact ⟨d, rest ++ [(n % base).digitChar], by
        rw [Nat.toDigits_of_base_le hb hge, hdigits, List.cons_append]⟩

/-- Positive numbers have no zero in front. -/
theorem head?_toDigits_ne (hb : 1 < base) (hn : 0 < n) : (Nat.toDigits base n).head? ≠ some '0' := by
  induction n using Nat.strong_induction_on with
  | _ n ih =>
    rcases Nat.lt_or_ge n base with hlt | hge
    · rw [Nat.toDigits_of_lt_base hlt, List.head?_cons]
      exact fun heq => hn.ne' (Nat.digitChar_eq_zero.mp (Option.some.inj heq))
    · rw [Nat.toDigits_of_base_le hb hge, List.head?_append_of_ne_nil _ Nat.toDigits_ne_nil]
      exact ih (n / base) (Nat.div_lt_self hn hb) (Nat.div_pos hge (by omega))

theorem readInteger_toDigits (hb : 1 < base) (hbase : base ≤ 16) (hl : lo ≤ 0) (hh : n ≤ hi) :
    readInteger base lo hi (Nat.toDigits base n) = .ok (n : Int) := by
  have hread : readDigits base lo hi false 0 (Nat.toDigits base n) = .ok (signed false n) :=
    readDigits_toDigits hb hbase ⟨hl, by omega⟩ (hl.trans (Int.natCast_nonneg n)) hh
  obtain ⟨d, rest, hdigits⟩ := exists_toDigits hb n
  have hplus : d.digitChar ≠ '+' := Nat.digitChar_ne _ (by decide)
  have hminus : d.digitChar ≠ '-' := Nat.digitChar_ne _ (by decide)
  rw [hdigits] at hread ⊢
  unfold readInteger
  split
  · contradiction
  · rename_i heq
    exact absurd (List.cons.inj heq).1 hplus
  · rename_i heq
    exact absurd (List.cons.inj heq).1 hminus
  · exact hread

/-- A number in the range reads back from its decimal form. -/
theorem readInteger_integer (hz : lo ≤ 0 ∧ 0 ≤ hi) (hl : lo ≤ value) (hh : value ≤ hi) :
    readInteger 10 lo hi (integer value).toList = .ok value := by
  cases value with
  | ofNat n =>
    rw [integer, natural, String.toList_ofList]
    exact readInteger_toDigits (by decide) (by decide) hz.1 hh
  | negSucc n =>
    rw [integer, String.toList_ofList, readInteger, if_neg]
    · exact @readDigits_toDigits 10 (n + 1) lo hi true (by decide) (by decide) hz hl hh
    · rw [Bool.or_eq_true, List.isEmpty_iff, decide_eq_true_eq]
      rintro (hnil | hle)
      · exact Nat.toDigits_ne_nil hnil
      · exact absurd (hle.trans hl) (Int.not_le.mpr (Int.negSucc_lt_zero n))

theorem integer_ne_nil (value : Int) : (integer value).toList ≠ [] := by
  cases value with
  | ofNat n =>
    rw [integer, natural, String.toList_ofList]
    exact Nat.toDigits_ne_nil
  | negSucc n =>
    rw [integer, String.toList_ofList]
    exact List.cons_ne_nil _ _

/-- A number is written with digits and a sign. -/
theorem mem_integer {c : Char} (h : c ∈ (integer value).toList) : c.isDigit = true ∨ c = '-' := by
  have hdigit {n : Nat} (hc : c ∈ Nat.toDigits 10 n) : c.isDigit = true :=
    Nat.isDigit_of_mem_toDigits (by decide) (by decide) hc
  cases value with
  | ofNat n =>
    rw [integer, natural, String.toList_ofList] at h
    exact .inl (hdigit h)
  | negSucc n =>
    rw [integer, String.toList_ofList] at h
    rcases List.mem_cons.mp h with rfl | h
    · exact .inr rfl
    · exact .inl (hdigit h)

/-! ### Machine numbers -/

theorem readInt8_integer (value : Int8) : readInt8 (integer value.toInt).toList = .ok value := by
  unfold readInt8
  rw [readInteger_integer (by decide) (by have := value.le_toInt; omega)
    (by have := value.toInt_lt; omega)]
  exact congrArg Except.ok (Int8.ofInt_toInt value)

theorem readInt16_integer (value : Int16) : readInt16 (integer value.toInt).toList = .ok value := by
  unfold readInt16
  rw [readInteger_integer (by decide) (by have := value.le_toInt; omega)
    (by have := value.toInt_lt; omega)]
  exact congrArg Except.ok (Int16.ofInt_toInt value)

theorem readInt32_integer (value : Int32) : readInt32 (integer value.toInt).toList = .ok value := by
  unfold readInt32
  rw [readInteger_integer (by decide) (by have := value.le_toInt; omega)
    (by have := value.toInt_lt; omega)]
  exact congrArg Except.ok (Int32.ofInt_toInt value)

theorem readInt64_integer (value : Int64) : readInt64 (integer value.toInt).toList = .ok value := by
  unfold readInt64
  rw [readInteger_integer (by decide) (by have := value.le_toInt; omega)
    (by have := value.toInt_lt; omega)]
  exact congrArg Except.ok (Int64.ofInt_toInt value)

theorem readUInt8_toString (value : UInt8) : readUInt8 (toString value).toList = .ok value := by
  show readUInt8 (toString value.toNat).toList = .ok value
  rw [Nat.toString_eq_ofList_toDigits, String.toList_ofList]
  unfold readUInt8
  rw [readInteger_toDigits (by decide) (by decide) (by decide) (by have := value.toNat_lt; omega)]
  exact congrArg Except.ok (UInt8.ofNat_toNat)

theorem readUInt16_toString (value : UInt16) : readUInt16 (toString value).toList = .ok value := by
  show readUInt16 (toString value.toNat).toList = .ok value
  rw [Nat.toString_eq_ofList_toDigits, String.toList_ofList]
  unfold readUInt16
  rw [readInteger_toDigits (by decide) (by decide) (by decide) (by have := value.toNat_lt; omega)]
  exact congrArg Except.ok (UInt16.ofNat_toNat)

end ClassGraft.Decimal

import ClassGraft.Proofs.Decimal.Integers
import ClassGraft.Proofs.Decimal.Shortest
import Mathlib.Data.Bool.AllAny
import Mathlib.Data.List.TakeDrop
import Mathlib.Data.List.TakeWhile

/-!
# Floating point numbers that read back

The decimal form of a floating point number is read as the same bits, all values that are no number
being one (`Decimal.readFloat_float`).  The digits that are written spell a decimal in the interval
of the number, and have so few places that no reader takes them for zero or for infinity
(`Decimal.scaled_of_holds`).
-/

namespace ClassGraft

open BinaryFormat (twoTo)

/-- The bits of a number, or of the one value that is no number. -/
def BinaryFormat.quiet (format : BinaryFormat) (bits : Nat) : Nat :=
  if format.infinity < bits % format.signBit then format.quietNaN else bits

/-- Whether the bits can be spelled: of the values that are no number two can be, which differ in
the sign. -/
def BinaryFormat.IsSpelled (format : BinaryFormat) (bits : Nat) : Prop :=
  format.quiet bits = bits ∨ bits = format.signBit + format.quietNaN

namespace Decimal

variable {format : BinaryFormat} {bits n k d value : Nat}

/-! ### The size of a decimal -/

section Sizes

open Shortest (interval)

theorem two_le_low (hb : 0 < bits) : 2 ≤ (interval format bits).low := by
  have hpos : 0 < format.mantissa bits := Shortest.mantissa_pos hb
  have hscale : 1 ≤ twoTo (format.exponent bits) := Nat.two_pow_pos _
  unfold interval
  dsimp only
  have hgap : 2 ≤ 4 * format.mantissa bits -
      if format.mantissa bits = format.stride ∧ 1 < format.field bits then 1 else 2 := by
    split_ifs <;> omega
  exact Nat.mul_le_mul hgap hscale

theorem den_lt (hm : format.IsModerate) : (interval format bits).den < 2 * tenTo 400 := by
  have hsmall := hm.small
  show 4 * twoTo format.depth < 2 * tenTo 400
  omega

theorem high_lt (hm : format.IsModerate) (hf : bits < format.infinity) :
    (interval format bits).high < (interval format bits).den * tenTo 400 := by
  have hmantissa := format.mantissa_lt bits
  have hexponent : format.exponent bits ≤ twoTo format.exponentBits := by
    have : format.field bits < twoTo format.exponentBits - 1 := Nat.div_lt_of_lt_mul (by
      rw [Nat.mul_comm]
      exact hf)
    have : format.exponent bits = format.field bits - 1 := rfl
    omega
  have hstride : twoTo format.precision = 2 * format.stride := by
    show 2 ^ format.precision = 2 * 2 ^ (format.precision - 1)
    rw [← Nat.pow_succ', Nat.succ_eq_add_one, Nat.sub_add_cancel hm.precision_pos]
  calc (4 * format.mantissa bits + 2) * twoTo (format.exponent bits)
      < 4 * twoTo format.precision * twoTo (format.exponent bits) :=
        Nat.mul_lt_mul_of_pos_right (by omega) (Nat.two_pow_pos _)
    _ ≤ 4 * twoTo format.precision * twoTo (twoTo format.exponentBits) :=
        Nat.mul_le_mul_left _ (Nat.pow_le_pow_right (by decide) hexponent)
    _ = 4 * twoTo (format.precision + twoTo format.exponentBits) := by
        rw [Nat.mul_assoc]
        exact congrArg (4 * ·) (Nat.pow_add 2 _ _).symm
    _ ≤ 4 * (twoTo format.depth * tenTo 400) := Nat.mul_le_mul_left _ hm.large
    _ = 4 * twoTo format.depth * tenTo 400 := (Nat.mul_assoc _ _ _).symm

theorem lt_tenTo_length (n : Nat) : n < tenTo (Nat.toDigits 10 n).length :=
  (Nat.length_toDigits_le_iff (by decide) Nat.length_toDigits_pos).mp (Nat.le_refl _)

theorem tenTo_le_of_lt_length (hk : 0 < k) (h : k < (Nat.toDigits 10 n).length) : tenTo k ≤ n := by
  by_contra hlt
  exact absurd ((Nat.length_toDigits_le_iff (by decide) hk).mpr (Nat.lt_of_not_le hlt))
    (Nat.not_le_of_lt h)

/-- A decimal in the interval of a finite magnitude is read as that magnitude. -/
theorem scaled_of_holds (hm : format.IsModerate) (hb : 0 < bits) (hf : bits < format.infinity)
    (h : (interval format bits).Holds n (tenTo d)) : scaled format n (-(d : Int)) = bits := by
  have hlow : 2 ≤ (interval format bits).low := two_le_low hb
  have hscale : 0 < tenTo d := tenTo_pos d
  have hleast : 2 * tenTo d ≤ n * (interval format bits).den :=
    (Nat.mul_le_mul_right _ hlow).trans h.low_le
  have hpos : n ≠ 0 := by
    rintro rfl
    omega
  -- what is taken for zero is less than any interval holds
  have hsmall : ¬ ((Nat.toDigits 10 n).length + -(d : Int) < -400) := by
    intro hlt
    have hlt : tenTo ((Nat.toDigits 10 n).length + 400) ≤ tenTo d :=
      Nat.pow_le_pow_right (by decide) (by omega)
    have : n * (interval format bits).den < 2 * tenTo d := by
      calc n * (interval format bits).den
          < tenTo (Nat.toDigits 10 n).length * (2 * tenTo 400) :=
            Nat.mul_lt_mul'' (lt_tenTo_length n) (den_lt hm)
        _ = 2 * tenTo ((Nat.toDigits 10 n).length + 400) := by
            rw [Nat.mul_left_comm]
            rw [← tenTo_add]
        _ ≤ 2 * tenTo d := Nat.mul_le_mul_left _ hlt
    omega
  -- what is taken for infinity is more than any interval holds
  have hlarge : ¬ ((400 : Int) < (Nat.toDigits 10 n).length + -(d : Int)) := by
    intro hlt
    have hle : tenTo (d + 400) ≤ n := tenTo_le_of_lt_length (by omega) (by omega)
    rw [tenTo_add] at hle
    have : (interval format bits).high * tenTo d < n * (interval format bits).den := by
      calc (interval format bits).high * tenTo d
          < (interval format bits).den * tenTo 400 * tenTo d :=
            Nat.mul_lt_mul_of_pos_right (high_lt hm hf) hscale
        _ = tenTo d * tenTo 400 * (interval format bits).den := by ring
        _ ≤ n * (interval format bits).den := Nat.mul_le_mul_right _ hle
    exact absurd h.le_high (Nat.not_le_of_lt this)
  unfold scaled
  dsimp only
  rw [if_neg (by simpa [hpos] using hsmall), if_neg hlarge]
  -- a decimal without places is scaled up, and not down by one
  cases d with
  | zero =>
    refine BinaryFormat.round_of_holds hm.precision_pos (by decide) hf ?_
    exact h.of_mul_eq hscale (by decide) (Nat.mul_one _).symm
  | succ k => exact BinaryFormat.round_of_holds hm.precision_pos hscale hf h

end Sizes

/-! ### Digits around a point -/

theorem ofDigits_eq (digits : List Char) : ofDigits digits = Nat.ofDigitChars 10 digits 0 := by
  rw [Nat.ofDigitChars_eq_foldl]
  unfold ofDigits
  simp only [Nat.mul_comm 10]

theorem ofDigits_append_zeros (digits : List Char) (n : Nat) :
    ofDigits (digits ++ List.replicate n '0') = ofDigits digits * tenTo n := by
  rw [ofDigits_eq, ofDigits_eq, Nat.ofDigitChars_append, Nat.ofDigitChars_replicate_zero]
  exact Nat.mul_comm _ _

theorem ofDigits_zeros_append (digits : List Char) (n : Nat) :
    ofDigits (List.replicate n '0' ++ digits) = ofDigits digits := by
  rw [ofDigits_eq, ofDigits_eq, Nat.ofDigitChars_append, Nat.ofDigitChars_replicate_zero,
    Nat.mul_zero]

/-- A list is what is left of it without the given letter at its end, and that letter repeated. -/
theorem exists_eq_append_replicate (letter : Char) (text : List Char) :
    ∃ n, text = (text.reverse.dropWhile (· == letter)).reverse ++ List.replicate n letter := by
  have hsplit := congrArg List.reverse
    (List.takeWhile_append_dropWhile (p := (· == letter)) (l := text.reverse))
  rw [List.reverse_append, List.reverse_reverse] at hsplit
  have hend : (text.reverse.takeWhile (· == letter)).reverse =
      List.replicate (text.reverse.takeWhile (· == letter)).length letter := by
    rw [List.reverse_eq_iff, List.reverse_replicate]
    refine List.eq_replicate_of_mem fun c hc => ?_
    exact eq_of_beq (List.mem_takeWhile_imp (p := (· == letter)) hc)
  exact ⟨_, hend ▸ hsplit.symm⟩

/-- A decimal is written as digits, or as digits, a point and digits, and they spell it. -/
theorem exists_positional (n k d : Nat) : ∃ whole fraction : List Char, whole ≠ [] ∧
    (∀ c ∈ whole ++ fraction, c.isDigit = true) ∧
    (positional n k d).toList = whole ++ (if fraction = [] then [] else '.' :: fraction) ∧
    ofDigits (whole ++ fraction) * tenTo d = n * tenTo k * tenTo fraction.length := by
  have hvalue : ofDigits (Nat.toDigits 10 (n * tenTo k)) = n * tenTo k := by
    rw [ofDigits_eq, Nat.ofDigitChars_ten_toDigits]
  have hdigits : ∀ c ∈ Nat.toDigits 10 (n * tenTo k), c.isDigit = true :=
    fun c hc => Nat.isDigit_of_mem_toDigits (by decide) (by decide) hc
  have hsome : 0 < (Nat.toDigits 10 (n * tenTo k)).length := Nat.length_toDigits_pos
  unfold positional
  dsimp only
  generalize Nat.toDigits 10 (n * tenTo k) = shown at *
  by_cases hd : d = 0
  · obtain rfl := hd
    refine ⟨shown, [], List.ne_nil_of_length_pos hsome, ?_, ?_, ?_⟩
    · rwa [List.append_nil]
    · rw [if_pos rfl, String.toList_ofList, if_pos rfl, List.append_nil]
    · rw [List.append_nil, hvalue, List.length_nil]
  · rw [if_neg hd]
    -- zeros in front make room for the point
    have hpadded : ofDigits (List.replicate (d + 1 - shown.length) '0' ++ shown) = n * tenTo k := by
      rw [ofDigits_zeros_append, hvalue]
    have hall : ∀ c ∈ List.replicate (d + 1 - shown.length) '0' ++ shown, c.isDigit = true := by
      intro c hc
      rcases List.mem_append.mp hc with hc | hc
      · obtain rfl := List.eq_of_mem_replicate hc
        rfl
      · exact hdigits c hc
    have hlength : d < (List.replicate (d + 1 - shown.length) '0' ++ shown).length := by
      rw [List.length_append, List.length_replicate]
      omega
    generalize List.replicate (d + 1 - shown.length) '0' ++ shown = padded at *
    -- zeros at the end are left out, and so are their places
    obtain ⟨zeros, hzeros⟩ := exists_eq_append_replicate '0' (padded.drop (padded.length - d))
    have hsplit := List.take_append_drop (padded.length - d) padded
    have hplaces : (padded.drop (padded.length - d)).length = d := by
      rw [List.length_drop]
      omega
    have hwhole : (padded.take (padded.length - d)).length = padded.length - d := by
      rw [List.length_take]
      omega
    generalize (List.dropWhile (· == '0') (padded.drop (padded.length - d)).reverse).reverse =
      fraction at *
    generalize padded.take (padded.length - d) = whole at *
    rw [hzeros, ← List.append_assoc] at hsplit
    rw [hzeros, List.length_append, List.length_replicate] at hplaces
    refine ⟨whole, fraction, List.ne_nil_of_length_pos (by omega), ?_, ?_, ?_⟩
    · intro c hc
      exact hall c (hsplit ▸ List.mem_append_left _ hc)
    · cases fraction with
      | nil => simp
      | cons c rest => simp
    · rw [← hpadded, ← hsplit, ofDigits_append_zeros, ← hplaces, tenTo_add]
      ring

/-! ### Reading digits around a point -/

theorem toLower_of_isDigit {c : Char} (h : c.isDigit = true) : c.toLower = c := by
  unfold Char.toLower
  rw [dif_neg]
  rintro ⟨hle, -⟩
  simp only [Char.isDigit, Bool.and_eq_true, decide_eq_true_eq] at h
  exact absurd (UInt32.le_trans hle h.2) (by decide)

theorem spanDigits_append {digits rest : List Char} (h : ∀ c ∈ digits, c.isDigit = true)
    (hr : ∀ c ∈ rest.head?, c.isDigit = false) : spanDigits (digits ++ rest) = (digits, rest) := by
  unfold spanDigits
  rw [List.span_eq_takeWhile_dropWhile, List.takeWhile_append_of_pos h,
    List.dropWhile_append_of_pos h]
  cases rest with
  | nil => rw [List.takeWhile_nil, List.dropWhile_nil, List.append_nil]
  | cons c rest =>
    have hc : c.isDigit = false := hr c rfl
    rw [List.takeWhile_cons_of_neg (by simp [hc]), List.dropWhile_cons_of_neg (by simp [hc]),
      List.append_nil]

/-- A text that starts with a digit is no word. -/
theorem ofList_toLower_ne {c : Char} {rest : List Char} {word : String} (hc : c.isDigit = true)
    (hw : word.toList.head?.any Char.isDigit = false) :
    String.ofList ((c :: rest).map Char.toLower) ≠ word := by
  rintro rfl
  rw [String.toList_ofList, List.map_cons, List.head?_cons, Option.any_some,
    toLower_of_isDigit hc, hc] at hw
  cases hw

/-- Digits around a point are read as what they spell. -/
theorem readMagnitude_digits {whole fraction : List Char} (hw : whole ≠ [])
    (h : ∀ c ∈ whole ++ fraction, c.isDigit = true) :
    readMagnitude format (whole ++ (if fraction = [] then [] else '.' :: fraction)) =
      some (scaled format (ofDigits (whole ++ fraction)) (-(fraction.length : Int))) := by
  obtain ⟨hwhole, hfraction⟩ := List.forall_mem_append.mp h
  have hnone : (whole.isEmpty && fraction.isEmpty) = false := by
    rw [List.isEmpty_eq_false_iff.mpr hw, Bool.false_and]
  have hspan : spanDigits (whole ++ (if fraction = [] then [] else '.' :: fraction)) =
      (whole, if fraction = [] then [] else '.' :: fraction) := by
    refine spanDigits_append hwhole fun c hc => ?_
    split_ifs at hc
    · cases hc
    · obtain rfl := Option.some.inj hc
      rfl
  obtain ⟨c, rest, htext⟩ := List.exists_cons_of_ne_nil hw
  have hc : c.isDigit = true := hwhole c (htext ▸ List.mem_cons_self)
  unfold readMagnitude
  dsimp only
  rw [hspan, if_neg, if_neg]
  · -- Without a fraction there is no point either, and nothing is left after the digits.
    cases fraction with
    | nil =>
      rw [if_pos rfl]
      dsimp only
      rw [if_neg (by simpa using hw)]
      rfl
    | cons digit others =>
      have hothers := @spanDigits_append _ [] hfraction (fun c hc => by cases hc)
      rw [List.append_nil] at hothers
      rw [if_neg (List.cons_ne_nil _ _)]
      simp only [hothers, hnone, Bool.false_eq_true, ↓reduceIte]
      exact congrArg some (congrArg _ (Int.zero_sub _))
  · rw [htext]
    exact ofList_toLower_ne hc (by decide)
  · rw [htext, not_or]
    exact ⟨ofList_toLower_ne hc (by decide), ofList_toLower_ne hc (by decide)⟩

theorem readMagnitude_zero : readMagnitude format "0".toList = some 0 := by
  have hread := @readMagnitude_digits format ['0'] [] (List.cons_ne_nil _ _) fun c hc => by
    obtain rfl := List.mem_singleton.mp hc
    rfl
  unfold scaled at hread
  exact hread

theorem readMagnitude_inf : readMagnitude format "inf".toList = some format.infinity := by
  unfold readMagnitude
  dsimp only
  rw [if_pos (by decide)]

theorem readMagnitude_nan : readMagnitude format "NaN".toList = some format.quietNaN := by
  unfold readMagnitude
  dsimp only
  rw [if_neg (by decide), if_pos (by decide)]

theorem readMagnitude_positional (hm : format.IsModerate) (hb : 0 < bits)
    (hf : bits < format.infinity) (h : (Shortest.interval format bits).HoldsDecimal (n, k, d)) :
    readMagnitude format (positional n k d).toList = some bits := by
  obtain ⟨whole, fraction, hwhole, hdigits, htext, hvalue⟩ := exists_positional n k d
  rw [htext, readMagnitude_digits hwhole hdigits]
  have hholds : (Shortest.interval format bits).Holds (ofDigits (whole ++ fraction))
      (tenTo fraction.length) :=
    Shortest.Interval.Holds.of_mul_eq h (tenTo_pos d) (tenTo_pos _) hvalue.symm
  rw [scaled_of_holds hm hb hf hholds]

/-! ### Letters -/

/-- Whether the letter occurs in floating point numbers: digits, signs, points and the letters of
two words do. -/
def IsFloatLetter (c : Char) : Prop := c.isDigit = true ∨ c ∈ ['-', '.', 'i', 'n', 'f', 'N', 'a']

theorem letters_positional (n k d : Nat) : (positional n k d).toList ≠ [] ∧
    ∀ c ∈ (positional n k d).toList, IsFloatLetter c := by
  obtain ⟨whole, fraction, hwhole, hdigits, htext, -⟩ := exists_positional n k d
  obtain ⟨hfirst, hlast⟩ := List.forall_mem_append.mp hdigits
  rw [htext]
  refine ⟨List.append_ne_nil_of_left_ne_nil hwhole _, fun c hc => ?_⟩
  rcases List.mem_append.mp hc with hc | hc
  · exact .inl (hfirst c hc)
  · split_ifs at hc
    · cases hc
    · rcases List.mem_cons.mp hc with rfl | hc
      · exact .inr (by decide)
      · exact .inl (hlast c hc)

/-- A floating point number is written with such letters. -/
theorem letters_float (format : BinaryFormat) (bits : Nat) : (float format bits).toList ≠ [] ∧
    ∀ c ∈ (float format bits).toList, IsFloatLetter c := by
  -- The sign is a letter like the others, and does not matter for the rest.
  have hsigned {text : String} (h : text.toList ≠ [] ∧ ∀ c ∈ text.toList, IsFloatLetter c) :
      ((if bits < format.signBit then "" else "-") ++ text).toList ≠ [] ∧
        ∀ c ∈ ((if bits < format.signBit then "" else "-") ++ text).toList, IsFloatLetter c := by
    rw [String.toList_append]
    refine ⟨List.append_ne_nil_of_right_ne_nil _ h.1, fun c hc => ?_⟩
    rcases List.mem_append.mp hc with hc | hc
    · split_ifs at hc
      · cases hc
      · obtain rfl := List.mem_singleton.mp hc
        exact .inr (by decide)
    · exact h.2 c hc
  have hword {word : String} (hne : word.toList ≠ [])
      (h : word.toList.all fun c => c ∈ ['-', '.', 'i', 'n', 'f', 'N', 'a']) :
      word.toList ≠ [] ∧ ∀ c ∈ word.toList, IsFloatLetter c :=
    ⟨hne, fun c hc => .inr (List.all_iff_forall_prop.mp h c hc)⟩
  have hzero : "0".toList ≠ [] ∧ ∀ c ∈ "0".toList, IsFloatLetter c :=
    ⟨List.cons_ne_nil _ _, fun c hc => .inl (List.mem_singleton.mp hc ▸ rfl)⟩
  unfold float
  dsimp only
  by_cases hnan : format.infinity < bits % format.signBit
  · rw [if_pos hnan]
    exact hword (by decide) (by decide)
  rw [if_neg hnan]
  by_cases hinf : bits % format.signBit = format.infinity
  · rw [if_pos hinf]
    exact hsigned (hword (by decide) (by decide))
  rw [if_neg hinf]
  by_cases hnone : bits % format.signBit = 0
  · rw [if_pos hnone]
    exact hsigned hzero
  · rw [if_neg hnone]
    exact hsigned (letters_positional _ _ _)

/-! ### Signs -/

/-- A text without a sign is read as the magnitude that it spells. -/
theorem readFloat_of_readMagnitude {text : List Char} {c : Char} {rest : List Char}
    (ht : text = c :: rest) (hc : c ≠ '+' ∧ c ≠ '-') (h : readMagnitude format text = some value) :
    readFloat format text = .ok value := by
  unfold readFloat
  split
  · exact absurd ht.symm (List.cons_ne_nil _ _)
  · exact absurd (List.cons.inj ht).1.symm hc.2
  · exact absurd (List.cons.inj ht).1.symm hc.1
  · rw [h]
    rfl

/-- A magnitude is read with the sign that stands in front of it. -/
theorem readFloat_sign_append {text : String} {c : Char} {rest : List Char}
    (hb : bits < 2 * format.signBit) (ht : text.toList = c :: rest) (hc : c ≠ '+' ∧ c ≠ '-')
    (h : readMagnitude format text.toList = some (bits % format.signBit)) :
    readFloat format ((if bits < format.signBit then "" else "-") ++ text).toList = .ok bits := by
  split_ifs with hsign
  · rw [String.empty_append]
    rw [Nat.mod_eq_of_lt hsign] at h
    exact readFloat_of_readMagnitude ht hc h
  · have hvalue : format.signBit + bits % format.signBit = bits := by
      rw [Nat.mod_eq_sub_mod (Nat.le_of_not_lt hsign), Nat.mod_eq_of_lt (by omega)]
      omega
    rw [String.toList_append]
    show ((readMagnitude format text.toList).map (format.signBit + ·)).elim _ _ = _
    rw [h, Option.map_some, hvalue]
    rfl

/-- A floating point number is read back from its decimal form; of the values that are no number
only that they are none. -/
theorem readFloat_float (hm : format.IsModerate) (hb : bits < 2 * format.signBit) :
    readFloat format (float format bits).toList = .ok (format.quiet bits) := by
  unfold float BinaryFormat.quiet
  dsimp only
  by_cases hnan : format.infinity < bits % format.signBit
  · rw [if_pos hnan, if_pos hnan]
    exact readFloat_of_readMagnitude rfl (by decide) readMagnitude_nan
  rw [if_neg hnan, if_neg hnan]
  by_cases hinf : bits % format.signBit = format.infinity
  · rw [if_pos hinf]
    refine @readFloat_sign_append format bits "inf" 'i' ['n', 'f'] hb rfl (by decide) ?_
    rw [hinf]
    exact readMagnitude_inf
  rw [if_neg hinf]
  by_cases hzero : bits % format.signBit = 0
  · rw [if_pos hzero]
    refine @readFloat_sign_append format bits "0" '0' [] hb rfl (by decide) ?_
    rw [hzero]
    exact readMagnitude_zero
  rw [if_neg hzero]
  have hpos := Nat.pos_of_ne_zero hzero
  have hholds := Shortest.holdsDecimal_digits hm hpos
  generalize Shortest.digits format (bits % format.signBit) = found at *
  obtain ⟨n, k, d⟩ := found
  -- Any number is written with digits that hold it, and reading rounds them to it again.
  have hread := readMagnitude_positional hm hpos (by omega) hholds
  obtain ⟨whole, fraction, hwhole, hdigits, htext, -⟩ := exists_positional n k d
  obtain ⟨c, rest, rfl⟩ := List.exists_cons_of_ne_nil hwhole
  have hc : c.isDigit = true := hdigits c List.mem_cons_self
  refine readFloat_sign_append hb htext ⟨?_, ?_⟩ hread
  · rintro rfl
    cases hc
  · rintro rfl
    cases hc

/-! ### Values that are no number -/

theorem scaled_le_infinity (format : BinaryFormat) (mantissa : Nat) (exponent : Int) :
    scaled format mantissa exponent ≤ format.infinity := by
  unfold scaled
  dsimp only
  split_ifs
  · exact Nat.zero_le _
  · exact Nat.le_refl _
  · cases exponent with
    | ofNat k => exact Nat.min_le_right _ _
    | negSucc k => exact Nat.min_le_right _ _

/-- A text spells a number, infinity or the one magnitude that is no number. -/
theorem le_infinity_of_readMagnitude {text : List Char}
    (h : readMagnitude format text = some value) :
    value ≤ format.infinity ∨ value = format.quietNaN := by
  unfold readMagnitude at h
  dsimp only at h
  rcases ite_eq_iff.mp h with ⟨-, h⟩ | ⟨-, h⟩
  · exact .inl (Option.some.inj h).ge
  rcases ite_eq_iff.mp h with ⟨-, h⟩ | ⟨-, h⟩
  · exact .inr (Option.some.inj h).symm
  rcases ite_eq_iff.mp h with ⟨-, h⟩ | ⟨-, h⟩
  · cases h
  · obtain ⟨exponent, -, rfl⟩ := Option.map_eq_some_iff.mp h
    exact .inl (scaled_le_infinity _ _ _)

theorem infinity_add_stride (format : BinaryFormat) :
    format.infinity + format.stride = format.signBit := by
  have htop : twoTo format.exponentBits - 1 + 1 = twoTo format.exponentBits :=
    Nat.sub_add_cancel (Nat.two_pow_pos _)
  unfold BinaryFormat.infinity BinaryFormat.signBit
  rw [← Nat.succ_mul, Nat.succ_eq_add_one, htop]

/-- A number is read as a magnitude, with the sign bit or without. -/
theorem exists_readMagnitude_of_readFloat {text : List Char}
    (h : readFloat format text = .ok bits) : ∃ rest value, readMagnitude format rest = some value ∧
      (bits = value ∨ bits = format.signBit + value) := by
  have hsome {found : Option Nat}
      (h : found.elim (.error .invalid) .ok = (.ok bits : Except FloatFault Nat)) :
      found = some bits := by
    cases found with
    | none => cases h
    | some value => exact congrArg some (Except.ok.inj h)
  unfold readFloat at h
  split at h
  · cases h
  · obtain ⟨value, hvalue, rfl⟩ := Option.map_eq_some_iff.mp (hsome h)
    exact ⟨_, value, hvalue, .inr rfl⟩
  · exact ⟨_, bits, hsome h, .inl rfl⟩
  · exact ⟨_, bits, hsome h, .inl rfl⟩

/-- What is read fits into the bits of the format and can be spelled. -/
theorem isSpelled_of_readFloat {text : List Char} (h : readFloat format text = .ok bits) :
    bits < 2 * format.signBit ∧ format.IsSpelled bits := by
  have hsign := infinity_add_stride format
  have hstride := format.stride_pos
  have hquiet : format.quietNaN = format.infinity + format.stride / 2 := rfl
  have hkept (h : bits % format.signBit ≤ format.infinity) : format.quiet bits = bits :=
    if_neg (Nat.not_lt_of_le h)
  obtain ⟨rest, value, hvalue, hbits⟩ := exists_readMagnitude_of_readFloat h
  rcases le_infinity_of_readMagnitude hvalue with hle | rfl
  · have hmod : value % format.signBit = value := Nat.mod_eq_of_lt (by omega)
    rcases hbits with rfl | rfl
    · exact ⟨by omega, .inl (hkept (by rwa [hmod]))⟩
    · exact ⟨by omega, .inl (hkept (by rwa [Nat.add_mod_left, hmod]))⟩
  · rcases hbits with rfl | rfl
    · refine ⟨by omega, .inl ?_⟩
      unfold BinaryFormat.quiet
      split_ifs <;> rfl
    · exact ⟨by omega, .inr rfl⟩

end Decimal

end ClassGraft

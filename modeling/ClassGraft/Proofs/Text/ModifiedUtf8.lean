import ClassGraft.Text.ModifiedUtf8
import Mathlib.Data.List.Basic
import Mathlib.Tactic.SplitIfs

/-!
# Texts that read back from modified UTF-8

A text is read back from its bytes in modified UTF-8 and in ordinary UTF-8 (`decode_encode`,
`decode_ofText`), although ordinary UTF-8 is tried first: a character that takes other bytes in
modified UTF-8 takes none that ordinary UTF-8 has (`decodeFrom_encodeChar_eq_none`).  So bytes spell
one text at most (`Spells.unique`) and are shown as it (`Spells.display_eq`), and the two forms of a
text are one only if all its characters are plain (`encode_eq_ofText_iff`).
-/

/-!
## Texts that read back from UTF-8

The bytes of a character are read as that character and no others
(`Utf8.decodeFrom_utf8EncodeChar`), so a text is read back from its bytes (`Utf8.decode?_ofText`).
There is one lemma for each width that a sequence may have.
-/

namespace ClassGraft.Utf8

variable {found : List Char} {rest : Bytes} {lead second third fourth : UInt8}

/-- No character is half of a surrogate pair. -/
theorem toNat_cases (c : Char) :
    c.toNat < 0xD800 ∨ 0xE000 ≤ c.toNat ∧ c.toNat < 0x110000 := by
  rcases c.valid with h | ⟨h, h'⟩
  · exact .inl h
  · exact .inr ⟨h, h'⟩

/-! ### Bytes that continue a character -/

/-- The byte that continues a character with the last six bits of a number. -/
def tail (n : Nat) : UInt8 := UInt8.ofNat (n % 64 + 128)

theorem toNat_tail (n : Nat) : (tail n).toNat = n % 64 + 128 :=
  UInt8.toNat_ofNat_of_lt' (show n % 64 + 128 < 256 by omega)

theorem isContinuation_tail (n : Nat) : isContinuation (tail n) = true := by
  simp only [isContinuation, Bool.and_eq_true, decide_eq_true_eq, UInt8.le_iff_toNat_le, toNat_tail]
  exact ⟨Nat.le_add_left _ _, show n % 64 + 128 ≤ 191 by omega⟩

theorem payload_tail (n : Nat) : payload (tail n) = n % 64 := by
  rw [payload, toNat_tail]
  omega

theorem isSecond_iff : isSecond lead second = true ↔
    (if lead.toNat = 0xE0 then 0xA0 else if lead.toNat = 0xF0 then 0x90 else 0x80) ≤
        second.toNat ∧
      second.toNat ≤
        if lead.toNat = 0xED then 0x9F else if lead.toNat = 0xF4 then 0x8F else 0xBF := by
  have heq (n : UInt8) : lead = n ↔ lead.toNat = n.toNat := UInt8.toNat_inj.symm
  unfold isSecond secondRange
  simp only [Bool.and_eq_true, decide_eq_true_eq, UInt8.le_iff_toNat_le, heq, UInt8.reduceToNat]
  split_ifs <;> simp_all

/-! ### Sequences by width -/

theorem sequence_one (h : lead.toNat < 0x80) :
    sequence lead rest = .char (Char.ofNat lead.toNat) 1 :=
  if_pos (UInt8.lt_iff_toNat_lt.mpr h)

theorem sequence_two (hl : 0xC2 ≤ lead.toNat) (hu : lead.toNat < 0xE0)
    (hs : isContinuation second = true) : sequence lead (second :: rest) =
      .char (Char.ofNat (lead.toNat % 32 * 64 + payload second)) 2 := by
  unfold sequence
  rw [if_neg, if_neg, if_pos]
  · dsimp only
    rw [if_pos hs]
  all_goals simp only [UInt8.lt_iff_toNat_lt, UInt8.reduceToNat]; omega

theorem sequence_three (hl : 0xE0 ≤ lead.toNat) (hu : lead.toNat < 0xF0)
    (hs : isSecond lead second = true) (ht : isContinuation third = true) :
    sequence lead (second :: third :: rest) =
      .char (Char.ofNat ((lead.toNat % 16 * 64 + payload second) * 64 + payload third)) 3 := by
  unfold sequence
  rw [if_neg, if_neg, if_neg, if_pos]
  · dsimp only
    rw [if_pos hs, if_pos ht]
  all_goals simp only [UInt8.lt_iff_toNat_lt, UInt8.reduceToNat]; omega

/-- Three bytes of which the second may not follow the first. -/
theorem sequence_broken (hl : 0xE0 ≤ lead.toNat) (hu : lead.toNat < 0xF0)
    (hs : isSecond lead second = false) : sequence lead (second :: third :: rest) = .broken 1 := by
  unfold sequence
  rw [if_neg, if_neg, if_neg, if_pos]
  · dsimp only
    rw [if_neg (by simp [hs])]
  all_goals simp only [UInt8.lt_iff_toNat_lt, UInt8.reduceToNat]; omega

theorem sequence_four (hl : 0xF0 ≤ lead.toNat) (hu : lead.toNat < 0xF5)
    (hs : isSecond lead second = true) (ht : isContinuation third = true)
    (hf : isContinuation fourth = true) : sequence lead (second :: third :: fourth :: rest) =
      .char (Char.ofNat (((lead.toNat % 8 * 64 + payload second) * 64 + payload third) * 64 +
        payload fourth)) 4 := by
  unfold sequence
  rw [if_neg, if_neg, if_neg, if_neg, if_pos]
  · dsimp only
    rw [if_pos hs, if_pos ht, if_pos hf]
  all_goals simp only [UInt8.lt_iff_toNat_lt, UInt8.reduceToNat]; omega

/-! ### Texts -/

/-- A character is read from its bytes. -/
theorem decodeFrom_utf8EncodeChar (c : Char) :
    decodeFrom 0 found (String.utf8EncodeChar c ++ rest) = decodeFrom 0 (c :: found) rest := by
  have hvalid := toNat_cases c
  have hsame : c.val.toNat = c.toNat := rfl
  have hbyte {n : Nat} (h : n < 256) : (UInt8.ofNat n).toNat = n := UInt8.toNat_ofNat_of_lt' h
  simp only [String.utf8EncodeChar, hsame]
  split_ifs with hone htwo hthree
  · have hlead := hbyte (n := c.toNat) (by omega)
    rw [List.singleton_append, decodeFrom, sequence_one (by omega), hlead, Char.ofNat_toNat]
  · have hlead := hbyte (n := c.toNat / 64 % 32 + 192) (by omega)
    have hnumber : (c.toNat / 64 % 32 + 192) % 32 * 64 + c.toNat % 64 = c.toNat := by omega
    show decodeFrom 0 found (_ :: tail c.toNat :: rest) = _
    rw [decodeFrom, sequence_two (by omega) (by omega) (isContinuation_tail _), hlead,
      payload_tail, hnumber, Char.ofNat_toNat]
    rfl
  · have hlead := hbyte (n := c.toNat / 4096 % 16 + 224) (by omega)
    have hnumber : ((c.toNat / 4096 % 16 + 224) % 16 * 64 + c.toNat / 64 % 64) * 64 +
        c.toNat % 64 = c.toNat := by omega
    have hsecond : isSecond (UInt8.ofNat (c.toNat / 4096 % 16 + 224))
        (tail (c.toNat / 64)) = true := by
      rw [isSecond_iff, hlead, toNat_tail]
      split_ifs <;> omega
    show decodeFrom 0 found (_ :: tail (c.toNat / 64) :: tail c.toNat :: rest) = _
    rw [decodeFrom, sequence_three (by omega) (by omega) hsecond (isContinuation_tail _), hlead,
      payload_tail, payload_tail, hnumber, Char.ofNat_toNat]
    rfl
  · have hlead := hbyte (n := c.toNat / 262144 % 8 + 240) (by omega)
    have hnumber : (((c.toNat / 262144 % 8 + 240) % 8 * 64 + c.toNat / 4096 % 64) * 64 +
        c.toNat / 64 % 64) * 64 + c.toNat % 64 = c.toNat := by omega
    have hsecond : isSecond (UInt8.ofNat (c.toNat / 262144 % 8 + 240))
        (tail (c.toNat / 4096)) = true := by
      rw [isSecond_iff, hlead, toNat_tail]
      split_ifs <;> omega
    show decodeFrom 0 found
      (_ :: tail (c.toNat / 4096) :: tail (c.toNat / 64) :: tail c.toNat :: rest) = _
    rw [decodeFrom, sequence_four (by omega) (by omega) hsecond (isContinuation_tail _)
      (isContinuation_tail _), hlead, payload_tail, payload_tail, payload_tail, hnumber,
      Char.ofNat_toNat]
    rfl

theorem decodeFrom_flatMap (text : List Char) :
    decodeFrom 0 found (text.flatMap String.utf8EncodeChar) = some (found.reverse ++ text) := by
  induction text generalizing found with
  | nil => simp [decodeFrom]
  | cons c text ih =>
    rw [List.flatMap_cons, decodeFrom_utf8EncodeChar, ih, List.reverse_cons, List.append_assoc,
      List.singleton_append]

/-- A text is read back from its bytes. -/
theorem decode?_ofText (text : String) : decode? (Bytes.ofText text) = some text.toList :=
  decodeFrom_flatMap text.toList

end ClassGraft.Utf8

/-! ## Modified UTF-8 -/

namespace ClassGraft.ModifiedUtf8

variable {found : List Nat} {rest : Bytes} {start : Nat} {c : Char} {text other : String}

/-! ### Plain characters -/

/-- Whether the character takes the same bytes in ordinary and in modified UTF-8. -/
def isPlain (c : Char) : Bool := c.toNat ≠ 0 && c.toNat < 0x10000

/-- Whether all characters of the text take the same bytes in both forms. -/
def IsPlain (text : String) : Prop := ∀ c ∈ text.toList, isPlain c = true

theorem encodeChar_of_isPlain (h : isPlain c = true) : encodeChar c = String.utf8EncodeChar c := by
  simp only [isPlain, Bool.and_eq_true, decide_eq_true_eq] at h
  rw [encodeChar, if_neg h.1, if_pos h.2]

theorem cases_of_not_isPlain (h : isPlain c = false) :
    c.toNat = 0 ∨ c.toNat ≠ 0 ∧ 0x10000 ≤ c.toNat := by
  simp only [isPlain, Bool.and_eq_false_iff, decide_eq_false_iff_not] at h
  omega

theorem highHalf_bounds (c : Char) (h : 0x10000 ≤ c.toNat) :
    0xD800 ≤ highHalf c.toNat ∧ highHalf c.toNat < 0xDC00 := by
  have hvalid := Utf8.toNat_cases c
  unfold highHalf
  omega

theorem lowHalf_bounds (c : Char) : 0xDC00 ≤ lowHalf c.toNat ∧ lowHalf c.toNat < 0xE000 := by
  unfold lowHalf
  omega

/-- Half of a surrogate pair starts like no character of ordinary UTF-8. -/
theorem decodeFrom_encodeUnit {unit : Nat} (hl : 0xD800 ≤ unit) (hu : unit < 0xE000)
    (before : List Char) : Utf8.decodeFrom 0 before (encodeUnit unit ++ rest) = none := by
  have hlead : (UInt8.ofNat (0xE0 + unit / 4096)).toNat = 0xED := by
    rw [UInt8.toNat_ofNat_of_lt' (show 0xE0 + unit / 4096 < 256 by omega)]
    omega
  have hsecond : (UInt8.ofNat (0x80 + unit / 64 % 64)).toNat = 0x80 + unit / 64 % 64 :=
    UInt8.toNat_ofNat_of_lt' (show 0x80 + unit / 64 % 64 < 256 by omega)
  have hbroken : Utf8.isSecond (UInt8.ofNat (0xE0 + unit / 4096))
      (UInt8.ofNat (0x80 + unit / 64 % 64)) = false := by
    rw [Bool.eq_false_iff, Ne, Utf8.isSecond_iff, hlead, hsecond, if_pos rfl]
    omega
  show Utf8.decodeFrom 0 before (_ :: _ :: _ :: rest) = none
  rw [Utf8.decodeFrom, Utf8.sequence_broken (by omega) (by omega) hbroken]

/-- A character that takes other bytes in modified UTF-8 takes none that ordinary UTF-8 has. -/
theorem decodeFrom_encodeChar_eq_none (h : isPlain c = false) (before : List Char) :
    Utf8.decodeFrom 0 before (encodeChar c ++ rest) = none := by
  rcases cases_of_not_isPlain h with hzero | ⟨hzero, hlarge⟩
  · rw [encodeChar, if_pos hzero]
    rfl
  · obtain ⟨hl, hu⟩ := highHalf_bounds c hlarge
    rw [encodeChar, if_neg hzero, if_neg (Nat.not_lt_of_le hlarge), List.append_assoc]
    exact decodeFrom_encodeUnit hl (by omega) before

/-- Modified UTF-8 reads as ordinary UTF-8 only where it is the same. -/
theorem decodeFrom_flatMap (text before : List Char) :
    Utf8.decodeFrom 0 before (text.flatMap encodeChar) =
      if text.all isPlain then some (before.reverse ++ text) else none := by
  induction text generalizing before with
  | nil => simp [Utf8.decodeFrom]
  | cons c text ih =>
    rw [List.flatMap_cons, List.all_cons]
    cases hc : isPlain c with
    | false =>
      rw [decodeFrom_encodeChar_eq_none hc, Bool.false_and]
      rfl
    | true =>
      rw [encodeChar_of_isPlain hc, Utf8.decodeFrom_utf8EncodeChar, ih, Bool.true_and,
        List.reverse_cons, List.append_assoc, List.singleton_append]

/-! ### Numbers -/

/-- The numbers of a code point: its own, or those of its halves. -/
def halves (code : Nat) : List Nat :=
  if code < 0x10000 then [code] else [highHalf code, lowHalf code]

/-- The numbers that are read from a character. -/
def units (c : Char) : List Nat := halves c.toNat

/-- The bytes of a number below 2^16, be it a character or half of one. -/
def encodeNumber (n : Nat) : Bytes :=
  if n = 0 then [0xC0, 0x80]
  else if n < 0x80 then [UInt8.ofNat n]
  else if n < 0x800 then [UInt8.ofNat (0xC0 + n / 64), Utf8.tail n]
  else encodeUnit n

theorem encodeUnit_eq (n : Nat) :
    encodeUnit n = [UInt8.ofNat (0xE0 + n / 4096), Utf8.tail (n / 64), Utf8.tail n] := by
  rw [encodeUnit, Utf8.tail, Utf8.tail, Nat.add_comm 0x80, Nat.add_comm 0x80]

/-- The bytes of a character are those of its numbers. -/
theorem encodeChar_eq (c : Char) : encodeChar c = (units c).flatMap encodeNumber := by
  have hsame : c.val.toNat = c.toNat := rfl
  unfold encodeChar units halves
  split_ifs with hzero hsmall hsmall
  · rw [hzero]
    rfl
  · omega
  · rw [List.flatMap_singleton, encodeNumber, if_neg hzero]
    simp only [String.utf8EncodeChar, hsame]
    rcases Nat.lt_or_ge c.toNat 0x80 with hone | hone
    · rw [if_pos (Nat.le_of_lt_succ hone), if_pos hone]
    · rw [if_neg (Nat.not_le_of_lt hone), if_neg (Nat.not_lt_of_le hone)]
      rcases Nat.lt_or_ge c.toNat 0x800 with htwo | htwo
      · rw [if_pos (Nat.le_of_lt_succ htwo), if_pos htwo,
          Nat.mod_eq_of_lt (show c.toNat / 64 < 32 by omega), Nat.add_comm]
        rfl
      · rw [if_neg (Nat.not_le_of_lt htwo), if_neg (Nat.not_lt_of_le htwo),
          if_pos (Nat.le_of_lt_succ hsmall), encodeUnit_eq,
          Nat.mod_eq_of_lt (show c.toNat / 4096 < 16 by omega), Nat.add_comm]
        rfl
  · have hhigh := highHalf_bounds c (by omega)
    have hlow := lowHalf_bounds c
    have hhalf {n : Nat} (h : 0x800 ≤ n) : encodeNumber n = encodeUnit n := by
      rw [encodeNumber, if_neg (by omega), if_neg (by omega), if_neg (by omega)]
    rw [List.flatMap_cons, List.flatMap_singleton, hhalf (by omega), hhalf (by omega)]

theorem encode_eq (text : String) :
    encode text = (text.toList.flatMap units).flatMap encodeNumber := by
  rw [encode, List.flatMap_assoc]
  exact List.flatMap_congr fun c _ => encodeChar_eq c

theorem lt_of_mem_units {n : Nat} (h : n ∈ units c) : n < 0x10000 := by
  unfold units halves at h
  split_ifs at h with hsmall
  · rwa [List.mem_singleton.mp h]
  · have hhigh := highHalf_bounds c (by omega)
    have hlow := lowHalf_bounds c
    rcases List.mem_pair.mp h with h | h
    · rw [h]
      omega
    · rw [h]
      omega

theorem unit_one {lead : UInt8} (hz : lead.toNat ≠ 0) (hu : lead.toNat < 0x80) :
    unit lead rest = .ok (lead.toNat, 1) := by
  have hne : lead ≠ 0 := by
    rintro rfl
    exact hz rfl
  unfold unit
  rw [if_neg hne, if_pos (UInt8.lt_iff_toNat_lt.mpr hu)]

theorem unit_two {lead second : UInt8} (hl : 0xC2 ≤ lead.toNat) (hu : lead.toNat < 0xE0)
    (hs : Utf8.isContinuation second = true) : unit lead (second :: rest) =
      .ok (lead.toNat % 32 * 64 + Utf8.payload second, 2) := by
  have hne (n : UInt8) (h : lead.toNat ≠ n.toNat) : lead ≠ n := fun heq => h (heq ▸ rfl)
  unfold unit
  rw [if_neg (hne 0 (by simp; omega)), if_neg]
  · dsimp only
    rw [if_neg (hne 0xC0 (by simp; omega)), if_neg (by simp [hs]), if_neg, if_pos]
    all_goals simp only [UInt8.lt_iff_toNat_lt, UInt8.reduceToNat]; omega
  all_goals simp only [UInt8.lt_iff_toNat_lt, UInt8.reduceToNat]; omega

theorem unit_three {lead second third : UInt8} (hl : 0xE0 ≤ lead.toNat) (hu : lead.toNat < 0xF0)
    (hs : Utf8.isContinuation second = true) (ht : Utf8.isContinuation third = true)
    (he : lead.toNat = 0xE0 → 0xA0 ≤ second.toNat) : unit lead (second :: third :: rest) =
      .ok ((lead.toNat % 16 * 64 + Utf8.payload second) * 64 + Utf8.payload third, 3) := by
  have hne (n : UInt8) (h : lead.toNat ≠ n.toNat) : lead ≠ n := fun heq => h (heq ▸ rfl)
  unfold unit
  rw [if_neg (hne 0 (by simp; omega)), if_neg]
  · dsimp only
    rw [if_neg (hne 0xC0 (by simp; omega)), if_neg (by simp [hs]), if_neg, if_neg, if_pos]
    · rw [if_neg (by simp [ht]), if_neg]
      simp only [Bool.and_eq_true, decide_eq_true_eq, UInt8.lt_iff_toNat_lt, not_and]
      rintro rfl
      exact Nat.not_lt_of_le (he rfl)
    all_goals simp only [UInt8.lt_iff_toNat_lt, UInt8.reduceToNat]; omega
  all_goals simp only [UInt8.lt_iff_toNat_lt, UInt8.reduceToNat]; omega

theorem unitsFrom_skip (skipped : Bytes) :
    unitsFrom start skipped.length found (skipped ++ rest) =
      unitsFrom (start + skipped.length) 0 found rest := by
  induction skipped generalizing start with
  | nil => rfl
  | cons byte skipped ih =>
    rw [List.length_cons, List.cons_append, unitsFrom, ih]
    congr 1
    omega

/-- A sequence that is read as one number. -/
theorem unitsFrom_append {lead : UInt8} {others : Bytes} {code : Nat}
    (h : unit lead (others ++ rest) = .ok (code, others.length + 1)) :
    unitsFrom start 0 found (lead :: others ++ rest) =
      unitsFrom (start + (lead :: others).length) 0 (code :: found) rest := by
  rw [List.cons_append, unitsFrom, h]
  show unitsFrom (start + 1) others.length (code :: found) (others ++ rest) = _
  rw [unitsFrom_skip, List.length_cons]
  congr 1
  omega

theorem unitsFrom_encodeUnit {code : Nat} (hl : 0x800 ≤ code) (hu : code < 0x10000) :
    unitsFrom start 0 found (encodeUnit code ++ rest) =
      unitsFrom (start + 3) 0 (code :: found) rest := by
  have hlead : (UInt8.ofNat (0xE0 + code / 4096)).toNat = 0xE0 + code / 4096 :=
    UInt8.toNat_ofNat_of_lt' (show 0xE0 + code / 4096 < 256 by omega)
  have htail (n : Nat) : UInt8.ofNat (0x80 + n % 64) = Utf8.tail n := by
    rw [Utf8.tail, Nat.add_comm]
  unfold encodeUnit
  rw [htail, htail]
  refine unitsFrom_append ?_
  show unit _ (Utf8.tail _ :: Utf8.tail _ :: rest) = _
  rw [unit_three (by omega) (by omega) (Utf8.isContinuation_tail _) (Utf8.isContinuation_tail _),
    hlead, Utf8.payload_tail, Utf8.payload_tail]
  · congr 2
    omega
  · rw [hlead, Utf8.toNat_tail]
    omega

/-- A number is read from its bytes. -/
theorem unitsFrom_encodeNumber {code : Nat} (h : code < 0x10000) :
    unitsFrom start 0 found (encodeNumber code ++ rest) =
      unitsFrom (start + (encodeNumber code).length) 0 (code :: found) rest := by
  have hbyte {n : Nat} (h : n < 256) : (UInt8.ofNat n).toNat = n := UInt8.toNat_ofNat_of_lt' h
  -- Zero has two bytes; all others are read by their widths.
  unfold encodeNumber
  split_ifs with hzero hone htwo
  · rw [hzero]
    rfl
  · have hlead := hbyte (n := code) (by omega)
    refine unitsFrom_append ?_
    rw [unit_one (by omega) (by omega), hlead]
    rfl
  · have hlead := hbyte (n := 0xC0 + code / 64) (by omega)
    refine unitsFrom_append ?_
    show unit _ (Utf8.tail _ :: rest) = _
    rw [unit_two (by omega) (by omega) (Utf8.isContinuation_tail _), hlead, Utf8.payload_tail]
    congr 2
    omega
  · exact unitsFrom_encodeUnit (by omega) h

theorem unitsFrom_flatMap (codes : List Nat) (h : ∀ code ∈ codes, code < 0x10000) :
    unitsFrom start 0 found (codes.flatMap encodeNumber) = .ok (found.reverse ++ codes) := by
  induction codes generalizing start found with
  | nil => simp [unitsFrom]
  | cons code codes ih =>
    obtain ⟨hcode, hcodes⟩ := List.forall_mem_cons.mp h
    rw [List.flatMap_cons, unitsFrom_encodeNumber hcode, ih hcodes, List.reverse_cons,
      List.append_assoc, List.singleton_append]

theorem isHigh_iff {code : Nat} : isHigh code = true ↔ 0xD800 ≤ code ∧ code < 0xDC00 := by
  rw [isHigh, Bool.and_eq_true, decide_eq_true_eq, decide_eq_true_eq]

theorem isLow_iff {code : Nat} : isLow code = true ↔ 0xDC00 ≤ code ∧ code < 0xE000 := by
  rw [isLow, Bool.and_eq_true, decide_eq_true_eq, decide_eq_true_eq]

/-- The numbers of a character are joined to its own, whatever follows. -/
theorem joinFrom_units (c : Char) (others : List Nat) :
    joinFrom found (units c ++ others) = joinFrom (c.toNat :: found) others := by
  unfold units halves
  split_ifs with hsmall
  · have hhigh : isHigh c.toNat = false := by
      have hvalid := Utf8.toNat_cases c
      rw [Bool.eq_false_iff, Ne, isHigh_iff]
      omega
    cases others with
    | nil => rfl
    | cons low others => rw [List.singleton_append, joinFrom, if_neg (by simp [hhigh])]
  · have hhigh := isHigh_iff.mpr (highHalf_bounds c (by omega))
    have hlow := isLow_iff.mpr (lowHalf_bounds c)
    have hcode : 0x10000 + (highHalf c.toNat - 0xD800) * 1024 + (lowHalf c.toNat - 0xDC00) =
        c.toNat := by
      unfold highHalf lowHalf
      omega
    rw [List.cons_append, List.singleton_append, joinFrom, if_pos (by rw [hhigh, hlow]; rfl), hcode]

theorem joinFrom_flatMap (text : List Char) :
    joinFrom found (text.flatMap units) = found.reverse ++ text.map Char.toNat := by
  induction text generalizing found with
  | nil => simp [joinFrom]
  | cons c text ih =>
    rw [List.flatMap_cons, joinFrom_units, ih, List.reverse_cons, List.append_assoc,
      List.map_cons, List.singleton_append]

/-! ### Texts -/

/-- Whether the bytes spell the text, in ordinary or in modified UTF-8. -/
def Spells (bytes : Bytes) (text : String) : Prop :=
  decode bytes = .ok (text.toList.map Char.toNat)

/-- Bytes spell one text at most. -/
theorem Spells.unique {bytes : Bytes} (h : Spells bytes text) (h' : Spells bytes other) :
    text = other := by
  have hinjective : Function.Injective Char.toNat := fun _ _ => Char.toNat_inj.mp
  exact String.toList_inj.mp
    (List.map_injective_iff.mpr hinjective (Except.ok.inj (h.symm.trans h')))

/-- A text is read back from modified UTF-8. -/
theorem decode_encode (text : String) : Spells (encode text) text := by
  have hunits : unitsFrom 0 0 [] (encode text) = .ok (text.toList.flatMap units) := by
    rw [encode_eq, unitsFrom_flatMap]
    · rfl
    · intro code hcode
      obtain ⟨c, -, hunit⟩ := List.mem_flatMap.mp hcode
      exact lt_of_mem_units hunit
  unfold Spells decode
  rw [show Utf8.decode? (encode text) = _ from decodeFrom_flatMap text.toList []]
  split_ifs with hplain
  · rfl
  · show (unitsFrom 0 0 [] _).map (joinFrom []) = _
    rw [hunits]
    exact congrArg Except.ok (joinFrom_flatMap text.toList)

/-- A text is read back from ordinary UTF-8. -/
theorem decode_ofText (text : String) : Spells (Bytes.ofText text) text := by
  unfold Spells decode
  rw [Utf8.decode?_ofText]

/-- The two forms of a text are one if all its characters are plain, and only then. -/
theorem encode_eq_ofText_iff : encode text = Bytes.ofText text ↔ IsPlain text := by
  constructor
  · intro h
    have hread := decodeFrom_flatMap text.toList []
    rw [show text.toList.flatMap encodeChar = Bytes.ofText text from h] at hread
    have hsome := (Utf8.decode?_ofText text).symm.trans hread
    split_ifs at hsome with hplain
    exact List.all_eq_true.mp hplain
  · intro h
    unfold encode Bytes.ofText
    exact List.flatMap_congr fun c hc => encodeChar_of_isPlain (h c hc)

/-- What is written in modified UTF-8 is taken for ordinary UTF-8 only where the two forms are
one. -/
theorem isSome_decode?_encode :
    (Utf8.decode? (encode text)).isSome = true ↔ encode text = Bytes.ofText text := by
  have hread : Utf8.decode? (encode text) =
      if text.toList.all isPlain then some text.toList else none :=
    decodeFrom_flatMap text.toList []
  rw [encode_eq_ofText_iff, hread, IsPlain, ← List.all_eq_true]
  split_ifs with hplain <;> simp [hplain]

/-- Texts that are written alike in modified UTF-8 are one. -/
theorem encode_inj : encode text = encode other ↔ text = other :=
  ⟨fun h => (decode_encode text).unique (h ▸ decode_encode other), congrArg encode⟩

/-- The form of one text in ordinary UTF-8 is that of another in modified UTF-8 only if they are one
text. -/
theorem ofText_eq_encode_iff : Bytes.ofText text = encode other ↔ text = other ∧ IsPlain other := by
  constructor
  · intro h
    have hsame : text = other := (decode_ofText text).unique (h ▸ decode_encode other)
    exact ⟨hsame, encode_eq_ofText_iff.mp (hsame ▸ h).symm⟩
  · rintro ⟨rfl, hplain⟩
    exact (encode_eq_ofText_iff.mpr hplain).symm

/-- A text is that of its characters, none of which is half of a pair. -/
theorem textOf?_map_toNat (text : String) : textOf? (text.toList.map Char.toNat) = some text := by
  have hall : (text.toList.map Char.toNat).all isCharacter = true := by
    rw [List.all_map, List.all_eq_true]
    intro c _
    have hvalid := Utf8.toNat_cases c
    rw [Function.comp_apply, isCharacter, Bool.or_eq_true, decide_eq_true_eq, decide_eq_true_eq]
    omega
  have hback : (text.toList.map Char.toNat).map Char.ofNat = text.toList := by
    rw [List.map_map]
    exact (List.map_congr_left fun c _ => Char.ofNat_toNat c).trans (List.map_id _)
  rw [textOf?, if_pos hall, hback, String.ofList_toList]

/-- Bytes that spell a text are shown as it. -/
theorem Spells.display_eq {bytes : Bytes} (h : Spells bytes text) : display bytes = text := by
  have htext : (decode bytes).toOption.bind textOf? = some text := by
    rw [show decode bytes = _ from h]
    exact textOf?_map_toNat text
  unfold display
  rw [htext]

end ClassGraft.ModifiedUtf8

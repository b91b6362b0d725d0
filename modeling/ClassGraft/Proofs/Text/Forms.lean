import ClassGraft.Proofs.Outcome
import ClassGraft.Proofs.Text.ModifiedUtf8
import Mathlib.Data.List.Chain

/-!
# The forms of a text

Reading undoes writing: bytes that are read as the characters of a text are its bytes in ordinary
UTF-8, or those in modified UTF-8 (`ModifiedUtf8.spells_iff`).  So a text has these two forms and no
others, and whether bytes spell it is decided by comparing them with both.

A text is restored from the form in which it is written, which is never taken for the other one,
by every library that keeps to the format of class files
(`ModifiedUtf8.Library.rereads_encode`).  What is asked of it (`ModifiedUtf8.Library.IsDocumented`)
says how numbers are written and read, one by one; that the halves of a pair are told from the
characters next to them, and the two forms of a text from each other, follows.
-/

/-!
## Ordinary UTF-8

Only the shortest form of a character is read, so a sequence of any width is the bytes of the
character that it is read as (`Utf8.exists_append_of_sequence`).
-/

namespace ClassGraft.Utf8

variable {found text : List Char} {rest : Bytes} {lead second third fourth : UInt8} {n : Nat}

theorem toNat_of_isContinuation (h : isContinuation second = true) :
    0x80 ≤ second.toNat ∧ second.toNat ≤ 0xBF := by
  rwa [isContinuation, Bool.and_eq_true, decide_eq_true_eq, decide_eq_true_eq,
    UInt8.le_iff_toNat_le, UInt8.le_iff_toNat_le] at h

theorem payload_of_isContinuation (h : isContinuation second = true) :
    payload second = second.toNat - 0x80 := by
  have hrange := toNat_of_isContinuation h
  unfold payload
  omega

/-- A byte that continues a character is known from the bits that it carries. -/
theorem tail_eq (hs : isContinuation second = true) (hn : n % 64 = payload second) :
    tail n = second := by
  have hrange := toNat_of_isContinuation hs
  rw [← UInt8.toNat_inj, toNat_tail, hn, payload]
  omega

theorem isContinuation_of_isSecond (h : isSecond lead second = true) :
    isContinuation second = true := by
  obtain ⟨hl, hu⟩ := isSecond_iff.mp h
  rw [isContinuation, Bool.and_eq_true, decide_eq_true_eq, decide_eq_true_eq,
    UInt8.le_iff_toNat_le, UInt8.le_iff_toNat_le]
  refine ⟨?_, ?_⟩
  · refine Nat.le_trans ?_ hl
    split_ifs <;> decide
  · refine Nat.le_trans hu ?_
    split_ifs <;> decide

/-! ### The bytes of a character by width -/

theorem toNat_ofNat (h : n.isValidChar) : (Char.ofNat n).val.toNat = n := by
  rw [Char.ofNat, dif_pos h]
  rfl

theorem utf8EncodeChar_one (h : lead.toNat < 0x80) :
    String.utf8EncodeChar (Char.ofNat lead.toNat) = [lead] := by
  simp only [String.utf8EncodeChar, toNat_ofNat (n := lead.toNat) (.inl (by omega))]
  rw [if_pos (by omega), UInt8.ofNat_toNat]

theorem utf8EncodeChar_two (hl : 0xC2 ≤ lead.toNat) (hu : lead.toNat < 0xE0)
    (hs : isContinuation second = true) :
    String.utf8EncodeChar (Char.ofNat (lead.toNat % 32 * 64 + payload second)) =
      [lead, second] := by
  have hsix : payload second < 64 := Nat.mod_lt _ (by decide)
  generalize hn : lead.toNat % 32 * 64 + payload second = n
  simp only [String.utf8EncodeChar, toNat_ofNat (n := n) (.inl (by omega))]
  rw [if_neg (by omega), if_pos (by omega), show UInt8.ofNat (n % 64 + 128) = tail n from rfl,
    tail_eq hs (by omega), show n / 64 % 32 + 192 = lead.toNat by omega, UInt8.ofNat_toNat]

theorem utf8EncodeChar_three (hl : 0xE0 ≤ lead.toNat) (hu : lead.toNat < 0xF0)
    (hs : isSecond lead second = true) (ht : isContinuation third = true) :
    String.utf8EncodeChar (Char.ofNat
      ((lead.toNat % 16 * 64 + payload second) * 64 + payload third)) = [lead, second, third] := by
  have hsecond := isSecond_iff.mp hs
  have hcontinues := isContinuation_of_isSecond hs
  have hrange := toNat_of_isContinuation hcontinues
  have hsix := payload_of_isContinuation hcontinues
  have hsix' : payload third < 64 := Nat.mod_lt _ (by decide)
  -- neither a shorter form nor a surrogate
  have hvalid : 0x800 ≤ (lead.toNat % 16 * 64 + payload second) * 64 + payload third ∧
      Nat.isValidChar ((lead.toNat % 16 * 64 + payload second) * 64 + payload third) := by
    unfold Nat.isValidChar
    split_ifs at hsecond <;> omega
  generalize hn : (lead.toNat % 16 * 64 + payload second) * 64 + payload third = n at hvalid
  simp only [String.utf8EncodeChar, toNat_ofNat hvalid.2]
  rw [if_neg (by omega), if_neg (by omega), if_pos (by omega),
    show UInt8.ofNat (n / 64 % 64 + 128) = tail (n / 64) from rfl,
    show UInt8.ofNat (n % 64 + 128) = tail n from rfl, tail_eq hcontinues (by omega),
    tail_eq ht (by omega), show n / 4096 % 16 + 224 = lead.toNat by omega, UInt8.ofNat_toNat]

theorem utf8EncodeChar_four (hl : 0xF0 ≤ lead.toNat) (hu : lead.toNat < 0xF5)
    (hs : isSecond lead second = true) (ht : isContinuation third = true)
    (hf : isContinuation fourth = true) :
    String.utf8EncodeChar (Char.ofNat (((lead.toNat % 8 * 64 + payload second) * 64 +
      payload third) * 64 + payload fourth)) = [lead, second, third, fourth] := by
  have hsecond := isSecond_iff.mp hs
  have hcontinues := isContinuation_of_isSecond hs
  have hrange := toNat_of_isContinuation hcontinues
  have hsix := payload_of_isContinuation hcontinues
  have hsix' : payload third < 64 := Nat.mod_lt _ (by decide)
  have hsix'' : payload fourth < 64 := Nat.mod_lt _ (by decide)
  generalize hn : ((lead.toNat % 8 * 64 + payload second) * 64 + payload third) * 64 +
    payload fourth = n
  -- neither a shorter form nor beyond the last code point
  have hvalid : 0x10000 ≤ n ∧ n < 0x110000 := by
    split_ifs at hsecond <;> omega
  simp only [String.utf8EncodeChar, toNat_ofNat (n := n) (.inr (by omega))]
  rw [if_neg (by omega), if_neg (by omega), if_neg (by omega),
    show UInt8.ofNat (n / 4096 % 64 + 128) = tail (n / 4096) from rfl,
    show UInt8.ofNat (n / 64 % 64 + 128) = tail (n / 64) from rfl,
    show UInt8.ofNat (n % 64 + 128) = tail n from rfl, tail_eq hcontinues (by omega),
    tail_eq ht (by omega), tail_eq hf (by omega),
    show n / 262144 % 8 + 240 = lead.toNat by omega, UInt8.ofNat_toNat]

/-! ### Texts -/

/-- A sequence that is a character is its bytes. -/
theorem exists_append_of_sequence {c : Char} {width : Nat}
    (h : sequence lead rest = .char c width) : ∃ others remaining,
      rest = others ++ remaining ∧ width = others.length + 1 ∧
      String.utf8EncodeChar c = lead :: others := by
  unfold sequence at h
  -- The lead says how many bytes follow; with fewer left the sequence is none.
  split_ifs at h with hone hnone htwo hthree hfour
  all_goals simp only [UInt8.lt_iff_toNat_lt, UInt8.reduceToNat] at *
  · obtain ⟨rfl, rfl⟩ := Sequence.char.inj h
    exact ⟨[], rest, rfl, rfl, utf8EncodeChar_one hone⟩
  · rcases rest with _ | ⟨second, rest⟩
    · cases h
    · dsimp only at h
      split_ifs at h with hs
      obtain ⟨rfl, rfl⟩ := Sequence.char.inj h
      exact ⟨[second], rest, rfl, rfl, utf8EncodeChar_two (by omega) htwo hs⟩
  · rcases rest with _ | ⟨second, _ | ⟨third, rest⟩⟩
    · cases h
    · dsimp only at h
      split_ifs at h
    · dsimp only at h
      split_ifs at h with hs ht
      obtain ⟨rfl, rfl⟩ := Sequence.char.inj h
      exact ⟨[second, third], rest, rfl, rfl, utf8EncodeChar_three (by omega) hthree hs ht⟩
  · rcases rest with _ | ⟨second, _ | ⟨third, _ | ⟨fourth, rest⟩⟩⟩
    · cases h
    · dsimp only at h
      split_ifs at h
    · dsimp only at h
      split_ifs at h
    · dsimp only at h
      split_ifs at h with hs ht hf
      obtain ⟨rfl, rfl⟩ := Sequence.char.inj h
      exact ⟨[second, third, fourth], rest, rfl, rfl,
        utf8EncodeChar_four (by omega) hfour hs ht hf⟩

/-- What is read is what the bytes that are left were written from. -/
theorem exists_flatMap_of_decodeFrom (skip : Nat) (found : List Char) (bytes : Bytes)
    (h : decodeFrom skip found bytes = some text) : ∃ others,
      text = found.reverse ++ others ∧ bytes.drop skip = others.flatMap String.utf8EncodeChar := by
  induction skip, found, bytes using decodeFrom.induct with
  | case1 skip found =>
    obtain rfl := Option.some.inj h
    exact ⟨[], (List.append_nil _).symm, List.drop_nil⟩
  | case2 skip found byte rest ih => exact ih h
  | case3 found lead rest c width hsequence ih =>
    rw [decodeFrom, hsequence] at h
    obtain ⟨others, rfl, hrest⟩ := ih h
    obtain ⟨more, remaining, rfl, rfl, hbytes⟩ := exists_append_of_sequence hsequence
    rw [Nat.add_sub_cancel, List.drop_left] at hrest
    refine ⟨c :: others, by simp, ?_⟩
    rw [List.flatMap_cons, hbytes, hrest, List.drop_zero, List.cons_append]
  | case4 found lead rest width hsequence =>
    rw [decodeFrom, hsequence] at h
    cases h

theorem decode?_eq_some_iff {bytes : Bytes} {text : String} :
    decode? bytes = some text.toList ↔ bytes = Bytes.ofText text := by
  constructor
  · intro h
    obtain ⟨others, hothers, hbytes⟩ := exists_flatMap_of_decodeFrom 0 [] bytes h
    rw [List.drop_zero] at hbytes
    rw [hbytes, Bytes.ofText, hothers]
    rfl
  · rintro rfl
    exact decode?_ofText text

end ClassGraft.Utf8

/-! ## Modified UTF-8 -/

namespace ClassGraft.ModifiedUtf8

variable {codes : List Nat} {rest : Bytes} {lead second third : UInt8} {text : String}

/-! ### Numbers -/

theorem encodeNumber_one (hz : lead.toNat ≠ 0) (hu : lead.toNat < 0x80) :
    encodeNumber lead.toNat = [lead] := by
  rw [encodeNumber, if_neg hz, if_pos hu, UInt8.ofNat_toNat]

theorem encodeNumber_two (hl : 0xC2 ≤ lead.toNat) (hu : lead.toNat < 0xE0)
    (hs : Utf8.isContinuation second = true) :
    encodeNumber (lead.toNat % 32 * 64 + Utf8.payload second) = [lead, second] := by
  have hsix : Utf8.payload second < 64 := Nat.mod_lt _ (by decide)
  generalize hn : lead.toNat % 32 * 64 + Utf8.payload second = n
  rw [encodeNumber, if_neg (by omega), if_neg (by omega), if_pos (by omega),
    Utf8.tail_eq hs (by omega), show 0xC0 + n / 64 = lead.toNat by omega, UInt8.ofNat_toNat]

theorem encodeNumber_three (hl : 0xE0 ≤ lead.toNat) (hu : lead.toNat < 0xF0)
    (hs : Utf8.isContinuation second = true) (ht : Utf8.isContinuation third = true)
    (he : lead.toNat = 0xE0 → 0xA0 ≤ second.toNat) :
    encodeNumber ((lead.toNat % 16 * 64 + Utf8.payload second) * 64 + Utf8.payload third) =
      [lead, second, third] := by
  have hrange := Utf8.toNat_of_isContinuation hs
  have hsix : Utf8.payload second = second.toNat - 0x80 := by
    unfold Utf8.payload
    omega
  have hsix' : Utf8.payload third < 64 := Nat.mod_lt _ (by decide)
  generalize hn : (lead.toNat % 16 * 64 + Utf8.payload second) * 64 + Utf8.payload third = n
  rw [encodeNumber, if_neg (by omega), if_neg (by omega), if_neg (by omega), encodeUnit_eq,
    Utf8.tail_eq hs (by omega), Utf8.tail_eq ht (by omega),
    show 0xE0 + n / 4096 = lead.toNat by omega, UInt8.ofNat_toNat]

/-- A sequence that is a number is its bytes. -/
theorem exists_append_of_unit {code width : Nat} (h : unit lead rest = .ok (code, width)) :
    ∃ others remaining, rest = others ++ remaining ∧ width = others.length + 1 ∧
      encodeNumber code = lead :: others ∧ code < 0x10000 := by
  -- One case for each width, as before; zero alone has two bytes where one would do.
  have hne (n : UInt8) (hn : lead ≠ n) : lead.toNat ≠ n.toNat := mt UInt8.toNat_inj.mp hn
  unfold unit at h
  split at h
  · cases h
  rename_i hzero
  split at h
  · rename_i hone
    have hone : lead.toNat < 0x80 := UInt8.lt_iff_toNat_lt.mp hone
    obtain ⟨rfl, rfl⟩ := Prod.mk.inj (Except.ok.inj h)
    exact ⟨[], rest, rfl, rfl, encodeNumber_one (hne 0 hzero) hone, by omega⟩
  rcases rest with _ | ⟨second, rest⟩
  · cases h
  have hsix : Utf8.payload second < 64 := Nat.mod_lt _ (by decide)
  dsimp only at h
  split at h
  · rename_i hnul
    split_ifs at h with hend
    obtain ⟨rfl, rfl⟩ := Prod.mk.inj (Except.ok.inj h)
    exact ⟨[second], rest, rfl, rfl, by rw [hnul, hend]; rfl, by decide⟩
  split at h
  · cases h
  rename_i hs
  rw [Bool.not_eq_true', Bool.not_eq_false] at hs
  split at h
  · cases h
  rename_i hfew
  have hfew : 0xC2 ≤ lead.toNat := UInt8.le_iff_toNat_le.mp (UInt8.not_lt.mp hfew)
  split at h
  · rename_i htwo
    have htwo : lead.toNat < 0xE0 := UInt8.lt_iff_toNat_lt.mp htwo
    obtain ⟨rfl, rfl⟩ := Prod.mk.inj (Except.ok.inj h)
    exact ⟨[second], rest, rfl, rfl, encodeNumber_two hfew htwo hs, by omega⟩
  rename_i htwo
  have htwo : 0xE0 ≤ lead.toNat := UInt8.le_iff_toNat_le.mp (UInt8.not_lt.mp htwo)
  split at h
  · rename_i hthree
    have hthree : lead.toNat < 0xF0 := UInt8.lt_iff_toNat_lt.mp hthree
    rcases rest with _ | ⟨third, rest⟩
    · cases h
    have hsix' : Utf8.payload third < 64 := Nat.mod_lt _ (by decide)
    dsimp only at h
    split_ifs at h with ht hshort
    rw [Bool.not_eq_true', Bool.not_eq_false] at ht
    have he (hlead : lead.toNat = 0xE0) : 0xA0 ≤ second.toNat := by
      refine Nat.le_of_not_lt fun hlt => hshort ?_
      rw [Bool.and_eq_true, decide_eq_true_eq, decide_eq_true_eq, UInt8.lt_iff_toNat_lt]
      exact ⟨UInt8.toNat_inj.mp hlead, hlt⟩
    obtain ⟨rfl, rfl⟩ := Prod.mk.inj (Except.ok.inj h)
    exact ⟨[second, third], rest, rfl, rfl,
      encodeNumber_three htwo hthree hs ht he, by omega⟩
  · cases h

/-- What is read is what the bytes that are left were written from. -/
theorem exists_flatMap_of_unitsFrom (start skip : Nat) (found : List Nat) (bytes : Bytes)
    (h : unitsFrom start skip found bytes = .ok codes) : ∃ others,
      codes = found.reverse ++ others ∧ bytes.drop skip = others.flatMap encodeNumber ∧
      ∀ code ∈ others, code < 0x10000 := by
  induction start, skip, found, bytes using unitsFrom.induct with
  | case1 start skip found =>
    obtain rfl := Except.ok.inj h
    exact ⟨[], (List.append_nil _).symm, List.drop_nil, nofun⟩
  | case2 start skip found byte rest ih => exact ih h
  | case3 start found lead rest code width hunit ih =>
    rw [unitsFrom, hunit] at h
    obtain ⟨others, rfl, hrest, hothers⟩ := ih h
    obtain ⟨more, remaining, rfl, rfl, hbytes, hcode⟩ := exists_append_of_unit hunit
    rw [Nat.add_sub_cancel, List.drop_left] at hrest
    refine ⟨code :: others, by simp, ?_, List.forall_mem_cons.mpr ⟨hcode, hothers⟩⟩
    rw [List.flatMap_cons, hbytes, hrest, List.drop_zero, List.cons_append]
  | case4 start found lead rest length hunit =>
    rw [unitsFrom, hunit] at h
    cases h

/-! ### Halves -/

/-- Whether no first half of a surrogate pair stands before a second one, as the two are one code
point. -/
def IsJoined (codes : List Nat) : Prop :=
  codes.IsChain fun first second => ¬(isHigh first = true ∧ isLow second = true)

theorem halves_of_lt {code : Nat} (h : code < 0x10000) : halves code = [code] := if_pos h

theorem halves_of_le {code : Nat} (h : 0x10000 ≤ code) :
    halves code = [highHalf code, lowHalf code] :=
  if_neg (Nat.not_lt_of_le h)

theorem isHigh_highHalf {code : Nat} (h : 0x10000 ≤ code) (hu : code < 0x110000) :
    isHigh (highHalf code) = true := by
  rw [isHigh_iff, highHalf]
  omega

theorem isLow_lowHalf (code : Nat) : isLow (lowHalf code) = true := by
  rw [isLow_iff, lowHalf]
  omega

/-- A number that stands before the same as a pair is not followed by its second half. -/
theorem not_isJoined_of_highHalf {code : Nat} {rest others : List Nat} (h : 0x10000 ≤ code)
    (hu : code < 0x110000) (hv : ∀ other ∈ rest, other < 0x110000)
    (hr : rest.flatMap halves = lowHalf code :: others) : ¬IsJoined (highHalf code :: rest) := by
  intro hjoined
  cases rest with
  | nil => cases hr
  | cons second rest =>
    have hne := (List.isChain_cons_cons.mp hjoined).1
    refine hne ⟨isHigh_highHalf h hu, ?_⟩
    have hlow := isLow_iff.mp (isLow_lowHalf code)
    rw [List.flatMap_cons] at hr
    rcases Nat.lt_or_ge second 0x10000 with hsmall | hlarge
    · rw [halves_of_lt hsmall] at hr
      rw [(List.cons.inj hr).1]
      exact isLow_lowHalf code
    · -- a first half is no second one
      rw [halves_of_le hlarge] at hr
      have hhigh := isHigh_iff.mp (isHigh_highHalf hlarge (hv second List.mem_cons_self))
      have hsame : highHalf second = lowHalf code := (List.cons.inj hr).1
      omega

/-- Code points are known from their numbers, if all pairs are joined. -/
theorem eq_of_flatMap_halves (codes others : List Nat) (hj : IsJoined codes) (ho : IsJoined others)
    (hc : ∀ code ∈ codes, code < 0x110000) (hu : ∀ other ∈ others, other < 0x110000)
    (h : codes.flatMap halves = others.flatMap halves) : codes = others := by
  have hne (code : Nat) : halves code ≠ [] := by
    unfold halves
    split_ifs <;> exact List.cons_ne_nil _ _
  induction codes generalizing others with
  | nil =>
    cases others with
    | nil => rfl
    | cons other others =>
      rw [List.flatMap_cons] at h
      exact absurd (List.append_eq_nil_iff.mp h.symm).1 (hne other)
  | cons code codes ih =>
    cases others with
    | nil =>
      rw [List.flatMap_cons] at h
      exact absurd (List.append_eq_nil_iff.mp h).1 (hne code)
    | cons other others =>
      have hcode := hc code List.mem_cons_self
      have hother := hu other List.mem_cons_self
      have hcodes (number : Nat) (hm : number ∈ codes) := hc number (List.mem_cons_of_mem _ hm)
      have hothers (number : Nat) (hm : number ∈ others) := hu number (List.mem_cons_of_mem _ hm)
      have hnext := ih others (List.isChain_cons.mp hj).2 (List.isChain_cons.mp ho).2 hcodes hothers
      rw [List.flatMap_cons, List.flatMap_cons] at h
      -- each of the two is one number or a pair
      rcases Nat.lt_or_ge code 0x10000 with hsmall | hlarge <;>
        rcases Nat.lt_or_ge other 0x10000 with hsmall' | hlarge'
      · rw [halves_of_lt hsmall, halves_of_lt hsmall'] at h
        obtain ⟨rfl, hrest⟩ := List.cons.inj h
        rw [hnext hrest]
      · rw [halves_of_lt hsmall, halves_of_le hlarge'] at h
        obtain ⟨rfl, hrest⟩ := List.cons.inj h
        exact absurd hj (not_isJoined_of_highHalf hlarge' hother hcodes hrest)
      · rw [halves_of_le hlarge, halves_of_lt hsmall'] at h
        obtain ⟨rfl, hrest⟩ := List.cons.inj h
        exact absurd ho (not_isJoined_of_highHalf hlarge hcode hothers hrest.symm)
      · rw [halves_of_le hlarge, halves_of_le hlarge'] at h
        obtain ⟨hhigh, hrest⟩ := List.cons.inj h
        obtain ⟨hlow, hrest⟩ := List.cons.inj hrest
        have hsame : code = other := by
          unfold highHalf at hhigh
          unfold lowHalf at hlow
          omega
        rw [hnext hrest, hsame]

/-- Numbers are joined to code points of the same numbers. -/
theorem joinFrom_spec (found numbers : List Nat) (h : ∀ number ∈ numbers, number < 0x10000) :
    ∃ joined, joinFrom found numbers = found.reverse ++ joined ∧
      joined.flatMap halves = numbers ∧ IsJoined joined ∧ (∀ code ∈ joined, code < 0x110000) ∧
      ∀ code ∈ joined.head?, isLow code = true → numbers.head? = some code := by
  -- The cases are those of joining: two halves that fit are one code point, any other number is one
  -- by itself.
  induction found, numbers using joinFrom.induct with
  | case1 found => exact ⟨[], (List.append_nil _).symm, rfl, .nil, nofun, nofun⟩
  | case2 found code =>
    have hcode := h code (List.mem_singleton_self code)
    refine ⟨[code], List.reverse_cons, ?_, .singleton code, ?_, fun _ hc _ => hc⟩
    · rw [List.flatMap_singleton, halves_of_lt hcode]
    · intro other hother
      rw [List.mem_singleton.mp hother]
      omega
  | case3 found high low rest hpair ih =>
    obtain ⟨joined, hjoined, hnumbers, hchain, hvalid, -⟩ := ih fun code hcode =>
      h code (List.mem_cons_of_mem _ (List.mem_cons_of_mem _ hcode))
    obtain ⟨hhigh, hlow⟩ := Bool.and_eq_true_iff.mp hpair
    have hhigh := isHigh_iff.mp hhigh
    have hlow := isLow_iff.mp hlow
    generalize hcode : 0x10000 + (high - 0xD800) * 1024 + (low - 0xDC00) = code
    have hfirst : highHalf code = high := by
      unfold highHalf
      omega
    have hsecond : lowHalf code = low := by
      unfold lowHalf
      omega
    refine ⟨code :: joined, ?_, ?_, ?_, ?_, ?_⟩
    · rw [joinFrom, if_pos hpair, hcode, ← hcode, hjoined, List.reverse_cons, List.append_assoc,
        List.singleton_append]
    · rw [List.flatMap_cons, hnumbers, halves_of_le (by omega), hfirst, hsecond]
      rfl
    · refine List.isChain_cons.mpr ⟨fun _ _ hboth => ?_, hchain⟩
      have hsmall := isHigh_iff.mp hboth.1
      omega
    · exact List.forall_mem_cons.mpr ⟨by omega, hvalid⟩
    · intro other hother hsmall
      obtain rfl := Option.some.inj hother
      have hsmall := isLow_iff.mp hsmall
      omega
  | case4 found high low rest hpair ih =>
    obtain ⟨joined, hjoined, hnumbers, hchain, hvalid, hhead⟩ :=
      ih fun code hcode => h code (List.mem_cons_of_mem _ hcode)
    have hhigh := h high List.mem_cons_self
    refine ⟨high :: joined, ?_, ?_, ?_, ?_, fun _ hc _ => hc⟩
    · rw [joinFrom, if_neg hpair, hjoined, List.reverse_cons, List.append_assoc,
        List.singleton_append]
    · rw [List.flatMap_cons, hnumbers, halves_of_lt hhigh]
      rfl
    · refine List.isChain_cons.mpr ⟨fun code hcode hboth => hpair ?_, hchain⟩
      obtain rfl := Option.some.inj (hhead code hcode hboth.2)
      rw [hboth.1, hboth.2]
      rfl
    · exact List.forall_mem_cons.mpr ⟨by omega, hvalid⟩

/-! ### Texts -/

/-- Bytes spell a text if they are its bytes in ordinary or in modified UTF-8, and only then. -/
theorem spells_iff {bytes : Bytes} :
    Spells bytes text ↔ bytes = Bytes.ofText text ∨ bytes = encode text := by
  constructor
  · intro h
    unfold Spells decode at h
    split at h
    · rename_i chars hchars
      have hsame : chars = text.toList :=
        List.map_injective_iff.mpr (fun _ _ => Char.toNat_inj.mp) (Except.ok.inj h)
      exact .inl (Utf8.decode?_eq_some_iff.mp (hchars.trans (congrArg some hsame)))
    · obtain ⟨codes, hcodes, hjoin⟩ := Except.map_eq_ok.mp h
      obtain ⟨_, rfl, hbytes, hsmall⟩ := exists_flatMap_of_unitsFrom 0 0 [] bytes hcodes
      obtain ⟨joined, hjoined, hnumbers, -⟩ := joinFrom_spec [] codes hsmall
      have hsame : joined = text.toList.map Char.toNat := hjoined.symm.trans hjoin
      rw [List.drop_zero] at hbytes
      rw [hbytes, ← hnumbers, hsame, List.flatMap_map]
      exact .inr (encode_eq text).symm
  · rintro (rfl | rfl)
    · exact decode_ofText text
    · exact decode_encode text

/-! ### Libraries of texts -/

namespace Library

variable {library : Library}

/-- What the documentation of a library says, and the format of class files that it refers to. -/
structure IsDocumented (library : Library) : Prop where
  /-- A text is its code points. -/
  codes_injective : Function.Injective library.codes
  /-- Code points end below 0x110000. -/
  lt_of_mem (text : library.Text) : ∀ code ∈ library.codes text, code < 0x110000
  /-- Halves that could be joined are. -/
  isJoined (text : library.Text) : IsJoined (library.codes text)
  codes_ofString (text : String) : library.codes (library.ofString text) =
    text.toList.map Char.toNat
  toString?_eq_some_iff (text : library.Text) (string : String) :
    library.toString? text = some string ↔ library.codes text = string.toList.map Char.toNat
  /-- A text is written number by number. -/
  toModifiedUtf8_eq (text : library.Text) : library.toModifiedUtf8 text =
    ((library.codes text).flatMap halves).flatMap encodeNumber
  /-- Ordinary UTF-8 is read as what it is. -/
  ofModifiedUtf8_ofText (text : String) : ∃ read,
    library.ofModifiedUtf8 (Bytes.ofText text) = .ok read ∧
      library.codes read = text.toList.map Char.toNat
  /-- Numbers are read from their bytes where these are no ordinary UTF-8. -/
  ofModifiedUtf8_flatMap (numbers : List Nat) (h : ∀ number ∈ numbers, number < 0x10000)
    (hn : ∀ text, numbers.flatMap encodeNumber ≠ Bytes.ofText text) : ∃ read,
      library.ofModifiedUtf8 (numbers.flatMap encodeNumber) = .ok read ∧
        (library.codes read).flatMap halves = numbers

namespace IsDocumented

/-- What a library writes is modified UTF-8. -/
theorem encode_eq (h : library.IsDocumented) (text : String) :
    library.encode text = ModifiedUtf8.encode text := by
  rw [Library.encode, h.toModifiedUtf8_eq, h.codes_ofString, List.flatMap_map,
    ModifiedUtf8.encode_eq]
  rfl

/-- What a library writes, it reads as the same text. -/
theorem ofModifiedUtf8_encode (h : library.IsDocumented) (text : String) :
    library.ofModifiedUtf8 (library.encode text) = .ok (library.ofString text) := by
  have hsame {read : library.Text} (hr : library.codes read = text.toList.map Char.toNat) :
      read = library.ofString text :=
    h.codes_injective (hr.trans (h.codes_ofString text).symm)
  rw [h.encode_eq]
  -- either form may be read; the bytes decide which
  by_cases hplain : ∃ other, ModifiedUtf8.encode text = Bytes.ofText other
  · obtain ⟨other, hother⟩ := hplain
    obtain ⟨rfl, -⟩ := ofText_eq_encode_iff.mp hother.symm
    obtain ⟨read, hread, hcodes⟩ := h.ofModifiedUtf8_ofText other
    rw [hother, hread, hsame hcodes]
  · rw [ModifiedUtf8.encode_eq] at hplain ⊢
    have hnumbers : ∀ number ∈ text.toList.flatMap units, number < 0x10000 := by
      intro number hnumber
      obtain ⟨c, -, hunit⟩ := List.mem_flatMap.mp hnumber
      exact lt_of_mem_units hunit
    obtain ⟨read, hread, hcodes⟩ := h.ofModifiedUtf8_flatMap _ hnumbers (not_exists.mp hplain)
    have hhalves : (library.codes read).flatMap halves =
        (library.codes (library.ofString text)).flatMap halves := by
      rw [hcodes, h.codes_ofString, List.flatMap_map]
      rfl
    rw [hread, h.codes_injective (eq_of_flatMap_halves _ _ (h.isJoined _) (h.isJoined _)
      (h.lt_of_mem _) (h.lt_of_mem _) hhalves)]

end IsDocumented

/-- A string is restored from the bytes that are written for it, and shown as it was.  No two strings
are written alike, and what is written is ordinary UTF-8 of a string only where it is that of the
string, which is where all characters are plain. -/
theorem rereads_encode (h : library.IsDocumented) (text : String) :
    library.decode (library.encode text) = .ok (library.ofString text) ∧
      library.toString? (library.ofString text) = some text ∧
      library.display (library.encode text) = text ∧
      (∀ other, library.encode text = library.encode other ↔ text = other) ∧
      (∀ other, library.encode text = Bytes.ofText other → text = other) ∧
      (library.encode text = Bytes.ofText text ↔ IsPlain text) := by
  have hstring : library.toString? (library.ofString text) = some text :=
    (h.toString?_eq_some_iff _ _).mpr (h.codes_ofString text)
  have hdecode : library.decode (library.encode text) = .ok (library.ofString text) :=
    Except.mapError_eq_ok.mpr (h.ofModifiedUtf8_encode text)
  refine ⟨hdecode, hstring, ?_, fun other => ?_, fun other hother => ?_, ?_⟩
  · simp only [Library.display, hdecode, Except.toOption, Option.bind_some, hstring]
  · rw [h.encode_eq, h.encode_eq]
    exact encode_inj
  · rw [h.encode_eq] at hother
    exact (ofText_eq_encode_iff.mp hother.symm).1.symm
  · rw [h.encode_eq]
    exact encode_eq_ofText_iff

end Library

/-! ### A library of code points -/

/-- The code points of a text that class files may hold. -/
abbrev Codes := {codes : List Nat // IsJoined codes ∧ ∀ code ∈ codes, code < 0x110000}

/-- Characters are no halves. -/
theorem isJoined_map_toNat (chars : List Char) : IsJoined (chars.map Char.toNat) ∧
    ∀ code ∈ chars.map Char.toNat, code < 0x110000 := by
  constructor
  · refine (List.isChain_map Char.toNat).mpr (List.pairwise_of_forall fun c _ hboth => ?_).isChain
    have hvalid := Utf8.toNat_cases c
    have hhigh := isHigh_iff.mp hboth.1
    omega
  · intro code hcode
    obtain ⟨c, -, rfl⟩ := List.mem_map.mp hcode
    have hvalid := Utf8.toNat_cases c
    omega

/-- What is read is a text that class files may hold. -/
theorem isJoined_of_decode {bytes : Bytes} (h : decode bytes = .ok codes) :
    IsJoined codes ∧ ∀ code ∈ codes, code < 0x110000 := by
  unfold decode at h
  split at h
  · rename_i chars _
    obtain rfl := Except.ok.inj h
    exact isJoined_map_toNat chars
  · obtain ⟨numbers, hnumbers, rfl⟩ := Except.map_eq_ok.mp h
    obtain ⟨_, rfl, -, hsmall⟩ := exists_flatMap_of_unitsFrom 0 0 [] bytes hnumbers
    obtain ⟨joined, hjoined, -, hchain, hvalid, -⟩ := joinFrom_spec [] numbers hsmall
    rw [show joinFrom [] numbers = joined from hjoined]
    exact ⟨hchain, hvalid⟩

/-- The code points of a string are its own if it is the text of them, and only then. -/
theorem textOf?_eq_some_iff (hc : ∀ code ∈ codes, code < 0x110000) :
    textOf? codes = some text ↔ codes = text.toList.map Char.toNat := by
  constructor
  · intro h
    unfold textOf? at h
    split_ifs at h with hall
    obtain rfl := Option.some.inj h
    rw [String.toList_ofList, List.map_map]
    refine (List.map_id codes).symm.trans (List.map_congr_left fun code hcode => ?_)
    have hcharacter := List.all_eq_true.mp hall code hcode
    rw [isCharacter, Bool.or_eq_true, decide_eq_true_eq, decide_eq_true_eq] at hcharacter
    have hvalid : Nat.isValidChar code := by
      have hcode := hc code hcode
      unfold Nat.isValidChar
      omega
    exact (Utf8.toNat_ofNat hvalid).symm
  · rintro rfl
    exact textOf?_map_toNat text

/-- The library whose texts are their code points. -/
def Library.ofCodes : Library where
  Text := Codes
  Fault := BadSequence
  codes text := text.1
  ofString text := ⟨text.toList.map Char.toNat, isJoined_map_toNat text.toList⟩
  toString? text := textOf? text.1
  toModifiedUtf8 text := (text.1.flatMap halves).flatMap encodeNumber
  ofModifiedUtf8 bytes :=
    match h : ModifiedUtf8.decode bytes with
    | .ok codes => .ok ⟨codes, isJoined_of_decode h⟩
    | .error bad => .error bad
  record := BadSequence.message

namespace Library

theorem ofModifiedUtf8_ofCodes {bytes : Bytes} (h : ModifiedUtf8.decode bytes = .ok codes) :
    ofCodes.ofModifiedUtf8 bytes = .ok ⟨codes, isJoined_of_decode h⟩ := by
  unfold ofCodes
  dsimp only
  split
  · rename_i found hfound
    obtain rfl := Except.ok.inj (hfound.symm.trans h)
    rfl
  · rename_i bad hbad
    cases hbad.symm.trans h

theorem isDocumented_ofCodes : ofCodes.IsDocumented where
  codes_injective := Subtype.val_injective
  lt_of_mem text := text.2.2
  isJoined text := text.2.1
  codes_ofString _ := rfl
  toString?_eq_some_iff text _ := textOf?_eq_some_iff text.2.2
  toModifiedUtf8_eq _ := rfl
  ofModifiedUtf8_ofText text := ⟨_, ofModifiedUtf8_ofCodes (decode_ofText text), rfl⟩
  ofModifiedUtf8_flatMap numbers h hn := by
    have hforeign : Utf8.decode? (numbers.flatMap encodeNumber) = none := by
      rw [Option.eq_none_iff_forall_ne_some]
      intro chars hchars
      rw [← String.toList_ofList (l := chars)] at hchars
      exact hn _ (Utf8.decode?_eq_some_iff.mp hchars)
    obtain ⟨joined, hjoined, hnumbers, -⟩ := joinFrom_spec [] numbers h
    have hdecode : ModifiedUtf8.decode (numbers.flatMap encodeNumber) = .ok joined := by
      unfold ModifiedUtf8.decode
      rw [hforeign]
      show (unitsFrom 0 0 [] _).map (joinFrom []) = _
      rw [unitsFrom_flatMap numbers h]
      exact congrArg Except.ok hjoined
    exact ⟨_, ofModifiedUtf8_ofCodes hdecode, hnumbers⟩

/-- The functions for strings and bytes are those of this library. -/
theorem ofCodes_eq (text : String) (bytes : Bytes) :
    ofCodes.encode text = ModifiedUtf8.encode text ∧
      (ofCodes.decode bytes).map ofCodes.codes =
        (ModifiedUtf8.decode bytes).mapError BadSequence.message ∧
      ofCodes.display bytes = ModifiedUtf8.display bytes := by
  refine ⟨isDocumented_ofCodes.encode_eq text, ?_⟩
  cases h : ModifiedUtf8.decode bytes with
  | ok codes =>
    have hread := ofModifiedUtf8_ofCodes h
    unfold Library.display ModifiedUtf8.display Library.decode
    rw [hread, h]
    exact ⟨rfl, rfl⟩
  | error bad =>
    have hread : ofCodes.ofModifiedUtf8 bytes = .error bad := by
      unfold ofCodes
      dsimp only
      split
      · rename_i hcodes
        cases hcodes.symm.trans h
      · rename_i hbad
        cases hbad.symm.trans h
        rfl
    unfold Library.display ModifiedUtf8.display Library.decode
    rw [hread, h]
    exact ⟨rfl, rfl⟩

/-- A pair of halves between two characters of three bytes, and zero, come back. -/
theorem rereads_encode_pair : ofCodes.IsDocumented ∧
    ofCodes.encode "\uFFFD😀\uD7FF\x00" = [0xEF, 0xBF, 0xBD, 0xED, 0xA0, 0xBD, 0xED, 0xB8, 0x80,
      0xED, 0x9F, 0xBF, 0xC0, 0x80] ∧
    ofCodes.decode (ofCodes.encode "\uFFFD😀\uD7FF\x00") =
      .ok (ofCodes.ofString "\uFFFD😀\uD7FF\x00") ∧
    ofCodes.display (ofCodes.encode "\uFFFD😀\uD7FF\x00") = "\uFFFD😀\uD7FF\x00" :=
  have h := rereads_encode isDocumented_ofCodes "\uFFFD😀\uD7FF\x00"
  ⟨isDocumented_ofCodes, by decide +kernel, h.1, h.2.2.1⟩

end Library

end ClassGraft.ModifiedUtf8

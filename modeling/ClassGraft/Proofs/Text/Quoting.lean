import ClassGraft.Proofs.Decimal.Integers
import ClassGraft.Text.Quoted

/-!
# Quoted texts that read back

Each character is written as itself or as an escape that stands for it alone
(`readFrom_encodeChar`), so what is quoted reads back as it was (`Quoted.decode_encode`).  No line
ends inside of it (`Quoted.newline_not_mem_encode`).
-/

namespace ClassGraft.Quoted

variable {whole found rest : List Char}

/-- Digits in braces are taken as far as they go. -/
theorem readFrom_number {digits : List Char} (done : List Char) (h : ∀ c ∈ digits, c ≠ '\x7d') :
    readFrom whole (.number done) found (digits ++ rest) =
      readFrom whole (.number (digits.reverse ++ done)) found rest := by
  induction digits generalizing done with
  | nil => rfl
  | cons c digits ih =>
    obtain ⟨hc, hdigits⟩ := List.forall_mem_cons.mp h
    rw [List.cons_append, readFrom, if_neg hc, ih _ hdigits, List.reverse_cons, List.append_assoc,
      List.singleton_append]

theorem exists_digitChar_of_mem_toDigits {n : Nat} {c : Char} (h : c ∈ Nat.toDigits 16 n) :
    ∃ digit, c = Nat.digitChar digit := by
  induction n using Nat.strong_induction_on with
  | _ n ih =>
    rw [Nat.toDigits_eq_if (by decide)] at h
    split_ifs at h with hlt
    · exact ⟨n, List.mem_singleton.mp h⟩
    · rcases List.mem_append.mp h with h | h
      · exact ih _ (Nat.div_lt_self (by omega) (by decide)) h
      · exact ⟨n % 16, List.mem_singleton.mp h⟩

theorem ne_brace_of_mem_toDigits {n : Nat} {c : Char} (h : c ∈ Nat.toDigits 16 n) :
    c ≠ '\x7d' := by
  obtain ⟨digit, rfl⟩ := exists_digitChar_of_mem_toDigits h
  exact Nat.digitChar_ne _ (by decide)

/-- The number of a character stands for it. -/
theorem numbered?_toDigits (c : Char) : numbered? (Nat.toDigits 16 c.toNat) = some c := by
  have hvalid : c.toNat.isValidChar := c.valid
  have hle : (c.toNat : Int) ≤ 4294967295 := by
    rcases hvalid with h | h <;> omega
  unfold numbered?
  rw [Decimal.readInteger_toDigits (by decide) (by decide) (by decide) hle]
  dsimp only [Int.toNat_natCast]
  rw [dif_pos hvalid]
  exact congrArg some (Char.toNat_inj.mp rfl)

/-- A character is read back from how it is written. -/
theorem readFrom_encodeChar (c : Char) :
    readFrom whole .plain found (encodeChar '"' c ++ rest) =
      readFrom whole .plain (c :: found) rest := by
  unfold encodeChar
  split_ifs with hnull htab hreturn hline hslash hquote hvisible
  · exact hnull ▸ rfl
  · exact htab ▸ rfl
  · exact hreturn ▸ rfl
  · exact hline ▸ rfl
  · obtain rfl := hslash
    rfl
  · obtain rfl := hquote
    rfl
  · rw [List.singleton_append, readFrom, if_neg hquote, if_neg hslash]
  · rw [List.cons_append, List.cons_append, List.cons_append, List.append_assoc,
      List.singleton_append]
    show readFrom whole (.number []) found (Nat.toDigits 16 c.toNat ++ '\x7d' :: rest) = _
    rw [readFrom_number [] fun d hd => ne_brace_of_mem_toDigits hd, List.append_nil, readFrom,
      if_pos rfl, List.reverse_reverse, numbered?_toDigits]

theorem readFrom_flatMap (text : List Char) :
    readFrom whole .plain found (text.flatMap (encodeChar '"') ++ rest) =
      readFrom whole .plain (text.reverse ++ found) rest := by
  induction text generalizing found with
  | nil => rfl
  | cons c text ih =>
    rw [List.flatMap_cons, List.append_assoc, readFrom_encodeChar, ih, List.reverse_cons,
      List.append_assoc, List.singleton_append]

/-- A text is read back from its quoted form. -/
theorem decode_encode (text : String) :
    decode (text.toList.flatMap (encodeChar '"') ++ ['"']) = .ok text := by
  unfold decode
  rw [readFrom_flatMap, List.append_nil, readFrom, if_pos rfl, List.reverse_reverse]
  exact congrArg Except.ok String.ofList_toList

theorem newline_not_mem_encodeChar (c : Char) : '\n' ∉ encodeChar '"' c := by
  unfold encodeChar
  split_ifs with hnull htab hreturn hline hslash hquote hvisible
  all_goals try decide
  · exact fun h => hline (List.mem_singleton.mp h).symm
  · intro h
    simp only [List.mem_cons, List.mem_append, List.not_mem_nil, or_false] at h
    rcases h with h | h | h | h | h
    · cases h
    · cases h
    · cases h
    · obtain ⟨digit, hdigit⟩ := exists_digitChar_of_mem_toDigits h
      exact Nat.digitChar_ne _ (by decide) hdigit.symm
    · cases h

/-- A quoted text stands on one line. -/
theorem newline_not_mem_encode (text : String) : '\n' ∉ (encode text).toList := by
  unfold encode
  rw [String.toList_ofList]
  intro h
  rcases List.mem_cons.mp h with h | h
  · cases h
  rcases List.mem_append.mp h with h | h
  · obtain ⟨c, -, hc⟩ := List.mem_flatMap.mp h
    exact newline_not_mem_encodeChar c hc
  · cases List.mem_singleton.mp h

end ClassGraft.Quoted

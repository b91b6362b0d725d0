/-!
# Big-endian numbers

A class file is a string of bytes in which every number is written with its most significant byte
first.  `bigEndian n v` writes the number `v` in `n` bytes and `ofBigEndian` reads it back:
reading what was written gives `v` modulo `256 ^ n` (`ofBigEndian_bigEndian`), and `n` bytes are
what their number writes again (`bigEndian_ofBigEndian`).
-/

namespace ClassGraft

/-- A string of bytes. -/
abbrev Bytes := List UInt8

namespace Bytes

/-- The number `v` in `n` bytes, the most significant one first; higher digits are dropped. -/
def bigEndian : Nat → Nat → Bytes
  | 0, _ => []
  | n + 1, v => bigEndian n (v / 256) ++ [UInt8.ofNat v]

/-- The number that the bytes spell with the most significant one first. -/
def ofBigEndian (bytes : Bytes) : Nat :=
  bytes.foldl (fun value byte => value * 256 + byte.toNat) 0

/-- The bytes of an ASCII text, such as a name that the class file format fixes. -/
def ofAscii (text : String) : Bytes :=
  text.toList.map fun c => UInt8.ofNat c.toNat

/-- The bytes of a text in UTF-8. -/
def ofText (text : String) : Bytes :=
  text.toList.flatMap String.utf8EncodeChar

/-! ### A byte, a half word, a word and a long word -/

/-- Two bytes. -/
def ofUInt16 (value : UInt16) : Bytes := bigEndian 2 value.toNat

/-- Four bytes. -/
def ofUInt32 (value : UInt32) : Bytes := bigEndian 4 value.toNat

/-- Eight bytes. -/
def ofUInt64 (value : UInt64) : Bytes := bigEndian 8 value.toNat

/-- One byte, a negative number in two's complement. -/
def ofInt8 (value : Int8) : Bytes := [value.toUInt8]

/-- Two bytes, a negative number in two's complement. -/
def ofInt16 (value : Int16) : Bytes := ofUInt16 value.toUInt16

/-- Four bytes, a negative number in two's complement. -/
def ofInt32 (value : Int32) : Bytes := ofUInt32 value.toUInt32

/-- Eight bytes, a negative number in two's complement. -/
def ofInt64 (value : Int64) : Bytes := ofUInt64 value.toUInt64

/-! ### Facts -/

@[simp] theorem length_bigEndian (n v : Nat) : (bigEndian n v).length = n := by
  induction n generalizing v with
  | zero => rfl
  | succ n ih => simp [bigEndian, ih]

theorem ofBigEndian_append_singleton (bytes : Bytes) (b : UInt8) :
    ofBigEndian (bytes ++ [b]) = ofBigEndian bytes * 256 + b.toNat := by
  simp [ofBigEndian]

/-- Reading back what was written gives the number without the digits that were dropped. -/
theorem ofBigEndian_bigEndian (n v : Nat) :
    ofBigEndian (bigEndian n v) = v % Nat.pow 256 n := by
  induction n generalizing v with
  | zero => simp [bigEndian, ofBigEndian, Nat.mod_one]
  | succ n ih =>
    rw [bigEndian, ofBigEndian_append_singleton, ih, Nat.pow_eq, Nat.pow_eq, Nat.pow_succ',
      Nat.mod_mul]
    simp
    omega

/-- A byte string is what its number writes in as many bytes. -/
theorem bigEndian_ofBigEndian (bytes : Bytes) :
    bigEndian bytes.length (ofBigEndian bytes) = bytes := by
  suffices h : ∀ (n : Nat) (bs : Bytes), bs.length = n → bigEndian n (ofBigEndian bs) = bs from
    h _ bytes rfl
  intro n
  induction n with
  | zero => intro bs h; simp [List.length_eq_zero_iff.1 h, bigEndian]
  | succ n ih =>
    intro bs h
    obtain ⟨front, last, rfl⟩ : ∃ front last, bs = front ++ [last] := by
      rcases List.eq_nil_or_concat bs with rfl | ⟨front, last, rfl⟩
      · simp at h
      · exact ⟨front, last, by simp⟩
    have hf : front.length = n := by simpa using h
    have hl := last.toNat_lt
    rw [ofBigEndian_append_singleton, bigEndian]
    have hd : (ofBigEndian front * 256 + last.toNat) / 256 = ofBigEndian front := by omega
    have hm : UInt8.ofNat (ofBigEndian front * 256 + last.toNat) = last := by
      apply UInt8.toNat_inj.1
      simp
    rw [hd, hm, ih front hf]

end Bytes

end ClassGraft

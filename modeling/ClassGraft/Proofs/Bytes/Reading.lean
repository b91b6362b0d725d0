import Mathlib.Data.List.Forall2
import Mathlib.Tactic.SplitIfs
import ClassGraft.Bytes.Reader

/-!
# Reading what was written

`Reader.Takes` says that a reader takes exactly some bytes from the front and makes a value of them,
whatever follows.  Readers that run one after the other take bytes that stand one after the other
(`Reader.Takes.bind`), and numbers are read back from the bytes that were written for them.
-/

namespace ClassGraft.Reader

/-- Whether the reader takes exactly the bytes at an offset, and makes the value of them. -/
def Takes {α : Type} (reader : Reader α) (offset : Nat) (bytes : Bytes) (value : α) : Prop :=
  ∀ rest, reader ⟨bytes ++ rest, offset⟩ = .ok (value, ⟨rest, offset + bytes.length⟩)

variable {α β : Type} {offset : Nat} {bytes : Bytes}

/-! ### Readers one after the other -/

theorem bind_of_eq_ok {x : Reader α} {f : α → Reader β} {cursor next : Cursor} {a : α}
    (h : x cursor = .ok (a, next)) : (x >>= f) cursor = f a next := by
  show (x cursor >>= fun (a, next) => f a next) = f a next
  rw [h]
  rfl

theorem takes_pure (a : α) (offset : Nat) : (pure a : Reader α).Takes offset [] a :=
  fun _ => rfl

theorem Takes.bind {x : Reader α} {f : α → Reader β} {more : Bytes} {a : α} {b : β}
    (hx : x.Takes offset bytes a) (hf : (f a).Takes (offset + bytes.length) more b) :
    (x >>= f).Takes offset (bytes ++ more) b := by
  intro rest
  rw [List.append_assoc, bind_of_eq_ok (hx (more ++ rest)), hf rest, List.length_append,
    Nat.add_assoc]

/-- What is done with a value that was read may take no bytes. -/
theorem Takes.bind_nil {x : Reader α} {f : α → Reader β} {a : α} {b : β}
    (hx : x.Takes offset bytes a) (hf : (f a).Takes (offset + bytes.length) [] b) :
    (x >>= f).Takes offset bytes b := by
  have h := hx.bind hf
  rwa [List.append_nil] at h

theorem Takes.map {x : Reader α} {a : α} (hx : x.Takes offset bytes a) (f : α → β) :
    (x >>= fun a => pure (f a)).Takes offset bytes (f a) :=
  hx.bind_nil (takes_pure (f a) (offset + bytes.length))

theorem takes_take (bytes : Bytes) (offset : Nat) : (take bytes.length).Takes offset bytes bytes :=
  fun rest => take_append bytes rest offset

/-! ### What readers give -/

/-- Whether every value that the reader gives has a property. -/
def Gives (reader : Reader α) (P : α → Prop) : Prop :=
  ∀ cursor value next, reader cursor = .ok (value, next) → P value

variable {P : α → Prop}

theorem gives_pure {a : α} (h : P a) : (pure a : Reader α).Gives P := by
  intro cursor value next hv
  obtain ⟨rfl, -⟩ := Prod.mk.inj (Except.ok.inj hv)
  exact h

/-- What is known of a value that was read may be used for what is done with it. -/
theorem Gives.bind {x : Reader β} {f : β → Reader α} {Q : β → Prop} (hx : x.Gives Q)
    (hf : ∀ b, Q b → (f b).Gives P) : (x >>= f).Gives P := by
  intro cursor value next hv
  cases hfound : x cursor with
  | error fault =>
    have hv : (x cursor >>= fun (b, next) => f b next) = .ok (value, next) := hv
    rw [hfound] at hv
    simp [Bind.bind, Except.bind] at hv
  | ok found =>
    rw [bind_of_eq_ok hfound] at hv
    exact hf found.1 (hx cursor _ _ hfound) found.2 value next hv

theorem gives_bind {x : Reader β} {f : β → Reader α} (h : ∀ b, (f b).Gives P) :
    (x >>= f).Gives P := by
  have hx : x.Gives fun _ => True := fun _ _ _ _ => trivial
  exact hx.bind fun b _ => h b

theorem gives_ite {c : Prop} [Decidable c] {x y : Reader α} (hx : c → x.Gives P)
    (hy : ¬c → y.Gives P) : (if c then x else y).Gives P := by
  split_ifs with hc
  · exact hx hc
  · exact hy hc

theorem gives_malformed (cause : Malformation) : (malformed cause : Reader α).Gives P :=
  fun _ _ _ h => nomatch h

/-! ### Numbers -/

theorem takes_number {n v : Nat} (hv : v < Nat.pow 256 n) (offset : Nat) :
    (number n).Takes offset (Bytes.bigEndian n v) v := by
  have h := (takes_take (Bytes.bigEndian n v) offset).map Bytes.ofBigEndian
  rw [Bytes.length_bigEndian, Bytes.ofBigEndian_bigEndian, Nat.mod_eq_of_lt hv] at h
  exact h

theorem takes_uint8 (byte : UInt8) (offset : Nat) : uint8.Takes offset [byte] byte := by
  have h := (takes_number (n := 1) byte.toNat_lt offset).map UInt8.ofNat
  rw [UInt8.ofNat_toNat, show Bytes.bigEndian 1 byte.toNat = [byte] by simp [Bytes.bigEndian]] at h
  exact h

theorem takes_uint16 (value : UInt16) (offset : Nat) :
    uint16.Takes offset (Bytes.ofUInt16 value) value := by
  have h := (takes_number (n := 2) value.toNat_lt offset).map UInt16.ofNat
  rwa [UInt16.ofNat_toNat] at h

theorem takes_uint32 (value : UInt32) (offset : Nat) :
    uint32.Takes offset (Bytes.ofUInt32 value) value := by
  have h := (takes_number (n := 4) value.toNat_lt offset).map UInt32.ofNat
  rwa [UInt32.ofNat_toNat] at h

theorem takes_uint64 (value : UInt64) (offset : Nat) :
    uint64.Takes offset (Bytes.ofUInt64 value) value := by
  have h := (takes_number (n := 8) value.toNat_lt offset).map UInt64.ofNat
  rwa [UInt64.ofNat_toNat] at h

theorem takes_int8 (value : Int8) (offset : Nat) :
    int8.Takes offset (Bytes.ofInt8 value) value :=
  (takes_uint8 value.toUInt8 offset).map UInt8.toInt8

theorem takes_int16 (value : Int16) (offset : Nat) :
    int16.Takes offset (Bytes.ofInt16 value) value :=
  (takes_uint16 value.toUInt16 offset).map UInt16.toInt16

theorem takes_int32 (value : Int32) (offset : Nat) :
    int32.Takes offset (Bytes.ofInt32 value) value :=
  (takes_uint32 value.toUInt32 offset).map UInt32.toInt32

theorem takes_int64 (value : Int64) (offset : Nat) :
    int64.Takes offset (Bytes.ofInt64 value) value :=
  (takes_uint64 value.toUInt64 offset).map UInt64.toInt64

/-! ### Lists -/

theorem takes_repeatedFrom {reader : Reader α} {parts : List Bytes} {values : List α}
    (h : List.Forall₂ (fun bytes value => ∀ offset, reader.Takes offset bytes value) parts values)
    (found : List α) (offset : Nat) :
    (repeatedFrom reader values.length found).Takes offset parts.flatten
      (found.reverse ++ values) := by
  induction h generalizing found offset with
  | nil =>
    rw [List.append_nil]
    exact fun _ => rfl
  | @cons bytes value parts values hv _ ih =>
    intro rest
    rw [List.flatten_cons, List.append_assoc]
    simp only [List.length_cons, repeatedFrom, hv offset (parts.flatten ++ rest)]
    rw [ih (value :: found) (offset + bytes.length) rest]
    simp [Nat.add_assoc]

/-- As many runs as there are parts give the values of the parts. -/
theorem takes_repeated {reader : Reader α} {parts : List Bytes} {values : List α}
    (h : List.Forall₂ (fun bytes value => ∀ offset, reader.Takes offset bytes value) parts values)
    (offset : Nat) : (repeated values.length reader).Takes offset parts.flatten values :=
  takes_repeatedFrom h [] offset

/-- A list is read back from its length and its parts. -/
theorem takes_list {reader : Reader α} {parts : List Bytes} {values : List α}
    (hn : values.length < 65536)
    (h : List.Forall₂ (fun bytes value => ∀ offset, reader.Takes offset bytes value) parts values)
    (offset : Nat) :
    (list reader).Takes offset (Bytes.ofUInt16 (UInt16.ofNat values.length) ++ parts.flatten)
      values := by
  refine (takes_uint16 (UInt16.ofNat values.length) offset).bind ?_
  rw [UInt16.toNat_ofNat_of_lt' hn]
  exact takes_repeated h _

end ClassGraft.Reader

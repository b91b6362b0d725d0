import ClassGraft.Bytes.Counted
import ClassGraft.Bytes.Reader
import ClassGraft.Proofs.Outcome

/-!
# Readers that keep everything

A reader restores what a writer writes (`Reader.Restores`) if the bytes that it takes are those that
are written for the value that it gives, however they came to be.  This is so of numbers
(`Reader.rest_of_number`), and lists of what is restored are restored (`Reader.restores_list`).
-/

namespace ClassGraft

/-- What a list is written as, if it is short enough. -/
theorem Bytes.listOf_eq_ok_iff {α : Type} {write : α → Except ClassFault Bytes} {items : List α}
    {bytes : Bytes} : listOf write items = .ok bytes ↔ items.length < 65536 ∧ ∃ parts,
      items.mapM write = .ok parts ∧
        ofUInt16 (UInt16.ofNat items.length) ++ parts.flatten = bytes := by
  unfold listOf
  constructor
  · intro h
    obtain ⟨hlength, h⟩ := Except.guard_eq_ok.mp h
    obtain ⟨parts, hparts, h⟩ := Except.bind_eq_ok.mp h
    exact ⟨Nat.lt_of_not_le hlength, parts, hparts, Except.pure_eq_ok.mp h⟩
  · rintro ⟨hlength, parts, hparts, rfl⟩
    exact Except.guard_eq_ok.mpr
      ⟨Nat.not_le_of_lt hlength, Except.bind_eq_ok.mpr ⟨parts, hparts, rfl⟩⟩

namespace Reader

variable {α β : Type} {cursor next : Cursor}

/-- Whether the bytes that the reader takes are those that are written for its value. -/
def Restores (reader : Reader α) (write : α → Except ClassFault Bytes) : Prop :=
  ∀ cursor value next, reader cursor = .ok (value, next) →
    ∃ bytes, write value = .ok bytes ∧ cursor.rest = bytes ++ next.rest

/-! ### Readers that succeed -/

theorem bind_eq_ok {x : Reader α} {f : α → Reader β} {b : β} :
    (x >>= f) cursor = .ok (b, next) ↔
      ∃ a between, x cursor = .ok (a, between) ∧ f a between = .ok (b, next) := by
  show (x cursor >>= fun (a, between) => f a between) = .ok (b, next) ↔ _
  rw [Except.bind_eq_ok]
  constructor
  · rintro ⟨⟨a, between⟩, hx, hf⟩
    exact ⟨a, between, hx, hf⟩
  · rintro ⟨a, between, hx, hf⟩
    exact ⟨(a, between), hx, hf⟩

theorem pure_eq_ok {a b : α} :
    (pure a : Reader α) cursor = .ok (b, next) ↔ a = b ∧ cursor = next := by
  show (.ok (a, cursor) : Except ClassFault (α × Cursor)) = .ok (b, next) ↔ _
  rw [Except.ok.injEq, Prod.mk.injEq]

theorem lift_eq_ok {x : Except ClassFault α} {a : α} :
    (liftM x : Reader α) cursor = .ok (a, next) ↔ x = .ok a ∧ cursor = next := by
  show (x >>= fun a => .ok (a, cursor)) = .ok (a, next) ↔ _
  rw [Except.bind_eq_ok]
  constructor
  · rintro ⟨b, hx, h⟩
    obtain ⟨rfl, rfl⟩ := Prod.mk.inj (Except.ok.inj h)
    exact ⟨hx, rfl⟩
  · rintro ⟨hx, rfl⟩
    exact ⟨a, hx, rfl⟩

theorem malformed_ne_ok {cause : Malformation} {a : α} :
    (malformed cause : Reader α) cursor ≠ .ok (a, next) :=
  fun h => nomatch h

/-- A check that comes before a step did not stop it. -/
theorem guard_eq_ok {p : Prop} [Decidable p] {cause : Malformation} {f : α → Reader β}
    {x : Reader β} {b : β} : (if p then malformed cause >>= f else x) cursor = .ok (b, next) ↔
      ¬p ∧ x cursor = .ok (b, next) := by
  split_ifs with h
  · refine ⟨fun hb => ?_, fun hb => absurd h hb.1⟩
    obtain ⟨_, _, hm, -⟩ := bind_eq_ok.mp hb
    exact absurd hm malformed_ne_ok
  · simp [h]

/-- Nothing is left where reading has to end. -/
theorem rest_of_finished {cause : Nat → Malformation} {a : Unit}
    (h : finished cause cursor = .ok (a, next)) : cursor.rest = [] := by
  unfold finished at h
  split_ifs at h with hempty
  exact List.isEmpty_iff.mp hempty

/-! ### Numbers -/

theorem rest_of_take {n : Nat} {bytes : Bytes} (h : take n cursor = .ok (bytes, next)) :
    bytes.length = n ∧ cursor.rest = bytes ++ next.rest := by
  unfold take at h
  dsimp only at h
  split_ifs at h with hn
  obtain ⟨rfl, rfl⟩ := Prod.mk.inj (Except.ok.inj h)
  exact ⟨hn, (List.take_append_drop n cursor.rest).symm⟩

/-- A number fits into the bytes that it was read from, which are what it writes. -/
theorem rest_of_number {n v : Nat} (h : number n cursor = .ok (v, next)) :
    v < Nat.pow 256 n ∧ cursor.rest = Bytes.bigEndian n v ++ next.rest := by
  obtain ⟨bytes, between, hbytes, h⟩ := bind_eq_ok.mp h
  obtain ⟨rfl, rfl⟩ := pure_eq_ok.mp h
  obtain ⟨rfl, hrest⟩ := rest_of_take hbytes
  have hsame := Bytes.bigEndian_ofBigEndian bytes
  refine ⟨?_, by rw [hsame, hrest]⟩
  have hmod := Bytes.ofBigEndian_bigEndian bytes.length (Bytes.ofBigEndian bytes)
  rw [hsame] at hmod
  rw [hmod]
  exact Nat.mod_lt _ (Nat.pow_pos (by decide))

theorem rest_of_uint8 {value : UInt8} (h : uint8 cursor = .ok (value, next)) :
    cursor.rest = value :: next.rest := by
  obtain ⟨v, between, hv, h⟩ := bind_eq_ok.mp h
  obtain ⟨rfl, rfl⟩ := pure_eq_ok.mp h
  exact (rest_of_number hv).2

theorem rest_of_uint16 {value : UInt16} (h : uint16 cursor = .ok (value, next)) :
    cursor.rest = Bytes.ofUInt16 value ++ next.rest := by
  obtain ⟨v, between, hv, h⟩ := bind_eq_ok.mp h
  obtain ⟨rfl, rfl⟩ := pure_eq_ok.mp h
  obtain ⟨hlt, hrest⟩ := rest_of_number hv
  rw [Bytes.ofUInt16, UInt16.toNat_ofNat_of_lt' hlt, hrest]

theorem rest_of_uint32 {value : UInt32} (h : uint32 cursor = .ok (value, next)) :
    cursor.rest = Bytes.ofUInt32 value ++ next.rest := by
  obtain ⟨v, between, hv, h⟩ := bind_eq_ok.mp h
  obtain ⟨rfl, rfl⟩ := pure_eq_ok.mp h
  obtain ⟨hlt, hrest⟩ := rest_of_number hv
  rw [Bytes.ofUInt32, UInt32.toNat_ofNat_of_lt' hlt, hrest]

theorem rest_of_uint64 {value : UInt64} (h : uint64 cursor = .ok (value, next)) :
    cursor.rest = Bytes.ofUInt64 value ++ next.rest := by
  obtain ⟨v, between, hv, h⟩ := bind_eq_ok.mp h
  obtain ⟨rfl, rfl⟩ := pure_eq_ok.mp h
  obtain ⟨hlt, hrest⟩ := rest_of_number hv
  rw [Bytes.ofUInt64, UInt64.toNat_ofNat_of_lt' hlt, hrest]

theorem rest_of_int32 {value : Int32} (h : int32 cursor = .ok (value, next)) :
    cursor.rest = Bytes.ofInt32 value ++ next.rest := by
  obtain ⟨v, between, hv, h⟩ := bind_eq_ok.mp h
  obtain ⟨rfl, rfl⟩ := pure_eq_ok.mp h
  exact rest_of_uint32 hv

theorem rest_of_int64 {value : Int64} (h : int64 cursor = .ok (value, next)) :
    cursor.rest = Bytes.ofInt64 value ++ next.rest := by
  obtain ⟨v, between, hv, h⟩ := bind_eq_ok.mp h
  obtain ⟨rfl, rfl⟩ := pure_eq_ok.mp h
  exact rest_of_uint64 hv

/-! ### Lists -/

/-- Several runs take what is written for their values, one after the other. -/
theorem rest_of_repeatedFrom {reader : Reader α} {write : α → Except ClassFault Bytes}
    (hr : reader.Restores write) {n : Nat} {found values : List α}
    (h : repeatedFrom reader n found cursor = .ok (values, next)) :
    ∃ more parts, values = found.reverse ++ more ∧ more.length = n ∧
      more.mapM write = .ok parts ∧ cursor.rest = parts.flatten ++ next.rest := by
  induction n generalizing found cursor with
  | zero =>
    obtain ⟨rfl, rfl⟩ := Prod.mk.inj (Except.ok.inj h)
    exact ⟨[], [], (List.append_nil _).symm, rfl, rfl, rfl⟩
  | succ n ih =>
    unfold repeatedFrom at h
    split at h
    · simp at h
    · rename_i value between hvalue
      obtain ⟨bytes, hbytes, hrest⟩ := hr cursor value between hvalue
      obtain ⟨more, parts, rfl, hlength, hparts, hrest'⟩ := ih h
      refine ⟨value :: more, bytes :: parts, ?_, ?_, ?_, ?_⟩
      · rw [List.reverse_cons, List.append_assoc]
        rfl
      · rw [List.length_cons, hlength]
      · exact Except.mapM_eq_ok.mpr (.cons hbytes (Except.mapM_eq_ok.mp hparts))
      · rw [hrest, hrest', List.flatten_cons, List.append_assoc]

/-- A list that was read is short enough to be written. -/
theorem listOf_eq_ok {write : α → Except ClassFault Bytes} {items : List α} {parts : List Bytes}
    {count : UInt16} (hc : items.length = count.toNat) (hp : items.mapM write = .ok parts) :
    Bytes.listOf write items = .ok (Bytes.ofUInt16 count ++ parts.flatten) := by
  refine Bytes.listOf_eq_ok_iff.mpr ⟨hc ▸ count.toNat_lt, parts, hp, ?_⟩
  rw [hc, UInt16.ofNat_toNat]

/-- A list of what is restored is restored. -/
theorem restores_list {reader : Reader α} {write : α → Except ClassFault Bytes}
    (hr : reader.Restores write) : (list reader).Restores (Bytes.listOf write) := by
  intro cursor values next h
  obtain ⟨count, between, hcount, h⟩ := bind_eq_ok.mp h
  obtain ⟨more, parts, rfl, hlength, hparts, hrest⟩ := rest_of_repeatedFrom hr h
  refine ⟨_, listOf_eq_ok hlength hparts, ?_⟩
  rw [rest_of_uint16 hcount, hrest, List.append_assoc]

end Reader

end ClassGraft

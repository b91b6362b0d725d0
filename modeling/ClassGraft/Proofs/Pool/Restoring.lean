import ClassGraft.Pool.File
import ClassGraft.Proofs.Bytes.Restoring
import Mathlib.Data.List.ReduceOption

/-!
# Pools that are written as they were read

`Pool.read` takes the bytes that `Pool.bytes` writes (`Pool.restores_read`).  Entries are read one
after the other, equal ones too, and each fills the slots that it takes (`Pool.rest_of_readSlots`).
-/

namespace ClassGraft.Pool

open Reader

variable {cursor next : Cursor}

/-! ### Entries -/

theorem Kind.tag_of_ofTag? {tag : UInt8} {kind : Kind} (h : Kind.ofTag? tag = some kind) :
    kind.tag = tag := by
  have hfound : (kind.tag == tag) = true :=
    @List.find?_some _ (fun kind : Kind => kind.tag == tag) _ _ h
  exact eq_of_beq hfound

/-- The body of an entry of one index is restored. -/
theorem Entry.exists_of_readIndex {make : UInt16 → Entry} {entry : Entry}
    (h : (uint16 >>= fun index => pure (make index) : Reader Entry) cursor = .ok (entry, next)) :
    ∃ index, entry = make index ∧ cursor.rest = Bytes.ofUInt16 index ++ next.rest := by
  obtain ⟨index, between, hindex, h⟩ := bind_eq_ok.mp h
  obtain ⟨rfl, rfl⟩ := pure_eq_ok.mp h
  exact ⟨index, rfl, rest_of_uint16 hindex⟩

/-- The body of an entry of two indices is restored. -/
theorem Entry.exists_of_readIndices {make : UInt16 → UInt16 → Entry} {entry : Entry}
    (h : (uint16 >>= fun first => uint16 >>= fun second => pure (make first second) :
      Reader Entry) cursor = .ok (entry, next)) :
    ∃ first second, entry = make first second ∧
      cursor.rest = Bytes.ofUInt16 first ++ Bytes.ofUInt16 second ++ next.rest := by
  obtain ⟨first, between, hfirst, h⟩ := bind_eq_ok.mp h
  obtain ⟨second, between', hsecond, h⟩ := bind_eq_ok.mp h
  obtain ⟨rfl, rfl⟩ := pure_eq_ok.mp h
  refine ⟨first, second, rfl, ?_⟩
  rw [rest_of_uint16 hfirst, rest_of_uint16 hsecond, List.append_assoc]

/-- The body of an entry of a kind is restored, and texts that were read can be written. -/
theorem Entry.rest_of_readBody {kind : Kind} {entry : Entry}
    (h : readBody kind cursor = .ok (entry, next)) :
    entry.kind = kind ∧ entry.oversize? = none ∧ cursor.rest = entry.body ++ next.rest := by
  cases kind with
  | utf8 =>
    obtain ⟨length, between, hlength, h⟩ := bind_eq_ok.mp h
    obtain ⟨bytes, between', hbytes, h⟩ := bind_eq_ok.mp h
    obtain ⟨rfl, rfl⟩ := pure_eq_ok.mp h
    obtain ⟨hn, hrest⟩ := rest_of_take hbytes
    -- its length was a number of two bytes
    have hlt := length.toNat_lt
    refine ⟨rfl, if_pos (show bytes.length < 65536 by omega), ?_⟩
    rw [rest_of_uint16 hlength, hrest, body, hn, UInt16.ofNat_toNat, List.append_assoc]
  | integer =>
    obtain ⟨value, between, hvalue, h⟩ := bind_eq_ok.mp h
    obtain ⟨rfl, rfl⟩ := pure_eq_ok.mp h
    exact ⟨rfl, rfl, rest_of_int32 hvalue⟩
  | float =>
    obtain ⟨bits, between, hbits, h⟩ := bind_eq_ok.mp h
    obtain ⟨rfl, rfl⟩ := pure_eq_ok.mp h
    exact ⟨rfl, rfl, rest_of_uint32 hbits⟩
  | long =>
    obtain ⟨value, between, hvalue, h⟩ := bind_eq_ok.mp h
    obtain ⟨rfl, rfl⟩ := pure_eq_ok.mp h
    exact ⟨rfl, rfl, rest_of_int64 hvalue⟩
  | double =>
    obtain ⟨bits, between, hbits, h⟩ := bind_eq_ok.mp h
    obtain ⟨rfl, rfl⟩ := pure_eq_ok.mp h
    exact ⟨rfl, rfl, rest_of_uint64 hbits⟩
  | methodHandle =>
    obtain ⟨use, between, huse, h⟩ := bind_eq_ok.mp h
    obtain ⟨target, between', htarget, h⟩ := bind_eq_ok.mp h
    obtain ⟨rfl, rfl⟩ := pure_eq_ok.mp h
    refine ⟨rfl, rfl, ?_⟩
    rw [rest_of_uint8 huse, rest_of_uint16 htarget]
    rfl
  | classRef | string | methodType | moduleRef | packageRef =>
    obtain ⟨index, rfl, hrest⟩ := exists_of_readIndex h
    exact ⟨rfl, rfl, hrest⟩
  | field | method | interfaceMethod | nameAndType | dynamic | invokeDynamic =>
    obtain ⟨first, second, rfl, hrest⟩ := exists_of_readIndices h
    exact ⟨rfl, rfl, hrest⟩

theorem Entry.rest_of_read {index : Nat} {entry : Entry}
    (h : Entry.read index cursor = .ok (entry, next)) :
    entry.oversize? = none ∧ cursor.rest = entry.bytes ++ next.rest := by
  obtain ⟨tag, between, htag, h⟩ := bind_eq_ok.mp h
  cases hkind : Kind.ofTag? tag with
  | none =>
    simp only [hkind] at h
    exact absurd h malformed_ne_ok
  | some kind =>
    simp only [hkind] at h
    obtain ⟨rfl, hsize, hrest⟩ := rest_of_readBody h
    refine ⟨hsize, ?_⟩
    rw [rest_of_uint8 htag, hrest, bytes, Kind.tag_of_ofTag? hkind]
    rfl

/-! ### Slots -/

theorem length_slotsOf (entry : Entry) : (slotsOf entry).length = entry.width := by
  unfold slotsOf Entry.width
  split_ifs <;> rfl

/-- One entry is read, and the others fill the slots that it does not take. -/
theorem exists_of_readSlots_succ {slots : Nat} {pool later : Pool}
    {hs : pool.slots.size + (slots + 1) < 65535}
    (h : readSlots (slots + 1) pool hs cursor = .ok (later, next)) :
    ∃ (entry : Entry) (between : Cursor) (rest : Nat) (hp : pool.slots.size + entry.width < 65535)
      (hr : (pool.push entry hp).slots.size + rest < 65535),
      Entry.read (pool.slots.size + 1) cursor = .ok (entry, between) ∧
      rest + entry.width = slots + 1 ∧
      readSlots rest (pool.push entry hp) hr between = .ok (later, next) := by
  cases slots with
  | zero =>
    unfold readSlots at h
    dsimp only at h
    split at h
    · simp at h
    · rename_i entry between hentry
      split_ifs at h with hw
      have hwidth : entry.width = 1 := by simp [Entry.width, hw]
      have hp : pool.slots.size + entry.width < 65535 := by omega
      refine ⟨entry, between, 0, hp, (pool.push entry hp).size_lt, hentry, by omega, h⟩
  | succ slots =>
    unfold readSlots at h
    split at h
    · simp at h
    · rename_i entry between hentry
      split_ifs at h with hw
      · exact ⟨entry, between, slots, _, _, hentry, by simp [Entry.width, hw], h⟩
      · exact ⟨entry, between, slots + 1, _, _, hentry, by simp [Entry.width, hw], h⟩

/-- Entries are read until they fill the slots, and are kept in order. -/
theorem rest_of_readSlots {slots : Nat} {pool later : Pool} {hs : pool.slots.size + slots < 65535}
    (h : readSlots slots pool hs cursor = .ok (later, next)) : ∃ entries : List Entry,
      later.slots.toList = pool.slots.toList ++ entries.flatMap slotsOf ∧
      (entries.flatMap slotsOf).length = slots ∧
      (∀ entry ∈ entries, entry.oversize? = none) ∧
      cursor.rest = entries.flatMap Entry.bytes ++ next.rest := by
  induction slots using Nat.strongRecOn generalizing pool cursor with
  | ind slots ih =>
    cases slots with
    | zero =>
      unfold readSlots at h
      obtain ⟨rfl, rfl⟩ := Prod.mk.inj (Except.ok.inj h)
      exact ⟨[], by simp, rfl, by simp, rfl⟩
    | succ slots =>
      obtain ⟨entry, between, rest, hp, hr, hentry, hwidth, h⟩ := exists_of_readSlots_succ h
      have hpos : 0 < entry.width := by
        unfold Entry.width
        split_ifs <;> decide
      obtain ⟨entries, hslots, hlength, hsizes, hrest⟩ := ih rest (by omega) h
      obtain ⟨hsize, hfirst⟩ := Entry.rest_of_read hentry
      refine ⟨entry :: entries, ?_, ?_, List.forall_mem_cons.mpr ⟨hsize, hsizes⟩, ?_⟩
      · rw [hslots, push, Array.toList_appendList, List.flatMap_cons, List.append_assoc]
      · rw [List.flatMap_cons, List.length_append, hlength, length_slotsOf, Nat.add_comm, hwidth]
      · rw [hfirst, hrest, List.flatMap_cons, List.append_assoc]

/-! ### The pool -/

theorem reduceOption_flatMap_slotsOf (entries : List Entry) :
    (entries.flatMap slotsOf).reduceOption = entries := by
  induction entries with
  | nil => rfl
  | cons entry entries ih =>
    rw [List.flatMap_cons, List.reduceOption_append, ih]
    unfold slotsOf
    split_ifs <;> rfl

/-- The pool that was read is written as it stood in the file. -/
theorem restores_read : Pool.read.Restores Pool.bytes := by
  intro cursor pool next h
  obtain ⟨count, between, hcount, h⟩ := Reader.bind_eq_ok.mp h
  obtain ⟨hne, h⟩ := guard_eq_ok.mp h
  obtain ⟨found, between', hfound, h⟩ := Reader.bind_eq_ok.mp h
  obtain ⟨entries, hslots, hlength, hsizes, hrest⟩ := rest_of_readSlots hfound
  have hpool : found = pool ∧ between' = next := by
    cases hfault : found.fault? with
    | none =>
      simp only [hfault] at h
      exact Reader.pure_eq_ok.mp h
    | some fault =>
      simp only [hfault] at h
      exact absurd h malformed_ne_ok
  obtain ⟨rfl, rfl⟩ := hpool
  have hslots : found.slots.toList = entries.flatMap slotsOf := hslots
  -- the number of slots that were filled is the one that was read
  have hcount' : found.count = count := by
    have hsize : found.slots.size + 1 = count.toNat := by
      have hpos : count.toNat ≠ 0 := fun h0 => hne (UInt16.toNat_inj.mp h0)
      rw [← Array.length_toList, hslots, hlength]
      omega
    rw [Pool.count, hsize, UInt16.ofNat_toNat]
  have hnone : entries.findSome? Entry.oversize? = none := List.findSome?_eq_none_iff.mpr hsizes
  refine ⟨Bytes.ofUInt16 count ++ entries.flatMap Entry.bytes, ?_, ?_⟩
  · unfold Pool.bytes
    dsimp only
    rw [hslots, reduceOption_flatMap_slotsOf, hnone, hcount']
  · rw [rest_of_uint16 hcount, hrest, List.append_assoc]

end ClassGraft.Pool

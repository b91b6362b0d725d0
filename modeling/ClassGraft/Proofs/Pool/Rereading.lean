import ClassGraft.Proofs.Bytes.Rereading
import ClassGraft.Proofs.Pool.Soundness

/-!
# Pools that are read back

A sound pool that was written is read back with the same entry in every slot
(`Pool.exists_takes_read`): each entry is read back from its bytes, and the pool that is read has all
that its entries refer to, as the one that was written did.
-/

namespace ClassGraft.Pool

open Reader

variable {pool again : Pool} {entry : Entry}

/-! ### Entries -/

theorem Entry.takes_readBody (h : entry.oversize? = none) (offset : Nat) :
    (readBody entry.kind).Takes offset entry.body entry := by
  -- an entry of one index, and one of two
  have one : ∀ {make : UInt16 → Entry} (index : UInt16),
      (uint16 >>= fun index => pure (make index) : Reader Entry).Takes offset
        (Bytes.ofUInt16 index) (make index) :=
    fun index => (takes_uint16 index offset).bind_nil (takes_pure _ _)
  have two : ∀ {make : UInt16 → UInt16 → Entry} (first second : UInt16),
      (uint16 >>= fun first => uint16 >>= fun second => pure (make first second) :
        Reader Entry).Takes offset (Bytes.ofUInt16 first ++ Bytes.ofUInt16 second)
          (make first second) :=
    fun first second => (takes_uint16 first offset).bind
      ((takes_uint16 second _).bind_nil (takes_pure _ _))
  cases entry with
  | utf8 bytes =>
    have hlength : bytes.length < 65536 := by
      by_contra hlong
      simp [oversize?, hlong] at h
    refine (takes_uint16 _ offset).bind ?_
    rw [UInt16.toNat_ofNat_of_lt' hlength]
    exact (takes_take bytes _).bind_nil (takes_pure _ _)
  | integer value => exact (takes_int32 value offset).bind_nil (takes_pure _ _)
  | float bits => exact (takes_uint32 bits offset).bind_nil (takes_pure _ _)
  | long value => exact (takes_int64 value offset).bind_nil (takes_pure _ _)
  | double bits => exact (takes_uint64 bits offset).bind_nil (takes_pure _ _)
  | methodHandle use target =>
    exact (takes_uint8 use offset).bind ((takes_uint16 target _).bind_nil (takes_pure _ _))
  | named kind text => cases kind <;> exact one text
  | nameAndType name descriptor => exact two name descriptor
  | member kind owner signature => cases kind <;> exact two owner signature
  | dynamic kind bootstrap signature => cases kind <;> exact two bootstrap signature

theorem Entry.takes_read (h : entry.oversize? = none) (index offset : Nat) :
    (Entry.read index).Takes offset entry.bytes entry := by
  refine (takes_uint8 entry.kind.tag offset).bind ?_
  simp only [Kind.ofTag?_tag]
  exact takes_readBody h _

/-! ### Slots -/

/-- An entry that is read fills the slots that it takes. -/
theorem readSlots_of_read {slots rest : Nat} {hs : pool.slots.size + slots < 65535}
    {cursor next : Cursor} (hw : rest + entry.width = slots)
    (he : Entry.read (pool.slots.size + 1) cursor = .ok (entry, next)) :
    ∃ (hp : pool.slots.size + entry.width < 65535)
      (hr : (pool.push entry hp).slots.size + rest < 65535),
      readSlots slots pool hs cursor = readSlots rest (pool.push entry hp) hr next := by
  have hp : pool.slots.size + entry.width < 65535 := by omega
  have hr : (pool.push entry hp).slots.size + rest < 65535 := by
    rw [← Array.length_toList, slots_push, List.length_append, Array.length_toList, length_slotsOf]
    omega
  refine ⟨hp, hr, ?_⟩
  cases hwide : entry.isWide with
  | true =>
    obtain rfl : slots = rest + 2 := by simpa [Entry.width, hwide] using hw.symm
    rw [readSlots]
    simp only [he, hwide, dif_pos]
  | false =>
    obtain rfl : slots = rest + 1 := by simpa [Entry.width, hwide] using hw.symm
    cases rest with
    | zero =>
      unfold readSlots
      simp only [he]
      exact dif_neg (by simp [hwide])
    | succ rest =>
      rw [readSlots]
      simp only [he]
      exact dif_neg (by simp [hwide])

/-- Entries are read back one after the other, and fill the slots that are left. -/
theorem exists_takes_readSlots {entries : List Entry}
    (h : ∀ entry ∈ entries, entry.oversize? = none) {slots : Nat}
    (hl : (entries.flatMap slotsOf).length = slots) (hs : pool.slots.size + slots < 65535)
    (offset : Nat) : ∃ again : Pool,
      again.slots.toList = pool.slots.toList ++ entries.flatMap slotsOf ∧
      (readSlots slots pool hs).Takes offset (entries.flatMap Entry.bytes) again := by
  induction entries generalizing pool slots offset with
  | nil =>
    obtain rfl : 0 = slots := hl
    refine ⟨pool, (List.append_nil _).symm, fun rest => ?_⟩
    unfold readSlots
    rfl
  | cons entry entries ih =>
    obtain ⟨hfirst, hrest⟩ := List.forall_mem_cons.mp h
    rw [List.flatMap_cons, List.length_append, length_slotsOf, Nat.add_comm] at hl
    have htakes := Entry.takes_read hfirst (pool.slots.size + 1) offset
    obtain ⟨hp, hr, -⟩ := @readSlots_of_read _ _ _ _ hs _ _ hl (htakes [])
    obtain ⟨again, hslots, hmore⟩ := ih hrest rfl hr (offset + entry.bytes.length)
    refine ⟨again, ?_, fun rest => ?_⟩
    · rw [hslots, slots_push, List.flatMap_cons, List.append_assoc]
    · obtain ⟨hp', hr', hread⟩ :=
        @readSlots_of_read _ _ _ _ hs _ _ hl (htakes (entries.flatMap Entry.bytes ++ rest))
      rw [List.flatMap_cons, List.append_assoc, hread, hmore rest, List.length_append,
        Nat.add_assoc]

/-! ### The pool -/

/-- What an index leads to depends on the slots alone. -/
theorem grows_of_slots_eq (h : again.slots = pool.slots) : pool.Grows again := by
  intro index entry hget
  rwa [get, h]

theorem toNat_count (pool : Pool) : pool.count.toNat = pool.slots.size + 1 :=
  UInt16.toNat_ofNat_of_lt' (Nat.succ_lt_succ pool.size_lt)

/-- A sound pool is read back from what is written for it, slot by slot. -/
theorem exists_takes_read (hs : pool.IsSound) {bytes : Bytes} (h : pool.bytes = .ok bytes)
    (offset : Nat) : ∃ again : Pool, again.slots = pool.slots ∧
      Pool.read.Takes offset bytes again := by
  obtain ⟨entries, hslots⟩ := hs.slots
  unfold Pool.bytes at h
  dsimp only at h
  rw [hslots, reduceOption_flatMap_slotsOf] at h
  split at h
  · nomatch h
  · rename_i hsizes
    obtain rfl := Except.ok.inj h
    have hlength : (entries.flatMap slotsOf).length = pool.count.toNat - 1 := by
      rw [← hslots, Array.length_toList, toNat_count, Nat.add_sub_cancel]
    have hroom : empty.slots.size + (pool.count.toNat - 1) < 65535 := by
      rw [toNat_count, Nat.add_sub_cancel]
      simpa [empty] using pool.size_lt
    obtain ⟨again, hagain, htakes⟩ := exists_takes_readSlots
      (List.findSome?_eq_none_iff.mp hsizes) hlength hroom
      (offset + (Bytes.ofUInt16 pool.count).length)
    have hsame : again.slots = pool.slots := Array.toList_inj.mp (hagain.trans hslots.symm)
    -- The references are those of the old pool, in which they are sound.
    have hfault : again.fault? = none := by
      refine fault?_eq_none.mpr fun index entry hget => ?_
      have hold := grows_of_slots_eq hsame.symm index entry hget
      exact (grows_of_slots_eq hsame).hasReferences (hs.references index entry hold)
    refine ⟨again, hsame, (takes_uint16 pool.count offset).bind ?_⟩
    rw [if_neg fun hzero => ?_]
    · refine htakes.bind_nil ?_
      simp only [hfault]
      exact takes_pure _ _
    · have hcount := pool.toNat_count
      rw [hzero] at hcount
      exact absurd hcount (by simp)

end ClassGraft.Pool

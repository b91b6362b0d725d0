import ClassGraft.Proofs.Pool.Growth
import ClassGraft.Proofs.Pool.Restoring

/-!
# Pools that can be read

A pool that was read is sound: its slots are those of entries, and each entry has what it refers to
(`Pool.isSound_of_read`).  Where it grows, its slots stay in front of the new ones
(`IsSound.prefix_of_grows`).  In such a pool a constant for a member names one
(`IsSound.exists_member`), so what an index that leads to a constant stands for does not change when
others are added, whether that is a member or not (`IsSound.member_of_grows`).
-/

namespace ClassGraft.Pool

variable {pool later : Pool} {index : UInt16} {entry : Entry}

theorem mem_entries {number : Nat} :
    (number, entry) ∈ pool.entries ↔
      ∃ position : Nat, pool.slots[position]? = some (some entry) ∧ number = position + 1 := by
  unfold entries
  rw [List.mem_filterMap]
  constructor
  · rintro ⟨⟨slot, position⟩, hmem, h⟩
    obtain ⟨found, rfl, hpair⟩ := Option.map_eq_some_iff.mp h
    obtain ⟨rfl, rfl⟩ := Prod.mk.inj hpair
    rw [List.mem_zipIdx_iff_getElem?, Array.getElem?_toList] at hmem
    exact ⟨position, hmem, rfl⟩
  · rintro ⟨position, h, rfl⟩
    refine ⟨(some entry, position), ?_, rfl⟩
    rw [List.mem_zipIdx_iff_getElem?, Array.getElem?_toList]
    exact h

theorem get_eq_some : pool.get index = some entry ↔
    index ≠ 0 ∧ pool.slots[index.toNat - 1]? = some (some entry) := by
  unfold get
  split_ifs with hz
  · simp [hz]
  · simp [hz, Option.join_eq_some_iff]

/-- The entries are what the indices lead to. -/
theorem forall_entries {P : Entry → Prop} :
    (∀ row ∈ pool.entries, P row.2) ↔ ∀ index entry, pool.get index = some entry → P entry := by
  constructor
  · intro h index entry hget
    obtain ⟨-, hat⟩ := get_eq_some.mp hget
    exact h (index.toNat - 1 + 1, entry) (mem_entries.mpr ⟨_, hat, rfl⟩)
  · rintro h ⟨number, entry⟩ hrow
    obtain ⟨position, hat, -⟩ := mem_entries.mp hrow
    have hlt : position < pool.slots.size := (Array.getElem?_eq_some_iff.mp hat).1
    have hsize := pool.size_lt
    refine h (UInt16.ofNat (position + 1)) entry ?_
    rw [get_ofNat (by omega), hat]
    rfl

theorem referenceFault?_eq_none {number : Nat} {reference : Reference} :
    pool.referenceFault? number entry reference = none ↔
      ∃ found, pool.get reference.target = some found ∧ found.kind ∈ reference.kinds := by
  unfold referenceFault?
  cases pool.get reference.target with
  | none => simp
  | some found => simp

theorem entryFault?_eq_none {number : Nat} :
    pool.entryFault? number entry = none ↔ pool.HasReferences entry := by
  unfold entryFault? HasReferences
  cases hr : entry.references? with
  | none =>
    -- only a handle may have no references that are known
    cases entry with
    | methodHandle use target => simp
    | _ => simp [Entry.references?] at hr
  | some references =>
    have hall : references.findSome? (pool.referenceFault? number entry) = none ↔
        ∀ reference ∈ references, ∃ found,
          pool.get reference.target = some found ∧ found.kind ∈ reference.kinds := by
      rw [List.findSome?_eq_none_iff]
      exact forall₂_congr fun reference _ => referenceFault?_eq_none
    cases entry <;> simpa using hall

/-- A pool is refused unless all entries have what they refer to. -/
theorem fault?_eq_none :
    pool.fault? = none ↔ ∀ index entry, pool.get index = some entry → pool.HasReferences entry := by
  rw [fault?, List.findSome?_eq_none_iff, ← forall_entries]
  exact forall₂_congr fun row _ => entryFault?_eq_none

/-- What was read is sound. -/
theorem isSound_of_read {cursor next : Cursor} (h : Pool.read cursor = .ok (pool, next)) :
    pool.IsSound := by
  obtain ⟨count, between, hcount, h⟩ := Reader.bind_eq_ok.mp h
  obtain ⟨hne, h⟩ := Reader.guard_eq_ok.mp h
  obtain ⟨found, between', hfound, h⟩ := Reader.bind_eq_ok.mp h
  obtain ⟨entries, hslots, -⟩ := rest_of_readSlots hfound
  cases hfault : found.fault? with
  | some fault =>
    simp only [hfault] at h
    exact absurd h Reader.malformed_ne_ok
  | none =>
    simp only [hfault] at h
    obtain ⟨rfl, rfl⟩ := Reader.pure_eq_ok.mp h
    exact ⟨⟨entries, hslots⟩, fault?_eq_none.mp hfault⟩

/-! ### Slots -/

theorem head?_slotsOf (entry : Entry) (rest : List (Option Entry)) :
    (slotsOf entry ++ rest)[0]? = some (some entry) := by
  unfold slotsOf
  split_ifs <;> rfl

/-- Slots of entries are followed by more if each entry is still at its place. -/
theorem flatMap_slotsOf_prefix {entries others : List Entry}
    (h : ∀ (position : Nat) (entry : Entry),
      (entries.flatMap slotsOf)[position]? = some (some entry) →
      (others.flatMap slotsOf)[position]? = some (some entry)) :
    entries.flatMap slotsOf <+: others.flatMap slotsOf := by
  induction entries generalizing others with
  | nil => exact List.nil_prefix
  | cons entry rest ih =>
    have hfirst := h 0 entry (head?_slotsOf entry _)
    cases others with
    | nil => nomatch hfirst
    | cons other others =>
      rw [List.flatMap_cons, head?_slotsOf] at hfirst
      obtain rfl := Option.some.inj (Option.some.inj hfirst)
      rw [List.flatMap_cons, List.flatMap_cons, List.prefix_append_right_inj]
      refine ih fun position found hfound => ?_
      have hlater := h ((slotsOf other).length + position) found
      rw [List.flatMap_cons, List.flatMap_cons, List.getElem?_append_right (Nat.le_add_right _ _),
        List.getElem?_append_right (Nat.le_add_right _ _), Nat.add_sub_cancel_left] at hlater
      exact hlater hfound

/-- A pool that grew has the slots of the one before, followed by those of what was added. -/
theorem IsSound.prefix_of_grows (h : pool.IsSound) (hl : later.IsSound) (hg : pool.Grows later) :
    pool.slots.toList <+: later.slots.toList := by
  obtain ⟨entries, hentries⟩ := h.slots
  obtain ⟨others, hothers⟩ := hl.slots
  have hkeeps : ∀ (position : Nat) (entry : Entry),
      pool.slots.toList[position]? = some (some entry) →
        later.slots.toList[position]? = some (some entry) := by
    intro position entry hposition
    have hlt := (List.getElem?_eq_some_iff.mp hposition).1
    have hsize := pool.size_lt
    rw [Array.length_toList] at hlt
    rw [Array.getElem?_toList] at hposition ⊢
    have hget := hg (UInt16.ofNat (position + 1)) entry
    rw [get_ofNat (by omega), get_ofNat (by omega), hposition] at hget
    exact Option.join_eq_some_iff.mp (hget rfl)
  rw [hentries, hothers] at hkeeps ⊢
  exact flatMap_slotsOf_prefix hkeeps

/-! ### What constants stand for -/

namespace Entry

theorem exists_of_kind_utf8 (h : entry.kind = .utf8) : ∃ bytes, entry = .utf8 bytes := by
  cases entry with
  | utf8 bytes => exact ⟨bytes, rfl⟩
  | named kind _ | member kind _ _ | dynamic kind _ _ => cases kind <;> nomatch h
  | _ => nomatch h

theorem exists_of_kind_classRef (h : entry.kind = .classRef) :
    ∃ text, entry = .named .classRef text := by
  cases entry with
  | named kind text =>
    cases kind with
    | classRef => exact ⟨text, rfl⟩
    | _ => nomatch h
  | member kind _ _ | dynamic kind _ _ => cases kind <;> nomatch h
  | _ => nomatch h

theorem exists_of_kind_nameAndType (h : entry.kind = .nameAndType) :
    ∃ name descriptor, entry = .nameAndType name descriptor := by
  cases entry with
  | nameAndType name descriptor => exact ⟨name, descriptor, rfl⟩
  | named kind _ | member kind _ _ | dynamic kind _ _ => cases kind <;> nomatch h
  | _ => nomatch h

end Entry

namespace IsSound

/-- What an entry refers to first is there. -/
theorem exists_reference (hs : pool.IsSound) (h : pool.get index = some entry)
    {references : List Reference} (hr : entry.references? = some references)
    {reference : Reference} (hin : reference ∈ references) :
    ∃ found, pool.get reference.target = some found ∧ found.kind ∈ reference.kinds := by
  obtain ⟨others, ho, hall⟩ := hs.references index entry h
  obtain rfl := Option.some.inj (hr.symm.trans ho)
  exact hall reference hin

/-- What the text of a named constant leads to. -/
theorem exists_utf8 (hs : pool.IsSound) {kind : NamedKind} {text : UInt16}
    (h : pool.get index = some (.named kind text)) : ∃ bytes, pool.utf8 text = some bytes := by
  obtain ⟨found, hfound, hkind⟩ := hs.exists_reference h rfl (List.mem_singleton.mpr rfl)
  obtain ⟨bytes, rfl⟩ := Entry.exists_of_kind_utf8 (List.mem_singleton.mp hkind)
  exact ⟨bytes, by rw [utf8, hfound]⟩

theorem exists_nameAndType (hs : pool.IsSound) {name descriptor : UInt16}
    (h : pool.get index = some (.nameAndType name descriptor)) :
    ∃ names, pool.nameAndType index = some names := by
  obtain ⟨first, hfirst, hkind⟩ := hs.exists_reference h rfl List.mem_cons_self
  obtain ⟨second, hsecond, hkind'⟩ := hs.exists_reference h rfl
    (List.mem_cons_of_mem _ (List.mem_singleton.mpr rfl))
  obtain ⟨bytes, rfl⟩ := Entry.exists_of_kind_utf8 (List.mem_singleton.mp hkind)
  obtain ⟨bytes', rfl⟩ := Entry.exists_of_kind_utf8 (List.mem_singleton.mp hkind')
  refine ⟨(bytes, bytes'), ?_⟩
  simp only [nameAndType, h, utf8, hfirst, hsecond]
  rfl

/-- A constant for a member names one. -/
theorem exists_member (hs : pool.IsSound) {kind : MemberKind} {owner signature : UInt16}
    (h : pool.get index = some (.member kind owner signature)) :
    ∃ member, pool.member index = some member := by
  obtain ⟨first, hfirst, hkind⟩ := hs.exists_reference h rfl List.mem_cons_self
  obtain ⟨second, hsecond, hkind'⟩ := hs.exists_reference h rfl
    (List.mem_cons_of_mem _ (List.mem_singleton.mpr rfl))
  obtain ⟨text, rfl⟩ := Entry.exists_of_kind_classRef (List.mem_singleton.mp hkind)
  obtain ⟨name, descriptor, rfl⟩ := Entry.exists_of_kind_nameAndType (List.mem_singleton.mp hkind')
  obtain ⟨bytes, hbytes⟩ := hs.exists_utf8 hfirst
  obtain ⟨names, hnames⟩ := hs.exists_nameAndType hsecond
  have hclass : pool.className owner = some bytes := by
    rw [className, hfirst]
    exact hbytes
  refine ⟨⟨kind, bytes, names.1, names.2⟩, ?_⟩
  simp only [member, h, hclass, hnames]
  rfl

/-- Whether an index that leads to a constant stands for a member does not change when others are
added. -/
theorem member_of_grows (hs : pool.IsSound) (hg : pool.Grows later)
    (h : pool.get index = some entry) : later.member index = pool.member index := by
  have hlater := hg index entry h
  cases hmember : pool.member index with
  | some member => exact hg.member hmember
  | none =>
    cases entry with
    | member kind owner signature =>
      obtain ⟨member, hfound⟩ := hs.exists_member h
      exact absurd (hmember.symm.trans hfound) (by simp)
    | _ => simp only [member, hlater]

end IsSound

end ClassGraft.Pool

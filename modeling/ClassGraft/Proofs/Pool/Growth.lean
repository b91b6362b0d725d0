import ClassGraft.Pool.File
import ClassGraft.Pool.Intern
import ClassGraft.Proofs.Outcome
import Mathlib.Tactic.SplitIfs

/-!
# Pools that grow

A pool is only ever extended, so what an index stands for stays (`Pool.Grows`), and by entries that
have what they refer to (`Pool.Extends`).  The index that an interning step gives stands for what
was interned, in the pool that it leaves and in every later one.
-/

namespace ClassGraft

namespace Pool

variable {pool later : Pool} {entry : Entry} {index : UInt16}

/-- Whether every entry is still there, at its index. -/
def Grows (pool later : Pool) : Prop :=
  ∀ index entry, pool.get index = some entry → later.get index = some entry

theorem Grows.refl (pool : Pool) : Grows pool pool := fun _ _ h => h

theorem Grows.trans {last : Pool} (h : Grows pool later) (h' : Grows later last) :
    Grows pool last :=
  fun index entry he => h' index entry (h index entry he)

/-! ### Adding an entry -/

/-- The index of a slot, one more than its position. -/
theorem get_ofNat {position : Nat} (hp : position < 65535) :
    pool.get (UInt16.ofNat (position + 1)) = (pool.slots[position]?).join := by
  have hn : (UInt16.ofNat (position + 1)).toNat = position + 1 :=
    UInt16.toNat_ofNat_of_lt' (show position + 1 < 65536 by omega)
  have hne : UInt16.ofNat (position + 1) ≠ 0 := by
    intro h
    rw [h] at hn
    simp at hn
  rw [get, if_neg hne, hn, Nat.add_sub_cancel]

theorem slots_push (h : pool.slots.size + entry.width < 65535) :
    (pool.push entry h).slots.toList = pool.slots.toList ++ slotsOf entry := by
  rw [push, Array.toList_appendList]

theorem getElem?_slots_push (h : pool.slots.size + entry.width < 65535) :
    (pool.push entry h).slots[pool.slots.size]? = some (some entry) := by
  rw [← Array.getElem?_toList, slots_push, ← Array.length_toList,
    List.getElem?_append_right (Nat.le_refl _), Nat.sub_self]
  unfold slotsOf
  split_ifs
  · rfl
  · rfl

theorem grows_push (h : pool.slots.size + entry.width < 65535) :
    pool.Grows (pool.push entry h) := by
  intro index other hother
  unfold get at hother ⊢
  split_ifs at hother ⊢ with hz
  rw [Option.join_eq_some_iff, ← Array.getElem?_toList] at hother
  rw [Option.join_eq_some_iff, ← Array.getElem?_toList, slots_push,
    List.getElem?_append_left (List.getElem?_eq_some_iff.mp hother).1]
  exact hother

/-- Whether an entry was there or not, the pool has it at the index that is given, and keeps all
others. -/
theorem add_spec (h : pool.add entry = (.ok index, later)) :
    pool.Grows later ∧ later.get index = some entry := by
  unfold add at h
  split at h
  · rename_i position hfound
    obtain ⟨hindex, rfl⟩ := Prod.mk.inj h
    obtain rfl := Except.ok.inj hindex
    rw [pool.first_eq, List.findIdx?_eq_some_iff_getElem] at hfound
    obtain ⟨hlt, hentry, -⟩ := hfound
    have hsize := pool.size_lt
    rw [Array.length_toList] at hlt
    refine ⟨.refl pool, ?_⟩
    rw [get_ofNat (by omega), Option.join_eq_some_iff, ← Array.getElem?_toList]
    exact List.getElem?_eq_some_iff.mpr ⟨_, eq_of_beq hentry⟩
  · dsimp only at h
    split_ifs at h with hfits
    · obtain ⟨hindex, rfl⟩ := Prod.mk.inj h
      obtain rfl := Except.ok.inj hindex
      have hsize := pool.size_lt
      refine ⟨grows_push hfits, ?_⟩
      rw [get_ofNat (by omega), getElem?_slots_push]
      rfl
    · simp at h

/-- An entry that is there is not added again. -/
theorem add_of_findIdx?_eq_some {position : Nat}
    (h : pool.slots.toList.findIdx? (· == some entry) = some position) :
    pool.add entry = (.ok (UInt16.ofNat (position + 1)), pool) := by
  rw [add, pool.first_eq, h]

theorem add_of_findIdx?_eq_none (h : pool.slots.toList.findIdx? (· == some entry) = none)
    (hs : pool.slots.size + entry.width < 65535) :
    pool.add entry = (.ok (UInt16.ofNat (pool.slots.size + 1)), pool.push entry hs) := by
  rw [add, pool.first_eq, h]
  exact dif_pos hs

/-! ### References -/

/-- Whether all that an entry refers to is there, and of a kind that it may refer to. -/
def HasReferences (pool : Pool) (entry : Entry) : Prop :=
  ∃ references, entry.references? = some references ∧ ∀ reference ∈ references,
    ∃ found, pool.get reference.target = some found ∧ found.kind ∈ reference.kinds

theorem Grows.hasReferences (hg : pool.Grows later) (h : pool.HasReferences entry) :
    later.HasReferences entry := by
  obtain ⟨references, hr, hall⟩ := h
  refine ⟨references, hr, fun reference hin => ?_⟩
  obtain ⟨found, hfound, hkind⟩ := hall reference hin
  exact ⟨found, hg _ _ hfound, hkind⟩

/-- Whether a pool is one that can be read: its slots are those of entries, and these have what they
refer to. -/
structure IsSound (pool : Pool) : Prop where
  slots : ∃ entries : List Entry, pool.slots.toList = entries.flatMap slotsOf
  references : ∀ index entry, pool.get index = some entry → pool.HasReferences entry

/-- Whether a pool grew to another one by entries that have what they refer to. -/
structure Extends (pool later : Pool) : Prop where
  grows : pool.Grows later
  sound : pool.IsSound → later.IsSound

theorem Extends.refl (pool : Pool) : pool.Extends pool := ⟨.refl pool, id⟩

theorem Extends.trans {last : Pool} (h : pool.Extends later) (h' : later.Extends last) :
    pool.Extends last :=
  ⟨h.grows.trans h'.grows, h'.sound ∘ h.sound⟩

/-- What is there after an entry was appended. -/
theorem get_push (h : pool.slots.size + entry.width < 65535) {other : Entry}
    (ho : (pool.push entry h).get index = some other) :
    pool.get index = some other ∨ other = entry := by
  unfold get at ho ⊢
  split_ifs at ho ⊢ with hz
  rw [Option.join_eq_some_iff, ← Array.getElem?_toList, slots_push] at ho
  by_cases hlt : index.toNat - 1 < pool.slots.toList.length
  · rw [List.getElem?_append_left hlt] at ho
    refine .inl ?_
    rw [Option.join_eq_some_iff, ← Array.getElem?_toList]
    exact ho
  · rw [List.getElem?_append_right (Nat.le_of_not_lt hlt)] at ho
    have hmem := List.mem_of_getElem? ho
    unfold slotsOf at hmem
    split_ifs at hmem <;> simp_all

/-- An entry that has what it refers to may be added. -/
theorem extends_add (h : pool.add entry = (.ok index, later)) (hr : pool.HasReferences entry) :
    pool.Extends later := by
  refine ⟨(add_spec h).1, fun hs => ?_⟩
  unfold add at h
  split at h
  · exact (Prod.mk.inj h).2 ▸ hs
  · dsimp only at h
    split_ifs at h with hfits
    · obtain ⟨-, rfl⟩ := Prod.mk.inj h
      have hg : pool.Grows (pool.push entry hfits) := grows_push hfits
      obtain ⟨entries, hslots⟩ := hs.slots
      refine ⟨⟨entries ++ [entry], ?_⟩, fun index other ho => ?_⟩
      · rw [slots_push, hslots, List.flatMap_append, List.flatMap_singleton]
      · rcases get_push hfits ho with hold | rfl
        · exact hg.hasReferences (hs.references index other hold)
        · exact hg.hasReferences hr
    · simp at h

/-! ### What an index stands for -/

theorem get_of_utf8 {bytes : Bytes} (h : pool.utf8 index = some bytes) :
    pool.get index = some (.utf8 bytes) := by
  unfold Pool.utf8 at h
  split at h
  · rename_i found hfound
    rw [hfound, Option.some.inj h]
  · simp at h

theorem Grows.utf8 (hg : pool.Grows later) {bytes : Bytes} (h : pool.utf8 index = some bytes) :
    later.utf8 index = some bytes := by
  unfold Pool.utf8 at h ⊢
  split at h
  · rename_i found hfound
    rw [hg index _ hfound]
    exact h
  · simp at h

theorem Grows.isSome_utf8 (hg : pool.Grows later) (h : (pool.utf8 index).isSome) :
    (later.utf8 index).isSome := by
  obtain ⟨bytes, hbytes⟩ := Option.isSome_iff_exists.mp h
  exact Option.isSome_of_eq_some (hg.utf8 hbytes)

/-- A text spells what it did. -/
theorem Grows.utf8Is_eq (hg : pool.Grows later) (h : (pool.utf8 index).isSome) (text : String) :
    later.utf8Is index text = pool.utf8Is index text := by
  obtain ⟨bytes, hbytes⟩ := Option.isSome_iff_exists.mp h
  rw [Pool.utf8Is, hg.utf8 hbytes, Pool.utf8Is, hbytes]

theorem isSome_of_utf8Is {text : String} (h : pool.utf8Is index text = true) :
    (pool.utf8 index).isSome := by
  unfold Pool.utf8Is at h
  split at h
  · rename_i hbytes
    exact Option.isSome_of_eq_some hbytes
  · simp at h

theorem utf8Is_of_encode {text : String} (h : pool.utf8 index = some (ModifiedUtf8.encode text)) :
    pool.utf8Is index text = true := by
  rw [Pool.utf8Is, h]
  simp

theorem Grows.isClass (hg : pool.Grows later) (h : pool.isClass index = true) :
    later.isClass index = true := by
  unfold Pool.isClass at h ⊢
  split at h
  · rename_i text hfound
    rw [hg index _ hfound]
  · simp at h

theorem Grows.className (hg : pool.Grows later) {name : Bytes}
    (h : pool.className index = some name) : later.className index = some name := by
  unfold Pool.className at h ⊢
  split at h
  · rename_i text hfound
    rw [hg index _ hfound]
    exact hg.utf8 h
  · simp at h

theorem get_of_className {name : Bytes} (h : pool.className index = some name) :
    ∃ text, pool.get index = some (.named .classRef text) := by
  unfold Pool.className at h
  split at h
  · rename_i text hfound
    exact ⟨text, hfound⟩
  · simp at h

theorem get_of_nameAndType {names : Bytes × Bytes} (h : pool.nameAndType index = some names) :
    ∃ name descriptor, pool.get index = some (.nameAndType name descriptor) := by
  unfold Pool.nameAndType at h
  split at h
  · rename_i name descriptor hfound
    exact ⟨name, descriptor, hfound⟩
  · simp at h

theorem Grows.nameAndType (hg : pool.Grows later) {names : Bytes × Bytes}
    (h : pool.nameAndType index = some names) : later.nameAndType index = some names := by
  unfold Pool.nameAndType at h ⊢
  split at h
  · rename_i name descriptor hfound
    rw [hg index _ hfound]
    obtain ⟨first, hfirst, h⟩ := Option.bind_eq_some_iff.mp h
    obtain ⟨second, hsecond, h⟩ := Option.bind_eq_some_iff.mp h
    exact Option.bind_eq_some_iff.mpr ⟨first, hg.utf8 hfirst,
      Option.bind_eq_some_iff.mpr ⟨second, hg.utf8 hsecond, h⟩⟩
  · simp at h

theorem Grows.member (hg : pool.Grows later) {member : Member}
    (h : pool.member index = some member) : later.member index = some member := by
  unfold Pool.member at h ⊢
  split at h
  · rename_i kind owner signature hfound
    rw [hg index _ hfound]
    obtain ⟨owned, howned, h⟩ := Option.bind_eq_some_iff.mp h
    obtain ⟨names, hnames, h⟩ := Option.bind_eq_some_iff.mp h
    exact Option.bind_eq_some_iff.mpr ⟨owned, hg.className howned,
      Option.bind_eq_some_iff.mpr ⟨names, hg.nameAndType hnames, h⟩⟩
  · simp at h

theorem Grows.dynamic (hg : pool.Grows later) {names : Bytes × Bytes}
    (h : pool.dynamic index = some names) : later.dynamic index = some names := by
  unfold Pool.dynamic at h ⊢
  split at h
  · rename_i kind bootstrap signature hfound
    rw [hg index _ hfound]
    exact hg.nameAndType h
  · simp at h

end Pool

namespace Interning

variable {pool later : Pool} {index : UInt16}

theorem utf8Bytes_spec {bytes : Bytes} (h : utf8Bytes bytes pool = (.ok index, later)) :
    pool.Extends later ∧ later.utf8 index = some bytes := by
  refine ⟨Pool.extends_add h ⟨[], rfl, by simp⟩, ?_⟩
  rw [Pool.utf8, (Pool.add_spec h).2]

/-- A constant that gives a text another meaning. -/
theorem named_spec {kind : Pool.NamedKind} {bytes : Bytes}
    (h : (do entry (.named kind (← utf8Bytes bytes)) : Interning UInt16) pool =
      (.ok index, later)) :
    pool.Extends later ∧ ∃ text, later.get index = some (.named kind text) ∧
      later.utf8 text = some bytes := by
  obtain ⟨text, between, htext, h⟩ := ExceptT.bind_eq_ok.mp h
  obtain ⟨hx, hu⟩ := utf8Bytes_spec htext
  obtain ⟨hg, he⟩ := Pool.add_spec h
  refine ⟨hx.trans (Pool.extends_add h ⟨_, rfl, ?_⟩), text, he, hg.utf8 hu⟩
  intro reference hr
  obtain rfl := List.mem_singleton.mp hr
  exact ⟨_, Pool.get_of_utf8 hu, List.mem_singleton.mpr rfl⟩

theorem classBytes_spec {name : Bytes} (h : classBytes name pool = (.ok index, later)) :
    pool.Extends later ∧ later.className index = some name := by
  obtain ⟨hx, text, he, hu⟩ := named_spec h
  refine ⟨hx, ?_⟩
  rw [Pool.className, he]
  exact hu

theorem classRef_spec {name : String} (h : classRef name pool = (.ok index, later)) :
    pool.Extends later ∧ later.className index = some (ModifiedUtf8.encode name) :=
  classBytes_spec h

theorem nameAndType_spec {name descriptor : String}
    (h : nameAndType name descriptor pool = (.ok index, later)) :
    pool.Extends later ∧ later.nameAndType index =
      some (ModifiedUtf8.encode name, ModifiedUtf8.encode descriptor) := by
  obtain ⟨first, between, hfirst, h⟩ := ExceptT.bind_eq_ok.mp h
  obtain ⟨second, between', hsecond, h⟩ := ExceptT.bind_eq_ok.mp h
  obtain ⟨hx, hname⟩ := utf8Bytes_spec hfirst
  obtain ⟨hx', hdescriptor⟩ := utf8Bytes_spec hsecond
  obtain ⟨hg, he⟩ := Pool.add_spec h
  have hname' := hx'.grows.utf8 hname
  refine ⟨(hx.trans hx').trans (Pool.extends_add h ⟨_, rfl, ?_⟩), ?_⟩
  · intro reference hr
    rcases List.mem_cons.mp hr with rfl | hr
    · exact ⟨_, Pool.get_of_utf8 hname', List.mem_singleton.mpr rfl⟩
    · obtain rfl := List.mem_singleton.mp hr
      exact ⟨_, Pool.get_of_utf8 hdescriptor, List.mem_singleton.mpr rfl⟩
  · simp only [Pool.nameAndType, he, hg.utf8 hname', hg.utf8 hdescriptor]
    rfl

theorem member_spec {kind : Pool.MemberKind} {owner name descriptor : String}
    (h : member kind owner name descriptor pool = (.ok index, later)) :
    pool.Extends later ∧ later.member index = some ⟨kind, ModifiedUtf8.encode owner,
      ModifiedUtf8.encode name, ModifiedUtf8.encode descriptor⟩ := by
  obtain ⟨first, between, hfirst, h⟩ := ExceptT.bind_eq_ok.mp h
  obtain ⟨second, between', hsecond, h⟩ := ExceptT.bind_eq_ok.mp h
  obtain ⟨hx, hclass⟩ := classRef_spec hfirst
  obtain ⟨hx', hsignature⟩ := nameAndType_spec hsecond
  obtain ⟨hg, he⟩ := Pool.add_spec h
  have hclass' := hx'.grows.className hclass
  refine ⟨(hx.trans hx').trans (Pool.extends_add h ⟨_, rfl, ?_⟩), ?_⟩
  · intro reference hr
    rcases List.mem_cons.mp hr with rfl | hr
    · obtain ⟨text, htext⟩ := Pool.get_of_className hclass'
      exact ⟨_, htext, List.mem_singleton.mpr rfl⟩
    · obtain rfl := List.mem_singleton.mp hr
      obtain ⟨text, text', htext⟩ := Pool.get_of_nameAndType hsignature
      exact ⟨_, htext, List.mem_singleton.mpr rfl⟩
  · simp only [Pool.member, he, hg.className hclass', hg.nameAndType hsignature]
    rfl

/-! ### Steps that only add constants -/

/-- Whether a step that succeeds only adds constants. -/
def OnlyAdds {α : Type} (step : Interning α) : Prop :=
  ∀ pool a later, step pool = (.ok a, later) → pool.Extends later

variable {α β : Type}

theorem onlyAdds_lift (result : Except ClassFault α) : OnlyAdds (liftM result : Interning α) := by
  intro pool a later h
  obtain ⟨-, rfl⟩ := ExceptT.lift_eq_ok.mp h
  exact .refl pool

theorem onlyAdds_bind {step : Interning α} {next : α → Interning β} (hs : OnlyAdds step)
    (hn : ∀ a, OnlyAdds (next a)) : OnlyAdds (step >>= next) := by
  intro pool b later h
  obtain ⟨a, between, ha, h⟩ := ExceptT.bind_eq_ok.mp h
  exact (hs pool a between ha).trans (hn a between b later h)

theorem onlyAdds_utf8Bytes (bytes : Bytes) : OnlyAdds (utf8Bytes bytes) :=
  fun _ _ _ h => (utf8Bytes_spec h).1

theorem onlyAdds_utf8 (text : String) : OnlyAdds (utf8 text) := onlyAdds_utf8Bytes _

theorem onlyAdds_classBytes (name : Bytes) : OnlyAdds (classBytes name) :=
  fun _ _ _ h => (classBytes_spec h).1

theorem onlyAdds_classRef (name : String) : OnlyAdds (classRef name) := onlyAdds_classBytes _

theorem onlyAdds_member (kind : Pool.MemberKind) (owner name descriptor : String) :
    OnlyAdds (member kind owner name descriptor) :=
  fun _ _ _ h => (member_spec h).1

theorem onlyAdds_method (owner name descriptor : String) (interface : Bool) :
    OnlyAdds (method owner name descriptor interface) :=
  onlyAdds_member _ owner name descriptor

/-- A step that is made of additions of texts and of classes. -/
inductive AddsNames : {α : Type} → Interning α → Prop
  | lift {α : Type} (result : Except ClassFault α) : AddsNames (liftM result : Interning α)
  | bind {α β : Type} {step : Interning α} {next : α → Interning β} (hs : AddsNames step)
      (hn : ∀ a, AddsNames (next a)) : AddsNames (step >>= next)
  | utf8Bytes (bytes : Bytes) : AddsNames (Interning.utf8Bytes bytes)
  | classBytes (name : Bytes) : AddsNames (Interning.classBytes name)

namespace AddsNames

theorem pure (a : α) : AddsNames (Pure.pure a) := .lift (.ok a)

theorem throw (fault : ClassFault) : AddsNames (MonadExcept.throw fault : Interning α) :=
  .lift (.error fault)

theorem mapM {step : α → Interning β} (hs : ∀ item, AddsNames (step item)) (items : List α) :
    AddsNames (items.mapM step) := by
  induction items with
  | nil => exact .pure []
  | cons item rest ih =>
    rw [List.mapM_cons]
    exact (hs item).bind fun first => ih.bind fun others => .pure _

theorem onlyAdds {step : Interning α} (h : AddsNames step) : OnlyAdds step := by
  induction h with
  | lift result => exact onlyAdds_lift result
  | bind _ _ ih ih' => exact onlyAdds_bind ih ih'
  | utf8Bytes bytes => exact onlyAdds_utf8Bytes bytes
  | classBytes name => exact onlyAdds_classBytes name

end AddsNames

end Interning

end ClassGraft

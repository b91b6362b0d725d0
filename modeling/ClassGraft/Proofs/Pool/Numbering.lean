import ClassGraft.Proofs.Pool.Rereading
import ClassGraft.Template.Steps

/-!
# Indices of constants

An index keeps its constant, whatever is added to a pool (`Pool.get_addAll`).  The index that is
given for a constant is the first one that leads to it (`Pool.least_of_add`), so it is given again,
and a constant is refused only if it is not there and the slots that are left are too few for it
(`Pool.add_eq_error_iff`).  In a pool that was read or made by adding constants the second slot of a
wide one leads to nothing (`Pool.IsMade.get_after_wide`).  Together they say that the pool is
numbered (`Pool.isNumbered_of_isMade`).
-/

namespace ClassGraft.Pool

variable {pool later : Pool} {entry other : Entry} {index : UInt16} {fault : ClassFault}

/-- The pool after entries were added one after the other, as far as they fit. -/
def addAll (pool : Pool) (entries : List Entry) : Pool :=
  entries.foldl (fun pool entry => (pool.add entry).2) pool

/-- The pools that come from an empty one, or from one that was read, by adding entries. -/
inductive IsMade : Pool → Prop
  | empty : IsMade empty
  | read {pool : Pool} {cursor next : Cursor} (h : read cursor = .ok (pool, next)) : IsMade pool
  | addAll {pool : Pool} (h : IsMade pool) (entries : List Entry) : IsMade (pool.addAll entries)

/-! ### One entry -/

/-- What adding an entry comes to: it is there, or it is appended, or there is no room for it. -/
theorem add_cases (pool : Pool) (entry : Entry) :
    (∃ position, pool.slots.toList.findIdx? (· == some entry) = some position ∧
        pool.add entry = (.ok (UInt16.ofNat (position + 1)), pool)) ∨
      pool.slots.toList.findIdx? (· == some entry) = none ∧
        ((∃ h : pool.slots.size + entry.width < 65535,
            pool.add entry = (.ok (UInt16.ofNat (pool.slots.size + 1)), pool.push entry h)) ∨
          65535 ≤ pool.slots.size + entry.width ∧
            pool.add entry = (.error (.poolFull entry.kind (pool.slots.size + 1)), pool)) := by
  cases hfound : pool.slots.toList.findIdx? (· == some entry) with
  | some position => exact .inl ⟨position, rfl, add_of_findIdx?_eq_some hfound⟩
  | none =>
    refine .inr ⟨rfl, ?_⟩
    by_cases hfits : pool.slots.size + entry.width < 65535
    · exact .inl ⟨hfits, add_of_findIdx?_eq_none hfound hfits⟩
    · refine .inr ⟨Nat.le_of_not_lt hfits, ?_⟩
      rw [add, pool.first_eq, hfound]
      exact dif_neg hfits

theorem grows_add (pool : Pool) (entry : Entry) : pool.Grows (pool.add entry).2 := by
  rcases pool.add_cases entry with ⟨position, -, hadd⟩ | ⟨-, ⟨hfits, hadd⟩ | ⟨-, hadd⟩⟩
  · rw [hadd]
    exact .refl pool
  · rw [hadd]
    exact grows_push hfits
  · rw [hadd]
    exact .refl pool

/-- An index keeps its entry, whatever is added. -/
theorem get_addAll (h : pool.get index = some entry) (entries : List Entry) :
    (pool.addAll entries).get index = some entry := by
  induction entries generalizing pool with
  | nil => exact h
  | cons first rest ih => exact ih (pool.grows_add first index entry h)

/-! ### The first index of an entry -/

/-- A slot that a search passes over does not hold what is looked for. -/
theorem le_of_findIdx? {position : Nat}
    (hf : pool.slots.toList.findIdx? (· == some entry) = some position)
    (h : pool.get index = some entry) : position + 1 ≤ index.toNat := by
  unfold get at h
  split_ifs at h with hz
  rw [Option.join_eq_some_iff, ← Array.getElem?_toList] at h
  have hpos : index.toNat ≠ 0 := fun h0 => hz (UInt16.toNat_inj.mp h0)
  obtain ⟨_, _, hbefore⟩ := List.findIdx?_eq_some_iff_getElem.mp hf
  obtain ⟨hlt, hslot⟩ := List.getElem?_eq_some_iff.mp h
  by_contra hless
  exact hbefore (index.toNat - 1) (by omega) (by simp [hslot])

theorem toNat_ofNat_succ {position : Nat} (h : position < 65535) :
    (UInt16.ofNat (position + 1)).toNat = position + 1 :=
  UInt16.toNat_ofNat_of_lt' (Nat.succ_lt_succ h)

theorem findIdx?_push (hn : pool.slots.toList.findIdx? (· == some entry) = none)
    (h : pool.slots.size + entry.width < 65535) :
    (pool.push entry h).slots.toList.findIdx? (· == some entry) = some pool.slots.size := by
  rw [slots_push, findIdx?_append_slotsOf, hn, if_pos rfl, Array.length_toList]
  rfl

/-- An index that is given for an entry is the first one of the entry. -/
theorem findIdx?_of_add (h : pool.add entry = (.ok index, later)) :
    ∃ position, position < 65535 ∧ index = UInt16.ofNat (position + 1) ∧
      later.slots.toList.findIdx? (· == some entry) = some position := by
  have hsize := pool.size_lt
  rcases pool.add_cases entry with ⟨position, hf, hadd⟩ | ⟨hn, ⟨hfits, hadd⟩ | ⟨-, hadd⟩⟩
  · obtain ⟨hindex, rfl⟩ := Prod.mk.inj (hadd.symm.trans h)
    have hlt := (List.findIdx?_eq_some_iff_getElem.mp hf).1
    rw [Array.length_toList] at hlt
    exact ⟨position, Nat.lt_trans hlt hsize, (Except.ok.inj hindex).symm, hf⟩
  · obtain ⟨hindex, rfl⟩ := Prod.mk.inj (hadd.symm.trans h)
    exact ⟨_, hsize, (Except.ok.inj hindex).symm, findIdx?_push hn hfits⟩
  · nomatch hadd.symm.trans h

/-- No smaller index leads to the entry. -/
theorem least_of_add (h : pool.add entry = (.ok index, later)) {other : UInt16}
    (ho : later.get other = some entry) : index ≤ other := by
  obtain ⟨position, hlt, rfl, hf⟩ := findIdx?_of_add h
  rw [UInt16.le_iff_toNat_le, toNat_ofNat_succ hlt]
  exact le_of_findIdx? hf ho

theorem add_again (h : pool.add entry = (.ok index, later)) :
    later.add entry = (.ok index, later) := by
  obtain ⟨position, -, rfl, hf⟩ := findIdx?_of_add h
  exact add_of_findIdx?_eq_some hf

/-! ### Room for an entry -/

theorem findIdx?_eq_none_iff : pool.slots.toList.findIdx? (· == some entry) = none ↔
    ∀ index, pool.get index ≠ some entry := by
  constructor
  · intro hn index hget
    unfold get at hget
    split_ifs at hget
    rw [Option.join_eq_some_iff, ← Array.getElem?_toList] at hget
    have hnot := List.findIdx?_eq_none_iff.mp hn _ (List.mem_of_getElem? hget)
    simp at hnot
  · intro hall
    refine List.findIdx?_eq_none_iff.mpr fun slot hslot => ?_
    by_contra hne
    obtain rfl := eq_of_beq (Bool.not_eq_false _ ▸ hne)
    obtain ⟨position, hposition⟩ := List.mem_iff_getElem?.mp hslot
    have hlt := (List.getElem?_eq_some_iff.mp hposition).1
    have hsize := pool.size_lt
    rw [Array.length_toList] at hlt
    refine hall (UInt16.ofNat (position + 1)) ?_
    rw [get_ofNat (Nat.lt_trans hlt hsize), ← Array.getElem?_toList, hposition]
    rfl

/-- An entry is refused only for want of room, and then the pool stays. -/
theorem add_eq_error_iff : pool.add entry = (.error fault, later) ↔
    (∀ index, pool.get index ≠ some entry) ∧ 65534 < pool.slots.size + entry.width ∧
      fault = .poolFull entry.kind (pool.slots.size + 1) ∧ later = pool := by
  rw [← findIdx?_eq_none_iff]
  rcases pool.add_cases entry with ⟨position, hf, hadd⟩ | ⟨hn, ⟨hfits, hadd⟩ | ⟨hfull, hadd⟩⟩
  · rw [hadd, hf]
    simp
  · rw [hadd]
    constructor
    · intro h
      nomatch h
    · rintro ⟨-, hfull, -⟩
      omega
  · rw [hadd, Prod.mk.injEq, Except.error.injEq, eq_comm (a := pool)]
    exact ⟨fun ⟨hfault, hlater⟩ => ⟨hn, hfull, hfault.symm, hlater⟩,
      fun ⟨_, _, hfault, hlater⟩ => ⟨hfault.symm, hlater⟩⟩

/-! ### Slots that lead to nothing -/

/-- Whether the slots are those of entries that stand one after the other. -/
def IsFilled (pool : Pool) : Prop :=
  ∃ entries : List Entry, pool.slots.toList = entries.flatMap slotsOf

theorem IsFilled.addAll (h : pool.IsFilled) (entries : List Entry) :
    (pool.addAll entries).IsFilled := by
  induction entries generalizing pool with
  | nil => exact h
  | cons entry rest ih =>
    refine ih ?_
    show (pool.add entry).2.IsFilled
    rcases pool.add_cases entry with ⟨position, -, hadd⟩ | ⟨-, ⟨hfits, hadd⟩ | ⟨-, hadd⟩⟩
    · rw [hadd]
      exact h
    · rw [hadd]
      obtain ⟨before, hslots⟩ := h
      refine ⟨before ++ [entry], ?_⟩
      rw [slots_push, hslots, List.flatMap_append, List.flatMap_singleton]
    · rw [hadd]
      exact h

theorem IsMade.isFilled (h : pool.IsMade) : pool.IsFilled := by
  induction h with
  | empty => exact ⟨[], rfl⟩
  | read h => exact (isSound_of_read h).slots
  | addAll h entries ih => exact ih.addAll entries

/-- In a row of slots an empty one comes after each wide entry. -/
theorem getElem?_succ_of_isWide {entries : List Entry} {position : Nat}
    (h : (entries.flatMap slotsOf)[position]? = some (some entry)) (hw : entry.isWide = true) :
    (entries.flatMap slotsOf)[position + 1]? = some none := by
  induction entries generalizing position with
  | nil => simp at h
  | cons first rest ih =>
    rw [List.flatMap_cons] at h ⊢
    by_cases hlt : position < (slotsOf first).length
    · rw [List.getElem?_append_left hlt] at h
      -- the entry is the first one, and stands in the first of its slots
      cases hwide : first.isWide with
      | false =>
        rw [slotsOf, hwide] at h
        have hmem := List.mem_of_getElem? h
        simp only [Bool.false_eq_true, if_false, List.mem_singleton, Option.some.injEq] at hmem
        rw [hmem, hwide] at hw
        nomatch hw
      | true =>
        rw [slotsOf, hwide] at h ⊢
        obtain _ | _ | position := position
        · rfl
        · nomatch h
        · nomatch h
    · have hle := Nat.le_of_not_lt hlt
      rw [List.getElem?_append_right hle] at h
      rw [List.getElem?_append_right (Nat.le_succ_of_le hle), Nat.succ_sub hle]
      exact ih h

/-- After a wide entry there is a slot that leads to nothing. -/
theorem IsMade.get_after_wide (h : pool.IsMade) (hget : pool.get index = some entry)
    (hw : entry.isWide = true) :
    index.toNat < pool.slots.size ∧ pool.get (index + 1) = none := by
  obtain ⟨entries, hslots⟩ := h.isFilled
  unfold get at hget
  split_ifs at hget with hz
  rw [Option.join_eq_some_iff, ← Array.getElem?_toList, hslots] at hget
  have hpos : index.toNat ≠ 0 := fun h0 => hz (UInt16.toNat_inj.mp h0)
  have hnext := getElem?_succ_of_isWide hget hw
  rw [Nat.sub_add_cancel (Nat.pos_of_ne_zero hpos), ← hslots, Array.getElem?_toList] at hnext
  have hlt := (Array.getElem?_eq_some_iff.mp hnext).1
  have hsize := pool.size_lt
  have hindex : index + 1 = UInt16.ofNat (index.toNat + 1) := by
    rw [UInt16.ofNat_add, UInt16.ofNat_toNat]
    rfl
  refine ⟨hlt, ?_⟩
  rw [hindex, get_ofNat (Nat.lt_trans hlt hsize), hnext]
  rfl

/-! ### Numbered pools -/

/-- A pool with indices that can be relied on, whatever is added to it. -/
structure IsNumbered (pool : Pool) : Prop where
  /-- An index keeps its entry. -/
  kept : ∀ index entry, pool.get index = some entry →
    ∀ entries, (pool.addAll entries).get index = some entry
  /-- An entry gets the first index that leads to it, and gets it again. -/
  first : ∀ entry index later, pool.add entry = (.ok index, later) →
    later.get index = some entry ∧ (∀ other, later.get other = some entry → index ≤ other) ∧
      later.add entry = (.ok index, later)
  /-- The second slot of a wide entry is there, and empty. -/
  wide : ∀ index entry, pool.get index = some entry → entry.isWide = true →
    index.toNat < pool.slots.size ∧ pool.get (index + 1) = none
  /-- The number that the file states is one more than the number of slots. -/
  counted : pool.count.toNat = pool.slots.size + 1 ∧ pool.count.toNat ≤ 65535
  /-- An entry is refused if it is not there and does not fit, and then the pool stays. -/
  full : ∀ entry fault later, pool.add entry = (.error fault, later) ↔
    (∀ index, pool.get index ≠ some entry) ∧ 65534 - pool.slots.size < entry.width ∧
      fault = .poolFull entry.kind (pool.slots.size + 1) ∧ later = pool

/-- The pools that are read or made are numbered, with every entry that was added to them. -/
theorem isNumbered_of_isMade (h : pool.IsMade) : pool.IsNumbered where
  kept _ _ hget entries := get_addAll hget entries
  first _ _ _ hadd := ⟨(add_spec hadd).2, fun _ ho => least_of_add hadd ho, add_again hadd⟩
  wide _ _ hget hw := h.get_after_wide hget hw
  counted := by
    have hsize := pool.size_lt
    rw [toNat_count]
    exact ⟨rfl, hsize⟩
  full entry fault later := by
    have hroom : 65534 - pool.slots.size < entry.width ↔
        65534 < pool.slots.size + entry.width := by
      have hsize := pool.size_lt
      omega
    rw [hroom, add_eq_error_iff]

/-- The text `a` twice, and a wide number in the last two slots. -/
def doubled : Bytes :=
  [0, 5, 1, 0, 1, 0x61, 1, 0, 1, 0x61, 5, 0, 0, 0, 0, 0, 0, 0, 7]

theorem isNumbered_doubled : ∃ pool next, read ⟨doubled, 0⟩ = .ok (pool, next) ∧
    pool.IsNumbered ∧ (pool.addAll [.utf8 [0x61], .integer 7]).IsNumbered := by
  have hok : (read ⟨doubled, 0⟩).toOption.any (fun _ => true) = true := by decide +kernel
  obtain ⟨⟨pool, next⟩, h, -⟩ := Except.exists_of_any hok
  exact ⟨pool, next, h, isNumbered_of_isMade (.read h), isNumbered_of_isMade (.addAll (.read h) _)⟩

end ClassGraft.Pool

/-!
## Pools with room

A step that adds constants fails only if the pool is full, and never where there is room for all
that it may add (`Interning.Fits`).
-/

namespace ClassGraft

/-- An entry for which there is room is added, unless it is there. -/
theorem Pool.exists_add {pool : Pool} {entry : Pool.Entry}
    (h : pool.slots.size + entry.width < 65535) : ∃ index later,
      pool.add entry = (.ok index, later) ∧ later.slots.size ≤ pool.slots.size + entry.width := by
  unfold add
  cases pool.first[entry]? with
  | some position => exact ⟨_, pool, rfl, Nat.le_add_right _ _⟩
  | none =>
    dsimp only
    rw [dif_pos h]
    refine ⟨_, _, rfl, Nat.le_of_eq ?_⟩
    rw [← Array.length_toList, slots_push, List.length_append, Array.length_toList, length_slotsOf]

namespace Interning

variable {α β : Type} {count others : Nat}

/-- Whether the step takes no more than so many slots, and fails only if there is no room for them,
as the pool is full. -/
def Fits (step : Interning α) (count : Nat) : Prop :=
  ∀ pool : Pool,
    (∃ value later, step pool = (.ok value, later) ∧
      later.slots.size ≤ pool.slots.size + count) ∨
    65535 ≤ pool.slots.size + count ∧ ∃ kind index later,
      step pool = (.error (.poolFull kind index), later)

theorem Fits.exists_eq_ok {step : Interning α} (h : Fits step count) (pool : Pool)
    (hroom : pool.slots.size + count < 65535) : ∃ value later,
      step pool = (.ok value, later) ∧ later.slots.size ≤ pool.slots.size + count :=
  (h pool).resolve_right fun hfull => absurd hfull.1 (by omega)

theorem fits_entry {entry : Pool.Entry} (h : entry.width = count) :
    Fits (Interning.entry entry) count := by
  subst h
  intro pool
  by_cases hroom : pool.slots.size + entry.width < 65535
  · exact .inl (Pool.exists_add hroom)
  · rcases pool.add_cases entry with ⟨position, -, hadd⟩ | ⟨-, ⟨hfits, -⟩ | ⟨hfull, hadd⟩⟩
    · exact .inl ⟨_, _, hadd, Nat.le_add_right _ _⟩
    · exact absurd hfits hroom
    · exact .inr ⟨hfull, _, _, _, hadd⟩

theorem Fits.bind {step : Interning α} {next : α → Interning β} (h : Fits step count)
    (hn : ∀ value, Fits (next value) others) : Fits (step >>= next) (others + count) := by
  intro pool
  rcases h pool with ⟨value, between, hvalue, hbetween⟩ | ⟨hfull, kind, index, later, herror⟩
  · rcases hn value between with ⟨result, later, hresult, hlater⟩ |
      ⟨hfull, kind, index, later, herror⟩
    · exact .inl ⟨result, later, (ExceptT.bind_of_ok hvalue).trans hresult, by omega⟩
    · exact .inr ⟨by omega, kind, index, later, (ExceptT.bind_of_ok hvalue).trans herror⟩
  · exact .inr ⟨by omega, kind, index, later, ExceptT.bind_of_error herror⟩

theorem fits_utf8 (text : String) : Fits (utf8 text) 1 := fits_entry rfl

theorem fits_classRef (name : String) : Fits (classRef name) 2 :=
  (fits_utf8 name).bind fun _ => fits_entry rfl

theorem fits_string (value : String) : Fits (string value) 2 :=
  (fits_utf8 value).bind fun _ => fits_entry rfl

theorem fits_nameAndType (name descriptor : String) : Fits (nameAndType name descriptor) 3 :=
  (fits_utf8 name).bind fun _ => (fits_utf8 descriptor).bind fun _ => fits_entry rfl

theorem fits_member (kind : Pool.MemberKind) (owner name descriptor : String) :
    Fits (member kind owner name descriptor) 6 :=
  (fits_classRef owner).bind fun _ => (fits_nameAndType name descriptor).bind fun _ =>
    fits_entry (by cases kind <;> rfl)

end Interning

end ClassGraft

/-!
## Constants that are there

A step that added constants finds them again in every pool that goes on from the one it left, and
adds none (`Interning.Settles`).
-/

namespace ClassGraft

namespace Pool

variable {pool later last : Pool} {entry : Entry} {index : UInt16}

/-- Whether a pool goes on from another one, by slots that come after all of its own. -/
def Precedes (pool later : Pool) : Prop := pool.slots.toList <+: later.slots.toList

theorem Precedes.refl (pool : Pool) : pool.Precedes pool := List.prefix_rfl

theorem Precedes.trans (h : pool.Precedes later) (h' : later.Precedes last) : pool.Precedes last :=
  List.IsPrefix.trans h h'

theorem precedes_add (h : pool.add entry = (.ok index, later)) : pool.Precedes later := by
  rcases pool.add_cases entry with ⟨_, -, hadd⟩ | ⟨-, ⟨hfits, hadd⟩ | ⟨-, hadd⟩⟩
  · obtain ⟨-, rfl⟩ := Prod.mk.inj (hadd.symm.trans h)
    exact .refl pool
  · obtain ⟨-, rfl⟩ := Prod.mk.inj (hadd.symm.trans h)
    exact ⟨slotsOf entry, (slots_push hfits).symm⟩
  · nomatch hadd.symm.trans h

/-- An entry that was added is found at its index in whatever goes on from there. -/
theorem add_of_precedes (h : pool.add entry = (.ok index, later)) (hl : later.Precedes last) :
    last.add entry = (.ok index, last) := by
  obtain ⟨position, -, rfl, hfound⟩ := findIdx?_of_add h
  obtain ⟨more, hmore⟩ := hl
  refine add_of_findIdx?_eq_some ?_
  rw [← hmore, List.findIdx?_append, hfound]
  rfl

end Pool

namespace Interning

variable {α β : Type}

/-- Whether the step, where it succeeded, adds nothing to a pool that goes on from the one it left,
and gives the same there. -/
def Settles (step : Interning α) : Prop :=
  ∀ (pool later : Pool) (value : α), step pool = (.ok value, later) → pool.Precedes later ∧
    ∀ last : Pool, later.Precedes last → step last = (.ok value, last)

theorem settles_entry (entry : Pool.Entry) : Settles (Interning.entry entry) :=
  fun _ _ _ h => ⟨Pool.precedes_add h, fun _ hl => Pool.add_of_precedes h hl⟩

theorem settles_lift (result : Except ClassFault α) : Settles (liftM result : Interning α) := by
  intro pool later value h
  obtain ⟨rfl, rfl⟩ := ExceptT.lift_eq_ok.mp h
  exact ⟨.refl pool, fun last _ => rfl⟩

theorem Settles.bind {step : Interning α} {next : α → Interning β} (h : Settles step)
    (hn : ∀ value, Settles (next value)) : Settles (step >>= next) := by
  intro pool later result hrun
  obtain ⟨value, between, hvalue, hresult⟩ := ExceptT.bind_eq_ok.mp hrun
  obtain ⟨hfirst, hsame⟩ := h pool between value hvalue
  obtain ⟨hsecond, hsame'⟩ := hn value between later result hresult
  exact ⟨hfirst.trans hsecond, fun last hl => ExceptT.bind_eq_ok.mpr
    ⟨value, last, hsame last (hsecond.trans hl), hsame' last hl⟩⟩

theorem AddsNames.settles {step : Interning α} (h : AddsNames step) : Settles step := by
  induction h with
  | lift result => exact settles_lift result
  | bind _ _ ih ih' => exact ih.bind ih'
  | utf8Bytes bytes => exact settles_entry _
  | classBytes name => exact (settles_entry _).bind fun _ => settles_entry _

theorem settles_utf8 (text : String) : Settles (utf8 text) := settles_entry _

theorem settles_classRef (name : String) : Settles (classRef name) :=
  (settles_utf8 name).bind fun _ => settles_entry _

theorem settles_nameAndType (name descriptor : String) : Settles (nameAndType name descriptor) :=
  (settles_utf8 name).bind fun _ => (settles_utf8 descriptor).bind fun _ => settles_entry _

theorem settles_member (kind : Pool.MemberKind) (owner name descriptor : String) :
    Settles (member kind owner name descriptor) :=
  (settles_classRef owner).bind fun _ =>
    (settles_nameAndType name descriptor).bind fun _ => settles_entry _

end Interning

theorem Constant.settles_intern (value : Constant) : Interning.Settles value.intern := by
  cases value with
  | string text => exact (Interning.settles_utf8 text).bind fun _ => Interning.settles_entry _
  | classRef name => exact Interning.settles_classRef name
  | _ => exact Interning.settles_entry _

end ClassGraft

import Std.Data.HashMap
import ClassGraft.Pool.Entry

/-!
# The constant pool

The pool is a row of slots, numbered from 1.  An entry of two slots leaves the one after it empty.
Entries are only ever appended, and `Pool.add` appends one only if no equal entry is there, so
every index keeps its entry and equal constants share the first index that holds them.

Two facts are part of the type: there are at most 65534 slots, and the table of first indices says
what a search through the slots would find.
-/

namespace ClassGraft

/-- The constants of a class, by index. -/
structure Pool where
  /-- The entry at index `i + 1`, or nothing in the second slot of a wide one. -/
  slots : Array (Option Pool.Entry)
  /-- The position of the first slot that holds an entry. -/
  first : Std.HashMap Pool.Entry Nat
  size_lt : slots.size < 65535
  first_eq : ∀ entry, first[entry]? = slots.toList.findIdx? (· == some entry)

namespace Pool

/-- The pool without constants. -/
def empty : Pool where
  slots := #[]
  first := ∅
  size_lt := by decide
  first_eq := by simp

instance : Inhabited Pool := ⟨empty⟩

variable (pool : Pool)

/-- One more than the number of slots, as the file states it. -/
def count : UInt16 := UInt16.ofNat (pool.slots.size + 1)

/-- The entry at an index. -/
def get (index : UInt16) : Option Entry :=
  if index = 0 then none else (pool.slots[index.toNat - 1]?).join

/-- The entries that have an index, with it. -/
def entries : List (Nat × Entry) :=
  pool.slots.toList.zipIdx.filterMap fun (slot, i) => slot.map fun entry => (i + 1, entry)

/-- The slots that an entry takes. -/
def slotsOf (entry : Entry) : List (Option Entry) :=
  if entry.isWide then [some entry, none] else [some entry]

theorem findIdx?_append_slotsOf (slots : List (Option Entry)) (entry other : Entry) :
    (slots ++ slotsOf entry).findIdx? (· == some other) =
      (slots.findIdx? (· == some other)).or
        (if entry = other then some slots.length else none) := by
  rw [List.findIdx?_append]
  congr 1
  by_cases h : entry = other
  · subst h
    unfold slotsOf
    split <;> simp [List.findIdx?_cons]
  · unfold slotsOf
    split <;> simp [List.findIdx?_cons, h]

/-- Appends an entry, whether or not an equal one is there. -/
def push (entry : Entry) (h : pool.slots.size + entry.width < 65535) : Pool :=
  let first := pool.first.insertIfNew entry pool.slots.size
  { slots := pool.slots ++ slotsOf entry
    first := first
    size_lt := by
      simp only [slotsOf, Entry.width] at h ⊢
      split at h <;> simp_all
    first_eq := by
      intro other
      rw [Array.toList_appendList, findIdx?_append_slotsOf, ← pool.first_eq,
        Std.HashMap.getElem?_insertIfNew]
      by_cases he : entry = other
      · subst he
        by_cases hm : entry ∈ pool.first
        · simp only [beq_self_eq_true, hm, not_true_eq_false, and_false, if_false, if_true]
          rw [Std.HashMap.getElem?_eq_some_getElem hm]
          rfl
        · simp [hm]
      · simp [he] }

/-- The index of an entry that equals the given one, and the pool with that entry, which is
appended if there was none.  If it does not fit the pool stays. -/
def add (entry : Entry) : Except ClassFault UInt16 × Pool :=
  match pool.first[entry]? with
  | some position => (.ok (UInt16.ofNat (position + 1)), pool)
  | none =>
    let position := pool.slots.size
    if h : position + entry.width < 65535 then
      (.ok (UInt16.ofNat (position + 1)), pool.push entry h)
    else (.error (.poolFull entry.kind (position + 1)), pool)

end Pool

end ClassGraft

import Mathlib.Data.List.Nodup
import Mathlib.Tactic.SplitIfs
import Std.Data.HashMap.Lemmas

/-!
# Tables made row by row

A table into which rows are inserted one after the other holds, under each key, the value of a row
with that key (`Table.exists_of_getElem?`).  Where all keys are distinct it holds every row
(`Table.getElem?_of_mem`).
-/

namespace ClassGraft.Table

variable {ρ κ β : Type} [BEq κ] [LawfulBEq κ] [Hashable κ]

/-- The table with a row for each item. -/
abbrev insertAll (key : ρ → κ) (value : ρ → β) (rows : List ρ) (found : Std.HashMap κ β) :
    Std.HashMap κ β :=
  rows.foldl (fun found row => found.insert (key row) (value row)) found

variable {key : ρ → κ} {value : ρ → β}

theorem getElem?_of_not_mem {rows : List ρ} {found : Std.HashMap κ β} {k : κ}
    (h : k ∉ rows.map key) : (insertAll key value rows found)[k]? = found[k]? := by
  induction rows generalizing found with
  | nil => rfl
  | cons row rows ih =>
    rw [List.map_cons, List.mem_cons, not_or] at h
    rw [insertAll, List.foldl_cons, ih h.2, Std.HashMap.getElem?_insert]
    simp [Ne.symm h.1]

theorem getElem?_of_mem {rows : List ρ} (hn : (rows.map key).Nodup) {found : Std.HashMap κ β}
    {row : ρ} (h : row ∈ rows) :
    (insertAll key value rows found)[key row]? = some (value row) := by
  induction rows generalizing found with
  | nil => simp at h
  | cons first rows ih =>
    rw [List.map_cons, List.nodup_cons] at hn
    rw [insertAll, List.foldl_cons]
    rcases List.mem_cons.mp h with rfl | h
    · rw [getElem?_of_not_mem hn.1, Std.HashMap.getElem?_insert_self]
    · exact ih hn.2 h

theorem exists_of_getElem? {rows : List ρ} {found : Std.HashMap κ β} {k : κ} {b : β}
    (h : (insertAll key value rows found)[k]? = some b) :
    (∃ row ∈ rows, key row = k ∧ value row = b) ∨ found[k]? = some b := by
  induction rows generalizing found with
  | nil => exact .inr h
  | cons first rows ih =>
    rcases ih h with ⟨row, hm, hk⟩ | hf
    · exact .inl ⟨row, List.mem_cons_of_mem _ hm, hk⟩
    · rw [Std.HashMap.getElem?_insert] at hf
      split_ifs at hf with he
      · exact .inl ⟨first, List.mem_cons_self, eq_of_beq he, Option.some.inj hf⟩
      · exact .inr hf

end ClassGraft.Table

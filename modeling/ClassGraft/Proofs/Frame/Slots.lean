import ClassGraft.Frame.Merge
import Mathlib.Data.List.Basic
import Mathlib.Data.List.GetD
import Mathlib.Tactic.SplitIfs

/-!
# Slots of locals

A list of slots holds a wide value together with the `top` after it.  `FrameType.Paired` says so of
a whole list: it holds of every expanded list (`paired_expand`), and such a list is what its values
expand to (`expand_collapse`).

Slots beyond the end of a list count as `top`, so trimming does not change any of them
(`getD_trim`), and it takes no wide value apart (`getElem?_trim_of_isWide`, `paired_trim`).  What is
left depends on nothing but the slots (`trim_congr`).
-/

namespace ClassGraft.FrameType

/-- Whether every wide value is followed by its second slot. -/
def Paired (slots : List FrameType) : Prop :=
  ∀ i type, slots[i]? = some type → type.isWide = true → slots[i + 1]? = some top

@[simp] theorem isWide_top : isWide top = false := rfl

/-! ### Expanding and collapsing -/

theorem expand_cons (type : FrameType) (types : List FrameType) :
    expand (type :: types) = (if type.isWide then [type, top] else [type]) ++ expand types := by
  rw [expand, List.flatMap_cons, expand]

theorem paired_nil : Paired [] := by
  intro i type h
  simp at h

/-- A value that takes one slot, before slots that are paired. -/
theorem paired_cons {type : FrameType} {slots : List FrameType} (ht : type.isWide = false)
    (h : Paired slots) : Paired (type :: slots) := by
  intro i found hi hw
  cases i with
  | zero =>
    obtain rfl : type = found := by simpa using hi
    rw [ht] at hw
    exact absurd hw (by simp)
  | succ i => simpa using h i found (by simpa using hi) hw

/-- A value with its second slot, before slots that are paired. -/
theorem paired_cons_top {type : FrameType} {slots : List FrameType} (h : Paired slots) :
    Paired (type :: top :: slots) := by
  intro i found hi hw
  cases i with
  | zero => rfl
  | succ i => exact paired_cons isWide_top h i found (by simpa using hi) hw

theorem Paired.tail {type : FrameType} {slots : List FrameType} (h : Paired (type :: slots)) :
    Paired slots := by
  intro i found hi hw
  simpa using h (i + 1) found (by simpa using hi) hw

theorem paired_expand (types : List FrameType) : Paired (expand types) := by
  induction types with
  | nil => exact paired_nil
  | cons type types ih =>
    rw [expand_cons]
    split_ifs with hw
    · exact paired_cons_top ih
    · exact paired_cons (by simpa using hw) ih

/-- Slots that are paired are what their values expand to. -/
theorem expand_collapse {slots : List FrameType} (h : Paired slots) :
    expand (collapse slots) = slots := by
  induction slots using collapse.induct with
  | case1 => rfl
  | case2 type =>
    have hw : type.isWide = false := by
      by_contra hw
      have := h 0 type rfl (by simpa using hw)
      simp at this
    simp [collapse, expand, hw]
  | case3 type second rest hw ih =>
    obtain rfl : second = top := by simpa using h 0 type rfl hw
    rw [collapse, if_pos hw, expand_cons, if_pos hw, ih h.tail.tail]
    rfl
  | case4 type second rest hw ih =>
    rw [collapse, if_neg hw, expand_cons, if_neg hw, ih h.tail]
    rfl

/-! ### Trimming -/

theorem trimReversed_spec (slots : List FrameType) :
    ∃ n, slots = List.replicate n top ++ trimReversed slots ∧
      (0 < n → ∀ type ∈ (trimReversed slots).head?, type.isWide = false) := by
  induction slots using trimReversed.induct with
  | case1 => exact ⟨0, rfl, by simp⟩
  | case2 => exact ⟨1, by simp [trimReversed], by simp [trimReversed]⟩
  | case3 type ht => exact ⟨0, by simp [trimReversed, ht], by simp⟩
  | case4 last before rest hc ih =>
    obtain ⟨n, hn, hw⟩ := ih
    rw [trimReversed, if_pos hc]
    refine ⟨n + 1, ?_, fun _ type htype => ?_⟩
    · rw [List.replicate_succ, List.cons_append, ← hn, hc.1]
    · cases n with
      | zero =>
        rw [List.replicate_zero, List.nil_append] at hn
        rw [← hn] at htype
        obtain rfl : before = type := by simpa using htype
        simpa using hc.2
      | succ n => exact hw (Nat.succ_pos n) type htype
  | case5 last before rest hc =>
    rw [trimReversed, if_neg hc]
    exact ⟨0, rfl, by simp⟩

/-- Trimming takes away slots that cannot be used, unless a wide value stands before them. -/
theorem trim_spec (slots : List FrameType) :
    ∃ n, slots = trim slots ++ List.replicate n top ∧
      (0 < n → ∀ type ∈ (trim slots).getLast?, type.isWide = false) := by
  obtain ⟨n, hn, hw⟩ := trimReversed_spec slots.reverse
  refine ⟨n, ?_, ?_⟩
  · have := congrArg List.reverse hn
    rwa [List.reverse_reverse, List.reverse_append, List.reverse_replicate] at this
  · rw [trim, List.getLast?_reverse]
    exact hw

/-- Trimming changes no slot. -/
theorem getD_trim (slots : List FrameType) (i : Nat) :
    (trim slots).getD i top = slots.getD i top := by
  obtain ⟨n, hn, -⟩ := trim_spec slots
  conv_rhs => rw [hn]
  simp only [List.getD_eq_getElem?_getD, List.getElem?_append, List.getElem?_replicate]
  split_ifs with hi
  · rfl
  · rw [List.getElem?_eq_none (Nat.le_of_not_lt hi)]
    rfl
  · rw [List.getElem?_eq_none (Nat.le_of_not_lt hi)]

/-- Trimming keeps the second slot of a wide value. -/
theorem getElem?_trim_of_isWide {slots : List FrameType} {i : Nat} {type : FrameType}
    (hi : slots[i]? = some type) (hw : type.isWide = true) (hnext : slots[i + 1]? = some top) :
    (trim slots)[i + 1]? = some top := by
  obtain ⟨n, hn, hlast⟩ := trim_spec slots
  -- Only unusable slots are trimmed, so that the wide value itself stays.
  have hat : (trim slots)[i]? = some type := by
    rw [hn, List.getElem?_append] at hi
    split_ifs at hi with hlt
    · exact hi
    · rw [List.getElem?_replicate] at hi
      split_ifs at hi
      obtain rfl := Option.some.inj hi
      exact absurd hw (by simp)
  have hlt : i < (trim slots).length := by
    by_contra hge
    rw [List.getElem?_eq_none (Nat.le_of_not_lt hge)] at hat
    simp at hat
  rw [hn, List.getElem?_append] at hnext
  split_ifs at hnext with hlt'
  · exact hnext
  · -- otherwise the wide value would be the last slot that stays, and others were taken away
    have hlen : i = (trim slots).length - 1 := by omega
    have hpos : 0 < n := by
      rw [List.getElem?_replicate] at hnext
      split_ifs at hnext with h
      omega
    have := hlast hpos type (by rw [List.getLast?_eq_getElem?, ← hlen, hat]; rfl)
    rw [hw] at this
    exact absurd this (by simp)

theorem paired_trim {slots : List FrameType} (h : Paired slots) : Paired (trim slots) := by
  intro i type hi hw
  have hi' : slots[i]? = some type := by
    obtain ⟨n, hn, -⟩ := trim_spec slots
    rw [hn, List.getElem?_append_left (List.getElem?_eq_some_iff.mp hi).1]
    exact hi
  exact getElem?_trim_of_isWide hi' hw (h i type hi' hw)

/-- What starts with an unusable slot after trimming goes on with a wide value. -/
theorem exists_isWide_of_trimReversed {slots rest : List FrameType}
    (h : trimReversed slots = top :: rest) : ∃ type ∈ rest.head?, type.isWide = true := by
  induction slots using trimReversed.induct with
  | case1 => simp [trimReversed] at h
  | case2 => simp [trimReversed] at h
  | case3 type ht =>
    rw [trimReversed, if_neg ht] at h
    exact absurd (List.cons.inj h).1 ht
  | case4 last before rest' hc ih =>
    rw [trimReversed, if_pos hc] at h
    exact ih h
  | case5 last before rest' hc =>
    rw [trimReversed, if_neg hc] at h
    obtain ⟨rfl, rfl⟩ := List.cons.inj h
    exact ⟨before, rfl, by simpa using hc⟩

theorem getElem?_eq_some_of_getD {slots : List FrameType} {i : Nat} {type : FrameType}
    (h : slots.getD i top = type) (ht : type ≠ top) : slots[i]? = some type := by
  rw [List.getD_eq_getElem?_getD] at h
  cases hi : slots[i]? with
  | none =>
    rw [hi] at h
    exact absurd h.symm ht
  | some found =>
    rw [hi] at h
    exact congrArg some h

/-- Of lists with the same slots none is longer than another one after trimming. -/
theorem length_trim_le {slots others : List FrameType} (hp : Paired slots)
    (h : ∀ i, slots.getD i top = others.getD i top) :
    (trim others).length ≤ (trim slots).length := by
  by_contra hlt
  rw [Nat.not_le] at hlt
  have hsame (i : Nat) : (trim slots).getD i top = (trim others).getD i top := by
    rw [getD_trim, getD_trim, h]
  -- the last slot is beyond the end of the shorter list, so it cannot be used
  obtain ⟨rest, hrest⟩ : ∃ rest, trimReversed others.reverse = top :: rest := by
    cases hr : trimReversed others.reverse with
    | nil =>
      have hnil : trim others = [] := by rw [trim, hr, List.reverse_nil]
      rw [hnil] at hlt
      exact absurd hlt (Nat.not_lt_zero _)
    | cons last rest =>
      have htrim : trim others = rest.reverse ++ [last] := by
        rw [trim, hr, List.reverse_cons]
      have hlast := hsame rest.length
      rw [htrim] at hlt hlast
      rw [List.length_append, List.length_reverse, List.length_singleton] at hlt
      rw [List.getD_eq_default _ _ (by omega), List.getD_eq_getElem?_getD,
        List.getElem?_append_right (by simp), List.length_reverse, Nat.sub_self] at hlast
      exact ⟨rest, by rw [hlast]; rfl⟩
  obtain ⟨type, htype, hw⟩ := exists_isWide_of_trimReversed hrest
  obtain ⟨tail, rfl⟩ := List.head?_eq_some_iff.mp htype
  -- it stays for the wide value before it, which both lists have
  have htrim : trim others = tail.reverse ++ [type, top] := by
    rw [trim, hrest, List.reverse_cons, List.reverse_cons, List.append_assoc]
    rfl
  have hwide := hsame tail.length
  rw [htrim, List.getD_append_right _ _ _ _ (by simp), List.length_reverse, Nat.sub_self] at hwide
  have hin := getElem?_eq_some_of_getD hwide (by rintro rfl; simp at hw)
  have hnext := (List.getElem?_eq_some_iff.mp (paired_trim hp _ _ hin hw)).1
  rw [htrim, List.length_append, List.length_reverse] at hlt
  simp only [List.length_cons, List.length_nil] at hlt
  omega

/-- Slots that are paired are determined after trimming by what stands in each of them. -/
theorem trim_congr {slots others : List FrameType} (hp : Paired slots) (hp' : Paired others)
    (h : ∀ i, slots.getD i top = others.getD i top) : trim slots = trim others := by
  have hl := Nat.le_antisymm (length_trim_le hp' fun i => (h i).symm) (length_trim_le hp h)
  refine List.ext_getElem hl fun i hi hi' => ?_
  have hsame : (trim slots).getD i top = (trim others).getD i top := by
    rw [getD_trim, getD_trim, h]
  rwa [List.getD_eq_getElem _ _ hi, List.getD_eq_getElem _ _ hi'] at hsame

theorem mem_of_mem_trim {type : FrameType} {slots : List FrameType} (h : type ∈ trim slots) :
    type ∈ slots := by
  obtain ⟨n, hn, -⟩ := trim_spec slots
  rw [hn]
  exact List.mem_append_left _ h

/-- Slots in whose place only what is unusable is missing name the same marks. -/
theorem mem_trim_of_mem {type : FrameType} {slots : List FrameType} (h : type ∈ slots)
    (ht : type ≠ top) : type ∈ trim slots := by
  obtain ⟨n, hn, -⟩ := trim_spec slots
  rw [hn] at h
  rcases List.mem_append.mp h with h | h
  · exact h
  · exact absurd (List.eq_of_mem_replicate h) ht

/-- Both slots of a value come from the value. -/
theorem mem_expand {type : FrameType} {types : List FrameType} (h : type ∈ expand types) :
    type ∈ types ∨ type = top := by
  obtain ⟨value, hv, h⟩ := List.mem_flatMap.mp h
  split_ifs at h
  · rcases List.mem_cons.mp h with rfl | h
    · exact .inl hv
    · exact .inr (List.mem_singleton.mp h)
  · exact .inl (List.mem_singleton.mp h ▸ hv)

end ClassGraft.FrameType

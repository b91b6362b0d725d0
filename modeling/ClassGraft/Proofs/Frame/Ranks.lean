import ClassGraft.Proofs.Frame.Invariants
import ClassGraft.Proofs.Hierarchy.Dimensions
import Mathlib.Algebra.Group.Action.Defs
import Mathlib.Algebra.Order.BigOperators.Group.List
import Mathlib.Algebra.Order.Ring.Nat
import Mathlib.Tactic.GCongr
import Mathlib.Tactic.Linarith

/-!
# How far types can move up

Every type has a rank that becomes less when it meets another type and is not what they meet in
(`FrameType.rank_lt_of_meet`).  A class ranks by the number of classes above it.  On the way up an
array can win dimensions, from a super class that is named as an array type, and these count for
more than all classes above its base; the types that can occur have so many dimensions at most
(`Hierarchy.dimensions_le_of_spans`).

So a frame becomes lighter whenever merging changes it (`Frame.eq_or_weight_lt_of_merge`), and it
has no more weight than its words and locals of the highest rank (`Frame.weight_le`).
-/

namespace ClassGraft

open Descriptor

/-! ### Names -/

namespace ClassPath

variable {path : ClassPath} {name above : Bytes}

/-- The classes that are reached from a class by going up at least once. -/
noncomputable def strictlyAbove (path : ClassPath) (name : Bytes) : Finset Bytes := by
  classical exact path.uppers.filter (Relation.TransGen path.Super name)

theorem mem_uppers_of_transGen (h : Relation.TransGen path.Super name above) :
    above ∈ path.uppers := by
  obtain ⟨_, -, hs⟩ := Relation.TransGen.tail'_iff.mp h
  exact mem_uppers_of_super hs

theorem mem_strictlyAbove :
    above ∈ path.strictlyAbove name ↔ Relation.TransGen path.Super name above := by
  classical
  refine Finset.mem_filter.trans ⟨fun h => h.2, fun h => ⟨mem_uppers_of_transGen h, h⟩⟩

/-- Fewer classes are above a class that was reached by going up. -/
theorem card_strictlyAbove_lt (ha : path.Above name above) (hne : above ≠ name)
    (he : path.Ends above) :
    (path.strictlyAbove above).card < (path.strictlyAbove name).card := by
  have hup : Relation.TransGen path.Super name above :=
    (Relation.reflTransGen_iff_eq_or_transGen.mp ha).resolve_left hne
  refine Finset.card_lt_card (Finset.ssubset_iff_of_subset ?_ |>.mpr ⟨above, ?_, ?_⟩)
  · exact fun other hin => mem_strictlyAbove.mpr (hup.trans (mem_strictlyAbove.mp hin))
  · exact mem_strictlyAbove.mpr hup
  · exact fun hin => he.not_transGen (mem_strictlyAbove.mp hin)

end ClassPath

namespace Hierarchy

variable {hierarchy : Hierarchy} {a b name : Bytes} {most : Nat}

/-- The number of classes above a class. -/
noncomputable def levels (hierarchy : Hierarchy) (name : Bytes) : Nat :=
  match hierarchy with
  | unknown => 0
  | classPath path => (path.strictlyAbove name).card

theorem levels_le (hierarchy : Hierarchy) (name : Bytes) :
    hierarchy.levels name ≤ hierarchy.size := by
  classical
  cases hierarchy with
  | unknown => exact Nat.zero_le _
  | classPath path =>
    exact (Finset.card_le_card (Finset.filter_subset _ _)).trans path.card_uppers_le

/-- The rank of a class or array type among those with no more than the given dimensions. -/
noncomputable def rank (hierarchy : Hierarchy) (most : Nat) (name : Bytes) : Nat :=
  if base name = objectName then dimensions name + detours name + 2
  else most + 3 + (most - dimensions name) * (hierarchy.size + 2)
    + hierarchy.levels (base name) + detours name

theorem two_le_rank (hierarchy : Hierarchy) (most : Nat) (name : Bytes) :
    2 ≤ hierarchy.rank most name := by
  unfold rank
  split_ifs
  · omega
  · omega

/-- The highest rank of all, which is above that of every class and array type. -/
def highest (hierarchy : Hierarchy) (most : Nat) : Nat := (most + 1) * (hierarchy.size + 3) + 1

theorem rank_lt_highest (h : dimensions name ≤ most) :
    hierarchy.rank most name < hierarchy.highest most := by
  refine Nat.lt_succ_of_le ?_
  have hdetours := detours_le_dimensions name
  have hlevels := hierarchy.levels_le (base name)
  unfold rank
  split_ifs
  · calc dimensions name + detours name + 2 ≤ (most + 1) * 2 := by omega
      _ ≤ (most + 1) * (hierarchy.size + 3) := by gcongr; omega
  · -- every dimension but those that are there leaves room for a detour
    obtain ⟨rest, rfl⟩ := Nat.exists_eq_add_of_le h
    have hspent : dimensions name ≤ dimensions name * (hierarchy.size + 2) :=
      Nat.le_mul_of_pos_right _ (Nat.succ_pos _)
    rw [Nat.add_sub_cancel_left]
    nlinarith only [hdetours, hlevels, hspent]

/-- The room that is left for dimensions shrinks by those that are won. -/
theorem room_eq {won : Nat} (h : dimensions a + won ≤ most) (width : Nat) :
    (most - dimensions a) * width = (most - (dimensions a + won)) * width + won * width := by
  rw [← Nat.add_mul]
  congr 1
  omega

/-- What types have in common ranks lower than the first of them, unless it is that one. -/
theorem Lifts.rank_lt (h : hierarchy.Lifts a b name) (hne : name ≠ a)
    (hn : dimensions name ≤ most) :
    hierarchy.rank most name < hierarchy.rank most a := by
  cases h with
  | same h => exact absurd h hne
  | respelled hd hb hs =>
    unfold rank
    rw [hb, hd]
    split_ifs
    · omega
    · omega
  | object hb hs hd =>
    unfold rank
    rw [if_pos hb, hs]
    split_ifs with ho
    · have := hd.resolve_right fun h => h.2 ho
      omega
    · omega
  | @climb path upper hh hm hne' hup hoa hob hab hd hb hs =>
    have hdetours := detours_le_dimensions upper
    have hroom := room_eq (hd ▸ hn) (hierarchy.size + 2)
    unfold rank
    rw [if_neg hoa, hb, hs, hd, hroom]
    split_ifs with ho
    · have : dimensions upper ≤ dimensions upper * (hierarchy.size + 2) :=
        Nat.le_mul_of_pos_right _ (Nat.succ_pos _)
      omega
    · cases hupper : elementName? upper with
      | none =>
        -- the class itself is the new base, and fewer classes are above it
        have hlevels : hierarchy.levels upper < hierarchy.levels (base a) := by
          subst hh
          exact ClassPath.card_strictlyAbove_lt hm.left hup hm.ends
        rw [dimensions_of_none hupper, detours_of_none hupper, base_of_none hupper]
        omega
      | some element =>
        -- dimensions are won, which count for more than all classes
        have hwon := dimensions_of_some hupper
        have hlevels := hierarchy.levels_le (base upper)
        have : hierarchy.size + dimensions upper <
            dimensions upper * (hierarchy.size + 2) := by
          rw [hwon]
          nlinarith only [Nat.zero_le (dimensions element * hierarchy.size)]
        omega

end Hierarchy

/-! ### Types -/

namespace FrameType

variable {hierarchy : Hierarchy} {most : Nat}

/-- The rank of a type among those with no more than the given dimensions. -/
noncomputable def rank (hierarchy : Hierarchy) (most : Nat) : FrameType → Nat
  | top => 1
  | null => hierarchy.highest most
  | object name => hierarchy.rank most name
  | _ => 2

/-- Whether a type has no more than the given dimensions. -/
def Spares (most : Nat) (type : FrameType) : Prop :=
  ∀ name, type = .object name → dimensions name ≤ most

theorem rank_pos (hierarchy : Hierarchy) (most : Nat) (type : FrameType) :
    0 < type.rank hierarchy most := by
  cases type with
  | object name => exact Nat.lt_of_lt_of_le Nat.zero_lt_two (hierarchy.two_le_rank most name)
  | _ => exact Nat.succ_pos _

theorem rank_top_lt {type : FrameType} (h : type ≠ top) :
    rank hierarchy most top < type.rank hierarchy most := by
  cases type with
  | top => exact absurd rfl h
  | object name => exact hierarchy.two_le_rank most name
  | null => exact Nat.succ_lt_succ (Nat.mul_pos (Nat.succ_pos _) (Nat.succ_pos _))
  | _ => exact Nat.one_lt_two

/-- No type ranks higher than `null`. -/
theorem rank_le_highest {type : FrameType} (h : type.Spares most) :
    type.rank hierarchy most ≤ hierarchy.highest most := by
  have hpos : 0 < (most + 1) * (hierarchy.size + 3) := Nat.mul_pos (Nat.succ_pos _) (Nat.succ_pos _)
  cases type with
  | object name => exact (Hierarchy.rank_lt_highest (h name rfl)).le
  | _ =>
    simp only [rank, Hierarchy.highest]
    omega

/-- What types meet in ranks lower than the first of them, unless it is that one. -/
theorem rank_lt_of_meet (hu : hierarchy.IsUnique) {a b type : FrameType} (ht : type.Spares most)
    (h : hierarchy.meet a b = .ok type) :
    type = a ∨ type.rank hierarchy most < a.rank hierarchy most := by
  unfold Hierarchy.meet at h
  split_ifs at h
  · exact .inl (Except.ok.inj h).symm
  · split at h
    · obtain rfl := Except.ok.inj h
      exact .inr (Hierarchy.rank_lt_highest (ht _ rfl))
    · exact .inl (Except.ok.inj h).symm
    · rename_i x y _
      split at h
      · rename_i name hc
        obtain rfl := Except.ok.inj h
        by_cases hne : name = x
        · exact .inl (congrArg object hne)
        · exact .inr ((Hierarchy.lifts_of_commonReference hu hc).rank_lt hne (ht name rfl))
      · simp at h
    · simp at h

theorem rank_lt_meetLocal (hu : hierarchy.IsUnique) {a b : FrameType}
    (ht : (hierarchy.meetLocal a b).Spares most) :
    hierarchy.meetLocal a b = a ∨
      (hierarchy.meetLocal a b).rank hierarchy most < a.rank hierarchy most := by
  unfold Hierarchy.meetLocal at ht ⊢
  split at ht
  · rename_i type h
    exact rank_lt_of_meet hu ht h
  · exact or_iff_not_imp_left.mpr fun hne => rank_top_lt (Ne.symm hne)

end FrameType

/-! ### Frames -/

/-- The ranks of some types taken together. -/
noncomputable def FrameType.weightOf (hierarchy : Hierarchy) (most : Nat)
    (types : List FrameType) : Nat :=
  (types.map (rank hierarchy most)).sum

theorem FrameType.weightOf_le {hierarchy : Hierarchy} {most : Nat} {types : List FrameType}
    (h : ∀ type ∈ types, type.Spares most) :
    weightOf hierarchy most types ≤ types.length * hierarchy.highest most := by
  have hranks : ∀ n ∈ types.map (rank hierarchy most), n ≤ hierarchy.highest most := by
    intro n hn
    obtain ⟨type, ht, rfl⟩ := List.mem_map.mp hn
    exact rank_le_highest (h type ht)
  have hsum := List.sum_le_card_nsmul _ _ hranks
  rwa [List.length_map, smul_eq_mul] at hsum

theorem FrameType.weightOf_reverse (hierarchy : Hierarchy) (most : Nat) (types : List FrameType) :
    weightOf hierarchy most types.reverse = weightOf hierarchy most types := by
  rw [weightOf, List.map_reverse, List.sum_reverse, weightOf]

/-- Types are lighter than others if each of them is that of the same slot or ranks lower. -/
theorem FrameType.eq_or_weightOf_lt {hierarchy : Hierarchy} {most : Nat}
    {before after : List FrameType}
    (h : ∀ (slot : Nat) type, after[slot]? = some type → ∃ old, before[slot]? = some old ∧
      (type = old ∨ type.rank hierarchy most < old.rank hierarchy most)) :
    after = before ∨ weightOf hierarchy most after < weightOf hierarchy most before := by
  unfold weightOf
  induction before generalizing after with
  | nil =>
    cases after with
    | nil => exact .inl rfl
    | cons type after =>
      obtain ⟨old, hold, -⟩ := h 0 type rfl
      simp at hold
  | cons old before ih =>
    cases after with
    | nil =>
      -- A slot that went away took its rank with it, which is positive.
      have := rank_pos hierarchy most old
      refine .inr ?_
      rw [List.map_nil, List.sum_nil, List.map_cons, List.sum_cons]
      omega
    | cons type after =>
      obtain ⟨first, hfirst, hrank⟩ := h 0 type rfl
      obtain rfl := Option.some.inj hfirst
      have hrest := ih fun slot => h (slot + 1)
      simp only [List.map_cons, List.sum_cons]
      rcases hrank with rfl | hrank
      · rcases hrest with rfl | hrest
        · exact .inl rfl
        · exact .inr (Nat.add_lt_add_left hrest _)
      · refine .inr ?_
        rcases hrest with rfl | hrest
        · exact Nat.add_lt_add_right hrank _
        · exact Nat.add_lt_add hrank hrest

namespace Frame

variable {hierarchy : Hierarchy} {most : Nat} {frame old new merged : Frame}

/-- The ranks of all locals and words taken together. -/
noncomputable def weight (hierarchy : Hierarchy) (most : Nat) (frame : Frame) : Nat :=
  FrameType.weightOf hierarchy most frame.locals + FrameType.weightOf hierarchy most frame.stack

/-- A frame has no more weight than its locals and words of the highest rank. -/
theorem weight_le {slots words : Nat} (h : frame.Holds (FrameType.Spares most))
    (hs : frame.locals.length ≤ slots) (hw : frame.stack.length ≤ words) :
    frame.weight hierarchy most ≤ (words + slots) * hierarchy.highest most :=
  calc frame.weight hierarchy most
      ≤ frame.locals.length * hierarchy.highest most +
          frame.stack.length * hierarchy.highest most :=
        Nat.add_le_add (FrameType.weightOf_le h.locals) (FrameType.weightOf_le h.stack)
    _ = (frame.stack.length + frame.locals.length) * hierarchy.highest most := by
        rw [Nat.add_comm, ← Nat.add_mul]
    _ ≤ (words + slots) * hierarchy.highest most := by gcongr

/-- A slot of trimmed slots is the same slot before. -/
theorem getElem?_of_trim {slots : List FrameType} {slot : Nat} {type : FrameType}
    (h : (FrameType.trim slots)[slot]? = some type) : slots[slot]? = some type := by
  obtain ⟨n, hn, -⟩ := FrameType.trim_spec slots
  rw [hn, List.getElem?_append_left (List.getElem?_eq_some_iff.mp h).1]
  exact h

/-- Locals that meet others, slot by slot, become lighter. -/
theorem eq_or_weightOf_lt_locals (hu : hierarchy.IsUnique) {locals others : List FrameType}
    (hm : ∀ type ∈ FrameType.trim (FrameType.dropHalves
      (List.zipWith hierarchy.meetLocal locals others)), type.Spares most) :
    FrameType.trim (FrameType.dropHalves (List.zipWith hierarchy.meetLocal locals others)) =
        locals ∨
      FrameType.weightOf hierarchy most (FrameType.trim (FrameType.dropHalves
        (List.zipWith hierarchy.meetLocal locals others))) <
        FrameType.weightOf hierarchy most locals := by
  refine FrameType.eq_or_weightOf_lt fun slot type hslot => ?_
  have hspares := hm type (List.mem_of_getElem? hslot)
  have hdropped := getElem?_of_trim hslot
  rw [FrameType.getElem?_dropHalves] at hdropped
  obtain ⟨met, hmet, htype⟩ := Option.map_eq_some_iff.mp hdropped
  obtain ⟨a, b, ha, -, rfl⟩ := List.getElem?_zipWith_eq_some.mp hmet
  refine ⟨a, ha, ?_⟩
  split_ifs at htype
  · subst htype
    exact or_iff_not_imp_left.mpr fun hne => FrameType.rank_top_lt (Ne.symm hne)
  · subst htype
    exact FrameType.rank_lt_meetLocal hu hspares

/-- Words that meet others become lighter. -/
theorem eq_or_weightOf_lt_words (hu : hierarchy.IsUnique) {first second words : List FrameType}
    (hw : ∀ type ∈ words, type.Spares most)
    (h : List.Forall₂ (fun pair word => hierarchy.meet pair.1 pair.2 = .ok word)
      (first.zip second) words) :
    words = first ∨
      FrameType.weightOf hierarchy most words < FrameType.weightOf hierarchy most first := by
  refine FrameType.eq_or_weightOf_lt fun slot type hslot => ?_
  obtain ⟨hlength, hmeet⟩ := List.forall₂_iff_get.mp h
  obtain ⟨hlt, rfl⟩ := List.getElem?_eq_some_iff.mp hslot
  have hpair := hmeet slot (hlength ▸ hlt) hlt
  have hfirst : slot < first.length := by
    have := hlength ▸ hlt
    rw [List.length_zip] at this
    omega
  simp only [List.get_eq_getElem, List.getElem_zip] at hpair
  exact ⟨first[slot], List.getElem?_eq_getElem hfirst,
    FrameType.rank_lt_of_meet hu (hw _ (List.getElem_mem hlt)) hpair⟩

/-- A frame that merging changes becomes lighter. -/
theorem eq_or_weight_lt_of_merge (hu : hierarchy.IsUnique)
    (hm : merged.Holds (FrameType.Spares most)) (h : merge hierarchy old new = .ok merged) :
    merged = old ∨ merged.weight hierarchy most < old.weight hierarchy most := by
  obtain ⟨hl, words, hw, rfl⟩ := merge_eq_ok.mp h
  obtain ⟨locals, stack⟩ := old
  have hlocals := eq_or_weightOf_lt_locals hu hm.locals
  have hwords := eq_or_weightOf_lt_words hu
    (fun type ht => hm.stack type (List.mem_reverse.mpr ht)) hw
  simp only [weight, fromBottom, FrameType.weightOf_reverse] at hlocals hwords ⊢
  -- the frame stays if both its parts do
  rcases hlocals with hsame | hless
  · rcases hwords with hsame' | hless'
    · exact .inl (by rw [hsame, hsame', List.reverse_reverse])
    · rw [hsame]
      exact .inr (Nat.add_lt_add_left hless' _)
  · refine .inr ?_
    rcases hwords with hsame' | hless'
    · rw [hsame', FrameType.weightOf_reverse]
      exact Nat.add_lt_add_right hless _
    · exact Nat.add_lt_add hless hless'

end Frame

end ClassGraft

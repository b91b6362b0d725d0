import ClassGraft.Proofs.Code.RoundTrip
import ClassGraft.Proofs.Frame.Entries
import ClassGraft.Proofs.Frame.Setting

/-!
# Where frames are needed

`Body.needsFrame` lists the instructions that get a frame in the table: in order, and with all that
the reader of the code will ask for (`Body.mem_needsFrame_of_jumped`,
`Body.mem_needsFrame_of_stopped`).  The table that is written for them is read back as their frames
(`Body.frameTable_spec`).
-/

namespace ClassGraft

open Reader

namespace Body

variable {body : Body} {landings : List Mark} {index : Nat}

/-! ### The list of indices -/

/-- The indices that need a frame, in any order, as far as there are instructions. -/
def wanted (body : Body) (landings : List Mark) : List Nat :=
  let after := body.steps.zipIdx.filterMap fun (step, index) =>
    if step.instruction.fallsThrough then none else some (index + 1)
  let targets := (body.steps.flatMap fun step => step.instruction.targets)
    ++ body.handlers.map (·.entry) ++ landings
  after ++ targets.filterMap (body.positions[·]?)

/-- What needs a frame follows an instruction that never goes on, or is jumped to. -/
theorem mem_wanted : index ∈ body.wanted landings ↔
    (∃ (i : Nat) (step : Step), body.steps[i]? = some step ∧
      step.instruction.fallsThrough = false ∧ i + 1 = index) ∨
    ∃ mark, ((∃ step ∈ body.steps, mark ∈ step.instruction.targets) ∨
      (∃ handler ∈ body.handlers, handler.entry = mark) ∨ mark ∈ landings) ∧
        body.positions[mark]? = some index := by
  have htargets (mark : Mark) : mark ∈ (body.steps.flatMap fun step => step.instruction.targets)
      ++ body.handlers.map (·.entry) ++ landings ↔
        (∃ step ∈ body.steps, mark ∈ step.instruction.targets) ∨
          (∃ handler ∈ body.handlers, handler.entry = mark) ∨ mark ∈ landings := by
    rw [List.mem_append, List.mem_append, List.mem_flatMap, List.mem_map, or_assoc]
  unfold wanted
  dsimp only
  rw [List.mem_append, List.mem_filterMap, List.mem_filterMap]
  simp only [htargets]
  refine or_congr_left ⟨?_, ?_⟩
  · rintro ⟨⟨step, i⟩, hmem, he⟩
    dsimp only at he
    split_ifs at he with hf
    exact ⟨i, step, List.mem_zipIdx_iff_getElem?.mp hmem, Bool.eq_false_iff.mpr hf, Option.some.inj he⟩
  · rintro ⟨i, step, hstep, hf, rfl⟩
    refine ⟨(step, i), List.mem_zipIdx_iff_getElem?.mpr hstep, ?_⟩
    dsimp only
    rw [hf]
    rfl

/-- A flag is set if it was, or if its index is in the list. -/
theorem getD_foldl_setIfInBounds (indices : List Nat) (flags : Array Bool) :
    (indices.foldl (fun flags index => flags.setIfInBounds index true) flags).getD index false =
      (flags.getD index false || (indices.contains index && decide (index < flags.size))) := by
  induction indices generalizing flags with
  | nil => simp
  | cons first rest ih =>
    rw [List.foldl_cons, ih, Array.size_setIfInBounds]
    simp only [Array.getD_eq_getD_getElem?, Array.getElem?_setIfInBounds, List.contains_cons]
    by_cases he : first = index
    · subst he
      by_cases hlt : first < flags.size
      · simp [hlt]
      · simp [hlt]
    · have hne : (index == first) = false := beq_eq_false_iff_ne.mpr (Ne.symm he)
      simp [he, hne]

theorem mem_needsFrame : index ∈ body.needsFrame landings ↔
    index ∈ body.wanted landings ∧ index < body.steps.length := by
  have hflag := @getD_foldl_setIfInBounds index (body.wanted landings)
    (Array.replicate body.steps.length false)
  have hmem : index ∈ body.needsFrame landings ↔ index ∈ List.range body.steps.length ∧
      ((body.wanted landings).foldl (fun flags index => flags.setIfInBounds index true)
        (Array.replicate body.steps.length false)).getD index false = true := List.mem_filter
  rw [hmem, hflag, List.mem_range]
  simp only [Array.getD_eq_getD_getElem?, Array.getElem?_replicate, Array.size_replicate]
  by_cases hlt : index < body.steps.length
  · simp [hlt]
  · simp [hlt]

theorem pairwise_needsFrame (body : Body) (landings : List Mark) :
    (body.needsFrame landings).Pairwise (· < ·) :=
  List.pairwise_lt_range.filter _

/-- Where something jumps to. -/
theorem mem_needsFrame_of_jumped (hn : (body.steps.map (·.mark)).Nodup) {step : Step}
    (hstep : body.steps[index]? = some step)
    (h : (∃ other ∈ body.steps, step.mark ∈ other.instruction.targets) ∨
      (∃ handler ∈ body.handlers, handler.entry = step.mark) ∨ step.mark ∈ landings) :
    index ∈ body.needsFrame landings :=
  mem_needsFrame.mpr ⟨mem_wanted.mpr (.inr ⟨step.mark, h, getElem?_positions hn hstep⟩),
    (List.getElem?_eq_some_iff.mp hstep).1⟩

/-- What follows an instruction that never goes on. -/
theorem mem_needsFrame_of_stopped {step : Step} (hstep : body.steps[index]? = some step)
    (h : step.instruction.fallsThrough = false) (hlt : index + 1 < body.steps.length) :
    index + 1 ∈ body.needsFrame landings :=
  mem_needsFrame.mpr ⟨mem_wanted.mpr (.inl ⟨index, step, hstep, h, rfl⟩), hlt⟩

/-! ### The table -/

/-- The changes in a table of frames; none if there is no table. -/
def changesIn? (starts : Starts) (pool : Pool) (table : Option Bytes) :
    Option (List DeclaredFrame) :=
  match table with
  | none => some []
  | some info => readWhole (readFrames starts pool) info

theorem readWhole_of_takes {α : Type} {reader : Reader α} {bytes : Bytes} {value : α}
    (h : reader.Takes 0 bytes value) : readWhole reader bytes = some value := by
  have hread := h []
  rw [List.append_nil] at hread
  unfold readWhole
  rw [bind_of_eq_ok hread]
  rfl

/-- The frame at each of some indices, with the mark of its instruction. -/
def AreHeld (body : Body) (frames : Array (Option Frame)) (indices : List Nat)
    (held : List (Mark × Frame)) : Prop :=
  List.Forall₂ (fun index row => ∃ step, body.steps[index]? = some step ∧ step.mark = row.1 ∧
    frames[index]? = some (some row.2)) indices held

theorem areHeld_of_rows {frames : Array (Option Frame)} {indices : List Nat}
    (hlt : ∀ index ∈ indices, index < body.steps.length) {held : List (Mark × Frame)}
    (h : (indices.filterMap fun index => (body.steps.toArray[index]?).map fun step =>
      (index, step.mark, (frames[index]?).join)).map (·.2) =
        held.map fun row => (row.1, some row.2)) : body.AreHeld frames indices held := by
  induction indices generalizing held with
  | nil =>
    obtain rfl := List.map_eq_nil_iff.mp h.symm
    exact .nil
  | cons index rest ih =>
    obtain ⟨hindex, hrest⟩ := List.forall_mem_cons.mp hlt
    have hat : body.steps.toArray[index]? = some body.steps[index] := by
      rw [List.getElem?_toArray, List.getElem?_eq_getElem hindex]
    rw [List.filterMap_cons, hat] at h
    cases held with
    | nil => simp at h
    | cons row held =>
      obtain ⟨hrow, hheld⟩ := List.cons.inj h
      obtain ⟨hmark, hframe⟩ := Prod.mk.inj hrow
      exact .cons ⟨_, List.getElem?_eq_getElem hindex, hmark, Option.join_eq_some_iff.mp hframe⟩
        (ih hrest hheld)

/-- Where instructions stand in order, those that need a frame do. -/
theorem pairwise_rows {placed : Std.HashMap Mark Nat}
    (hs : body.steps.Pairwise fun step other =>
      placeOf placed step.mark < placeOf placed other.mark)
    (frames : Array (Option Frame)) (landings : List Mark) :
    (((body.needsFrame landings).filterMap fun index => (body.steps.toArray[index]?).map fun step =>
      (index, step.mark, (frames[index]?).join)).map fun row => placeOf placed row.2.1).Pairwise
        (· < ·) := by
  rw [List.pairwise_map, List.pairwise_filterMap]
  refine (pairwise_needsFrame body landings).imp fun {index other} hlt row hrow row' hrow' => ?_
  obtain ⟨step, hstep, rfl⟩ := Option.map_eq_some_iff.mp hrow
  obtain ⟨step', hstep', rfl⟩ := Option.map_eq_some_iff.mp hrow'
  rw [List.getElem?_toArray] at hstep hstep'
  obtain ⟨hi, rfl⟩ := List.getElem?_eq_some_iff.mp hstep
  obtain ⟨hi', rfl⟩ := List.getElem?_eq_some_iff.mp hstep'
  exact List.pairwise_iff_getElem.mp hs index other hi hi' hlt

/-- The table is read back as the frames of the instructions that need one. -/
theorem frameTable_spec {layout : Layout} {starts : Starts} {number : Mark → Mark}
    (hn : layout.IsNumbered starts number)
    (hs : body.steps.Pairwise fun step other =>
      placeOf layout.placed step.mark < placeOf layout.placed other.mark)
    {frames : Array (Option Frame)} {entry : Frame}
    (hentry : ∀ type ∈ entry.listedLocals, layout.IsPlaced type) {pool later : Pool}
    {table : Option Bytes} (h : body.frameTable frames entry layout pool = (.ok table, later)) :
    pool.Grows later ∧ ∃ held, body.AreHeld frames (body.needsFrame layout.landings) held ∧
      (∀ row ∈ held, ∀ type ∈ row.2.listedLocals ++ row.2.listedStack, layout.IsPlaced type) ∧
      ∀ last, later.Grows last →
        changesIn? starts last table = some (changesFrom number held entry.listedLocals) := by
  have hlt : ∀ index ∈ body.needsFrame layout.landings, index < body.steps.length :=
    fun index hi => (mem_needsFrame.mp hi).2
  unfold frameTable at h
  dsimp only at h
  split_ifs at h with hempty hcount
  · obtain ⟨rfl, rfl⟩ := ExceptT.pure_eq_ok.mp h
    rw [List.isEmpty_iff.mp hempty]
    exact ⟨.refl pool, [], .nil, by simp, fun _ _ => rfl⟩
  · exact absurd h (by simp [ExceptT.throw_ne_ok])
  · obtain ⟨parts, last, hparts, h⟩ := ExceptT.bind_eq_ok.mp h
    obtain ⟨rfl, rfl⟩ := ExceptT.pure_eq_ok.mp h
    obtain ⟨hg, held, hheld, hplaced, hr⟩ :=
      Layout.frameEntries_spec hn (pairwise_rows hs frames layout.landings) (by simp) hentry hparts
    have hare := areHeld_of_rows hlt hheld
    refine ⟨hg, held, hare, hplaced, fun last hlast => readWhole_of_takes ?_⟩
    -- The count was checked before it was written, so that it is read back as it was.
    have hcount : (body.needsFrame layout.landings).length < 65536 := by omega
    have hlength := congrArg List.length hheld
    rw [List.length_map, List.length_map, ← hare.length_eq] at hlength
    refine (takes_uint16 (UInt16.ofNat _) 0).bind ?_
    rw [UInt16.toNat_ofNat_of_lt' hcount, ← hlength]
    exact hr last hlast [] _

end Body

end ClassGraft

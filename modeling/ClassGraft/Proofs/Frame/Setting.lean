import ClassGraft.Frame.Flow
import ClassGraft.Proofs.Frame.Slots
import ClassGraft.Proofs.Outcome
import ClassGraft.Proofs.Tables

/-!
# Marks and indices

What the tables that an analysis sets up hold: `Body.positions` the index of each instruction,
`Body.handlerRanges` the handlers by index, and `Body.framesByIndex` the declared frames, whose wide
values have both slots.  The frame that a method starts with has no objects that it made.
-/

namespace ClassGraft

/-! ### The places of instructions -/

theorem Scene.position_eq_ok {scene : Scene} {mark : Mark} {index : Nat} :
    scene.position mark = .ok index ↔ scene.positions[mark]? = some index := by
  unfold position
  cases scene.positions[mark]? with
  | none => simp
  | some found => simp

namespace Body

/-- The index of each instruction, as a table with a row for each. -/
theorem positions_eq (body : Body) : body.positions =
    Table.insertAll (fun row => row.1.mark) (fun row => row.2) body.steps.zipIdx ∅ := rfl

/-- An index that is found for a mark is that of an instruction with the mark. -/
theorem of_getElem?_positions {body : Body} {mark : Mark} {index : Nat}
    (h : body.positions[mark]? = some index) :
    ∃ step, body.steps[index]? = some step ∧ step.mark = mark := by
  rw [positions_eq] at h
  rcases Table.exists_of_getElem? h with ⟨⟨step, i⟩, hm, rfl, rfl⟩ | hf
  · exact ⟨step, List.mem_zipIdx_iff_getElem?.mp hm, rfl⟩
  · simp at hf

/-- Where all marks are distinct, each instruction is found at its index. -/
theorem getElem?_positions {body : Body} (hn : (body.steps.map (·.mark)).Nodup) {index : Nat}
    {step : Step} (h : body.steps[index]? = some step) :
    body.positions[step.mark]? = some index := by
  have hkeys := congrArg (List.map Step.mark) (List.zipIdx_map_fst 0 body.steps)
  rw [List.map_map] at hkeys
  have hm : (step, index) ∈ body.steps.zipIdx := List.mem_zipIdx_iff_getElem?.mpr h
  rw [positions_eq]
  exact Table.getElem?_of_mem (hkeys ▸ hn) hm

/-! ### Handlers and declared frames -/

/-- The range of a handler: where it starts and stops, where exceptions go on, and their class. -/
structure IsRangeOf (scene : Scene) (handler : Handler) (range : HandlerRange) : Prop where
  start : scene.position handler.start = .ok range.start
  stop : match handler.stop with
    | .at mark => scene.position mark = .ok range.stop
    | .finish => range.stop = scene.steps.size
  entry : scene.position handler.entry = .ok range.entry
  caught : if handler.catchType = 0 then range.caught = throwableName
    else scene.pool.className handler.catchType = some range.caught

/-- What comes once it is known where a range starts and stops. -/
theorem isRangeOf_iff_of_places {scene : Scene} {handler : Handler} {range : HandlerRange}
    {start stop : Nat} (hstart : scene.position handler.start = .ok start)
    (hstop : match handler.stop with
      | .at mark => scene.position mark = .ok stop
      | .finish => stop = scene.steps.size) :
    (do
      let entry ← (scene.position handler.entry).mapError Obstacle.anywhere
      if handler.catchType = 0 then return HandlerRange.mk start stop entry throwableName
      match scene.pool.className handler.catchType with
      | some name => return HandlerRange.mk start stop entry name
      | none => throw (Obstacle.atStep entry (.badCatchType handler.catchType))) = .ok range ↔
        IsRangeOf scene handler range := by
  constructor
  · intro h
    obtain ⟨entry, hentry, h⟩ := Except.bind_eq_ok.mp h
    have hentry := Except.mapError_eq_ok.mp hentry
    split_ifs at h with hcatch
    · obtain rfl := Except.pure_eq_ok.mp h
      exact ⟨hstart, hstop, hentry, by rw [if_pos hcatch]⟩
    · split at h
      · rename_i name hname
        obtain rfl := Except.pure_eq_ok.mp h
        exact ⟨hstart, hstop, hentry, by rw [if_neg hcatch]; exact hname⟩
      · simp at h
  · rintro ⟨hstart', hstop', hentry, hcaught⟩
    obtain ⟨first, last, entry, caught⟩ := range
    obtain rfl : start = first := Except.ok.inj (hstart.symm.trans hstart')
    -- The end is a mark or that of the code, and either determines it.
    obtain rfl : stop = last := by
      cases hplace : handler.stop with
      | «at» mark =>
        rw [hplace] at hstop hstop'
        exact Except.ok.inj (hstop.symm.trans hstop')
      | finish =>
        rw [hplace] at hstop hstop'
        exact hstop.trans hstop'.symm
    refine Except.bind_eq_ok.mpr ⟨entry, Except.mapError_eq_ok.mpr hentry, ?_⟩
    split_ifs at hcaught ⊢ with hcatch
    · rw [← hcaught]
      rfl
    · rw [hcaught]
      rfl

/-- The range of each handler is found. -/
theorem handlerRanges_eq_ok {body : Body} {scene : Scene} {ranges : List HandlerRange} :
    body.handlerRanges scene = .ok ranges ↔
      List.Forall₂ (IsRangeOf scene) body.handlers ranges := by
  refine Except.mapM_eq_ok.trans ⟨fun h => h.imp fun handler range h => ?_,
    fun h => h.imp fun handler range h => ?_⟩
  · obtain ⟨start, hstart, h⟩ := Except.bind_eq_ok.mp h
    have hstart := Except.mapError_eq_ok.mp hstart
    -- The two forms of the end meet again in what comes once the places are known.
    cases hplace : handler.stop with
    | «at» mark =>
      rw [hplace] at h
      obtain ⟨stop, hstop, h⟩ := Except.bind_eq_ok.mp h
      exact (isRangeOf_iff_of_places hstart
        (by rw [hplace]; exact Except.mapError_eq_ok.mp hstop)).mp h
    | finish =>
      rw [hplace] at h
      obtain ⟨stop, hstop, h⟩ := Except.bind_eq_ok.mp h
      obtain rfl := Except.pure_eq_ok.mp hstop
      exact (isRangeOf_iff_of_places hstart (by rw [hplace])).mp h
  · refine Except.bind_eq_ok.mpr ⟨range.start, Except.mapError_eq_ok.mpr h.start, ?_⟩
    have hlast := (isRangeOf_iff_of_places h.start h.stop).mpr h
    have hstop := h.stop
    cases hplace : handler.stop with
    | «at» mark =>
      rw [hplace] at hstop
      exact Except.bind_eq_ok.mpr ⟨range.stop, Except.mapError_eq_ok.mpr hstop, hlast⟩
    | finish =>
      rw [hplace] at hstop
      exact Except.bind_eq_ok.mpr ⟨range.stop, congrArg Except.ok hstop.symm, hlast⟩

theorem exists_of_mem_handlerRanges {body : Body} {scene : Scene} {ranges : List HandlerRange}
    (h : body.handlerRanges scene = .ok ranges) {range : HandlerRange} (hr : range ∈ ranges) :
    ∃ handler ∈ body.handlers, IsRangeOf scene handler range :=
  exists_of_mem_right (handlerRanges_eq_ok.mp h) hr

theorem mem_of_getElem?_foldl {positions : Std.HashMap Mark Nat} {frames : List (Mark × Frame)}
    {found : Std.HashMap Nat Frame} {index : Nat} {frame : Frame}
    (h : (frames.foldl (fun found (mark, frame) =>
      match positions[mark]? with
      | some index => found.insert index frame
      | none => found) found)[index]? = some frame) :
    (∃ mark, (mark, frame) ∈ frames ∧ positions[mark]? = some index) ∨
      found[index]? = some frame := by
  induction frames generalizing found with
  | nil => exact .inr h
  | cons row frames ih =>
    rcases ih h with ⟨mark, hm, hp⟩ | hf
    · exact .inl ⟨mark, List.mem_cons_of_mem _ hm, hp⟩
    · dsimp only at hf
      split at hf
      · rename_i other hother
        rw [Std.HashMap.getElem?_insert] at hf
        split_ifs at hf with he
        · obtain rfl := Option.some.inj hf
          exact .inl ⟨row.1, List.mem_cons_self, eq_of_beq he ▸ hother⟩
        · exact .inr hf
      · exact .inr hf

/-- Frames that are found by index are among those that were declared. -/
theorem mem_of_getElem?_framesByIndex {positions : Std.HashMap Mark Nat}
    {frames : List (Mark × Frame)} {index : Nat} {frame : Frame}
    (h : (framesByIndex positions frames)[index]? = some frame) :
    ∃ mark, (mark, frame) ∈ frames ∧ positions[mark]? = some index :=
  (mem_of_getElem?_foldl h).resolve_right (by simp)

theorem values_framesByIndex_nil (positions : Std.HashMap Mark Nat) :
    (framesByIndex positions []).values = [] :=
  Std.HashMap.values_empty

/-- A declared frame is what some locals and words stand for, with the slots that they take. -/
theorem exists_of_mem_expandChanges {changes : List DeclaredFrame} {locals : List FrameType}
    {frames : List (Mark × Frame)} (h : expandChanges changes locals = .ok frames)
    {row : Mark × Frame} (hrow : row ∈ frames) : ∃ locals' stack,
      row.2 = ⟨FrameType.expand locals', (FrameType.expand stack).reverse⟩ := by
  induction changes generalizing locals frames with
  | nil =>
    obtain rfl := Except.ok.inj h
    cases hrow
  | cons change rest ih =>
    unfold expandChanges at h
    obtain ⟨⟨locals', stack⟩, -, h⟩ := Except.bind_eq_ok.mp h
    obtain ⟨others, hothers, h⟩ := Except.bind_eq_ok.mp h
    obtain rfl := Except.pure_eq_ok.mp h
    rcases List.mem_cons.mp hrow with rfl | hrow
    · exact ⟨locals', stack, rfl⟩
    · exact ih hothers hrow

/-- Declared frames have both slots of their wide values. -/
theorem paired_of_expandChanges {changes : List DeclaredFrame} {locals : List FrameType}
    {frames : List (Mark × Frame)} (h : expandChanges changes locals = .ok frames) :
    ∀ row ∈ frames, FrameType.Paired row.2.locals := by
  intro row hrow
  obtain ⟨locals', stack, heq⟩ := exists_of_mem_expandChanges h hrow
  rw [heq]
  exact FrameType.paired_expand locals'

end Body

/-! ### The first frame -/

/-- A method does not start with what an instruction made. -/
theorem MethodHead.ne_uninitialized {head : MethodHead} {entry : Frame}
    (h : head.entryFrame = .ok entry) {type : FrameType} (ht : type ∈ entry.locals) (mark : Mark) :
    type ≠ .uninitialized mark := by
  unfold entryFrame at h
  split at h
  · simp at h
  · rename_i method _
    obtain rfl := Except.ok.inj h
    have hargument : ∀ type ∈ FrameType.expand (method.arguments.map FrameType.ofValue),
        type ≠ .uninitialized mark := by
      intro type ht
      rcases FrameType.mem_expand ht with hv | rfl
      · obtain ⟨value, -, rfl⟩ := List.mem_map.mp hv
        cases value <;> simp [FrameType.ofValue]
      · simp
    dsimp only at ht
    split_ifs at ht
    · exact hargument type ht
    · rcases List.mem_cons.mp ht with rfl | ht
      · unfold receiver
        split_ifs <;> simp
      · exact hargument type ht

theorem MethodHead.stack_entryFrame {head : MethodHead} {entry : Frame}
    (h : head.entryFrame = .ok entry) : entry.stack = [] := by
  unfold entryFrame at h
  split at h
  · simp at h
  · obtain rfl := Except.ok.inj h
    rfl

end ClassGraft

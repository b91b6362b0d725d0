import ClassGraft.Class.Refresh
import ClassGraft.Proofs.Code.Drafts
import ClassGraft.Proofs.Frame.Reached

/-!
# What refreshing a body does

`ClassFile.refreshBody` analyzes a body, replaces what cannot be reached, lays the rest out and
writes it with a table of frames (`ClassFile.refreshBody_eq_ok`).  The code that is laid out has the
marks of the body, and its last instruction never goes on (`Body.fallsThrough_live`).
-/

namespace ClassGraft

/-! ### Without dead code -/

/-- The body that is written: without dead code, and with the sizes that were found. -/
def Body.live (body : Body) (analysis : Analysis) : Body :=
  let live := if analysis.hasDeadCode then body.withoutDead analysis.dead else body
  let sizes := if analysis.hasDeadCode then analysis.withDead else analysis
  { live with maxStack := sizes.maxStack, maxLocals := sizes.maxLocals }

/-- The frames of the body that is written, also for code that was dead. -/
def Analysis.liveFrames (analysis : Analysis) : Array (Option Frame) :=
  if analysis.hasDeadCode then analysis.withDead.frames else analysis.frames

/-- Without dead code only the sizes change. -/
theorem Body.live_of_not_hasDeadCode {analysis : Analysis} (h : analysis.hasDeadCode = false)
    (body : Body) : body.live analysis =
      { body with maxStack := analysis.maxStack, maxLocals := analysis.maxLocals } := by
  unfold live
  rw [h]
  rfl

/-- Code without instructions that need a frame is written without a table. -/
theorem Body.frameAttribute_of_needsFrame_nil {body : Body} {layout : Layout}
    (h : body.needsFrame layout.landings = []) (frames : Array (Option Frame)) (entry : Frame)
    (pool : Pool) : body.frameAttribute frames entry layout pool = (.ok none, pool) := by
  refine ExceptT.bind_eq_ok.mpr ⟨none, pool, ?_, rfl⟩
  unfold frameTable
  rw [h]
  rfl

theorem map_mark_buryDead (cells : List (Step × Bool)) :
    (buryDead cells).map (·.mark) = (cells.map (·.1)).map (·.mark) := by
  induction cells using buryDead.induct with
  | case1 => rfl
  | case2 step rest ih => rw [buryDead, List.map_cons, List.map_cons, List.map_cons, ih]
  | case3 step rest ih => rw [buryDead, List.map_cons, List.map_cons, List.map_cons, ih]

/-- What was alive stays, and what was dead does not look at anything. -/
theorem mem_buryDead {cells : List (Step × Bool)} {step : Step} (h : step ∈ buryDead cells) :
    (step, false) ∈ cells ∨ step.instruction = .plain Opcode.nop ∨
      step.instruction = .plain Opcode.athrow := by
  induction cells using buryDead.induct with
  | case1 => simp [buryDead] at h
  | case2 other rest ih =>
    rw [buryDead] at h
    rcases List.mem_cons.mp h with rfl | h
    · exact .inl List.mem_cons_self
    · exact (ih h).imp_left (List.mem_cons_of_mem _)
  | case3 other rest ih =>
    rw [buryDead] at h
    rcases List.mem_cons.mp h with rfl | h
    · refine .inr ?_
      dsimp only
      split_ifs
      · exact .inl rfl
      · exact .inr rfl
    · exact (ih h).imp_left (List.mem_cons_of_mem _)

/-- The last instruction throws, if it was dead. -/
theorem getLast?_buryDead (cells : List (Step × Bool)) : (buryDead cells).getLast? =
    cells.getLast?.map fun (step, dead) =>
      if dead then { step with instruction := .plain Opcode.athrow } else step := by
  induction cells using buryDead.induct with
  | case1 => rfl
  | case2 step rest ih =>
    rw [buryDead, List.getLast?_cons, List.getLast?_cons, ih]
    cases rest.getLast? with
    | none => rfl
    | some cell => rfl
  | case3 step rest ih =>
    rw [buryDead, List.getLast?_cons, List.getLast?_cons, ih]
    cases rest with
    | nil => rfl
    | cons next rest => simp [List.getLast?_cons]

theorem buryDead_of_forall_live {cells : List (Step × Bool)} (h : ∀ cell ∈ cells, cell.2 = false) :
    buryDead cells = cells.map (·.1) := by
  induction cells with
  | nil => rfl
  | cons cell rest ih =>
    obtain ⟨hcell, hrest⟩ := List.forall_mem_cons.mp h
    obtain ⟨step, dead⟩ := cell
    obtain rfl := hcell
    rw [buryDead, List.map_cons, ih hrest]

namespace Body

variable {body : Body} {head : MethodHead} {pool : Pool} {hierarchy : Hierarchy}
  {analysis : Analysis}

theorem map_mark_withoutDead {dead : List Bool} (hd : dead.length = body.steps.length) :
    (body.withoutDead dead).steps.map (·.mark) = body.steps.map (·.mark) := by
  rw [withoutDead, map_mark_buryDead, List.map_fst_zip (Nat.le_of_eq hd.symm)]

theorem length_dead (h : body.analyze head pool hierarchy = .ok analysis) :
    analysis.dead.length = body.steps.length := by
  rw [Analysis.dead, List.length_map, Array.length_toList, (goesOn_of_analyze h).1]

/-- Whether there is dead code or not, the steps are what is left of it. -/
theorem steps_live (h : body.analyze head pool hierarchy = .ok analysis) :
    (body.live analysis).steps = buryDead (body.steps.zip analysis.dead) := by
  unfold live
  dsimp only
  split_ifs with hdead
  · rfl
  · have hlive : ∀ cell ∈ body.steps.zip analysis.dead, cell.2 = false := by
      intro cell hcell
      have hmem := (List.of_mem_zip hcell).2
      obtain ⟨frame, hframe, hnone⟩ := List.mem_map.mp hmem
      rw [← hnone]
      by_contra hc
      refine hdead (Array.any_eq_true'.mpr ⟨frame, Array.mem_toList_iff.mp hframe, ?_⟩)
      simpa using hc
    rw [buryDead_of_forall_live hlive, List.map_fst_zip (Nat.le_of_eq (length_dead h).symm)]

/-- The marks stay. -/
theorem map_mark_live (h : body.analyze head pool hierarchy = .ok analysis) :
    (body.live analysis).steps.map (·.mark) = body.steps.map (·.mark) := by
  rw [steps_live h, map_mark_buryDead, List.map_fst_zip (Nat.le_of_eq (length_dead h).symm)]

/-- Code that can be read stays so. -/
theorem isReadable_live (h : body.analyze head pool hierarchy = .ok analysis)
    (hr : ∀ step ∈ body.steps, step.instruction.isReadable = true) :
    ∀ step ∈ (body.live analysis).steps, step.instruction.isReadable = true := by
  intro step hstep
  rw [steps_live h] at hstep
  rcases mem_buryDead hstep with hlive | hnop | hthrow
  · exact hr step (List.of_mem_zip hlive).1
  · rw [hnop]
    rfl
  · rw [hthrow]
    rfl

/-- The last instruction that is written never goes on. -/
theorem fallsThrough_live (h : body.analyze head pool hierarchy = .ok analysis) :
    ∀ last ∈ (body.live analysis).steps.getLast?, last.instruction.fallsThrough = false := by
  intro last hlast
  rw [steps_live h, getLast?_buryDead] at hlast
  obtain ⟨⟨step, dead⟩, hcell, rfl⟩ := Option.map_eq_some_iff.mp hlast
  cases dead with
  | true => rfl
  | false =>
    obtain ⟨hsize, hgoes⟩ := goesOn_of_analyze h
    rw [List.getLast?_eq_getElem?, List.length_zip, length_dead h, Nat.min_self,
      List.getElem?_zip_eq_some] at hcell
    obtain ⟨hstep, hframe⟩ := hcell
    have hpos := (List.getElem?_eq_some_iff.mp hstep).1
    rw [Analysis.dead, List.getElem?_map, Array.getElem?_toList] at hframe
    obtain ⟨frame, hframe, hnone⟩ := Option.map_eq_some_iff.mp hframe
    cases frame with
    | none => simp at hnone
    | some before =>
      -- an analysis fails where the last instruction goes on
      by_contra hf
      exact hgoes _ step before hstep hframe (by simpa using hf) (by omega)

end Body

/-! ### A body is refreshed -/

theorem Refreshing.intern_eq_ok {α : Type} {step : Interning α} {file file' : ClassFile} {a : α} :
    Refreshing.intern step file = (.ok a, file') ↔
      ∃ pool, step file.pool = (.ok a, pool) ∧ { file with pool := pool } = file' := by
  obtain ⟨result, pool, h⟩ : ∃ result pool, step file.pool = (result, pool) := ⟨_, _, rfl⟩
  unfold Refreshing.intern
  rw [h]
  cases result with
  | error fault =>
    constructor
    · intro h
      nomatch h
    · rintro ⟨other, h, -⟩
      nomatch h
  | ok value =>
    constructor
    · intro h
      obtain ⟨ha, hf⟩ := Prod.mk.inj h
      obtain rfl := Except.ok.inj ha
      exact ⟨pool, rfl, hf⟩
    · rintro ⟨other, h, rfl⟩
      obtain ⟨ha, rfl⟩ := Prod.mk.inj h
      obtain rfl := Except.ok.inj ha
      rfl

namespace ClassFile

/-- Lays out and writes a body without dead code, as it was when the class was the given one. -/
def writeLive (index : Nat) (head : MethodHead) (file : ClassFile) (live : Body)
    (frames : Array (Option Frame)) : Refreshing Unit := do
  modify (·.setBody index live)
  let lift {α : Type} (result : Except ClassFault α) : Refreshing α :=
    liftM (result.mapError fun fault => Refusal.ofFlaw (.file fault))
  let layout ← lift (Layout.ofSteps file.pool live.steps)
  let table ←
    if file.majorVersion < framesVersion then pure none
    else do
      let entry ← liftM (head.entryFrame.mapError fun fault => Refusal.ofFlaw (.frames fault))
      Refreshing.intern (live.frameAttribute frames entry layout)
  let encoded ← lift (live.bytes layout table)
  modify (·.setBody index { live with encoded := some encoded })

theorem refreshBody_eq (index : Nat) (head : MethodHead) (hierarchy : Hierarchy) (body : Body) :
    refreshBody index head hierarchy body = (do
      let file ← get
      let analysis ← liftM ((body.analyze head file.pool hierarchy).mapError Refusal.ofObstacle)
      writeLive index head file (body.live analysis) analysis.liveFrames) := by
  unfold refreshBody
  refine bind_congr fun file => bind_congr fun analysis => ?_
  unfold writeLive Body.live Analysis.liveFrames
  cases analysis.hasDeadCode with
  | true => rfl
  | false => rfl

/-- What refreshing a body does: it analyzes it, lays out what is left without dead code, and writes
that with the table of frames, which versions before the first that declares frames do not have. -/
theorem refreshBody_eq_ok {index : Nat} {head : MethodHead} {hierarchy : Hierarchy}
    {body : Body} {file file' : ClassFile} :
    refreshBody index head hierarchy body file = (.ok (), file') ↔
      ∃ analysis layout table pool encoded,
        body.analyze head file.pool hierarchy = .ok analysis ∧
        Layout.ofSteps file.pool (body.live analysis).steps = .ok layout ∧
        (if file.majorVersion < framesVersion then none = table ∧ file.pool = pool
          else ∃ entry, head.entryFrame = .ok entry ∧
            (body.live analysis).frameAttribute analysis.liveFrames entry layout file.pool =
              (.ok table, pool)) ∧
        (body.live analysis).bytes layout table = .ok encoded ∧
        { file.setBody index (body.live analysis) with pool := pool }.setBody index
          { body.live analysis with encoded := some encoded } = file' := by
  rw [refreshBody_eq]
  unfold writeLive
  simp only [ExceptT.bind_eq_ok, ExceptT.get_eq_ok, ExceptT.lift_eq_ok, ExceptT.modify_eq_ok,
    Except.mapError_eq_ok, and_assoc, exists_and_left, exists_eq_left']
  by_cases hv : file.majorVersion < framesVersion
  · simp only [hv, if_true, ExceptT.bind_eq_ok, ExceptT.pure_eq_ok, ExceptT.lift_eq_ok,
      ExceptT.modify_eq_ok, Except.mapError_eq_ok, and_assoc, exists_and_left, exists_eq_left']
    constructor
    · rintro ⟨analysis, ha, -, layout, hl, encoded, he, hf⟩
      exact ⟨analysis, ha, layout, hl, encoded, he, hf⟩
    · rintro ⟨analysis, ha, layout, hl, encoded, he, hf⟩
      exact ⟨analysis, ha, ⟨⟩, layout, hl, encoded, he, hf⟩
  · simp only [hv, if_false, ExceptT.bind_eq_ok, ExceptT.lift_eq_ok, ExceptT.modify_eq_ok,
      Except.mapError_eq_ok, Refreshing.intern_eq_ok, and_assoc, exists_and_left, exists_eq_left']
    constructor
    · rintro ⟨analysis, ha, -, layout, hl, entry, hentry, table, -, ⟨pool, ht, rfl⟩, encoded, he,
        hf⟩
      exact ⟨analysis, ha, layout, hl, table, pool, ⟨entry, hentry, ht⟩, encoded, he, hf⟩
    · rintro ⟨analysis, ha, layout, hl, table, pool, ⟨entry, hentry, ht⟩, encoded, he, hf⟩
      exact ⟨analysis, ha, ⟨⟩, layout, hl, entry, hentry, table, _, ⟨pool, ht, rfl⟩, encoded, he,
        hf⟩

/-- A body without instructions that need a frame is refreshed with the constants there are, in any
version. -/
theorem refreshBody_of_needsFrame_nil {index : Nat} {head : MethodHead} {hierarchy : Hierarchy}
    {body : Body} {file : ClassFile} {analysis : Analysis} {layout : Layout} {entry : Frame}
    {encoded : Bytes} (ha : body.analyze head file.pool hierarchy = .ok analysis)
    (hl : Layout.ofSteps file.pool (body.live analysis).steps = .ok layout)
    (hentry : head.entryFrame = .ok entry)
    (hn : (body.live analysis).needsFrame layout.landings = [])
    (he : (body.live analysis).bytes layout none = .ok encoded) :
    refreshBody index head hierarchy body file =
      (.ok (), (file.setBody index (body.live analysis)).setBody index
        { body.live analysis with encoded := some encoded }) := by
  refine refreshBody_eq_ok.mpr ⟨analysis, layout, none, file.pool, encoded, ha, hl, ?_, he, rfl⟩
  split_ifs
  · exact ⟨rfl, rfl⟩
  · exact ⟨entry, hentry, Body.frameAttribute_of_needsFrame_nil hn _ entry file.pool⟩

end ClassFile

end ClassGraft

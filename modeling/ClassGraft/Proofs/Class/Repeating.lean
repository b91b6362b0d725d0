import ClassGraft.Proofs.Class.DeadCode
import ClassGraft.Proofs.Class.Refreshing
import ClassGraft.Proofs.Pool.Numbering

/-!
# Refreshing a body twice

A body that was refreshed and is refreshed again comes out the same, and adds no constants
(`ClassFile.refreshBody_again`): dead code that was replaced stays as it is
(`Body.withoutDead_withoutDead`), instructions are laid out the same way with more constants
(`Layout.ofSteps_of_grows`), and the constants of the table of frames are there already.

The one thing that may differ is the number of local variables.  It is counted before dead code is
replaced, so the first time it counts the slots that only dead instructions name, and the second
time it does not.
-/

namespace ClassGraft

/-! ### Dead code that was replaced -/

/-- What replaced dead code is replaced by itself. -/
theorem buryDead_buryDead (cells : List (Step × Bool)) :
    buryDead ((buryDead cells).zip (cells.map (·.2))) = buryDead cells := by
  induction cells using buryDead.induct with
  | case1 => rfl
  | case2 step rest ih =>
    rw [buryDead, List.map_cons, List.zip_cons_cons, buryDead, ih]
  | case3 step rest ih =>
    -- whether a run goes on is seen from the flags, which are the same
    have hnext : ((buryDead rest).zip (rest.map (·.2))).head?.map (·.2) =
        rest.head?.map (·.2) := by
      cases rest with
      | nil => rfl
      | cons cell rest =>
        obtain ⟨next, dead⟩ := cell
        cases dead with
        | true => rfl
        | false => rfl
    rw [buryDead, List.map_cons, List.zip_cons_cons, buryDead, hnext, ih]

/-- A range without dead instructions is one run. -/
theorem liveRuns_of_live (count offset start finish : Nat) :
    liveRuns (cellsFrom (List.replicate count false) offset) (some start) finish =
      [(start, finish)] := by
  induction count generalizing offset with
  | zero => rfl
  | succ count ih =>
    rw [List.replicate_succ, cellsFrom_cons, liveRuns]
    exact ih (offset + 1)

theorem runsIn_of_live {dead : List Bool} {start stop : Nat} (hlt : start < stop)
    (hl : ∀ index, start ≤ index → index < stop → dead[index]? = some false) :
    runsIn dead start stop = [(start, stop)] := by
  have hle : stop ≤ dead.length := by
    have hlast := hl (stop - 1) (by omega) (by omega)
    have := (List.getElem?_eq_some_iff.mp hlast).1
    omega
  have hflags : (dead.take stop).drop start = List.replicate (stop - start) false := by
    refine List.ext_getElem? fun i => ?_
    rw [List.getElem?_drop, List.getElem?_replicate]
    split_ifs with hi
    · rw [List.getElem?_take_of_lt (by omega)]
      exact hl _ (by omega) (by omega)
    · rw [List.getElem?_take_eq_none (by omega)]
  obtain ⟨count, hcount⟩ := Nat.exists_eq_add_of_lt hlt
  have hrest : stop - start = count + 1 := by omega
  unfold runsIn
  rw [hflags, hrest, List.replicate_succ, cellsFrom_cons, liveRuns, List.length_cons,
    List.length_replicate, Option.getD_none, liveRuns_of_live]
  congr 2
  omega

/-- The instructions of a run are not dead. -/
theorem live_of_mem_runsIn {dead : List Bool} {start stop : Nat} {run : Nat × Nat}
    (h : run ∈ runsIn dead start stop) (index : Nat) (hfirst : run.1 ≤ index)
    (hlast : index < run.2) : dead[index]? = some false := by
  by_contra hd
  have hnone := Body.runsAt_runsIn_of_dead hd start stop
  have hin : run ∈ runsAt (runsIn dead start stop) index :=
    List.mem_filter.mpr ⟨h, decide_eq_true ⟨hfirst, hlast⟩⟩
  rw [hnone] at hin
  cases hin

namespace Body

variable {body : Body} {head : MethodHead} {pool later : Pool} {hierarchy : Hierarchy}
  {analysis : Analysis} {dead : List Bool} {scene : Scene} {ranges : List HandlerRange}

/-- The part of a handler that covers a run only depends on the marks of the instructions. -/
theorem partOf_congr {other : Body}
    (hmarks : other.steps.map (·.mark) = body.steps.map (·.mark)) (handler : Handler)
    (run : Nat × Nat) : other.partOf handler run = body.partOf handler run := by
  have hmark (body : Body) : body.partOf handler run =
      ((body.steps.map (·.mark))[run.1]?).map fun mark =>
        { handler with
          start := mark
          stop := ((body.steps.map (·.mark))[run.2]?).elim .finish .at } := by
    unfold partOf
    rw [List.getElem?_map, List.getElem?_map, Option.map_map]
    cases body.steps[run.2]? with
    | none => rfl
    | some next => rfl
  rw [hmark, hmark, hmarks]

/-- A part of a handler starts and stops where its run does. -/
theorem partOf_partOf {handler part : Handler} {run : Nat × Nat}
    (h : body.partOf handler run = some part) : body.partOf part run = some part := by
  obtain ⟨step, hstep, rfl⟩ := Option.map_eq_some_iff.mp h
  rw [partOf, hstep]
  rfl

/-- A part of a handler is its own only part. -/
theorem liveParts_of_partOf (hn : (body.steps.map (·.mark)).Nodup)
    (hp : scene.positions = body.positions) (hs : scene.steps.size = body.steps.length)
    (hd : dead.length = body.steps.length) {handler part : Handler} {range : HandlerRange}
    (hr : IsRangeOf scene handler range) {run : Nat × Nat}
    (hrun : run ∈ runsIn dead range.start range.stop) (hpart : body.partOf handler run = some part)
    {other : Body} (hmarks : other.steps.map (·.mark) = body.steps.map (·.mark)) :
    other.liveParts dead part = [part] := by
  have hbounds := bounds_of_mem_runsIn hrun
  have hlength : other.steps.length = body.steps.length := by
    rw [← List.length_map, hmarks, List.length_map]
  obtain ⟨found, hfound, hrange⟩ := isRangeOf_partOf hn hp hs hp (.refl scene.pool) hr
    ⟨hbounds.1, hd ▸ hbounds.2⟩
  obtain rfl := Option.some.inj (hfound.symm.trans hpart)
  rw [liveParts_eq (hmarks ▸ hn) (hp.trans (positions_congr hmarks).symm) (hs.trans hlength.symm)
    (hd.trans hlength.symm) hrange, runsIn_of_live hbounds.1 (live_of_mem_runsIn hrun),
    List.filterMap_cons_some ((partOf_congr hmarks _ _).trans (partOf_partOf hpart)),
    List.filterMap_nil]

/-- Replacing dead code that was replaced changes nothing. -/
theorem withoutDead_withoutDead (hn : (body.steps.map (·.mark)).Nodup)
    (hp : scene.positions = body.positions) (hs : scene.steps.size = body.steps.length)
    (hd : dead.length = body.steps.length) (hr : body.handlerRanges scene = .ok ranges) :
    (body.withoutDead dead).withoutDead dead = body.withoutDead dead := by
  have hflags : (body.steps.zip dead).map (·.2) = dead := List.map_snd_zip (Nat.le_of_eq hd)
  have hsteps : buryDead ((buryDead (body.steps.zip dead)).zip dead) =
      buryDead (body.steps.zip dead) := by
    have hbury := buryDead_buryDead (body.steps.zip dead)
    rwa [hflags] at hbury
  have hparts : ∀ part ∈ (body.withoutDead dead).handlers,
      (body.withoutDead dead).liveParts dead part = [part] := by
    intro part hpart
    obtain ⟨handler, hhandler, hpart⟩ := List.mem_flatMap.mp hpart
    obtain ⟨range, -, hrange⟩ := exists_of_mem_left (handlerRanges_eq_ok.mp hr) hhandler
    rw [liveParts_eq hn hp hs hd hrange] at hpart
    obtain ⟨run, hrun, hpart⟩ := List.mem_filterMap.mp hpart
    exact liveParts_of_partOf hn hp hs hd hrange hrun hpart (map_mark_withoutDead hd)
  have hhandlers : (body.withoutDead dead).handlers.flatMap
      ((body.withoutDead dead).liveParts dead) = (body.withoutDead dead).handlers := by
    rw [List.flatMap_congr hparts, List.flatMap_singleton']
  unfold withoutDead at hhandlers ⊢
  exact congrArg₂ (fun steps handlers => { body.touch with steps := steps, handlers := handlers })
    hsteps hhandlers

theorem hasDeadCode_congr {again : Analysis} (hf : again.frames = analysis.frames) :
    again.hasDeadCode = analysis.hasDeadCode := by
  unfold Analysis.hasDeadCode
  rw [hf]

/-- The body that is written the second time is the one of the first time, up to the number of
locals. -/
theorem live_live (hn : (body.steps.map (·.mark)).Nodup)
    (h : body.analyze head pool hierarchy = .ok analysis) {again : Analysis}
    (hf : again.frames = analysis.frames) (hs : again.maxStack = analysis.maxStack) :
    (body.live analysis).touch.live again =
      { (body.live analysis).touch with maxLocals := again.maxLocals } := by
  obtain ⟨-, entry, frames, handlers, first, last, -, -, hhandlers, -⟩ := analyze_eq_ok.mp h
  have hdead : again.dead = analysis.dead :=
    congrArg (fun frames => frames.toList.map (·.isNone)) hf
  have hagain := hasDeadCode_congr hf
  unfold live
  rw [hagain, hdead]
  cases hcode : analysis.hasDeadCode with
  | true =>
    -- the nops and the throw that replaced dead code need one word, as they did before
    have hsame := withoutDead_withoutDead hn rfl List.size_toArray (length_dead h) hhandlers
    have hstack : again.withDead.maxStack = analysis.withDead.maxStack :=
      congrArg (max · 1) hs
    show { (body.withoutDead analysis.dead).withoutDead analysis.dead with
      maxStack := again.withDead.maxStack, maxLocals := again.maxLocals } = _
    rw [hsame, hstack]
    rfl
  | false =>
    show { body.touch with maxStack := again.maxStack, maxLocals := again.maxLocals } = _
    rw [hs]
    rfl

theorem liveFrames_congr {again : Analysis} (hf : again.frames = analysis.frames) :
    again.liveFrames = analysis.liveFrames := by
  unfold Analysis.liveFrames Analysis.withDead
  rw [hasDeadCode_congr hf, hf]

/-! ### The number of locals -/

/-- The greatest of some numbers and a first one is the first one or one of the others. -/
theorem foldl_max_cases {α : Type} (f : α → Nat) (items : List α) (first : Nat) :
    items.foldl (fun most item => max most (f item)) first = first ∨
      ∃ item ∈ items, items.foldl (fun most item => max most (f item)) first = f item := by
  induction items generalizing first with
  | nil => exact .inl rfl
  | cons item rest ih =>
    rw [List.foldl_cons]
    rcases ih (max first (f item)) with hsame | ⟨other, hin, hother⟩
    · rw [hsame]
      rcases Nat.le_total first (f item) with hle | hle
      · exact .inr ⟨item, List.mem_cons_self, Nat.max_eq_right hle⟩
      · exact .inl (Nat.max_eq_left hle)
    · exact .inr ⟨other, List.mem_cons_of_mem item hin, hother⟩

/-- A body needs fewer slots without dead code only if a dead instruction names the last one. -/
theorem exists_dead_of_localSlots_lt (h : body.analyze head pool hierarchy = .ok analysis)
    {entry : Frame} {declared : List Frame}
    (hlt : (body.live analysis).localSlots entry declared < body.localSlots entry declared) :
    ∃ (index : Nat) (step : Step), body.steps[index]? = some step ∧
      analysis.dead[index]? = some true ∧
      slotsOf step.instruction = body.localSlots entry declared := by
  have hlive := foldl_max_le.mp (Nat.le_refl ((body.live analysis).localSlots entry declared))
  have hfirst := foldl_max_le.mp hlive.1
  rcases foldl_max_cases (fun frame : Frame => frame.locals.length) declared
    (body.steps.foldl (fun slots step => max slots (slotsOf step.instruction)) entry.locals.length)
    with hslots | ⟨frame, hframe, hslots⟩
  · rcases foldl_max_cases (fun step : Step => slotsOf step.instruction) body.steps
      entry.locals.length with hsteps | ⟨step, hstep, hsteps⟩
    · exact absurd hlt (Nat.not_lt.mpr (Nat.le_trans (Nat.le_of_eq (hslots.trans hsteps)) hfirst.1))
    · obtain ⟨index, hindex⟩ := List.mem_iff_getElem?.mp hstep
      have hbound : index < analysis.dead.length := by
        rw [length_dead h]
        exact (List.getElem?_eq_some_iff.mp hindex).1
      refine ⟨index, step, hindex, ?_, (hslots.trans hsteps).symm⟩
      rw [List.getElem?_eq_getElem hbound]
      by_contra hdead
      have hflag : analysis.dead[index]? = some false := by
        rw [List.getElem?_eq_getElem hbound]
        simpa using hdead
      -- an instruction that is not dead is still there
      have hin : step ∈ (body.live analysis).steps := by
        rw [steps_live h]
        exact List.mem_of_getElem? (getElem?_buryDead
          (List.getElem?_zip_eq_some.mpr ⟨hindex, hflag⟩))
      exact absurd hlt (Nat.not_lt.mpr
        (Nat.le_trans (Nat.le_of_eq (hslots.trans hsteps)) (hfirst.2 step hin)))
  · exact absurd hlt (Nat.not_lt.mpr (Nat.le_trans (Nat.le_of_eq hslots) (hlive.2 frame hframe)))

/-- The body that was written is analyzed to the same frames, and needs fewer locals only if a dead
instruction named the last one. -/
theorem exists_analyze_again (hn : (body.steps.map (·.mark)).Nodup) (hg : pool.Grows later)
    (h : body.analyze head pool hierarchy = .ok analysis) :
    ∃ again, (body.live analysis).touch.analyze head later hierarchy = .ok again ∧
      again.frames = analysis.frames ∧ again.maxStack = analysis.maxStack ∧
      again.maxLocals ≤ analysis.maxLocals ∧
      (again.maxLocals ≠ analysis.maxLocals → ∃ (index : Nat) (step : Step),
        body.steps[index]? = some step ∧ analysis.dead[index]? = some true ∧
        slotsOf step.instruction = analysis.maxLocals.toNat) := by
  obtain ⟨again, hagain, hframes, hstack, hlocals⟩ := analyze_live hn hg h
  refine ⟨again, hagain, hframes, hstack, hlocals, fun hne => ?_⟩
  -- both counts start from the same entry frame and the same declared frames
  obtain ⟨-, entry, frames, -, -, last, hentry, hdeclared, -, -, -, -, hslots, hanalysis⟩ :=
    analyze_eq_ok.mp h
  obtain ⟨-, entry', frames', -, -, last', hentry', hdeclared', -, -, -, -, hslots', hagain'⟩ :=
    analyze_eq_ok.mp hagain
  obtain rfl := Except.ok.inj (hentry.symm.trans hentry')
  have hsame : (body.live analysis).declaredFramesFrom entry = body.declaredFramesFrom entry := by
    rw [declaredFramesFrom, declaredFrames_live, declaredFramesFrom]
  obtain rfl := Except.ok.inj (hdeclared.symm.trans (hsame.symm.trans hdeclared'))
  rw [positions_congr (map_mark_live h)] at hslots' hagain'
  have hcount : analysis.maxLocals = UInt16.ofNat
    (body.localSlots entry (framesByIndex body.positions frames).values) := by rw [← hanalysis]
  have hcount' : again.maxLocals = UInt16.ofNat ((body.live analysis).localSlots entry
    (framesByIndex body.positions frames).values) := by rw [← hagain']
  have hlt := Nat.lt_of_le_of_ne
    (localSlots_live_le h entry (framesByIndex body.positions frames).values)
    fun heq => hne (by rw [hcount, hcount', heq])
  obtain ⟨index, step, hstep, hdead, hlast⟩ := exists_dead_of_localSlots_lt h hlt
  refine ⟨index, step, hstep, hdead, ?_⟩
  rw [hcount, UInt16.toNat_ofNat_of_lt' (Nat.lt_succ_of_le hslots)]
  exact hlast

end Body

/-! ### The layout -/

/-- Whether a constant is wide does not change when constants are added, if it can be loaded. -/
theorem Pool.Grows.isWideConstant {pool later : Pool} (hg : pool.Grows later) {index : UInt16}
    {type : FrameType} (h : pool.constantType index = .ok type) :
    later.isWideConstant index = pool.isWideConstant index := by
  unfold Pool.constantType at h
  unfold Pool.isWideConstant
  split at h
  case h_9 hentry =>
    rw [hg index _ hentry, hentry]
    split at h
    · nomatch h
    · rename_i names hdynamic
      rw [hg.dynamic hdynamic, hdynamic]
  case h_10 => nomatch h
  case h_11 => nomatch h
  all_goals
    rename_i hentry
    rw [hg index _ hentry, hentry]

namespace Layout

variable {pool later : Pool} {steps : List Step}

/-- Whether the constants that instructions load are wide in a pool as they are in another one. -/
def SameWidths (pool later : Pool) (steps : List Step) : Prop :=
  ∀ step ∈ steps, ∀ index, step.instruction = .constant index →
    later.isWideConstant index = pool.isWideConstant index

theorem form_congr {narrow : Std.HashSet Nat} {instruction : Instruction Mark} (site : Site)
    (h : ∀ index, instruction = .constant index →
      later.isWideConstant index = pool.isWideConstant index) :
    (instruction.form later site : Except EncodingFault (Form narrow)) =
      instruction.form pool site := by
  cases instruction with
  | constant index =>
    have hbytes : constantBytes later index = constantBytes pool index := by
      unfold constantBytes
      rw [h index rfl]
    exact congrArg (fun bytes => Except.ok (Form.mk [.bytes bytes] false)) hbytes
  | _ => rfl

theorem extend_congr {narrow : Std.HashSet Nat} (h : SameWidths pool later steps) (index : Nat)
    (draft : Draft narrow) : Draft.extend later index steps draft =
      Draft.extend pool index steps draft := by
  induction steps generalizing index draft with
  | nil => rfl
  | cons step rest ih =>
    obtain ⟨hstep, hrest⟩ := List.forall_mem_cons.mp h
    obtain ⟨size, placed, pieces, landings⟩ := draft
    unfold Draft.extend
    simp only [form_congr _ hstep, ih hrest]

theorem within_congr (h : SameWidths pool later steps) (narrow : Std.HashSet Nat) :
    within later steps narrow = within pool steps narrow := by
  induction narrow using within.induct pool steps with
  | case1 narrow fault hdraft => rw [within, within, extend_congr h, hdraft]
  | case2 narrow draft hdraft hsize =>
    rw [within, within, extend_congr h, hdraft]
    simp only [hsize, if_true]
  | case3 narrow draft hdraft hsize fault hcode =>
    rw [within, within, extend_congr h, hdraft]
    simp only [hsize, if_false, hcode]
  | case4 narrow draft hdraft hsize code hcode =>
    rw [within, within, extend_congr h, hdraft]
    simp only [hsize, if_false, hcode]
  | case5 narrow draft hdraft hsize jump hcode ih =>
    rw [within, within, extend_congr h, hdraft]
    simp only [hsize, if_false, hcode, ih]

/-- Instructions are laid out the same way where the same constants are wide. -/
theorem ofSteps_congr (h : SameWidths pool later steps) :
    ofSteps later steps = ofSteps pool steps :=
  within_congr h (jumps steps)

end Layout

namespace Body

variable {body : Body} {head : MethodHead} {pool later : Pool} {hierarchy : Hierarchy}
  {analysis : Analysis}

/-- The constants that are loaded were found when the body was analyzed, so they are as wide with
more constants. -/
theorem sameWidths_live (h : body.analyze head pool hierarchy = .ok analysis)
    (hg : pool.Grows later) : Layout.SameWidths pool later (body.live analysis).steps := by
  intro step hstep index hload
  rw [steps_live h] at hstep
  -- an instruction that took the place of a dead one loads nothing
  rcases mem_buryDead hstep with hlive | hnop | hthrow
  · obtain ⟨entry, course, flow, hcourse, hframes, -, -, hpassed⟩ :=
      settled_of_analyze (isAscent_true hierarchy) h
    obtain ⟨i, hi⟩ := List.mem_iff_getElem?.mp hlive
    obtain ⟨hstep, hdead⟩ := List.getElem?_zip_eq_some.mp hi
    rw [Analysis.dead, List.getElem?_map, Array.getElem?_toList] at hdead
    obtain ⟨frame, hframe, hsome⟩ := Option.map_eq_some_iff.mp hdead
    cases frame with
    | none => cases hsome
    | some before =>
      -- an instruction with a frame was executed, so its constant was looked up
      obtain ⟨after, hexecute, -⟩ := hpassed i step before ((hcourse.getElem?_steps i).trans hstep)
        (Flow.frameAt?_eq_some.mpr (hframes ▸ hframe))
      unfold Scene.execute at hexecute
      rw [hload] at hexecute
      obtain ⟨type, htype, -⟩ := Except.bind_eq_ok.mp hexecute
      rw [hcourse.scene] at htype
      exact hg.isWideConstant htype
  · cases hnop.symm.trans hload
  · cases hthrow.symm.trans hload

/-- The sizes stand at the start of the bytes of a body, and nothing else depends on them. -/
theorem exists_of_bytes {layout : Layout} {table : Option RawAttribute} {encoded : Bytes}
    (h : body.bytes layout table = .ok encoded) : ∃ rest,
      encoded = Bytes.ofUInt16 body.maxStack ++ Bytes.ofUInt16 body.maxLocals ++ rest ∧
      ∀ count, { body.touch with maxLocals := count }.bytes layout table =
        .ok (Bytes.ofUInt16 body.maxStack ++ Bytes.ofUInt16 count ++ rest) := by
  obtain ⟨code, hcode, h⟩ := Except.bind_eq_ok.mp h
  obtain ⟨handlers, hhandlers, h⟩ := Except.bind_eq_ok.mp h
  obtain ⟨rows, hrows, h⟩ := Except.bind_eq_ok.mp h
  obtain ⟨attributes, hattributes, h⟩ := Except.bind_eq_ok.mp h
  obtain ⟨blocks, hblocks, h⟩ := Except.bind_eq_ok.mp h
  obtain rfl := Except.pure_eq_ok.mp h
  refine ⟨code ++ rows ++ blocks, by simp only [List.append_assoc], fun count => ?_⟩
  refine Except.bind_eq_ok.mpr ⟨code, hcode, Except.bind_eq_ok.mpr ⟨handlers, hhandlers,
    Except.bind_eq_ok.mpr ⟨rows, hrows, Except.bind_eq_ok.mpr ⟨attributes, hattributes,
      Except.bind_eq_ok.mpr ⟨blocks, hblocks, Except.pure_eq_ok.mpr ?_⟩⟩⟩⟩⟩
  simp only [List.append_assoc]
  rfl

end Body

/-- A body that was refreshed is refreshed to itself, up to the number of locals. -/
theorem Body.IsRefreshed.again {majorVersion : UInt16} {head : MethodHead} {hierarchy : Hierarchy}
    {pool later : Pool} {body written : Body} (hn : (body.steps.map (·.mark)).Nodup)
    (h : body.IsRefreshed majorVersion head hierarchy pool later written) :
    ∃ analysis rest locals, body.analyze head pool hierarchy = .ok analysis ∧
      written.encoded = some
        (Bytes.ofUInt16 written.maxStack ++ Bytes.ofUInt16 written.maxLocals ++ rest) ∧
      written.touch.IsRefreshed majorVersion head hierarchy later later
        { written.touch with
          maxLocals := locals
          encoded := some (Bytes.ofUInt16 written.maxStack ++ Bytes.ofUInt16 locals ++ rest) } ∧
      locals ≤ written.maxLocals ∧
      (locals ≠ written.maxLocals → ∃ (index : Nat) (step : Step),
        body.steps[index]? = some step ∧ analysis.dead[index]? = some true ∧
        slotsOf step.instruction = written.maxLocals.toNat) := by
  have hg := h.grown.grows
  obtain ⟨analysis, layout, table, encoded, hanalysis, hlayout, htable, hencoded, rfl⟩ := h
  obtain ⟨again, hagain, hframes, hstack, hle, hdead⟩ := exists_analyze_again hn hg hanalysis
  obtain ⟨rest, rfl, hbytes⟩ := exists_of_bytes hencoded
  have hlive := live_live hn hanalysis hframes hstack
  have hlocals := maxLocals_live body analysis
  refine ⟨analysis, rest, again.maxLocals, hanalysis, rfl, ?_, hlocals ▸ hle, hlocals ▸ hdead⟩
  refine ⟨again, layout, table, _, hagain, ?_, ?_, (congrArg (·.bytes layout table) hlive).trans
    (hbytes again.maxLocals), ?_⟩
  · exact (congrArg (Layout.ofSteps later ·.steps) hlive).trans
      ((Layout.ofSteps_congr (sameWidths_live hanalysis hg)).trans hlayout)
  · rw [liveFrames_congr hframes]
    split_ifs at htable ⊢
    · exact ⟨htable.1, rfl⟩
    · obtain ⟨entry, hentry, htable⟩ := htable
      refine ⟨entry, hentry, ?_⟩
      -- all constants of the table are there
      have hsettled := ((body.live analysis).addsNames_frameAttribute analysis.liveFrames entry
        layout).settles pool later table htable
      exact (congrArg (·.frameAttribute analysis.liveFrames entry layout later) hlive).trans
        (hsettled.2 later (.refl later))
  · exact congrArg (fun live : Body => { live with
      encoded := some (Bytes.ofUInt16 (body.live analysis).maxStack ++
        Bytes.ofUInt16 again.maxLocals ++ rest) }) hlive

namespace ClassFile

variable {index : Nat} {head : MethodHead} {hierarchy : Hierarchy} {body written : Body}
  {file file' : ClassFile} {later : Pool}

/-- Refreshing a body of a class does so with the constants of the class. -/
theorem refreshBody_of_isRefreshed
    (h : body.IsRefreshed file.majorVersion head hierarchy file.pool later written) :
    refreshBody index head hierarchy body file =
      (.ok (), { file with pool := later }.setBody index written) := by
  obtain ⟨analysis, layout, table, encoded, hanalysis, hlayout, htable, hencoded, rfl⟩ := h
  refine refreshBody_eq_ok.mpr ⟨analysis, layout, table, later, encoded, hanalysis, hlayout, htable,
    hencoded, ?_⟩
  unfold setBody modifyMethod
  dsimp only
  rw [List.modify_modify_eq]
  congr 2
  funext method
  exact method.withBody_withBody _ _

/-- Refreshing a body that was refreshed gives the same body and the same bytes, and adds no
constants, except that slots of locals are not counted any more that only dead code named. -/
theorem refreshBody_again (hn : (body.steps.map (·.mark)).Nodup)
    (h : refreshBody index head hierarchy body file = (.ok (), file')) :
    ∃ (analysis : Analysis) (written : Body) (rest : Bytes) (locals : UInt16),
      body.analyze head file.pool hierarchy = .ok analysis ∧
      file' = { file with
        pool := file'.pool
        methods := file.methods.modify index fun method => method.withBody written } ∧
      written.encoded = some
        (Bytes.ofUInt16 written.maxStack ++ Bytes.ofUInt16 written.maxLocals ++ rest) ∧
      refreshBody index head hierarchy written.touch file' = (.ok (), file'.setBody index
        { written.touch with
          maxLocals := locals
          encoded := some
            (Bytes.ofUInt16 written.maxStack ++ Bytes.ofUInt16 locals ++ rest) }) ∧
      locals ≤ written.maxLocals ∧
      (locals ≠ written.maxLocals → ∃ (i : Nat) (step : Step), body.steps[i]? = some step ∧
        analysis.dead[i]? = some true ∧
        Body.slotsOf step.instruction = written.maxLocals.toNat) := by
  obtain ⟨written, hrefreshed, hfile⟩ := refreshBody_spec h
  obtain ⟨analysis, rest, locals, hanalysis, hencoded, hagain, hlocals⟩ := hrefreshed.again hn
  have hversion : file'.majorVersion = file.majorVersion := by rw [hfile]
  rw [← hversion] at hagain
  exact ⟨analysis, written, rest, locals, hanalysis, hfile, hencoded,
    refreshBody_of_isRefreshed hagain, hlocals⟩

end ClassFile

end ClassGraft

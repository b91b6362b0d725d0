import ClassGraft.Proofs.Class.Relabeling

/-!
# Bodies that are read back

What is written for a body is read back as its instructions under other marks, with two jumps for
each one that has a bypass (`Body.IsReread.exists_unfolds`).  Where frames are declared then are the
places of those that were written (`Body.Unfolds.declares`), what replaced dead code is dead and
stays (`Body.Unfolds.areFlags`, `Body.IsBuried.withoutDead`), and as many slots are named
(`Body.Unfolds.localSlots_eq`).
-/

namespace ClassGraft

open Reader

namespace Body

variable {number : Mark → Mark} {place : Nat → Nat} {landings : List Mark} {body again : Body}
  {head : MethodHead} {pool later : Pool} {hierarchy : Hierarchy} {entry : Frame}
  {frames found : Array (Option Frame)} {rows : List (Mark × Frame)} {needed : List Nat}

/-! ### What is declared -/

/-- Frames by index, as a table with a row for each, if each stands at an instruction. -/
theorem framesByIndex_eq {positions : Std.HashMap Mark Nat}
    (h : List.Forall₂ (fun (index : Nat) row => positions[row.1]? = some index) needed rows) :
    framesByIndex positions rows =
      Table.insertAll (fun item => item.1) (fun item => item.2.2) (needed.zip rows) ∅ := by
  unfold framesByIndex
  generalize (∅ : Std.HashMap Nat Frame) = found
  induction h generalizing found with
  | nil => rfl
  | cons hrow _ ih =>
    rw [List.foldl_cons]
    dsimp only
    rw [hrow]
    exact ih _

/-- Whether rows are the frames that are held where one is needed, under other marks. -/
def AreDeclared (number : Mark → Mark) (body : Body) (frames : Array (Option Frame)) :
    List Nat → List (Mark × Frame) → Prop :=
  List.Forall₂ fun index row => ∃ step frame, body.steps[index]? = some step ∧
    frames[index]? = some (some frame) ∧ row = (number step.mark, frame.declared number)

namespace Unfolds

/-- The frames that are declared stand at the places where they were found. -/
theorem framesByIndex_eq (h : body.Unfolds number place landings again)
    (hr : AreDeclared number body frames needed rows) :
    framesByIndex again.positions rows = Table.insertAll (fun item => item.1)
      (fun item => item.2.2) ((needed.map place).zip rows) ∅ := by
  refine Body.framesByIndex_eq (List.forall₂_map_left_iff.mpr (hr.imp ?_))
  rintro index row ⟨step, frame, hstep, -, rfl⟩
  dsimp only
  rw [h.positions (List.mem_map_of_mem (List.mem_of_getElem? hstep)),
    getElem?_positions h.steps.distinct hstep]
  rfl

/-- The frames that were found are declared where one is needed, and no others. -/
theorem declares (h : body.Unfolds number place landings again) (hn : needed.Nodup)
    (hr : AreDeclared number body frames needed rows)
    (hf : ∀ (index : Nat) frame, found[index]? = some (some frame) →
      frames[index]? = some (some frame)) (hsize : found.size = body.steps.length) {second : Course}
    (hd : second.declared = framesByIndex again.positions rows) :
    Declares number place found needed second := by
  have hlt {index : Nat} (hi : index ∈ needed) : index < body.steps.length := by
    obtain ⟨row, -, step, frame, hstep, -⟩ := exists_of_mem_left hr hi
    exact (List.getElem?_eq_some_iff.mp hstep).1
  have hkeys : ((needed.map place).zip rows).map (fun item => item.1) = needed.map place := by
    refine List.map_fst_zip ?_
    rw [List.length_map]
    exact Nat.le_of_eq hr.length_eq
  have hnodup : (((needed.map place).zip rows).map fun item => item.1).Nodup := by
    rw [hkeys]
    exact hn.map_on fun i hi j hj => (h.steps.place_inj (Nat.le_of_lt (hlt hi))
      (Nat.le_of_lt (hlt hj))).mp
  have hnone {k : Nat} (hk : k ∉ needed.map place) : second.declared[k]? = none := by
    rw [hd, h.framesByIndex_eq hr, Table.getElem?_of_not_mem (by rwa [hkeys])]
    exact Std.HashMap.getElem?_empty
  refine ⟨fun index held hheld => ?_, fun index hp hi => hnone fun hmem => ?_⟩
  · split_ifs with hneeded
    · obtain ⟨i, hi⟩ := List.mem_iff_getElem?.mp hneeded
      obtain ⟨row, hrow⟩ : ∃ row, rows[i]? = some row := by
        have hbound := (List.getElem?_eq_some_iff.mp hi).1
        rw [hr.length_eq] at hbound
        exact ⟨rows[i], List.getElem?_eq_getElem hbound⟩
      have hpair : (index, row) ∈ needed.zip rows :=
        List.mem_of_getElem? (List.getElem?_zip_eq_some.mpr ⟨hi, hrow⟩)
      obtain ⟨step, frame, -, hframe, rfl⟩ := (List.forall₂_iff_zip.mp hr).2 hpair
      have hplaced : (needed.map place)[i]? = some (place index) := by
        rw [List.getElem?_map, hi]
        rfl
      obtain rfl := Option.some.inj (Option.some.inj (hframe.symm.trans (hf index held hheld)))
      rw [hd, h.framesByIndex_eq hr]
      have hmem : (place index, (number step.mark, frame.declared number)) ∈
          (needed.map place).zip rows :=
        List.mem_of_getElem? (List.getElem?_zip_eq_some.mpr ⟨hplaced, hrow⟩)
      exact Table.getElem?_of_mem hnodup hmem
    · refine hnone fun hmem => hneeded ?_
      obtain ⟨other, hother, hplace⟩ := List.mem_map.mp hmem
      have hbound : index < body.steps.length := hsize ▸ (Array.getElem?_eq_some_iff.mp hheld).1
      obtain rfl := (h.steps.place_inj (Nat.le_of_lt (hlt hother)) (Nat.le_of_lt hbound)).mp hplace
      exact hother
  · obtain ⟨other, hother, hplace⟩ := List.mem_map.mp hmem
    exact h.steps.place_ne (hsize ▸ hi) hp (Nat.le_of_lt (hlt hother)) hplace

end Unfolds

/-- Declared frames need no more slots than those that were found. -/
theorem localSlots_le_of_declared {first : Nat} (hr : AreDeclared number body frames needed rows)
    (hl : again.localSlots entry [] ≤ first)
    (hf : ∀ index ∈ needed, ∀ frame, frames[index]? = some (some frame) →
      (FrameType.trim frame.locals).length ≤ first) {positions : Std.HashMap Mark Nat} :
    again.localSlots entry (framesByIndex positions rows).values ≤ first := by
  refine foldl_max_le.mpr ⟨hl, fun frame hframe => ?_⟩
  obtain ⟨index, hindex⟩ := mem_values.mp hframe
  obtain ⟨mark, hrow, -⟩ := mem_of_getElem?_framesByIndex hindex
  obtain ⟨index, hneeded, step, found, -, hfound, heq⟩ := exists_of_mem_right hr hrow
  obtain ⟨-, rfl⟩ := Prod.mk.inj heq
  unfold Frame.declared
  rw [List.length_map]
  exact hf index hneeded found hfound

end Body

/-! ### What is read back -/

/-- Places of which the first one is given. -/
def Step.placesFrom (first : Nat) (place : Nat → Nat) : Nat → Nat
  | 0 => first
  | index + 1 => place index

section

variable {number : Mark → Mark} {place : Nat → Nat} {steps again : List Step} {k : Nat}

/-- Further steps are as they were behind another one. -/
theorem Step.IsUnfolded.cons {index : Nat} {step : Step} (first : Step)
    (h : step.IsUnfolded number place steps again index) :
    step.IsUnfolded number (Step.placesFrom k place) (first :: steps) again (index + 1) := by
  cases h with
  | same h hplace => exact .same h hplace
  | bypass hs hi hn h hgoto hplace => exact .bypass hs hi hn h hgoto hplace

/-- Instructions that were read, as the steps of a body, are those that were laid out, with two
jumps for one with a bypass. -/
theorem Layout.Shows.exists_place {placed : Std.HashMap Mark Nat}
    {rows : List (Nat × Instruction Mark)} {landings : List Mark}
    (h : Shows placed number k steps rows landings)
    (ha : again.drop k = stepsOf k (rows.map (·.2))) : ∃ place : Nat → Nat,
      place 0 = k ∧ place steps.length = k + rows.length ∧
      (∀ (index : Nat) step, steps[index]? = some step →
        step.IsUnfolded number place steps again index) ∧
      ∀ mark, mark ∈ landings ↔ ∃ (index : Nat) (next : Step),
        steps[index + 1]? = some next ∧ next.mark = mark ∧ place (index + 1) = place index + 2 := by
  have hcons {k : Nat} {step : Step} {rest : List Step} (hd : again.drop k = step :: rest) :
      again[k]? = some step ∧ again.drop (k + 1) = rest := by
    rw [← List.head?_drop, ← List.tail_drop, hd]
    exact ⟨rfl, rfl⟩
  induction h with
  | nil k =>
    refine ⟨fun _ => k, rfl, rfl, fun index step hs => (by cases hs), fun mark => ?_⟩
    refine iff_of_false (by simp) ?_
    rintro ⟨index, next, hs, -⟩
    cases hs
  | @same k origin step steps rows landings hk _ _ ih =>
    obtain ⟨hfirst, hrest⟩ := hcons ha
    obtain ⟨place, hzero, hlast, hunfolded, hlanded⟩ := ih hrest
    refine ⟨Step.placesFrom k place, rfl, ?_, fun index other hs => ?_, fun mark => ?_⟩
    · rw [List.length_cons, List.length_cons, Step.placesFrom, hlast]
      omega
    · cases index with
      | zero =>
        obtain rfl := Option.some.inj hs
        refine .same ?_ hzero
        rw [Step.renumber, hk]
        exact hfirst
      | succ index => exact (hunfolded index other hs).cons step
    · rw [hlanded]
      constructor
      · rintro ⟨index, next, hs, hmark, hplace⟩
        exact ⟨index + 1, next, hs, hmark, hplace⟩
      · rintro ⟨index, next, hs, hmark, hplace⟩
        cases index with
        | zero =>
          have hwrong : place 0 = k + 2 := hplace
          omega
        | succ index => exact ⟨index, next, hs, hmark, hplace⟩
  | @bypass k origin mark target op inverse next steps rows landings hk _ hi _ ih =>
    obtain ⟨hfirst, hrest⟩ := hcons ha
    obtain ⟨hgoto, hrest⟩ := hcons hrest
    obtain ⟨place, hzero, hlast, hunfolded, hlanded⟩ := ih hrest
    refine ⟨Step.placesFrom k place, rfl, ?_, fun index other hs => ?_, fun landing => ?_⟩
    · rw [List.length_cons, Step.placesFrom, hlast, List.length_cons, List.length_cons]
      omega
    · cases index with
      | zero =>
        obtain rfl := Option.some.inj hs
        refine .bypass rfl hi rfl ?_ hgoto hzero
        rw [hk]
        exact hfirst
      | succ index => exact (hunfolded index other hs).cons _
    · rw [List.mem_cons, hlanded]
      constructor
      · rintro (rfl | ⟨index, other, hs, hmark, hplace⟩)
        · exact ⟨0, next, rfl, rfl, hzero⟩
        · exact ⟨index + 1, other, hs, hmark, hplace⟩
      · rintro ⟨index, other, hs, hmark, hplace⟩
        cases index with
        | zero =>
          obtain rfl := Option.some.inj hs
          exact .inl hmark.symm
        | succ index => exact .inr ⟨index, other, hs, hmark, hplace⟩

end

namespace Body

variable {number : Mark → Mark} {place : Nat → Nat} {landings : List Mark} {body again : Body}
  {layout : Layout} {base : Nat}
  {rows : List (Nat × Instruction Nat)} {later : Pool} {table : Option RawAttribute}

theorem nodup_stepsOf (instructions : List (Instruction Mark)) :
    ((Layout.stepsOf 0 instructions).map (·.mark)).Nodup := by
  have hmarks : (Layout.stepsOf 0 instructions).map (·.mark) =
      (instructions.zipIdx.map (·.2)).map Mark.mk := by
    rw [Layout.stepsOf, List.map_map, List.map_map]
    rfl
  rw [hmarks, List.zipIdx_map_snd]
  exact (List.nodup_range' ..).map fun _ _ => Mark.mk.inj

/-- A body that is written is read back under other marks, with two jumps for one with a bypass. -/
theorem IsReread.exists_unfolds (h : body.IsReread layout rows later table again)
    (hn : (body.steps.map (·.mark)).Nodup)
    (hh : ∀ handler ∈ body.handlers, body.hasRange handler = true) :
    ∃ place, body.Unfolds (layout.number rows) place layout.landings again := by
  obtain ⟨instructions, hshows, hsteps⟩ := h.steps
  obtain ⟨place, hfirst, hlast, hunfolded, hlanded⟩ := hshows.exists_place hsteps
  refine ⟨place, ⟨hfirst, ?_, hunfolded, hlanded, hn, ?_, fun step hstep mark hmark => ?_⟩, ?_,
    fun handler hhandler mark hmark => ?_⟩
  · rw [hlast, hsteps, Layout.stepsOf, List.length_map, List.length_zipIdx, List.length_map,
      Nat.zero_add]
  · rw [hsteps]
    exact nodup_stepsOf _
  · refine h.closed mark (List.mem_append_left _ (List.mem_append_left _ ?_))
    exact List.mem_flatMap.mpr ⟨step, hstep, hmark⟩
  · rw [h.handlers, List.filter_eq_self.mpr hh]
  · refine h.closed mark (List.mem_append_left _ (List.mem_append_right _ ?_))
    exact List.mem_flatMap.mpr ⟨handler, hhandler, hmark⟩

/-- Without a bypass the instructions that are read back are the same ones. -/
theorem IsReread.steps_eq (h : body.IsReread layout rows later table again)
    (hl : layout.landings = []) :
    again.steps = body.steps.map (Step.renumber (layout.number rows)) := by
  obtain ⟨instructions, hshows, hsteps⟩ := h.steps
  rw [hl] at hshows
  exact hsteps.trans hshows.stepsOf_eq

theorem IsReread.frames? (h : body.IsReread layout rows later table again) :
    again.attributes.findSome? BodyAttribute.frames? = table.map fun raw => (raw.name,
      (readWhole (readFrames (layout.starts rows) later) raw.info).getD []) := by
  rw [h.attributes, Layout.findSome?_frames?_reread]

theorem IsReread.frames?_of_mem (h : body.IsReread layout rows later table again)
    {raw : RawAttribute} (hr : raw ∈ table) :
    again.attributes.findSome? BodyAttribute.frames? = some (raw.name,
      (readWhole (readFrames (layout.starts rows) later) raw.info).getD []) := by
  rw [h.frames?, hr]
  rfl

/-- The frames that are read back are declared. -/
theorem IsReread.declaredFrames (h : body.IsReread layout rows later table again)
    {changes : List DeclaredFrame}
    (hc : changesIn? (layout.starts rows) later (table.map (·.info)) = some changes) :
    again.declaredFrames = changes := by
  unfold Body.declaredFrames
  rw [h.frames?]
  cases table with
  | none => exact Option.some.inj hc
  | some raw =>
    have hread : readWhole (readFrames (layout.starts rows) later) raw.info = some changes := hc
    rw [Option.map_some, Option.map_some, hread]
    rfl

/-- What is read back is written as it was, where instructions stand at the same places. -/
theorem IsReread.bytes_eq (h : body.IsReread layout rows later table again)
    (hh : ∀ handler ∈ body.handlers, body.hasRange handler = true) {layout' : Layout}
    (hl : layout.Relabels (layout.number rows) (body.steps.map (·.mark)) layout') :
    again.bytes layout' table = body.bytes layout table := by
  have hhandlers : again.handlers.mapM layout'.handlerRow? =
      body.handlers.mapM layout.handlerRow? := by
    rw [h.handlers, List.filter_eq_self.mpr hh]
    refine mapM_map_eq fun handler hhandler => hl.handlerRow?_eq fun mark hmark => ?_
    refine h.closed mark (List.mem_append_left _ (List.mem_append_right _ ?_))
    exact List.mem_flatMap.mpr ⟨handler, hhandler, hmark⟩
  have hattributes : layout'.attributes again.attributes table =
      layout.attributes body.attributes table := by
    rw [h.attributes]
    refine hl.attributes_eq _ (fun item hitem mark hmark => ?_) table
    exact h.closed mark (List.mem_append_right _ (List.mem_flatMap.mpr ⟨item, hitem, hmark⟩))
  unfold bytes
  rw [hl.code, hhandlers, hattributes, h.maxStack, h.maxLocals]

/-! ### Dead code -/

/-- Whether dead code was replaced: what is dead are nops up to an `athrow`, and the ranges of
handlers contain instructions, none of which is dead. -/
structure IsBuried (body : Body) (ranges : List HandlerRange) (dead : List Bool) : Prop where
  steps : ∀ (index : Nat) (step : Step), body.steps[index]? = some step →
    dead[index]? = some true → step.instruction =
      .plain (if dead[index + 1]? = some true then Opcode.nop else Opcode.athrow)
  ranges : ∀ range ∈ ranges, range.start < range.stop ∧
    ∀ index, range.start ≤ index → index < range.stop → dead[index]? = some false

/-- A handler with a range that contains instructions is the part of it in the whole range. -/
theorem partOf_of_isRangeOf {scene : Scene}
    (hp : scene.positions = body.positions) (hs : scene.steps.size = body.steps.length)
    {handler : Handler} {range : HandlerRange} (h : IsRangeOf scene handler range) :
    body.partOf handler (range.start, range.stop) = some handler := by
  have hfind {mark : Mark} {index : Nat} (hm : scene.position mark = .ok index) :
      ∃ step, body.steps[index]? = some step ∧ step.mark = mark :=
    of_getElem?_positions (hp ▸ Scene.position_eq_ok.mp hm)
  obtain ⟨step, hstep, hmark⟩ := hfind h.start
  have hplace := h.stop
  obtain ⟨start, stop, entry, caught⟩ := handler
  have hstart : step.mark = start := hmark
  rw [partOf, hstep, Option.map_some]
  cases stop with
  | «at» mark =>
    obtain ⟨next, hnext, hmark⟩ := hfind hplace
    rw [hnext, hstart]
    dsimp only
    rw [hmark]
  | finish =>
    have hstop : range.stop = body.steps.length := hplace.trans hs
    rw [hstop, List.getElem?_eq_none (Nat.le_refl _), hstart]

/-- Dead code that was replaced is replaced by itself. -/
theorem buryDead_of_forall {cells : List (Step × Bool)}
    (h : ∀ (index : Nat) (step : Step), cells[index]? = some (step, true) → step.instruction =
      .plain (if (cells[index + 1]?).map (·.2) = some true then Opcode.nop else Opcode.athrow)) :
    buryDead cells = cells.map (·.1) := by
  refine List.ext_getElem? fun index => ?_
  rw [List.getElem?_map]
  cases hcell : cells[index]? with
  | none =>
    have hlength := congrArg List.length (map_mark_buryDead cells)
    rw [List.length_map, List.length_map, List.length_map] at hlength
    exact List.getElem?_eq_none (hlength ▸ List.getElem?_eq_none_iff.mp hcell)
  | some cell =>
    obtain ⟨step, dead⟩ := cell
    cases dead with
    | false => exact getElem?_buryDead hcell
    | true =>
      rw [getElem?_buryDead_of_dead hcell, ← h index step hcell]
      rfl

/-- Dead code that was replaced stays as it is. -/
theorem IsBuried.withoutDead {ranges : List HandlerRange} {dead : List Bool}
    (h : body.IsBuried ranges dead) (hn : (body.steps.map (·.mark)).Nodup)
    (hd : dead.length = body.steps.length) {scene : Scene} (hp : scene.positions = body.positions)
    (hs : scene.steps.size = body.steps.length) (hr : body.handlerRanges scene = .ok ranges) :
    body.withoutDead dead = body.touch := by
  have hcell {index : Nat} {step : Step} {flag : Bool} :
      (body.steps.zip dead)[index]? = some (step, flag) ↔
        body.steps[index]? = some step ∧ dead[index]? = some flag :=
    List.getElem?_zip_eq_some
  have hflag (index : Nat) : ((body.steps.zip dead)[index]?).map (·.2) = dead[index]? := by
    rw [← List.getElem?_map, List.map_snd_zip (Nat.le_of_eq hd)]
  have hsteps : buryDead (body.steps.zip dead) = body.steps := by
    rw [buryDead_of_forall, List.map_fst_zip (Nat.le_of_eq hd.symm)]
    intro index step hindex
    obtain ⟨hstep, hdead⟩ := hcell.mp hindex
    rw [hflag]
    exact h.steps index step hstep hdead
  have hparts : ∀ handler ∈ body.handlers, body.liveParts dead handler = [handler] := by
    intro handler hhandler
    obtain ⟨range, hrange, hisRange⟩ := exists_of_mem_left (handlerRanges_eq_ok.mp hr) hhandler
    obtain ⟨hlt, hlive⟩ := h.ranges range hrange
    rw [liveParts_eq hn hp hs hd hisRange, runsIn_of_live hlt hlive,
      List.filterMap_cons_some (partOf_of_isRangeOf hp hs hisRange), List.filterMap_nil]
  have hhandlers : body.handlers.flatMap (body.liveParts dead) = body.handlers := by
    rw [List.flatMap_congr hparts, List.flatMap_singleton']
  unfold Body.withoutDead
  rw [hsteps, hhandlers]
  rfl

theorem instruction_live_of_dead {head : MethodHead} {pool : Pool} {hierarchy : Hierarchy}
    {analysis : Analysis} (h : body.analyze head pool hierarchy = .ok analysis) {index : Nat}
    {step : Step} (hstep : (body.live analysis).steps[index]? = some step)
    (hdead : analysis.dead[index]? = some true) : step.instruction =
      .plain (if analysis.dead[index + 1]? = some true then Opcode.nop else Opcode.athrow) := by
  have hlength := length_dead h
  have hbound : index < body.steps.length := hlength ▸ (List.getElem?_eq_some_iff.mp hdead).1
  have hcell : (body.steps.zip analysis.dead)[index]? = some (body.steps[index], true) :=
    List.getElem?_zip_eq_some.mpr ⟨List.getElem?_eq_getElem hbound, hdead⟩
  rw [steps_live h, getElem?_buryDead_of_dead hcell, ← List.getElem?_map,
    List.map_snd_zip (Nat.le_of_eq hlength)] at hstep
  exact congrArg Step.instruction (Option.some.inj hstep).symm

/-- What is written instead of dead code is such. -/
theorem isBuried_live {head : MethodHead} {pool : Pool} {hierarchy : Hierarchy}
    {analysis : Analysis} (hn : (body.steps.map (·.mark)).Nodup)
    (h : body.analyze head pool hierarchy = .ok analysis) (hcode : analysis.hasDeadCode = true)
    {scene : Scene} (hp : scene.positions = (body.live analysis).positions)
    (hs : scene.steps.size = (body.live analysis).steps.length) (hg : pool.Grows scene.pool)
    {ranges : List HandlerRange} (hr : (body.live analysis).handlerRanges scene = .ok ranges) :
    (body.live analysis).IsBuried ranges analysis.dead := by
  have hlength := length_dead h
  refine ⟨fun index step => instruction_live_of_dead h, fun range hrange => ?_⟩
  · -- a handler is a part of an old one, in a run of instructions that are not dead
    obtain ⟨part, hpart, hisRange⟩ := exists_of_mem_right (handlerRanges_eq_ok.mp hr) hrange
    have hlive : (body.live analysis).handlers =
        body.handlers.flatMap (body.liveParts analysis.dead) := by
      unfold live
      rw [hcode]
      rfl
    rw [hlive] at hpart
    obtain ⟨handler, hhandler, hpart⟩ := List.mem_flatMap.mp hpart
    obtain ⟨-, entry, rows, handlers, first, last, -, -, hhandlers, -⟩ := analyze_eq_ok.mp h
    obtain ⟨old, -, hold⟩ := exists_of_mem_left (handlerRanges_eq_ok.mp hhandlers) hhandler
    rw [liveParts_eq hn rfl List.size_toArray hlength hold] at hpart
    obtain ⟨run, hrun, hpart⟩ := List.mem_filterMap.mp hpart
    obtain ⟨hlt, hle⟩ := bounds_of_mem_runsIn hrun
    have hmarks := map_mark_live h
    have hnodup : ((body.live analysis).steps.map (·.mark)).Nodup := hmarks ▸ hn
    obtain ⟨other, hother, hrange'⟩ := isRangeOf_partOf hn (hp.trans (positions_congr hmarks))
      (hs.trans (length_steps_live h)) rfl hg hold ⟨hlt, hlength ▸ hle⟩
    obtain rfl := Option.some.inj (hother.symm.trans hpart)
    obtain ⟨hstart, hstop, -⟩ := places_of_isRangeOf hnodup hp hs hisRange
    obtain ⟨hstart', hstop', -⟩ := places_of_isRangeOf hnodup hp hs hrange'
    rw [Option.some.inj (hstart.symm.trans hstart'), Option.some.inj (hstop.symm.trans hstop')]
    exact ⟨hlt, live_of_mem_runsIn hrun⟩

/-- Whether the flags of what is read back are those of the instructions, where no jump with a bypass
is dead. -/
structure AreFlags (body : Body) (place : Nat → Nat) (dead again : List Bool) : Prop where
  held : ∀ index ≤ body.steps.length, again[place index]? = dead[index]?
  between : ∀ index < body.steps.length, place (index + 1) = place index + 2 →
    again[place index + 1]? = some false

/-- Dead code that was replaced is read back as such. -/
theorem Unfolds.isBuried (h : body.Unfolds number place landings again)
    {ranges : List HandlerRange} {dead dead' : List Bool} (hb : body.IsBuried ranges dead)
    (hf : body.AreFlags place dead dead')
    (hr : ∀ range ∈ ranges, range.start ≤ body.steps.length ∧ range.stop ≤ body.steps.length) :
    again.IsBuried (ranges.map (HandlerRange.moved place)) dead' := by
  refine ⟨fun k step' hstep' hdead => ?_, fun range' hrange' => ?_⟩
  · obtain ⟨i, hi, hplace⟩ := h.steps.exists_place (List.getElem?_eq_some_iff.mp hstep').1
    rcases hplace with rfl | ⟨rfl, hp⟩
    · have hstep := List.getElem?_eq_getElem hi
      rw [hf.held i (Nat.le_of_lt hi)] at hdead
      have hburied := hb.steps i _ hstep hdead
      cases h.steps.unfolded i _ hstep with
      | same hsame hp =>
        obtain rfl := Option.some.inj (hstep'.symm.trans hsame)
        rw [Step.renumber, hburied, ← hp, hf.held (i + 1) hi]
        rfl
      | bypass hjump =>
        rw [hjump] at hburied
        cases hburied
    · rw [hf.between i hi hp] at hdead
      cases hdead
  · obtain ⟨range, hrange, rfl⟩ := List.mem_map.mp hrange'
    obtain ⟨hlt, hlive⟩ := hb.ranges range hrange
    obtain ⟨hstart, hstop⟩ := hr range hrange
    refine ⟨h.steps.place_lt hlt hstop, fun k hfirst hlast => ?_⟩
    have hbound : k < again.steps.length := by
      have hle := (h.steps.place_le_iff hstop (Nat.le_refl _)).mpr hstop
      rw [h.steps.last] at hle
      exact Nat.lt_of_lt_of_le hlast hle
    obtain ⟨i, hi, hplace⟩ := h.steps.exists_place hbound
    rcases hplace with rfl | ⟨rfl, hp⟩
    · have hin := (h.steps.contains_place hstart hstop (Nat.le_of_lt hi)).mp ⟨hfirst, hlast⟩
      rw [hf.held i (Nat.le_of_lt hi)]
      exact hlive i hin.1 hin.2
    · exact hf.between i hi hp

end Body

variable {number : Mark → Mark} {marks : List Mark}

/-! ### Frames that are found again -/

theorem FrameType.paired_rename {slots : List FrameType} (h : Paired slots) :
    Paired (slots.map (rename number)) := by
  intro i type hi hw
  rw [List.getElem?_map] at hi
  obtain ⟨old, hold, rfl⟩ := Option.map_eq_some_iff.mp hi
  rw [isWide_rename] at hw
  rw [List.getElem?_map, h i old hold hw]
  rfl

/-- Frames with the same types in all slots are listed alike. -/
theorem Frame.isListedAs_of_corresponds {held held' : Frame}
    (h : (held.rename number).Corresponds Eq Eq held') (hp : FrameType.Paired held.locals)
    (hp' : FrameType.Paired held'.locals) (hm : held.Holds (FrameType.IsMadeIn marks)) :
    held.IsListedAs number marks held' := by
  have hstack : held'.stack = held.stack.map (FrameType.rename number) :=
    (List.forall₂_eq_eq_eq ▸ h.stack : (held.rename number).stack = held'.stack).symm
  have htrim : FrameType.trim held'.locals =
      (FrameType.trim held.locals).map (FrameType.rename number) := by
    rw [← FrameType.trim_rename]
    exact FrameType.trim_congr hp' (FrameType.paired_rename hp) fun slot => (h.locals slot).symm
  refine ⟨?_, ?_, fun type ht => ?_⟩
  · rw [listedLocals, htrim, FrameType.collapse_rename, listedLocals]
  · rw [listedStack, fromBottom, hstack, ← List.map_reverse, FrameType.collapse_rename, listedStack,
      fromBottom]
  · rcases List.mem_append.mp ht with ht | ht
    · exact hm.locals type (FrameType.mem_of_mem_trim (FrameType.mem_of_mem_collapse ht))
    · exact hm.stack type (List.mem_reverse.mp (FrameType.mem_of_mem_collapse ht))

/-- What is caught in dead code is listed alike. -/
theorem Frame.isListedAs_catching (name : Bytes) :
    (Frame.catching [] name).IsListedAs number marks (Frame.catching [] name) := by
  refine ⟨rfl, rfl, fun type ht mark hmark => ?_⟩
  obtain rfl := List.mem_singleton.mp ht
  nomatch hmark

namespace Analysis

variable {analysis found : Analysis}

/-- Every instruction has a frame in the end. -/
theorem getElem?_liveFrames (analysis : Analysis) (index : Nat) :
    analysis.liveFrames[index]? = analysis.frames[index]?.map fun frame =>
      some (frame.getD (Frame.catching [] throwableName)) := by
  unfold liveFrames
  split_ifs with hdead
  · exact Array.getElem?_map
  · cases hframe : analysis.frames[index]? with
    | none => rfl
    | some frame =>
      cases frame with
      | some frame => rfl
      | none =>
        refine absurd (?_ : analysis.hasDeadCode = true) hdead
        exact Array.any_eq_true'.mpr ⟨none, Array.mem_of_getElem? hframe, rfl⟩

theorem getElem?_dead (analysis : Analysis) (index : Nat) :
    analysis.dead[index]? = analysis.frames[index]?.map (·.isNone) := by
  rw [dead, List.getElem?_map, Array.getElem?_toList]

theorem hasDeadCode_iff (analysis : Analysis) :
    analysis.hasDeadCode = true ↔ ∃ index : Nat, analysis.dead[index]? = some true := by
  have hany : analysis.hasDeadCode = analysis.dead.any id := by
    rw [hasDeadCode, dead, List.any_map, ← Array.any_toList]
    rfl
  rw [hany, List.any_eq_true]
  constructor
  · rintro ⟨flag, hflag, rfl⟩
    exact List.mem_iff_getElem?.mp hflag
  · rintro ⟨index, hindex⟩
    exact ⟨true, List.mem_of_getElem? hindex, rfl⟩

/-- Instructions are alive if they are reached. -/
theorem dead_eq_some_false {index : Nat} : analysis.dead[index]? = some false ↔
    ∃ frame, analysis.frames[index]? = some (some frame) := by
  rw [getElem?_dead]
  constructor
  · intro h
    obtain ⟨held, hheld, hsome⟩ := Option.map_eq_some_iff.mp h
    cases held with
    | none => cases hsome
    | some frame => exact ⟨frame, hheld⟩
  · rintro ⟨frame, hframe⟩
    rw [hframe]
    rfl

end Analysis

namespace Body

variable {number : Mark → Mark} {place : Nat → Nat} {landings : List Mark} {body again : Body}
  {head : MethodHead} {pool later : Pool} {hierarchy : Hierarchy} {analysis : Analysis}
  {entry : Frame} {layout : Layout} {base : Nat} {table : Option RawAttribute} {encoded : Bytes}
  {rows : List (Nat × Instruction Nat)} {declared : List (Mark × Frame)}

/-- Jumps name no slots, so those that are read back as two need as many. -/
theorem Unfolds.localSlots_eq (h : body.Unfolds number place landings again) (entry : Frame)
    (declared : List Frame) : again.localSlots entry declared = body.localSlots entry declared := by
  have hsteps (limit : Nat) : (∀ step' ∈ again.steps, slotsOf step'.instruction ≤ limit) ↔
      ∀ step ∈ body.steps, slotsOf step.instruction ≤ limit := by
    have hslots (instruction : Instruction Mark) :
        slotsOf (instruction.mapTargets number) = slotsOf instruction := by
      cases instruction <;> rfl
    constructor
    · intro hagain step hstep
      obtain ⟨i, hi⟩ := List.mem_iff_getElem?.mp hstep
      cases h.steps.unfolded i step hi with
      | same hsame =>
        rw [← hslots]
        exact hagain _ (List.mem_of_getElem? hsame)
      | bypass hjump =>
        rw [hjump]
        exact Nat.zero_le _
    · intro hbody step' hstep'
      obtain ⟨k, hk⟩ := List.mem_iff_getElem?.mp hstep'
      rcases h.steps.cases_of_getElem? hk with
        ⟨i, step, hstep, -, -, rfl⟩ | ⟨i, step, next, op, inverse, target, -, -, -, -, -, hjump⟩
      · rw [Step.renumber, hslots]
        exact hbody step (List.mem_of_getElem? hstep)
      · rcases hjump with ⟨-, hjump⟩ | ⟨-, hjump⟩
        · rw [hjump]
          exact Nat.zero_le _
        · rw [hjump]
          exact Nat.zero_le _
  have hle (limit : Nat) : again.localSlots entry declared ≤ limit ↔
      body.localSlots entry declared ≤ limit := by
    unfold localSlots
    rw [foldl_max_le, foldl_max_le, foldl_max_le, foldl_max_le, hsteps]
  exact Nat.le_antisymm ((hle _).mpr (Nat.le_refl _)) ((hle _).mp (Nat.le_refl _))

/-- Instructions are dead under other marks if they are dead, as long as these are no jumps. -/
theorem Unfolds.areFlags (h : body.Unfolds number place landings again) {found : Analysis}
    (ha : body.analyze head pool hierarchy = .ok analysis)
    (hfound : again.analyze head pool hierarchy = .ok found)
    (hj : ∀ (index : Nat) step, body.steps[index]? = some step → analysis.dead[index]? = some true →
      ∃ op, step.instruction = .plain op) :
    body.AreFlags place analysis.dead found.dead := by
  have hlength := length_dead ha
  have hlength' := length_dead hfound
  refine ⟨fun index hi => ?_, fun index hi hp => ?_⟩
  · have hlive : found.dead[place index]? = some false ↔ analysis.dead[index]? = some false := by
      rw [Analysis.dead_eq_some_false, Analysis.dead_eq_some_false]
      exact h.exists_frame_iff ha hfound hi
    rcases Nat.lt_or_eq_of_le hi with hlt | rfl
    · have hbound : place index < again.steps.length :=
        h.steps.last ▸ h.steps.place_lt hlt (Nat.le_refl _)
      have hflag := List.getElem?_eq_getElem (hlength.symm ▸ hlt)
      have hflag' := List.getElem?_eq_getElem (hlength'.symm ▸ hbound)
      rw [hflag, hflag', Option.some.injEq, Option.some.injEq] at hlive
      rw [hflag, hflag']
      exact congrArg some (Bool.eq_iff_iff.mpr (by rw [← Bool.not_eq_false, hlive, Bool.not_eq_false]))
    · rw [h.steps.last, List.getElem?_eq_none (Nat.le_of_eq hlength),
        List.getElem?_eq_none (Nat.le_of_eq hlength')]
  · -- a jump that is alive leads to its second one
    have hflag : analysis.dead[index]? = some false := by
      have hsome := List.getElem?_eq_getElem (hlength.symm ▸ hi)
      rw [hsome]
      refine congrArg some (Bool.eq_false_iff.mpr fun hdead => ?_)
      have hstep := List.getElem?_eq_getElem hi
      obtain ⟨op, hplain⟩ := hj index _ hstep (hsome.trans (congrArg some hdead))
      cases h.steps.unfolded index _ hstep with
      | same _ hsame => omega
      | bypass hjump =>
        rw [hjump] at hplain
        cases hplain
    obtain ⟨frame, hframe⟩ := Analysis.dead_eq_some_false.mp hflag
    obtain ⟨after, hafter⟩ := h.exists_climbs_between hi hp (climbs_of_frame ha hframe)
    obtain ⟨held, hheld, -⟩ := exists_frame_of_climbs hfound hafter
    exact Analysis.dead_eq_some_false.mpr ⟨held, hheld⟩

/-- There is dead code in what is read back if there is some. -/
theorem Unfolds.hasDeadCode_eq (h : body.Unfolds number place landings again) {found : Analysis}
    (hl : analysis.dead.length = body.steps.length)
    (hl' : found.dead.length = again.steps.length)
    (hf : body.AreFlags place analysis.dead found.dead) :
    found.hasDeadCode = analysis.hasDeadCode := by
  refine Bool.eq_iff_iff.mpr ?_
  rw [Analysis.hasDeadCode_iff, Analysis.hasDeadCode_iff]
  constructor
  · rintro ⟨k, hk⟩
    obtain ⟨i, hi, rfl | ⟨rfl, hp⟩⟩ :=
      h.steps.exists_place (hl' ▸ (List.getElem?_eq_some_iff.mp hk).1)
    · exact ⟨i, (hf.held i (Nat.le_of_lt hi)).symm.trans hk⟩
    · rw [hf.between i hi hp] at hk
      cases hk
  · rintro ⟨i, hi⟩
    have hbound := hl ▸ (List.getElem?_eq_some_iff.mp hi).1
    exact ⟨place i, (hf.held i (Nat.le_of_lt hbound)).trans hi⟩

end Body

end ClassGraft

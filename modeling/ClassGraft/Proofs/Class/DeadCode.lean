import ClassGraft.Proofs.Class.Reanalysis
import ClassGraft.Proofs.Frame.Termination

/-!
# Dead code

The instructions with a frame are those that control can reach (`Body.Reaches`): the first one, and
from each the targets of its jump, the next one if it falls through, and the handlers of exceptions
that it may throw (`Body.exists_frame_iff_reaches`).  No frame ever arrives anywhere else, and what
arrived once stays.

Replacing dead code leaves the rest as it is.  Each handler is split into parts, of which an
instruction that is reached has as many as the handler covered it, in the same order, and any other
one none (`Body.catchers_withoutDead`, `Body.covers_withoutDead`).
-/

namespace ClassGraft

namespace Body

/-! ### What can be reached -/

/-- Whether an instruction is in the range of a handler. -/
def covers (body : Body) (handler : Handler) (index : Nat) : Bool :=
  match body.position? handler.start, body.indexOf? handler.stop with
  | some start, some stop => decide (start ≤ index ∧ index < stop)
  | _, _ => false

theorem covers_eq {body : Body} {handler : Handler} {start stop : Nat}
    (hstart : body.position? handler.start = some start)
    (hstop : body.indexOf? handler.stop = some stop) (index : Nat) :
    body.covers handler index = decide (start ≤ index ∧ index < stop) := by
  rw [covers, hstart, hstop]

/-- Where exceptions thrown at an instruction go on and the class that is caught there, in the order
in which the handlers are asked. -/
def catchers (body : Body) (index : Nat) : List (Mark × UInt16) :=
  (body.handlers.filter (body.covers · index)).map fun handler =>
    (handler.entry, handler.catchType)

/-- Whether control can reach an instruction from the first one. -/
inductive Reaches (body : Body) : Nat → Prop
  | first : Reaches body 0
  | jump {index target : Nat} {step : Step} {mark : Mark} (h : Reaches body index)
      (hs : body.steps[index]? = some step) (hm : mark ∈ step.instruction.targets)
      (ht : body.position? mark = some target) : Reaches body target
  | next {index : Nat} {step : Step} (h : Reaches body index)
      (hs : body.steps[index]? = some step) (hf : step.instruction.fallsThrough = true) :
      Reaches body (index + 1)
  | caught {index target : Nat} {handler : Handler} (h : Reaches body index)
      (hh : handler ∈ body.handlers) (hc : body.covers handler index = true)
      (ht : body.position? handler.entry = some target) : Reaches body target

end Body

namespace Body

variable {body : Body} {head : MethodHead} {pool : Pool} {hierarchy : Hierarchy}
  {analysis : Analysis} {entry : Frame} {course : Course}

/-- The scene of a course finds an instruction where the body does. -/
theorem HasCourse.position_iff (hn : (body.steps.map (·.mark)).Nodup)
    (h : body.HasCourse head pool hierarchy entry course) {mark : Mark} {index : Nat} :
    course.scene.position mark = .ok index ↔ body.position? mark = some index := by
  rw [Scene.position_eq_ok, h.scene]
  refine ⟨position?_of_positions hn, fun hp => ?_⟩
  obtain ⟨hlt, hmark, -⟩ := List.findIdx?_eq_some_iff_getElem.mp hp
  have hfound := getElem?_positions hn (List.getElem?_eq_getElem hlt)
  rwa [eq_of_beq hmark] at hfound

theorem covers_of_isRangeOf (hn : (body.steps.map (·.mark)).Nodup) {scene : Scene}
    (hp : scene.positions = body.positions) (hs : scene.steps.size = body.steps.length)
    {handler : Handler} {range : HandlerRange} (h : IsRangeOf scene handler range) (index : Nat) :
    body.covers handler index = decide (range.start ≤ index ∧ index < range.stop) := by
  obtain ⟨hstart, hstop, -⟩ := places_of_isRangeOf hn hp hs h
  exact covers_eq hstart hstop index

/-- The handlers of a body and their ranges belong together. -/
theorem HasCourse.covers_iff (hn : (body.steps.map (·.mark)).Nodup)
    (h : body.HasCourse head pool hierarchy entry course) {handler : Handler}
    {range : HandlerRange} (hr : IsRangeOf course.scene handler range) (index : Nat) :
    body.covers handler index = true ↔ range.start ≤ index ∧ index < range.stop := by
  rw [covers_of_isRangeOf hn (by rw [h.scene]) (by rw [h.scene, List.size_toArray]) hr,
    decide_eq_true_iff]

theorem HasCourse.getElem?_steps (h : body.HasCourse head pool hierarchy entry course)
    (index : Nat) : course.scene.steps[index]? = body.steps[index]? := by
  rw [h.scene, List.getElem?_toArray]

/-- Where control goes on from what can be reached can be reached. -/
theorem HasCourse.reaches_of_edge (hn : (body.steps.map (·.mark)).Nodup)
    (h : body.HasCourse head pool hierarchy entry course) {index target : Nat} {step : Step}
    {before after sent : Frame} (hreach : body.Reaches index)
    (hs : course.scene.steps[index]? = some step)
    (hedge : course.Edge index step before after target sent) : body.Reaches target := by
  rw [h.getElem?_steps] at hs
  have hcaught {range : HandlerRange} (hr : range ∈ course.handlers)
      (hi : range.start ≤ index ∧ index < range.stop) : body.Reaches range.entry := by
    obtain ⟨handler, hh, hrange⟩ := exists_of_mem_handlerRanges h.handlers hr
    exact .caught hreach hh ((h.covers_iff hn hrange index).mpr hi)
      ((h.position_iff hn).mp hrange.entry)
  cases hedge with
  | jump hm ht => exact .jump hreach hs hm ((h.position_iff hn).mp ht)
  | next hf => exact .next hreach hs hf
  | thrownBefore hr hi => exact hcaught hr hi
  | thrownAfter hr hi => exact hcaught hr hi

/-- The instructions with a frame are those that can be reached. -/
theorem exists_frame_iff_reaches (hn : (body.steps.map (·.mark)).Nodup)
    (h : body.analyze head pool hierarchy = .ok analysis) (index : Nat) :
    (∃ frame, analysis.frames[index]? = some (some frame)) ↔ body.Reaches index := by
  obtain ⟨entry, course, flow, hcourse, hframes, -, hstart, hpassed⟩ :=
    settled_of_analyze (isAscent_true hierarchy) h
  constructor
  · rintro ⟨frame, hframe⟩
    refine frames_induction (isAscent_true hierarchy) h hcourse (Q := fun index _ =>
      body.Reaches index) (fun _ _ _ => .first) ?_ hframe
    intro index step before after target sent held hstep _ hreach _ hedge _ _
    exact hcourse.reaches_of_edge hn hreach hstep hedge
  · intro hreach
    have hheld {target : Nat} {sent : Frame}
        (ha : flow.HasArrived (fun _ _ => True) course target sent) :
        ∃ frame, analysis.frames[target]? = some (some frame) := by
      obtain ⟨held, hheld, -⟩ := ha
      exact ⟨held, hframes ▸ Flow.frameAt?_eq_some.mp hheld⟩
    -- what an instruction with a frame sends has arrived
    have hgo {index target : Nat} {step : Step} (hs : body.steps[index]? = some step)
        (hframe : ∃ frame, analysis.frames[index]? = some (some frame))
        (hedge : ∀ before after, ∃ sent, course.Edge index step before after target sent) :
        ∃ frame, analysis.frames[target]? = some (some frame) := by
      obtain ⟨before, hbefore⟩ := hframe
      obtain ⟨after, -, -, -, harrived⟩ := hpassed index step before
        ((hcourse.getElem?_steps index).trans hs) (Flow.frameAt?_eq_some.mpr (hframes ▸ hbefore))
      obtain ⟨sent, hedge⟩ := hedge before after
      exact hheld (harrived target sent hedge)
    induction hreach with
    | first => exact hheld hstart
    | jump _ hs hm ht ih =>
      exact hgo hs ih fun _ after => ⟨after, .jump hm ((hcourse.position_iff hn).mpr ht)⟩
    | next _ hs hf ih => exact hgo hs ih fun _ after => ⟨after, .next hf⟩
    | @caught index target handler _ hh hc ht ih =>
      obtain ⟨range, hrange, hr⟩ := exists_of_mem_left (handlerRanges_eq_ok.mp hcourse.handlers) hh
      obtain ⟨frame, hframe⟩ := ih
      obtain ⟨step, hstep⟩ : ∃ step, body.steps[index]? = some step := by
        have hlt : index < analysis.frames.size := (Array.getElem?_eq_some_iff.mp hframe).1
        have hsize := length_dead h
        rw [Analysis.dead, List.length_map, Array.length_toList] at hsize
        exact ⟨_, List.getElem?_eq_getElem (hsize ▸ hlt)⟩
      obtain rfl : range.entry = target :=
        Option.some.inj (((hcourse.position_iff hn).mp hr.entry).symm.trans ht)
      exact hgo hstep ⟨frame, hframe⟩ fun before _ =>
        ⟨_, .thrownBefore hrange ((hcourse.covers_iff hn hr index).mp hc)⟩

/-! ### What replaces dead code -/

/-- What stands in place of a dead instruction: one that throws at the end of its run, and one that
does nothing before. -/
theorem getElem?_buryDead_of_dead {cells : List (Step × Bool)} {index : Nat} {step : Step}
    (h : cells[index]? = some (step, true)) : (buryDead cells)[index]? = some ⟨step.mark,
      .plain (if (cells[index + 1]?).map (·.2) = some true then Opcode.nop
        else Opcode.athrow)⟩ := by
  induction cells using buryDead.induct generalizing index with
  | case1 => simp at h
  | case2 other rest ih =>
    rw [buryDead]
    cases index with
    | zero => simp at h
    | succ index => exact ih h
  | case3 other rest ih =>
    rw [buryDead]
    cases index with
    | zero =>
      obtain rfl : other = step := by simpa using h
      rw [List.getElem?_cons_zero, List.getElem?_cons_succ, List.head?_eq_getElem?]
    | succ index => exact ih h

theorem position?_congr {other : Body}
    (h : other.steps.map (·.mark) = body.steps.map (·.mark)) (mark : Mark) :
    other.position? mark = body.position? mark := by
  have hmarks (body : Body) : body.position? mark =
      (body.steps.map (·.mark)).findIdx? (· == mark) := by
    rw [List.findIdx?_map]
    rfl
  rw [hmarks, hmarks, h]

/-- The ranges of the parts of a handler are the runs in its range. -/
theorem covers_of_partOf (hn : (body.steps.map (·.mark)).Nodup) {other : Body}
    (hmarks : other.steps.map (·.mark) = body.steps.map (·.mark)) {handler part : Handler}
    {run : Nat × Nat} (hrun : run.1 < run.2 ∧ run.2 ≤ body.steps.length)
    (h : body.partOf handler run = some part) (index : Nat) :
    other.covers part index = decide (run.1 ≤ index ∧ index < run.2) := by
  obtain ⟨step, hstep, hpart⟩ := Option.map_eq_some_iff.mp h
  have hat {index : Nat} {step : Step} (hs : body.steps[index]? = some step) :
      other.position? step.mark = some index := by
    rw [position?_congr hmarks]
    exact position?_of_positions hn (getElem?_positions hn hs)
  have hstart : other.position? part.start = some run.1 := by
    rw [← hpart]
    exact hat hstep
  have hstop : other.indexOf? part.stop = some run.2 := by
    rw [← hpart]
    cases hnext : body.steps[run.2]? with
    | some next => exact hat hnext
    | none =>
      have hlength := congrArg List.length hmarks
      rw [List.length_map, List.length_map] at hlength
      have hend := List.getElem?_eq_none_iff.mp hnext
      exact congrArg some (by omega)
  exact covers_eq hstart hstop index

theorem runsAt_cons (run : Nat × Nat) (runs : List (Nat × Nat)) (index : Nat) :
    runsAt (run :: runs) index =
      if run.1 ≤ index ∧ index < run.2 then run :: runsAt runs index else runsAt runs index := by
  simp only [runsAt, List.filter_cons, decide_eq_true_iff]

/-- The parts of a handler that cover an instruction: as many as runs that it is in. -/
theorem map_filter_covers_partOf (hn : (body.steps.map (·.mark)).Nodup) {other : Body}
    (hmarks : other.steps.map (·.mark) = body.steps.map (·.mark)) (handler : Handler)
    (runs : List (Nat × Nat)) (hruns : ∀ run ∈ runs, run.1 < run.2 ∧ run.2 ≤ body.steps.length)
    (index : Nat) :
    (((runs.filterMap (body.partOf handler)).filter (other.covers · index)).map
      fun part => (part.entry, part.catchType)) =
        List.replicate (runsAt runs index).length (handler.entry, handler.catchType) := by
  induction runs with
  | nil => rfl
  | cons run rest ih =>
    obtain ⟨hrun, hrest⟩ := List.forall_mem_cons.mp hruns
    obtain ⟨part, hpart⟩ : ∃ part, body.partOf handler run = some part := by
      have hlt : run.1 < body.steps.length := by omega
      exact ⟨_, congrArg (Option.map _) (List.getElem?_eq_getElem hlt)⟩
    have hcovers := covers_of_partOf hn hmarks hrun hpart index
    have hcatch : (part.entry, part.catchType) = (handler.entry, handler.catchType) := by
      obtain ⟨step, -, rfl⟩ := Option.map_eq_some_iff.mp hpart
      rfl
    rw [List.filterMap_cons_some hpart, List.filter_cons, hcovers, runsAt_cons]
    by_cases hin : run.1 ≤ index ∧ index < run.2
    · rw [if_pos (decide_eq_true hin), if_pos hin, List.map_cons, ih hrest, hcatch,
        List.length_cons, List.replicate_succ]
    · rw [if_neg (by simpa using hin), if_neg hin, ih hrest]

/-- An instruction that is dead is in no run. -/
theorem runsAt_runsIn_of_dead {dead : List Bool} {index : Nat} (hd : dead[index]? ≠ some false)
    (start stop : Nat) : runsAt (runsIn dead start stop) index = [] := by
  rw [← List.length_eq_zero_iff, runsIn, length_runsAt _ _ _ (by simp), if_neg]
  rintro (⟨first, hf, -⟩ | ⟨hs, hflag⟩)
  · simp at hf
  · rw [List.getElem?_drop, Nat.add_sub_cancel' hs] at hflag
    by_cases hlt : index < stop
    · rw [List.getElem?_take_of_lt hlt] at hflag
      exact hd hflag
    · rw [List.getElem?_take_eq_none (Nat.le_of_not_lt hlt)] at hflag
      simp at hflag

variable {dead : List Bool} {scene : Scene} {ranges : List HandlerRange}

/-- What the parts of a handler catch at an instruction. -/
theorem catchers_liveParts (hn : (body.steps.map (·.mark)).Nodup)
    (hp : scene.positions = body.positions) (hs : scene.steps.size = body.steps.length)
    (hd : dead.length = body.steps.length) {handler : Handler} {range : HandlerRange}
    (hr : IsRangeOf scene handler range) {other : Body}
    (hmarks : other.steps.map (·.mark) = body.steps.map (·.mark)) (index : Nat) :
    (((body.liveParts dead handler).filter (other.covers · index)).map
      fun part => (part.entry, part.catchType)) =
        if body.covers handler index = true ∧ dead[index]? = some false then
          [(handler.entry, handler.catchType)]
        else [] := by
  have hruns : ∀ run ∈ runsIn dead range.start range.stop,
      run.1 < run.2 ∧ run.2 ≤ body.steps.length := fun run hrun => hd ▸ bounds_of_mem_runsIn hrun
  rw [liveParts_eq hn hp hs hd hr, map_filter_covers_partOf hn hmarks handler _ hruns,
    covers_of_isRangeOf hn hp hs hr]
  by_cases hl : dead[index]? = some false
  · rw [length_runsAt_runsIn hl]
    by_cases hin : range.start ≤ index ∧ index < range.stop
    · rw [if_pos hin, if_pos ⟨decide_eq_true hin, hl⟩]
      rfl
    · rw [if_neg hin, if_neg fun h => hin (of_decide_eq_true h.1)]
      rfl
  · rw [runsAt_runsIn_of_dead hl, if_neg fun h => hl h.2]
    rfl

/-- The handlers of the body without dead code catch at an instruction what the handlers of the body
did, unless it is dead. -/
theorem catchers_withoutDead (hn : (body.steps.map (·.mark)).Nodup)
    (hp : scene.positions = body.positions) (hs : scene.steps.size = body.steps.length)
    (hd : dead.length = body.steps.length) (hr : body.handlerRanges scene = .ok ranges)
    (index : Nat) : (body.withoutDead dead).catchers index =
      if dead[index]? = some false then body.catchers index else [] := by
  have hmarks : (body.withoutDead dead).steps.map (·.mark) = body.steps.map (·.mark) :=
    map_mark_withoutDead hd
  have hparts {handlers : List Handler} {ranges : List HandlerRange}
      (hr : List.Forall₂ (IsRangeOf scene) handlers ranges) :
      (((handlers.flatMap (body.liveParts dead)).filter
        ((body.withoutDead dead).covers · index)).map fun part => (part.entry, part.catchType)) =
        if dead[index]? = some false then
          (handlers.filter (body.covers · index)).map fun handler =>
            (handler.entry, handler.catchType)
        else [] := by
    induction hr with
    | nil => simp
    | @cons handler range handlers ranges hrange _ ih =>
      rw [List.flatMap_cons, List.filter_append, List.map_append, ih,
        catchers_liveParts hn hp hs hd hrange hmarks, List.filter_cons]
      by_cases hl : dead[index]? = some false
      · by_cases hc : body.covers handler index = true
        · simp [hl, hc]
        · simp [hl, hc]
      · simp [hl]
  exact hparts (handlerRanges_eq_ok.mp hr)

theorem covers_withoutDead (hn : (body.steps.map (·.mark)).Nodup)
    (hp : scene.positions = body.positions) (hs : scene.steps.size = body.steps.length)
    (hd : dead.length = body.steps.length) (hr : body.handlerRanges scene = .ok ranges)
    {index : Nat} (hl : dead[index]? ≠ some false) {handler : Handler}
    (hh : handler ∈ (body.withoutDead dead).handlers) :
    (body.withoutDead dead).covers handler index = false := by
  have hnone := catchers_withoutDead hn hp hs hd hr index
  rw [if_neg hl, catchers, List.map_eq_nil_iff, List.filter_eq_nil_iff] at hnone
  simpa using hnone handler hh

theorem getElem?_withoutDead {index : Nat} {step : Step}
    (hs : body.steps[index]? = some step) (hl : dead[index]? = some false) :
    (body.withoutDead dead).steps[index]? = some step :=
  getElem?_buryDead (List.getElem?_zip_eq_some.mpr ⟨hs, hl⟩)

theorem getElem?_withoutDead_of_dead (hd : dead.length = body.steps.length) {index : Nat}
    {step : Step} (hs : body.steps[index]? = some step) (hl : dead[index]? = some true) :
    (body.withoutDead dead).steps[index]? = some ⟨step.mark,
      .plain (if dead[index + 1]? = some true then Opcode.nop else Opcode.athrow)⟩ := by
  have hburied := getElem?_buryDead_of_dead (List.getElem?_zip_eq_some.mpr ⟨hs, hl⟩)
  rw [← List.getElem?_map, List.map_snd_zip (Nat.le_of_eq hd)] at hburied
  exact hburied

/-- What is not dead has a frame. -/
theorem dead_iff_reaches (hn : (body.steps.map (·.mark)).Nodup)
    (h : body.analyze head pool hierarchy = .ok analysis) (index : Nat) :
    analysis.dead[index]? = some false ↔ body.Reaches index := by
  rw [← exists_frame_iff_reaches hn h]
  refine ⟨fun hl => ?_, fun ⟨frame, hframe⟩ => analysis.dead_of_getElem? hframe⟩
  rw [Analysis.dead, List.getElem?_map, Array.getElem?_toList] at hl
  obtain ⟨frame, hframe, hsome⟩ := Option.map_eq_some_iff.mp hl
  cases frame with
  | none => simp at hsome
  | some frame => exact ⟨frame, hframe⟩

theorem dead_iff_not_reaches (hn : (body.steps.map (·.mark)).Nodup)
    (h : body.analyze head pool hierarchy = .ok analysis) (index : Nat) :
    analysis.dead[index]? = some true ↔ index < body.steps.length ∧ ¬body.Reaches index := by
  rw [← dead_iff_reaches hn h, ← length_dead h]
  cases hl : analysis.dead[index]? with
  | none => simp [List.getElem?_eq_none_iff.mp hl]
  | some flag => cases flag <;> simp [(List.getElem?_eq_some_iff.mp hl).1]

/-- The instructions with a frame are those that can be reached.  Replacing the others leaves these
and all marks as they are, and turns each run of the others into instructions that do nothing and
one that throws.  At each instruction that can be reached the same handlers catch the same classes
in the same order, and no handler is left at any other. -/
theorem reaches_and_withoutDead (hn : (body.steps.map (·.mark)).Nodup)
    (h : body.analyze head pool hierarchy = .ok analysis) :
    let later := body.withoutDead analysis.dead
    (∀ index, (∃ frame, analysis.frames[index]? = some (some frame)) ↔ body.Reaches index) ∧
    later.steps.map (·.mark) = body.steps.map (·.mark) ∧
    (∀ index step, body.steps[index]? = some step → body.Reaches index →
      later.steps[index]? = some step) ∧
    (∀ index step, body.steps[index]? = some step → ¬body.Reaches index →
      (index + 1 < body.steps.length → ¬body.Reaches (index + 1) →
        later.steps[index]? = some ⟨step.mark, .plain Opcode.nop⟩) ∧
      (index + 1 = body.steps.length ∨ body.Reaches (index + 1) →
        later.steps[index]? = some ⟨step.mark, .plain Opcode.athrow⟩)) ∧
    (∀ index, body.Reaches index → later.catchers index = body.catchers index) ∧
    ∀ index, ¬body.Reaches index → ∀ handler ∈ later.handlers,
      later.covers handler index = false := by
  intro later
  have hlive := dead_iff_reaches hn h
  have hdead := dead_iff_not_reaches hn h
  have hlength := length_dead h
  obtain ⟨entry, course, -, hcourse, -⟩ := settled_of_analyze (isAscent_true hierarchy) h
  have hpositions : course.scene.positions = body.positions := by rw [hcourse.scene]
  have hsize : course.scene.steps.size = body.steps.length := by
    rw [hcourse.scene, List.size_toArray]
  refine ⟨exists_frame_iff_reaches hn h, map_mark_withoutDead hlength,
    fun index step hs hreach => getElem?_withoutDead hs ((hlive index).mpr hreach),
    fun index step hs hreach => ?_, fun index hreach => ?_, fun index hreach handler hh => ?_⟩
  · have hlt := (List.getElem?_eq_some_iff.mp hs).1
    have hburied := getElem?_withoutDead_of_dead hlength hs ((hdead index).mpr ⟨hlt, hreach⟩)
    refine ⟨fun hlt' hnext => ?_, fun hend => ?_⟩
    · rwa [if_pos ((hdead _).mpr ⟨hlt', hnext⟩)] at hburied
    · rwa [if_neg fun hnext => ?_] at hburied
      obtain ⟨hlt', hnext⟩ := (hdead _).mp hnext
      exact hend.elim (Nat.ne_of_lt hlt') hnext
  · rw [catchers_withoutDead hn hpositions hsize hlength hcourse.handlers,
      if_pos ((hlive index).mpr hreach)]
  · exact covers_withoutDead hn hpositions hsize hlength hcourse.handlers
      (fun hl => hreach ((hlive index).mp hl)) hh

end Body

/-! ### A method that skips an instruction -/

namespace Skip

def head : MethodHead := ⟨Bytes.ofAscii "C", Bytes.ofAscii "m", Bytes.ofAscii "()V", true⟩

def body : Body :=
  { Body.new 0 with
    steps := [⟨⟨0⟩, .jump Opcode.goto ⟨2⟩⟩, ⟨⟨1⟩, .plain Opcode.nop⟩,
      ⟨⟨2⟩, .plain Opcode.returnVoid⟩] }

def course : Course := body.plainCourse head Pool.empty .unknown

/-- The frames that are found: the instruction that is skipped has none. -/
def frames : Array (Option Frame) := #[some ⟨[], []⟩, none, some ⟨[], []⟩]

theorem nodup_marks : (body.steps.map (·.mark)).Nodup := by decide

theorem analyze_eq : body.analyze head Pool.empty .unknown = .ok ⟨frames, 0, 0⟩ := by
  have hd := body.declared_plainCourse head Pool.empty .unknown
  have hposition : course.scene.position ⟨2⟩ = .ok 2 :=
    Scene.position_eq_ok.mpr
      (@Body.getElem?_positions body nodup_marks 2 ⟨⟨2⟩, .plain Opcode.returnVoid⟩ rfl)
  -- Two visits settle the run: the jump reaches the last instruction and leaves the one between.
  have jump : Flow.visit course 0 ⟨⟨0⟩, .jump Opcode.goto ⟨2⟩⟩ ⟨[], []⟩
      ⟨#[some ⟨[], []⟩, none, none], [], #[false, false, false], 0⟩ =
      .ok ⟨frames, [2], #[false, false, true], 0⟩ := by
    refine Flow.visit_eq_ok.mpr ⟨⟨[], []⟩, _, _, rfl, rfl, ?_, rfl⟩
    exact Except.bind_eq_ok.mpr ⟨2, Except.mapError_eq_ok.mpr hposition,
      Except.bind_eq_ok.mpr ⟨_, Flow.send_of_unreached (hd 2) rfl, rfl⟩⟩
  have finish : Flow.visit course 2 ⟨⟨2⟩, .plain Opcode.returnVoid⟩ ⟨[], []⟩
      ⟨frames, [], #[false, false, false], 0⟩ =
      .ok ⟨frames, [], #[false, false, false], 0⟩ :=
    Flow.visit_eq_ok.mpr ⟨⟨[], []⟩, _, _, Scene.execute_plain rfl Opcode.effect?_returnVoid,
      rfl, rfl, rfl⟩
  have hsettle (fuel : Nat) : Flow.settle course (fuel + 2)
      ⟨#[some ⟨[], []⟩, none, none], [0], #[true, false, false], 0⟩ =
        .ok ⟨frames, [], #[false, false, false], 0⟩ := by
    refine (Flow.settle_of_visit jump rfl rfl (by rfl)).trans ?_
    refine (Flow.settle_of_visit finish rfl rfl (by rfl)).trans ?_
    exact Flow.settle_of_nil frames #[false, false, false] 0 fuel
  have hsend : (Flow.start 3).send course 0 0 ⟨[], []⟩ =
      .ok ⟨#[some ⟨[], []⟩, none, none], [0], #[true, false, false], 0⟩ :=
    Flow.send_of_unreached (hd 0) rfl
  have hentry : head.entryFrame = .ok ⟨[], []⟩ := by decide +kernel
  exact Body.analyze_of_settle rfl rfl (by decide) hentry hsend hsettle
    (Flow.le_budget (by decide)) (by simp) (by decide)

/-- The instruction that is skipped cannot be reached, and throws where it was. -/
theorem reaches_and_withoutDead_skipped :
    (body.steps.map (·.mark)).Nodup ∧
      body.analyze head Pool.empty .unknown = .ok ⟨frames, 0, 0⟩ ∧ ¬body.Reaches 1 ∧
      (body.withoutDead (Analysis.dead ⟨frames, 0, 0⟩)).steps[1]? =
        some ⟨⟨1⟩, .plain Opcode.athrow⟩ := by
  obtain ⟨hframes, -, -, hdead, -⟩ := Body.reaches_and_withoutDead nodup_marks analyze_eq
  have hskipped : ¬body.Reaches 1 := by
    rw [← hframes]
    rintro ⟨frame, hframe⟩
    nomatch hframe
  have hreached : body.Reaches 2 := (hframes 2).mp ⟨⟨[], []⟩, rfl⟩
  exact ⟨nodup_marks, analyze_eq, hskipped,
    (hdead 1 ⟨⟨1⟩, .plain Opcode.nop⟩ rfl hskipped).2 (.inr hreached)⟩

end Skip

end ClassGraft

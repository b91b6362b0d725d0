import ClassGraft.Proofs.Class.Refreshed
import ClassGraft.Proofs.Frame.Rerun
import Mathlib.Algebra.Order.Ring.Nat
import Mathlib.Order.Monotone.Basic
import Mathlib.Tactic.GCongr

/-!
# Analyzing a body again

A body whose dead code was replaced is analyzed to the same frames again (`Body.analyze_live`), also
after constants were added.  The instructions that are reached are where they were, and each of them
is covered once by the parts of a handler that covered it (`length_liveRuns`).
-/

namespace ClassGraft

/-! ### The budget -/

/-- The greatest of some numbers and a first one is bounded if all of them are. -/
theorem foldl_max_le {α : Type} {f : α → Nat} {items : List α} {first limit : Nat} :
    items.foldl (fun most item => max most (f item)) first ≤ limit ↔
      first ≤ limit ∧ ∀ item ∈ items, f item ≤ limit := by
  induction items generalizing first with
  | nil => simp
  | cons item rest ih => rw [List.foldl_cons, ih, List.forall_mem_cons, max_le_iff, and_assoc]

/-- The length of a text of the pool. -/
def textLength : Option Pool.Entry → Nat
  | some (.utf8 bytes) => bytes.length
  | _ => 0

theorem longest_eq : (fun (longest : Nat) (slot : Option Pool.Entry) =>
    match slot with
    | some (.utf8 bytes) => max longest bytes.length
    | _ => longest) = fun longest slot => max longest (textLength slot) := by
  funext longest slot
  unfold textLength
  split
  · rfl
  · exact (Nat.max_zero longest).symm

theorem Pool.Grows.mem_slots {pool later : Pool} (hg : pool.Grows later) {entry : Pool.Entry}
    (h : some entry ∈ pool.slots.toList) : some entry ∈ later.slots.toList := by
  obtain ⟨position, hp⟩ := List.mem_iff_getElem?.mp h
  rw [Array.getElem?_toList] at hp
  have hsize := pool.size_lt
  have hlt : position < pool.slots.size := (Array.getElem?_eq_some_iff.mp hp).1
  have hget := hg (UInt16.ofNat (position + 1)) entry
    (by rw [Pool.get_ofNat (by omega), hp]; rfl)
  rw [Pool.get_ofNat (by omega), Option.join_eq_some_iff, ← Array.getElem?_toList] at hget
  exact List.mem_of_getElem? hget

/-- The longest text of a pool only gets longer when constants are added. -/
theorem Pool.Grows.longest_le {pool later : Pool} (hg : pool.Grows later) (longest : Nat) :
    pool.slots.foldl (fun longest slot =>
      match slot with
      | some (.utf8 bytes) => max longest bytes.length
      | _ => longest) longest ≤
    later.slots.foldl (fun longest slot =>
      match slot with
      | some (.utf8 bytes) => max longest bytes.length
      | _ => longest) longest := by
  rw [longest_eq, ← Array.foldl_toList, ← Array.foldl_toList, foldl_max_le]
  obtain ⟨hl, hall⟩ := foldl_max_le.mp (le_refl _)
  refine ⟨hl, fun slot hslot => ?_⟩
  cases slot with
  | none => exact Nat.zero_le _
  | some entry => exact hall _ (hg.mem_slots hslot)

theorem monotone_typeLength (type : FrameType) : Monotone fun longest : Nat =>
    match type with
    | FrameType.object name => max longest name.length
    | _ => longest := by
  intro longest longest' hl
  cases type <;> simp only <;> omega

/-- The longest name in frames only gets longer when it starts out longer. -/
theorem monotone_longest (declared : List Frame) : Monotone fun longest =>
    declared.foldl (fun longest frame =>
      frame.stack.foldl (fun longest type =>
        match type with
        | FrameType.object name => max longest name.length
        | _ => longest) (frame.locals.foldl (fun longest type =>
        match type with
        | FrameType.object name => max longest name.length
        | _ => longest) longest)) longest :=
  List.foldl_monotone (fun frame : Frame =>
    (List.foldl_monotone monotone_typeLength frame.stack).comp
      (List.foldl_monotone monotone_typeLength frame.locals)) _

/-- The budget only gets larger when constants are added. -/
theorem Flow.budget_le_of_grows {first second : Scene} (hg : first.pool.Grows second.pool)
    (hhead : second.head = first.head) (hhierarchy : second.hierarchy = first.hierarchy)
    (hsize : second.steps.size = first.steps.size) (declared : List Frame) (slots : Nat) :
    Flow.budget first declared slots ≤ Flow.budget second declared slots := by
  have hlongest := monotone_longest declared (hg.longest_le
    (max first.head.thisClass.length first.head.descriptor.length))
  have hmono : ∀ {least most : Nat} (count known other chain : Nat), least ≤ most →
      count * (1 + (2 * count + slots) *
        (((max (max least known) other + 8) * chain + 1) * (chain + 1))) + 1 ≤
      count * (1 + (2 * count + slots) *
        (((max (max most known) other + 8) * chain + 1) * (chain + 1))) + 1 := by
    intro least most count known other chain hl
    gcongr
  unfold budget
  rw [hhead, hhierarchy, hsize]
  exact hmono _ _ _ _ hlongest

/-! ### Live parts of ranges -/

/-- The runs that contain an index. -/
def runsAt (runs : List (Nat × Nat)) (index : Nat) : List (Nat × Nat) :=
  runs.filter fun run => run.1 ≤ index ∧ index < run.2

/-- The cells of flags that are numbered from an index on. -/
def cellsFrom (flags : List Bool) (offset : Nat) : List (Nat × Bool) :=
  (flags.zipIdx offset).map fun (dead, i) => (i, dead)

theorem cellsFrom_cons (dead : Bool) (flags : List Bool) (offset : Nat) :
    cellsFrom (dead :: flags) offset = (offset, dead) :: cellsFrom flags (offset + 1) := rfl

/-- A run that is open after a live instruction started at that instruction or before. -/
theorem lt_succ_of_getD {offset : Nat} {start : Option Nat}
    (hs : ∀ first, start = some first → first < offset) :
    ∀ first, some (start.getD offset) = some first → first < offset + 1 := by
  intro first hf
  obtain rfl := Option.some.inj hf
  cases start with
  | none => exact Nat.lt_succ_self _
  | some other => exact Nat.lt_succ_of_lt (hs other rfl)

theorem runsAt_cons (run : Nat × Nat) (runs : List (Nat × Nat)) (index : Nat) :
    runsAt (run :: runs) index =
      (if run.1 ≤ index ∧ index < run.2 then [run] else []) ++ runsAt runs index := by
  unfold runsAt
  rw [List.filter_cons]
  split_ifs <;> simp_all

/-- The flag that comes first is that of the offset. -/
theorem getElem?_flag_cons (dead : Bool) (rest : List Bool) (offset index : Nat) :
    offset ≤ index ∧ (dead :: rest)[index - offset]? = some false ↔
      (index = offset ∧ dead = false) ∨
        (offset + 1 ≤ index ∧ rest[index - (offset + 1)]? = some false) := by
  rcases Nat.lt_trichotomy index offset with hlt | rfl | hgt
  · omega
  · simp
  · obtain ⟨i, rfl⟩ := Nat.exists_eq_add_of_lt hgt
    have hsub : offset + i + 1 - offset = i + 1 := by omega
    have hsub' : offset + i + 1 - (offset + 1) = i := by omega
    rw [hsub, hsub', List.getElem?_cons_succ]
    constructor
    · rintro ⟨-, h⟩
      exact .inr ⟨by omega, h⟩
    · rintro (⟨h, -⟩ | ⟨-, h⟩)
      · omega
      · exact ⟨by omega, h⟩

/-- An index that is not dead is in one of the runs, and any other one in none. -/
theorem length_runsAt (flags : List Bool) (offset : Nat) (start : Option Nat)
    (hs : ∀ first, start = some first → first < offset) (index : Nat) :
    (runsAt (liveRuns (cellsFrom flags offset) start (offset + flags.length)) index).length =
      if (∃ first, start = some first ∧ first ≤ index ∧ index < offset) ∨
        (offset ≤ index ∧ flags[index - offset]? = some false) then 1 else 0 := by
  -- `start` is where the run that is open at the offset began
  induction flags generalizing offset start with
  | nil =>
    cases start with
    | none => simp [cellsFrom, liveRuns, runsAt]
    | some first =>
      simp only [cellsFrom, liveRuns, runsAt, List.zipIdx_nil, List.map_nil, List.length_nil,
        Nat.add_zero, List.getElem?_nil, reduceCtorEq, and_false, or_false, Option.some.injEq,
        exists_eq_left', List.filter_cons, List.filter_nil]
      split_ifs <;> simp_all
  | cons dead rest ih =>
    rw [cellsFrom_cons, List.length_cons, Nat.add_comm rest.length, ← Nat.add_assoc]
    simp only [getElem?_flag_cons]
    cases dead with
    | true =>
      cases start with
      | none =>
        rw [liveRuns, ih (offset + 1) none (by simp)]
        simp
      | some first =>
        -- the open run ends here
        have hfirst := hs first rfl
        rw [liveRuns, runsAt_cons, List.length_append, ih (offset + 1) none (by simp)]
        by_cases hin : first ≤ index ∧ index < offset
        · have hnext : ¬offset + 1 ≤ index := by omega
          simp [hin, hnext]
        · simp [hin]
    | false =>
      rw [liveRuns, ih (offset + 1) (some (start.getD offset)) (lt_succ_of_getD hs)]
      refine if_congr ?_ rfl rfl
      cases start with
      | none =>
        have hat : offset ≤ index ∧ index < offset + 1 ↔ index = offset := by omega
        simp only [Option.getD_none, Option.some.injEq, exists_eq_left', hat, reduceCtorEq,
          false_and, exists_false, false_or, and_true]
      | some first =>
        have hfirst := hs first rfl
        have hat : first ≤ index ∧ index < offset + 1 ↔
            (first ≤ index ∧ index < offset) ∨ index = offset := by omega
        simp only [Option.getD_some, Option.some.injEq, exists_eq_left', hat, and_true, or_assoc]

/-- A run ends after it starts, and not after the last index. -/
theorem bounds_of_mem_liveRuns {flags : List Bool} {offset : Nat} {start : Option Nat}
    (hs : ∀ first, start = some first → first < offset) {run : Nat × Nat}
    (h : run ∈ liveRuns (cellsFrom flags offset) start (offset + flags.length)) :
    run.1 < run.2 ∧ run.2 ≤ offset + flags.length := by
  induction flags generalizing offset start with
  | nil =>
    cases start with
    | none => simp [cellsFrom, liveRuns] at h
    | some first =>
      obtain rfl := List.mem_singleton.mp h
      exact ⟨hs first rfl, Nat.le_refl _⟩
  | cons dead rest ih =>
    rw [cellsFrom_cons, List.length_cons, Nat.add_comm rest.length, ← Nat.add_assoc] at h
    rw [List.length_cons, Nat.add_comm rest.length, ← Nat.add_assoc]
    cases dead with
    | true =>
      cases start with
      | none => exact ih (by simp) h
      | some first =>
        rw [liveRuns] at h
        rcases List.mem_cons.mp h with rfl | h
        · exact ⟨hs first rfl, by dsimp only; omega⟩
        · exact ih (by simp) h
    | false => exact ih (lt_succ_of_getD hs) h

/-- The runs of live instructions in a range. -/
def runsIn (dead : List Bool) (start stop : Nat) : List (Nat × Nat) :=
  liveRuns (cellsFrom ((dead.take stop).drop start) start) none
    (start + ((dead.take stop).drop start).length)

theorem bounds_of_mem_runsIn {dead : List Bool} {start stop : Nat} {run : Nat × Nat}
    (h : run ∈ runsIn dead start stop) : run.1 < run.2 ∧ run.2 ≤ dead.length := by
  obtain ⟨hlt, hle⟩ := bounds_of_mem_liveRuns (by simp) h
  refine ⟨hlt, ?_⟩
  rw [List.length_drop, List.length_take] at hle
  by_cases hs : start ≤ min stop dead.length
  · omega
  · -- nothing is left of the range, so it has no runs
    have hnil : (dead.take stop).drop start = [] := by
      rw [List.drop_eq_nil_iff, List.length_take]
      omega
    rw [runsIn, hnil] at h
    simp [cellsFrom, liveRuns] at h

/-- An instruction that is not dead is in one run of each range it is in. -/
theorem length_runsAt_runsIn {dead : List Bool} {index : Nat} (hl : dead[index]? = some false)
    (start stop : Nat) : (runsAt (runsIn dead start stop) index).length =
      if start ≤ index ∧ index < stop then 1 else 0 := by
  rw [runsIn, length_runsAt _ _ _ (by simp)]
  refine if_congr ?_ rfl rfl
  constructor
  · rintro (⟨first, hf, -⟩ | ⟨hs, hflag⟩)
    · simp at hf
    · rw [List.getElem?_drop, Nat.add_sub_cancel' hs] at hflag
      refine ⟨hs, ?_⟩
      by_contra hlt
      rw [List.getElem?_take_eq_none (Nat.le_of_not_lt hlt)] at hflag
      simp at hflag
  · rintro ⟨hs, hlt⟩
    refine .inr ⟨hs, ?_⟩
    rw [List.getElem?_drop, Nat.add_sub_cancel' hs, List.getElem?_take_of_lt hlt]
    exact hl

namespace Body

variable {body : Body}

/-- Where all marks are distinct, an instruction is found where the table has it. -/
theorem position?_of_positions (hn : (body.steps.map (·.mark)).Nodup) {mark : Mark} {index : Nat}
    (h : body.positions[mark]? = some index) : body.position? mark = some index := by
  obtain ⟨step, hstep, rfl⟩ := of_getElem?_positions h
  obtain ⟨hlt, hat⟩ := List.getElem?_eq_some_iff.mp hstep
  refine List.findIdx?_eq_some_iff_getElem.mpr ⟨hlt, by rw [hat]; exact beq_self_eq_true _, ?_⟩
  intro i hi heq
  have hmark : (body.steps.map (·.mark))[i]? = (body.steps.map (·.mark))[index]? := by
    rw [List.getElem?_map, List.getElem?_map, List.getElem?_eq_getElem (hi.trans hlt), hstep]
    exact congrArg some (eq_of_beq heq)
  have hlength : i < (body.steps.map (·.mark)).length := by
    rw [List.length_map]
    exact hi.trans hlt
  exact absurd ((List.getElem?_inj hlength hn).mp hmark) (Nat.ne_of_lt hi)

/-- A handler with a range is found to start and stop where the range does. -/
theorem places_of_isRangeOf (hn : (body.steps.map (·.mark)).Nodup) {scene : Scene}
    (hp : scene.positions = body.positions) (hs : scene.steps.size = body.steps.length)
    {handler : Handler} {range : HandlerRange} (h : IsRangeOf scene handler range) :
    body.position? handler.start = some range.start ∧
      body.indexOf? handler.stop = some range.stop ∧ range.stop ≤ body.steps.length := by
  have hfind {mark : Mark} {index : Nat} (hm : scene.position mark = .ok index) :
      body.position? mark = some index :=
    position?_of_positions hn (hp ▸ Scene.position_eq_ok.mp hm)
  have hplace := h.stop
  refine ⟨hfind h.start, ?_⟩
  cases hat : handler.stop with
  | «at» mark =>
    rw [hat] at hplace
    obtain ⟨step, hstep, -⟩ := of_getElem?_positions (hp ▸ Scene.position_eq_ok.mp hplace)
    exact ⟨hfind hplace, Nat.le_of_lt (List.getElem?_eq_some_iff.mp hstep).1⟩
  | finish =>
    rw [hat, hs] at hplace
    rw [hplace]
    exact ⟨rfl, Nat.le_refl _⟩

/-- The part of a handler that covers a run. -/
def partOf (body : Body) (handler : Handler) (run : Nat × Nat) : Option Handler :=
  (body.steps[run.1]?).map fun step =>
    { handler with
      start := step.mark
      stop := match body.steps[run.2]? with
        | some next => .at next.mark
        | none => .finish }

/-- The live parts of a handler are those of the runs in its range. -/
theorem liveParts_eq (hn : (body.steps.map (·.mark)).Nodup) {scene : Scene}
    (hp : scene.positions = body.positions) (hs : scene.steps.size = body.steps.length)
    {dead : List Bool} (hd : dead.length = body.steps.length) {handler : Handler}
    {range : HandlerRange} (h : IsRangeOf scene handler range) :
    body.liveParts dead handler =
      (runsIn dead range.start range.stop).filterMap (body.partOf handler) := by
  obtain ⟨hstart, hstop, hle⟩ := places_of_isRangeOf hn hp hs h
  rw [← hd] at hle
  unfold liveParts
  rw [hstart, hstop]
  dsimp only
  -- The source numbers the cells from the start of the range; so do the runs.
  have hcells : ((dead.take range.stop).drop range.start).zipIdx.map
      (fun (dead, i) => (range.start + i, dead)) =
        cellsFrom ((dead.take range.stop).drop range.start) range.start := by
    rw [cellsFrom, List.zipIdx_eq_map_add (i := range.start), List.map_map]
    rfl
  have hruns : liveRuns (cellsFrom ((dead.take range.stop).drop range.start) range.start) none
      range.stop = runsIn dead range.start range.stop := by
    unfold runsIn
    by_cases hlt : range.start ≤ range.stop
    · congr 1
      rw [List.length_drop, List.length_take]
      omega
    · -- a range that stops before it starts has no runs
      have hnil : (dead.take range.stop).drop range.start = [] := by
        rw [List.drop_eq_nil_iff, List.length_take]
        omega
      rw [hnil]
      rfl
  rw [hcells, hruns]
  rfl

/-- A handler catches the same class where constants were added. -/
theorem IsRangeOf.caught_of_grows {scene : Scene} {pool : Pool} {handler : Handler}
    {range : HandlerRange} (h : IsRangeOf scene handler range) (hg : scene.pool.Grows pool) :
    if handler.catchType = 0 then range.caught = throwableName
    else pool.className handler.catchType = some range.caught := by
  have hcaught := h.caught
  split_ifs at hcaught ⊢
  · exact hcaught
  · exact hg.className hcaught

/-- A handler has the same range where instructions are found at the same places and constants were
added. -/
theorem IsRangeOf.of_grows {scene later : Scene} {handler : Handler} {range : HandlerRange}
    (h : IsRangeOf scene handler range) (hp : later.positions = scene.positions)
    (hs : later.steps.size = scene.steps.size) (hg : scene.pool.Grows later.pool) :
    IsRangeOf later handler range := by
  have hposition : ∀ mark, later.position mark = scene.position mark := by
    intro mark
    unfold Scene.position
    rw [hp]
  refine ⟨(hposition _).trans h.start, ?_, (hposition _).trans h.entry, h.caught_of_grows hg⟩
  have hstop := h.stop
  cases hplace : handler.stop with
  | «at» mark =>
    rw [hplace] at hstop
    exact (hposition mark).trans hstop
  | finish =>
    rw [hplace] at hstop
    exact hstop.trans hs.symm

/-- Each part of a handler has the range of its run, in a scene with the same marks. -/
theorem isRangeOf_partOf (hn : (body.steps.map (·.mark)).Nodup) {scene later : Scene}
    (hp : later.positions = body.positions) (hs : later.steps.size = body.steps.length)
    (hpositions : scene.positions = body.positions) (hg : scene.pool.Grows later.pool)
    {handler : Handler} {range : HandlerRange} (h : IsRangeOf scene handler range)
    {run : Nat × Nat} (hrun : run.1 < run.2 ∧ run.2 ≤ body.steps.length) :
    ∃ part, body.partOf handler run = some part ∧
      IsRangeOf later part ⟨run.1, run.2, range.entry, range.caught⟩ := by
  have hfind : ∀ {index step}, body.steps[index]? = some step →
      later.position step.mark = .ok index := fun hstep =>
    Scene.position_eq_ok.mpr (hp ▸ getElem?_positions hn hstep)
  obtain ⟨step, hstep⟩ : ∃ step, body.steps[run.1]? = some step :=
    ⟨_, List.getElem?_eq_getElem (by omega)⟩
  refine ⟨_, by rw [partOf, hstep]; rfl, hfind hstep, ?_, ?_, ?_⟩
  · dsimp only
    cases hnext : body.steps[run.2]? with
    | none =>
      have := List.getElem?_eq_none_iff.mp hnext
      show run.2 = later.steps.size
      omega
    | some next => exact hfind hnext
  · refine Scene.position_eq_ok.mpr ?_
    rw [hp, ← hpositions]
    exact Scene.position_eq_ok.mp h.entry
  · exact h.caught_of_grows hg

/-- The parts of a handler at runs of a body have the ranges of these runs. -/
theorem isRangeOf_filterMap_partOf (hn : (body.steps.map (·.mark)).Nodup) {scene later : Scene}
    (hp : later.positions = body.positions) (hs : later.steps.size = body.steps.length)
    (hpositions : scene.positions = body.positions) (hg : scene.pool.Grows later.pool)
    {handler : Handler} {range : HandlerRange} (h : IsRangeOf scene handler range)
    {runs : List (Nat × Nat)} (hruns : ∀ run ∈ runs, run.1 < run.2 ∧ run.2 ≤ body.steps.length) :
    List.Forall₂ (IsRangeOf later) (runs.filterMap (body.partOf handler))
      (runs.map fun run => ⟨run.1, run.2, range.entry, range.caught⟩) := by
  induction runs with
  | nil => exact .nil
  | cons run rest ih =>
    obtain ⟨hrun, hrest⟩ := List.forall_mem_cons.mp hruns
    obtain ⟨part, hpart, hpartRange⟩ := isRangeOf_partOf hn hp hs hpositions hg h hrun
    rw [List.filterMap_cons_some hpart, List.map_cons]
    exact .cons hpartRange (ih hrest)

/-- The parts of the handlers have ranges again, which cover each instruction that is not dead as
the handlers did. -/
theorem exists_ranges_liveParts (hn : (body.steps.map (·.mark)).Nodup) {scene later : Scene}
    (hpositions : scene.positions = body.positions)
    (hsize : scene.steps.size = body.steps.length)
    (hp : later.positions = body.positions) (hs : later.steps.size = body.steps.length)
    (hg : scene.pool.Grows later.pool) {dead : List Bool} (hd : dead.length = body.steps.length)
    {handlers : List Handler} {ranges : List HandlerRange}
    (h : List.Forall₂ (IsRangeOf scene) handlers ranges) :
    ∃ parts, List.Forall₂ (IsRangeOf later) (handlers.flatMap (body.liveParts dead)) parts ∧
      ∀ index : Nat, dead[index]? = some false →
        (parts.filter fun range => range.start ≤ index ∧ index < range.stop).map
            (fun range => (range.entry, range.caught)) =
          (ranges.filter fun range => range.start ≤ index ∧ index < range.stop).map
            fun range => (range.entry, range.caught) := by
  induction h with
  | nil => exact ⟨[], .nil, fun _ _ => rfl⟩
  | @cons handler range handlers ranges hrange _ ih =>
    obtain ⟨parts, hparts, hcaught⟩ := ih
    let rangeOf (run : Nat × Nat) : HandlerRange := ⟨run.1, run.2, range.entry, range.caught⟩
    have hbounds : ∀ run ∈ runsIn dead range.start range.stop,
        run.1 < run.2 ∧ run.2 ≤ body.steps.length := fun run hrun => by
      rw [← hd]
      exact bounds_of_mem_runsIn hrun
    refine ⟨(runsIn dead range.start range.stop).map rangeOf ++ parts, ?_, fun index hl => ?_⟩
    · rw [List.flatMap_cons, liveParts_eq hn hpositions hsize hd hrange]
      exact List.rel_append (isRangeOf_filterMap_partOf hn hp hs hpositions hg hrange hbounds) hparts
    · -- the range and its runs catch the same, once or not at all
      have hruns : (((runsIn dead range.start range.stop).map rangeOf).filter
          fun range => range.start ≤ index ∧ index < range.stop).map
            (fun range => (range.entry, range.caught)) =
          List.replicate (runsAt (runsIn dead range.start range.stop) index).length
            (range.entry, range.caught) := by
        rw [List.filter_map, List.map_map]
        refine List.eq_replicate_iff.mpr ⟨by rw [List.length_map]; rfl, fun pair hpair => ?_⟩
        obtain ⟨run, -, rfl⟩ := List.mem_map.mp hpair
        rfl
      rw [List.filter_append, List.map_append, hruns, hcaught index hl,
        length_runsAt_runsIn hl, List.filter_cons]
      by_cases hin : range.start ≤ index ∧ index < range.stop
      · simp [hin]
      · simp [hin]

end Body

/-! ### The same analysis -/

/-- What is alive stays where it was. -/
theorem getElem?_buryDead {cells : List (Step × Bool)} {index : Nat} {step : Step}
    (h : cells[index]? = some (step, false)) : (buryDead cells)[index]? = some step := by
  induction cells using buryDead.induct generalizing index with
  | case1 => simp at h
  | case2 other rest ih =>
    rw [buryDead]
    cases index with
    | zero =>
      obtain rfl : other = step := by simpa using h
      rfl
    | succ index => exact ih h
  | case3 other rest ih =>
    rw [buryDead]
    cases index with
    | zero => simp at h
    | succ index => exact ih h

/-- An instruction with a frame is not dead. -/
theorem Analysis.dead_of_getElem? (analysis : Analysis) {index : Nat} {frame : Frame}
    (h : analysis.frames[index]? = some (some frame)) : analysis.dead[index]? = some false := by
  rw [dead, List.getElem?_map, Array.getElem?_toList, h]
  rfl

namespace Body

variable {body : Body} {head : MethodHead} {pool later : Pool} {hierarchy : Hierarchy}
  {analysis : Analysis}

/-- Where instructions are found only depends on their marks. -/
theorem positions_congr {other : Body}
    (h : other.steps.map (·.mark) = body.steps.map (·.mark)) :
    other.positions = body.positions := by
  have hmarks : ∀ body : Body, body.positions =
      (body.steps.map (·.mark)).zipIdx.foldl (fun found cell => found.insert cell.1 cell.2) ∅ := by
    intro body
    rw [List.zipIdx_map, List.foldl_map]
    rfl
  rw [hmarks, hmarks, h]

theorem declaredFrames_live (body : Body) (analysis : Analysis) :
    (body.live analysis).declaredFrames = body.declaredFrames := by
  unfold live
  dsimp only
  split_ifs
  · rfl
  · rfl

/-- What replaces dead code needs no locals. -/
theorem localSlots_live_le (h : body.analyze head pool hierarchy = .ok analysis) (entry : Frame)
    (declared : List Frame) :
    (body.live analysis).localSlots entry declared ≤ body.localSlots entry declared := by
  have hsteps : (body.live analysis).steps.foldl
      (fun slots step => max slots (slotsOf step.instruction)) entry.locals.length ≤
      body.steps.foldl (fun slots step => max slots (slotsOf step.instruction))
        entry.locals.length := by
    obtain ⟨hfirst, hall⟩ := foldl_max_le.mp (le_refl (body.steps.foldl
      (fun slots step => max slots (slotsOf step.instruction)) entry.locals.length))
    refine foldl_max_le.mpr ⟨hfirst, fun step hstep => ?_⟩
    rw [steps_live h] at hstep
    rcases mem_buryDead hstep with hlive | hnop | hthrow
    · exact hall step (List.of_mem_zip hlive).1
    · rw [hnop]
      exact Nat.zero_le _
    · rw [hthrow]
      exact Nat.zero_le _
  have hmono : Monotone fun slots : Nat =>
      declared.foldl (fun slots frame => max slots frame.locals.length) slots :=
    List.foldl_monotone (fun frame _ _ hl => max_le_max_right frame.locals.length hl) declared
  exact hmono hsteps

/-- The sizes of the body that is written are enough for what was found. -/
theorem maxStack_le_live (body : Body) (analysis : Analysis) :
    analysis.maxStack ≤ (body.live analysis).maxStack := by
  unfold live
  dsimp only
  split_ifs
  · show analysis.maxStack ≤ if analysis.maxStack ≤ 1 then 1 else analysis.maxStack
    split_ifs with hle
    · exact hle
    · exact UInt16.le_refl _
  · exact UInt16.le_refl _

/-- The body that is written has ranges again. -/
theorem exists_ranges_live (hn : (body.steps.map (·.mark)).Nodup)
    (h : body.analyze head pool hierarchy = .ok analysis) (scene later : Scene)
    (hpositions : scene.positions = body.positions)
    (hsize : scene.steps.size = body.steps.length)
    (hp : later.positions = body.positions) (hs : later.steps.size = body.steps.length)
    (hg : scene.pool.Grows later.pool) {ranges : List HandlerRange}
    (hr : body.handlerRanges scene = .ok ranges) :
    ∃ parts, (body.live analysis).handlerRanges later = .ok parts ∧
      ∀ index : Nat, analysis.dead[index]? = some false →
        (parts.filter fun range => range.start ≤ index ∧ index < range.stop).map
            (fun range => (range.entry, range.caught)) =
          (ranges.filter fun range => range.start ≤ index ∧ index < range.stop).map
            fun range => (range.entry, range.caught) := by
  have hranges := handlerRanges_eq_ok.mp hr
  by_cases hdead : analysis.hasDeadCode
  · obtain ⟨parts, hparts, hcaught⟩ :=
      exists_ranges_liveParts hn hpositions hsize hp hs hg (length_dead h) hranges
    refine ⟨parts, handlerRanges_eq_ok.mpr ?_, hcaught⟩
    have hhandlers : (body.live analysis).handlers =
        body.handlers.flatMap (body.liveParts analysis.dead) := by
      unfold live
      rw [if_pos hdead]
      rfl
    rw [hhandlers]
    exact hparts
  · refine ⟨ranges, handlerRanges_eq_ok.mpr ?_, fun _ _ => rfl⟩
    have hhandlers : (body.live analysis).handlers = body.handlers := by
      unfold live
      rw [if_neg hdead]
    rw [hhandlers]
    exact hranges.imp fun _ _ hrange =>
      hrange.of_grows (hp.trans hpositions.symm) (hs.trans hsize.symm) hg

/-- What is known of the types in frames: the object that an instruction makes is made by one that
is reached. -/
def IsMadeLive (body : Body) (live : Nat → Prop) : FrameType → Prop
  | .uninitialized mark => ∃ index, body.positions[mark]? = some index ∧ live index
  | _ => True

theorem isMadeLive_of_isInitialized {live : Nat → Prop} {type : FrameType}
    (h : type.isInitialized = true) : body.IsMadeLive live type := by
  cases type <;> trivial

/-- The first frame has no objects that instructions make. -/
theorem holds_entryFrame {live : Nat → Prop} {entry : Frame} (h : head.entryFrame = .ok entry) :
    entry.Holds (body.IsMadeLive live) := by
  refine ⟨fun type ht => ?_, fun type ht => ?_⟩
  · have hne := MethodHead.ne_uninitialized h ht
    cases type with
    | uninitialized mark => exact absurd rfl (hne mark)
    | _ => trivial
  · rw [MethodHead.stack_entryFrame h] at ht
    simp at ht

theorem length_steps_live (h : body.analyze head pool hierarchy = .ok analysis) :
    (body.live analysis).steps.length = body.steps.length := by
  have hmarks := congrArg List.length (map_mark_live h)
  simpa only [List.length_map] using hmarks

/-- The course of the body that is written agrees with that of the body on what is reached. -/
theorem agrees_live (hn : (body.steps.map (·.mark)).Nodup)
    (h : body.analyze head pool hierarchy = .ok analysis) (hg : pool.Grows later)
    (declared : Std.HashMap Nat Frame) {ranges : List HandlerRange}
    (hr : body.handlerRanges ⟨pool, hierarchy, head, body.steps.toArray, body.positions⟩ =
      .ok ranges) :
    ∃ parts,
      let live : Body := body.live analysis
      let scene : Scene := ⟨later, hierarchy, head, live.steps.toArray, live.positions⟩
      live.handlerRanges scene = .ok parts ∧
        Course.Agrees
          ⟨⟨pool, hierarchy, head, body.steps.toArray, body.positions⟩, ranges, declared⟩
          ⟨scene, parts, declared⟩ fun index => analysis.dead[index]? = some false := by
  have hpositions := positions_congr (map_mark_live h)
  have hlength := length_steps_live h
  obtain ⟨parts, hparts, hcaught⟩ := exists_ranges_live hn h
    ⟨pool, hierarchy, head, body.steps.toArray, body.positions⟩
    ⟨later, hierarchy, head, (body.live analysis).steps.toArray, (body.live analysis).positions⟩
    rfl List.size_toArray hpositions (List.size_toArray.trans hlength) hg hr
  refine ⟨parts, hparts, rfl, rfl, hpositions, ?_, fun index hl => ?_, hcaught⟩
  · exact List.size_toArray.trans (hlength.trans List.size_toArray.symm)
  · have hlt : index < body.steps.length := by
      rw [← length_dead h]
      exact (List.getElem?_eq_some_iff.mp hl).1
    have hlive : (buryDead (body.steps.zip analysis.dead))[index]? = some body.steps[index] := by
      refine getElem?_buryDead ?_
      rw [List.getElem?_zip_eq_some]
      exact ⟨List.getElem?_eq_getElem hlt, hl⟩
    show (body.live analysis).steps.toArray[index]? = body.steps.toArray[index]?
    rw [List.getElem?_toArray, List.getElem?_toArray, steps_live h, hlive,
      List.getElem?_eq_getElem hlt]

/-- An instruction that can be executed on the frames that are held can be so where dead code was
replaced and constants were added: objects that are made are made by instructions that are
reached. -/
theorem execute_live {first second : Course} {live : Nat → Prop} (ha : first.Agrees second live)
    (hp : first.scene.positions = body.positions) (hg : first.scene.pool.Grows second.scene.pool)
    (hh : second.scene.head = first.scene.head) {step : Step} {before after : Frame}
    (hb : before.Holds (body.IsMadeLive live))
    (h : first.scene.execute step before = .ok after) :
    second.scene.execute step before = .ok after := by
  refine Scene.execute_of_grows hg hh (fun type ht name hname => ?_) h
  unfold Scene.constructed at hname ⊢
  cases type with
  | uninitializedThis =>
    rw [hh]
    exact hname
  | uninitialized mark =>
    obtain ⟨index, hindex, hl⟩ := hb.stack _ ht
    have hposition : first.scene.position mark = .ok index :=
      Scene.position_eq_ok.mpr (hp ▸ hindex)
    have hposition' : second.scene.position mark = .ok index :=
      Scene.position_eq_ok.mpr (ha.positions ▸ hp ▸ hindex)
    obtain ⟨found, hfound, hname⟩ := Except.bind_eq_ok.mp hname
    obtain rfl := Except.ok.inj (hposition.symm.trans hfound)
    refine Except.bind_eq_ok.mpr ⟨index, hposition', ?_⟩
    rw [ha.steps index hl]
    split at hname
    · exact hg.requireClass hname
    · simp at hname
  | _ => exact hname

/-- What an instruction that is reached sends has only objects that live instructions make. -/
theorem holds_of_edge (hn : (body.steps.map (·.mark)).Nodup) {course : Course}
    {live : Nat → Prop} {index target : Nat} (hl : live index) {step : Step}
    (hstep : body.steps[index]? = some step) {before after sent : Frame}
    (hb : before.Holds (body.IsMadeLive live))
    (hexecute : course.scene.execute step before = .ok after)
    (hedge : course.Edge index step before after target sent) :
    sent.Holds (body.IsMadeLive live) := by
  have hafter : after.Holds (body.IsMadeLive live) :=
    Frame.holds_of_changes (fun _ => isMadeLive_of_isInitialized) hb
      (fun _ _ => ⟨index, getElem?_positions hn hstep, hl⟩) (Scene.changes_of_execute hexecute)
  have hcatching : ∀ {frame : Frame} (name : Bytes), frame.Holds (body.IsMadeLive live) →
      (Frame.catching frame.locals name).Holds (body.IsMadeLive live) := by
    intro frame name hf
    refine ⟨hf.locals, fun type ht => ?_⟩
    obtain rfl := List.mem_singleton.mp ht
    trivial
  cases hedge with
  | jump => exact hafter
  | next => exact hafter
  | thrownBefore => exact hcatching _ hb
  | thrownAfter => exact hcatching _ hafter

/-- A body whose dead code was replaced is analyzed to the same frames, also with more constants. -/
theorem analyze_live (hn : (body.steps.map (·.mark)).Nodup) (hg : pool.Grows later)
    (h : body.analyze head pool hierarchy = .ok analysis) :
    ∃ again, (body.live analysis).analyze head later hierarchy = .ok again ∧
      again.frames = analysis.frames ∧ again.maxStack = analysis.maxStack ∧
      again.maxLocals ≤ analysis.maxLocals := by
  obtain ⟨hne, entry, frames, handlers, first, last, hentry, hframes, hhandlers, hfirst, hlast,
    hheight, hslots, hanalysis⟩ := analyze_eq_ok.mp h
  have hpositions := positions_congr (map_mark_live h)
  have hlength := length_steps_live h
  have hdeclared : (body.live analysis).declaredFramesFrom entry = .ok frames := by
    rw [declaredFramesFrom, declaredFrames_live]
    exact hframes
  obtain ⟨parts, hparts, hagrees⟩ := agrees_live hn h hg
    (framesByIndex body.positions frames) hhandlers
  have hlive : ∀ index, last.frameAt? index ≠ none → analysis.dead[index]? = some false := by
    intro index hheld
    obtain ⟨held, hheld⟩ := Option.ne_none_iff_exists'.mp hheld
    refine @analysis.dead_of_getElem? index held ?_
    rw [← hanalysis]
    exact Flow.frameAt?_eq_some.mp hheld
  -- the frames on the way only have objects that live instructions make
  have hkept := @Flow.isKept_holds
    ⟨⟨pool, hierarchy, head, body.steps.toArray, body.positions⟩, handlers,
      framesByIndex body.positions frames⟩
    (body.IsMadeLive fun index => analysis.dead[index]? = some false)
    fun type => isMadeLive_of_isInitialized
  have hfirstHolds := Flow.kept_send hkept (fun index held hheld => by
    have hnone := Flow.frameAt?_start body.steps.length index
    rw [Flow.frameAt?_eq_some.mpr hheld] at hnone
    simp at hnone) (holds_entryFrame hentry) hfirst
  have hlast' := Flow.settle_agrees hagrees hkept
    (fun frames index step before after target sent hp hl hstep hheld hexecute hedge =>
      holds_of_edge hn hl (by simpa using hstep) (hp index before hheld) hexecute hedge)
    (fun frames index step before after hp hl hstep hheld hexecute =>
      execute_live hagrees rfl hg rfl (hp index before hheld) hexecute)
    hfirstHolds hlive hlast
  have hbudget := @Flow.budget_le_of_grows
    ⟨pool, hierarchy, head, body.steps.toArray, body.positions⟩
    ⟨later, hierarchy, head, (body.live analysis).steps.toArray, (body.live analysis).positions⟩
    hg rfl rfl hagrees.size (framesByIndex body.positions frames).values
    (Flow.slotLimit entry (framesByIndex body.positions frames).values)
  have hfewer := localSlots_live_le h entry (framesByIndex body.positions frames).values
  have hne' : (body.live analysis).steps ≠ [] := by
    intro hnil
    rw [hnil] at hlength
    exact hne (List.eq_nil_of_length_eq_zero hlength.symm)
  have hsend := (Flow.send_agrees hagrees 0 0 entry (Flow.start body.steps.length)).trans hfirst
  refine ⟨⟨last.frames, UInt16.ofNat last.height, UInt16.ofNat ((body.live analysis).localSlots
    entry (framesByIndex body.positions frames).values)⟩, analyze_eq_ok.mpr ⟨hne', entry, frames,
    parts, first, last, hentry, hdeclared, hparts, ?_⟩, ?_, ?_, ?_⟩
  · rw [hpositions] at hsend hlast' hbudget ⊢
    rw [hlength]
    exact ⟨hsend, Flow.settle_of_le hlast' hbudget, hheight, hfewer.trans hslots, rfl⟩
  · rw [← hanalysis]
  · rw [← hanalysis]
  · have hlt : ∀ {slots : Nat}, slots ≤ 65535 → (UInt16.ofNat slots).toNat = slots := fun hs =>
      UInt16.toNat_ofNat_of_lt' (Nat.lt_succ_of_le hs)
    have hlocals : UInt16.ofNat
        (body.localSlots entry (framesByIndex body.positions frames).values) =
          analysis.maxLocals := by rw [← hanalysis]
    rw [← hlocals, UInt16.le_iff_toNat_le, hlt (hfewer.trans hslots), hlt hslots]
    exact hfewer

end Body

end ClassGraft

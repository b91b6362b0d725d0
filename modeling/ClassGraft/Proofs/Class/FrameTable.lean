import ClassGraft.Proofs.Class.Refreshed
import ClassGraft.Proofs.Frame.Executed
import ClassGraft.Proofs.Frame.Needs

/-!
# The table of frames of a refreshed body

The table that is written with a body is read back, by the reader of the code, as the frames that
the analysis found (`Layout.FramesAgree`).  It has a frame wherever the code needs one as it is
written, which is not quite where the steps need one: a jump with a bypass is two jumps there.
-/

namespace ClassGraft

open Reader

/-! ### Where code needs frames -/

namespace Layout

/-- The offsets at which code that is read needs frames: targets of its jumps, what follows an
instruction that never goes on, and entries of handlers. -/
inductive NeedsFrame (layout : Layout) (handlers : List Handler)
    (rows : List (Nat × Instruction Nat)) : Nat → Prop
  | target {row : Nat × Instruction Nat} {offset : Nat} (hr : row ∈ rows)
      (ht : offset ∈ row.2.targets) : NeedsFrame layout handlers rows offset
  | next {i : Nat} {row next : Nat × Instruction Nat} (hr : rows[i]? = some row)
      (hf : row.2.fallsThrough = false) (hn : rows[i + 1]? = some next) :
      NeedsFrame layout handlers rows next.1
  | entry {handler : Handler} {offset : Nat} (hh : handler ∈ handlers)
      (ho : layout.offset handler.entry = .ok offset) : NeedsFrame layout handlers rows offset

variable {placed : Std.HashMap Mark Nat} {steps : List Step}
  {rows : List (Nat × Instruction Nat)} {landings : List Mark}

/-- The steps stand in order. -/
theorem Rows.sublist (h : Rows placed steps rows landings) :
    (steps.map fun step => placeOf placed step.mark).Sublist (rows.map (·.1)) := by
  induction h with
  | nil => exact .slnil
  | same ho _ _ ih =>
    rw [List.map_cons, List.map_cons, placeOf_of_eq_some ho]
    exact .cons_cons _ ih
  | bypass ho _ _ _ ih =>
    rw [List.map_cons, List.map_cons, List.map_cons, placeOf_of_eq_some ho]
    exact .cons_cons _ (.cons _ ih)

/-- What is read first stands where the first step does. -/
theorem Rows.head {step : Step} (h : Rows placed (step :: steps) rows landings) :
    ∃ row, rows[0]? = some row ∧ placed[step.mark]? = some row.1 := by
  cases h with
  | same ho => exact ⟨_, rfl, ho⟩
  | bypass ho => exact ⟨_, rfl, ho⟩

/-- What follows an instruction that never goes on is a step after such a step, or one past a
bypass. -/
theorem Rows.exists_of_stopped (h : Rows placed steps rows landings) {i : Nat}
    {row next : Nat × Instruction Nat} (hrow : rows[i]? = some row)
    (hf : row.2.fallsThrough = false) (hnext : rows[i + 1]? = some next) :
    ∃ mark : Mark, placed[mark]? = some next.1 ∧ ((∃ (k : Nat) (step other : Step),
      steps[k]? = some step ∧ step.instruction.fallsThrough = false ∧
      steps[k + 1]? = some other ∧ other.mark = mark) ∨ mark ∈ landings) := by
  induction h generalizing i with
  | nil => simp at hrow
  | @same step steps rows landings origin ho ht h ih =>
    cases i with
    | zero =>
      obtain rfl := Option.some.inj hrow
      cases steps with
      | nil =>
        cases h
        simp at hnext
      | cons other steps =>
        obtain ⟨first, hfirst, hp⟩ := h.head
        obtain rfl := Option.some.inj (hfirst.symm.trans hnext)
        refine ⟨other.mark, hp, .inl ⟨0, step, other, rfl, ?_, rfl, rfl⟩⟩
        exact (Instruction.fallsThrough_mapTargets _ _).symm.trans hf
    | succ i =>
      obtain ⟨mark, hp, hmark⟩ := ih hrow hnext
      refine ⟨mark, hp, hmark.imp_left ?_⟩
      rintro ⟨k, step, other, hstep, hstop, hother, he⟩
      exact ⟨k + 1, step, other, hstep, hstop, hother, he⟩
  | @bypass mark target op inverse after steps rows landings origin ho hi ht h ih =>
    match i with
    | 0 =>
      -- the jump over the long one goes on
      obtain rfl := Option.some.inj hrow
      obtain ⟨-, hgoes, -⟩ := Opcode.isJump_of_inverse? hi
      rw [Instruction.fallsThrough, Instruction.opcode, hgoes] at hf
      simp at hf
    | 1 =>
      -- what follows the long jump is the next step, which the jump over it leads to
      obtain ⟨first, hfirst, hp⟩ := h.head
      obtain rfl := Option.some.inj (hfirst.symm.trans hnext)
      exact ⟨after.mark, hp, .inr List.mem_cons_self⟩
    | i + 2 =>
      obtain ⟨mark, hp, hmark⟩ := ih hrow hnext
      refine ⟨mark, hp, hmark.imp ?_ (List.mem_cons_of_mem _)⟩
      rintro ⟨k, step, other, hstep, hstop, hother, he⟩
      exact ⟨k + 1, step, other, hstep, hstop, hother, he⟩

/-! ### Frames that are read -/

variable (layout : Layout) (rows : List (Nat × Instruction Nat))

/-- Whether frames that were read are those that were found for a body, in the code that was read:
the frame of every instruction that needs one, whose types name the same instructions, and one
wherever the code needs one. -/
structure FramesAgree (live : Body) (found : Array (Option Frame)) (frames : List (Mark × Frame)) :
    Prop where
  shows : ∃ instructions,
    rows.mapM (fun row => (layout.starts rows).resolve row.2) = .ok instructions ∧
    Shows layout.placed (layout.number rows) 0 live.steps ((rows.map (·.1)).zip instructions)
      layout.landings
  agree : List.Forall₂ (fun index row => ∃ step frame, live.steps[index]? = some step ∧
      found[index]? = some (some frame) ∧
      row = (layout.number rows step.mark, frame.declared (layout.number rows)))
    (live.needsFrame layout.landings) frames
  named : ∀ index ∈ live.needsFrame layout.landings, ∀ frame mark,
    found[index]? = some (some frame) → .uninitialized mark ∈ frame.locals ++ frame.stack →
      ∃ step ∈ live.steps, step.mark = mark
  covers : ∀ offset, layout.NeedsFrame live.handlers rows offset →
    ∃ mark frame, (layout.starts rows).mark? offset = some mark ∧ (mark, frame) ∈ frames

variable {layout rows}

theorem IsReadAs.isNumbered {base : Nat} (h : layout.IsReadAs base steps rows) :
    layout.IsNumbered (layout.starts rows) (layout.number rows) := by
  intro mark position hp
  obtain ⟨found, hfound⟩ := h.exists_mark? hp
  refine ⟨Nat.lt_succ_of_le (h.bounded mark position hp), ?_⟩
  rw [hfound, number, placeOf_of_eq_some hp, Starts.markOf, hfound]
  rfl

/-- Steps in their order stand at ascending positions. -/
theorem IsReadAs.pairwise {base : Nat} (h : layout.IsReadAs base steps rows) :
    steps.Pairwise fun step other =>
      placeOf layout.placed step.mark < placeOf layout.placed other.mark :=
  List.pairwise_map.mp (h.reads.pairwise.1.sublist h.rows.sublist)

/-- Wherever code that was read needs a frame there is a step that gets one. -/
theorem IsReadAs.exists_needed {base : Nat} {live : Body}
    (h : layout.IsReadAs base live.steps rows) (hn : (live.steps.map (·.mark)).Nodup) {offset : Nat}
    (ho : layout.NeedsFrame live.handlers rows offset) : ∃ index step,
      live.steps[index]? = some step ∧ layout.placed[step.mark]? = some offset ∧
      index ∈ live.needsFrame layout.landings := by
  -- what something jumps to is the mark of a step
  have hjumped : ∀ mark : Mark, layout.placed[mark]? = some offset →
      ((∃ other ∈ live.steps, mark ∈ other.instruction.targets) ∨
        (∃ handler ∈ live.handlers, handler.entry = mark) ∨ mark ∈ layout.landings) →
      ∃ index step, live.steps[index]? = some step ∧ layout.placed[step.mark]? = some offset ∧
        index ∈ live.needsFrame layout.landings := by
    intro mark hp hmark
    obtain ⟨step, hstep, rfl⟩ := h.marks mark offset hp
    obtain ⟨index, hindex⟩ := List.mem_iff_getElem?.mp hstep
    exact ⟨index, step, hindex, hp, Body.mem_needsFrame_of_jumped hn hindex hmark⟩
  cases ho with
  | target hr ht =>
    obtain ⟨mark, hp, hmark⟩ := h.rows.exists_of_target hr ht
    exact hjumped mark hp (hmark.imp_right .inr)
  | entry hh ho => exact hjumped _ (offset_eq_ok.mp ho) (.inr (.inl ⟨_, hh, rfl⟩))
  | next hr hf hnext =>
    obtain ⟨mark, hp, ⟨k, step, other, hstep, hstop, hother, rfl⟩ | hmark⟩ :=
      h.rows.exists_of_stopped hr hf hnext
    · exact ⟨k + 1, other, hother, hp, Body.mem_needsFrame_of_stopped hstep hstop
        (List.getElem?_eq_some_iff.mp hother).1⟩
    · exact hjumped mark hp (.inr (.inr hmark))

end Layout

/-! ### The table of a body -/

namespace FrameType

theorem mem_collapse_of_mem {type : FrameType} {slots : List FrameType} (hp : Paired slots)
    (h : type ∈ slots) (ht : type ≠ top) : type ∈ collapse slots := by
  rw [← expand_collapse hp] at h
  exact (mem_expand h).resolve_right ht

end FrameType

/-- Tables list every type of a frame that is not unusable. -/
theorem Frame.mem_listed {frame : Frame} (hp : frame.IsPaired) {type : FrameType}
    (h : type ∈ frame.locals ++ frame.stack) (ht : type ≠ .top) :
    type ∈ frame.listedLocals ++ frame.listedStack := by
  rcases List.mem_append.mp h with h | h
  · exact List.mem_append_left _ (FrameType.mem_collapse_of_mem (FrameType.paired_trim hp.locals)
      (FrameType.mem_trim_of_mem h ht) ht)
  · exact List.mem_append_right _
      (FrameType.mem_collapse_of_mem hp.stack (List.mem_reverse.mpr h) ht)

/-- So other marks do not matter to the first frame. -/
theorem MethodHead.rename_entryFrame {head : MethodHead} {entry : Frame}
    (h : head.entryFrame = .ok entry) (number : Mark → Mark) :
    entry.listedLocals.map (FrameType.rename number) = entry.listedLocals := by
  refine (List.map_congr_left fun type ht => ?_).trans (List.map_id _)
  have hne := ne_uninitialized h
    (FrameType.mem_of_mem_trim (FrameType.mem_of_mem_collapse ht))
  cases type with
  | uninitialized mark => exact absurd rfl (hne mark)
  | _ => rfl

/-- The attribute holds the table, and its name is among the constants. -/
theorem Body.frameAttribute_spec {body : Body} {frames : Array (Option Frame)} {entry : Frame}
    {layout : Layout} {pool later : Pool} {table : Option RawAttribute}
    (h : body.frameAttribute frames entry layout pool = (.ok table, later)) :
    ∃ between, body.frameTable frames entry layout pool = (.ok (table.map (·.info)), between) ∧
      between.Grows later := by
  obtain ⟨info, between, hinfo, h⟩ := ExceptT.bind_eq_ok.mp h
  cases info with
  | none =>
    obtain ⟨rfl, rfl⟩ := ExceptT.pure_eq_ok.mp h
    exact ⟨between, hinfo, .refl between⟩
  | some info =>
    cases hold : body.attributes.findSome? BodyAttribute.frames? with
    | some old =>
      simp only [hold] at h
      obtain ⟨rfl, rfl⟩ := ExceptT.pure_eq_ok.mp h
      exact ⟨between, hinfo, .refl between⟩
    | none =>
      simp only [hold] at h
      obtain ⟨name, last, hname, h⟩ := ExceptT.bind_eq_ok.mp h
      obtain ⟨rfl, rfl⟩ := ExceptT.pure_eq_ok.mp h
      exact ⟨between, hinfo, (Interning.utf8Bytes_spec hname).1.grows⟩

/-- What is written for a body is read back as the frames that were found for it. -/
theorem Layout.IsReadAs.exists_framesAgree {base : Nat} {head : MethodHead} {live : Body}
    {found : Array (Option Frame)} {entry : Frame} {layout : Layout} {pool later : Pool}
    {table : Option RawAttribute} {rows : List (Nat × Instruction Nat)}
    (h : layout.IsReadAs base live.steps rows) (hn : (live.steps.map (·.mark)).Nodup)
    (hentry : head.entryFrame = .ok entry)
    (hp : ∀ (index : Nat) frame, found[index]? = some (some frame) → frame.IsPaired)
    (htable : live.frameAttribute found entry layout pool = (.ok table, later)) :
    ∃ changes frames,
      (∀ last, later.Grows last →
        Body.changesIn? (layout.starts rows) last (table.map (·.info)) = some changes) ∧
      expandChanges changes entry.listedLocals = .ok frames ∧
      layout.FramesAgree rows live found frames := by
  obtain ⟨between, hinfo, hg⟩ := Body.frameAttribute_spec htable
  have hplaced : ∀ type ∈ entry.listedLocals, layout.IsPlaced type := by
    intro type ht mark he
    exact absurd he (MethodHead.ne_uninitialized hentry
      (FrameType.mem_of_mem_trim (FrameType.mem_of_mem_collapse ht)) mark)
  obtain ⟨-, held, hheld, hnamed, hchanges⟩ :=
    Body.frameTable_spec h.isNumbered h.pairwise hplaced hinfo
  -- expanding the changes gives the frames back, as no value lost a slot
  have hpaired : ∀ row ∈ held, row.2.IsPaired := by
    intro row hrow
    obtain ⟨index, -, step, -, -, hframe⟩ := exists_of_mem_right hheld hrow
    exact hp index row.2 hframe
  have hexpand := expandChanges_changesFrom (layout.number rows) hpaired entry.listedLocals
  rw [MethodHead.rename_entryFrame hentry] at hexpand
  refine ⟨_, _, fun last hlast => hchanges last (hg.trans hlast), hexpand, h.shows, ?_,
    fun index hindex frame mark hframe hmark => ?_, fun offset ho => ?_⟩
  · refine List.forall₂_map_right_iff.mpr (hheld.imp fun index row => ?_)
    rintro ⟨step, hstep, hmark, hframe⟩
    exact ⟨step, row.2, hstep, hframe, by rw [hmark]⟩
  · obtain ⟨row, hrow, step, -, -, hframe'⟩ := exists_of_mem_left hheld hindex
    obtain rfl := Option.some.inj (Option.some.inj (hframe.symm.trans hframe'))
    obtain ⟨position, hposition⟩ := hnamed row hrow _
      (Frame.mem_listed (hpaired row hrow) hmark (by simp)) mark rfl
    exact h.marks mark position hposition
  · -- a step stands wherever the code needs a frame, and the table has a row for it
    obtain ⟨index, step, hstep, hposition, hindex⟩ := h.exists_needed hn ho
    obtain ⟨row, hrow, step', hstep', hmark, -⟩ := exists_of_mem_left hheld hindex
    obtain rfl := Option.some.inj (hstep.symm.trans hstep')
    refine ⟨layout.number rows row.1, _, (h.isNumbered _ offset (hmark ▸ hposition)).2,
      List.mem_map_of_mem hrow⟩

/-- The frames of a body without dead code have both slots of their wide values if those that were
found have. -/
theorem Analysis.isPaired_liveFrames {analysis : Analysis}
    (h : ∀ (index : Nat) frame, analysis.frames[index]? = some (some frame) → frame.IsPaired)
    (index : Nat) (frame : Frame) (hf : analysis.liveFrames[index]? = some (some frame)) :
    frame.IsPaired := by
  unfold liveFrames at hf
  split_ifs at hf
  · rw [withDead, Array.getElem?_map] at hf
    obtain ⟨found, hfound, hframe⟩ := Option.map_eq_some_iff.mp hf
    obtain rfl := Option.some.inj hframe
    cases found with
    | some frame => exact h index frame hfound
    | none =>
      exact ⟨FrameType.paired_nil, FrameType.paired_cons rfl FrameType.paired_nil⟩
  · exact h index frame hf

/-- Whether what is written when a body is refreshed is read back, whatever other constants are added
to the class later: its code as instructions that show the steps, and its table as the frames that
the analysis found, with one wherever that code needs one. -/
def ClassFile.ShowsFrames (index : Nat) (head : MethodHead) (hierarchy : Hierarchy) (body : Body)
    (file file' : ClassFile) : Prop :=
  ∃ analysis entry layout table encoded rows changes frames,
    body.analyze head file.pool hierarchy = .ok analysis ∧
    head.entryFrame = .ok entry ∧
    Layout.ofSteps file.pool (body.live analysis).steps = .ok layout ∧
    (body.live analysis).bytes layout table = .ok encoded ∧
    file' = { file.setBody index (body.live analysis) with pool := file'.pool }.setBody index
      { body.live analysis with encoded := some encoded } ∧
    Bytecode.all ⟨layout.code, 0⟩ = .ok (rows, ⟨[], layout.code.length⟩) ∧
    (∀ later, file'.pool.Grows later →
      Body.changesIn? (layout.starts rows) later (table.map (·.info)) = some changes) ∧
    expandChanges changes entry.listedLocals = .ok frames ∧
    layout.FramesAgree rows (body.live analysis) analysis.liveFrames frames

/-- The table that is written when a body is refreshed is read back as the frames that the analysis
found.  Instructions are those that the reader of code can give: with the opcode of another kind of
instruction, the code that is read is not that of the steps
(`Disguised.not_showsFrames_refreshBody`). -/
theorem ClassFile.framesAgree_refreshBody {index : Nat} {head : MethodHead}
    {hierarchy : Hierarchy} {body : Body} {file file' : ClassFile}
    (hn : (body.steps.map (·.mark)).Nodup)
    (hr : ∀ step ∈ body.steps, step.instruction.isReadable = true)
    (hv : framesVersion ≤ file.majorVersion)
    (hp : ∀ analysis, body.analyze head file.pool hierarchy = .ok analysis →
      ∀ (index : Nat) frame, analysis.frames[index]? = some (some frame) → frame.IsPaired)
    (h : refreshBody index head hierarchy body file = (.ok (), file')) :
    ShowsFrames index head hierarchy body file file' := by
  obtain ⟨analysis, layout, table, pool, encoded, hanalysis, hlayout, htable, hencoded, rfl⟩ :=
    refreshBody_eq_ok.mp h
  rw [if_neg (UInt16.not_lt.mpr hv)] at htable
  obtain ⟨entry, hentry, htable⟩ := htable
  have hmarks : ((body.live analysis).steps.map (·.mark)).Nodup := by
    rw [Body.map_mark_live hanalysis]
    exact hn
  obtain ⟨rows, hread⟩ := Layout.exists_isReadAs hmarks (Body.isReadable_live hanalysis hr)
    (Body.fallsThrough_live hanalysis) hlayout 0
  have hall := Bytecode.all_of_reads hread.reads
  rw [Nat.zero_add] at hall
  obtain ⟨changes, frames, hchanges, hexpand, hagree⟩ := hread.exists_framesAgree hmarks hentry
    (Analysis.isPaired_liveFrames (hp analysis hanalysis)) htable
  exact ⟨analysis, entry, layout, table, encoded, rows, changes, frames, hanalysis, hentry, hlayout,
    hencoded, rfl, hall, hchanges, hexpand, hagree⟩

/-! ### A method that loops for ever -/

namespace Looping

/-- An instruction that jumps to itself. -/
def loop : Step := ⟨⟨5⟩, .jump Opcode.goto ⟨5⟩⟩

def body : Body :=
  { Body.new 1 with steps := [loop], attributes := [.frames 2 []], nextMark := 6 }

def head : MethodHead := ⟨Bytes.ofAscii "C", Bytes.ofAscii "m", Bytes.ofAscii "()V", true⟩

def file : ClassFile := ⟨0, 52, Pool.empty, 0, 0, 0, [], [], [⟨8, 0, 0, [.code body]⟩], []⟩

def frame : Frame := ⟨[], []⟩

/-- The one instruction, which jumps to itself, as it is written. -/
def layout : Layout := ⟨[0xa7, 0x00, 0x00], (∅ : Std.HashMap Mark Nat).insert ⟨5⟩ 0, []⟩

theorem positions_eq : body.positions[(⟨5⟩ : Mark)]? = some 0 :=
  @Body.getElem?_positions body (by decide) 0 loop rfl

theorem analyze_eq : body.analyze head Pool.empty .unknown = .ok ⟨#[some frame], 0, 0⟩ := by
  let course : Course := body.plainCourse head Pool.empty .unknown
  have hd := body.declared_plainCourse head Pool.empty .unknown
  have hposition : course.scene.position ⟨5⟩ = .ok 0 := Scene.position_eq_ok.mpr positions_eq
  have hsend : (Flow.start 1).send course 0 0 frame =
      .ok ⟨#[some frame], [0], #[true], 0⟩ := Flow.send_of_unreached (hd 0) rfl
  have hvisit : Flow.visit course 0 loop frame ⟨#[some frame], [], #[false], 0⟩ =
      .ok ⟨#[some frame], [], #[false], 0⟩ := by
    refine Flow.visit_eq_ok.mpr ⟨frame, _, _, rfl, rfl, ?_, rfl⟩
    exact Except.bind_eq_ok.mpr ⟨0, Except.mapError_eq_ok.mpr hposition,
      Except.bind_eq_ok.mpr ⟨_, Flow.send_of_same (hd 0) rfl rfl, rfl⟩⟩
  have hsettle : ∀ fuel, Flow.settle course (fuel + 1) ⟨#[some frame], [0], #[true], 0⟩ =
      .ok ⟨#[some frame], [], #[false], 0⟩ := by
    intro fuel
    refine (Flow.settle_of_visit hvisit rfl rfl (by rfl)).trans ?_
    exact Flow.settle_of_nil #[some frame] #[false] 0 fuel
  exact Body.analyze_of_settle rfl rfl (by decide) rfl hsend hsettle
    (Flow.le_budget (by decide)) (by simp) (by decide)

theorem ofSteps_eq : Layout.ofSteps Pool.empty body.steps = .ok layout := by
  unfold Layout.ofSteps
  rw [Layout.within]
  simp only [Draft.extend, body, loop, Draft.empty, Instruction.form, Site.jump,
    Std.HashMap.getElem?_insert_self]
  rfl

theorem needsFrame_eq : body.needsFrame [] = [0] := by
  have htargets : ([⟨5⟩] : List Mark).filterMap (body.positions[·]?) = [0] := by
    rw [List.filterMap_cons, positions_eq]
    rfl
  show ((List.range 1).filter fun index =>
    (([] ++ ([⟨5⟩] : List Mark).filterMap (body.positions[·]?)).foldl
      (fun (flags : Array Bool) index => flags.setIfInBounds index true) #[false]).getD index
        false) = [0]
  rw [htargets]
  rfl

/-- The table has one frame, the same as the one that the method starts with. -/
theorem frameAttribute_eq : body.frameAttribute #[some frame] frame layout Pool.empty =
    (.ok (some ⟨2, [0, 1, 0]⟩), Pool.empty) := by
  have hoffset : layout.offset ⟨5⟩ = .ok 0 :=
    Layout.offset_eq_ok.mpr Std.HashMap.getElem?_insert_self
  have hentries : layout.frameEntries [(0, ⟨5⟩, some frame)] [] none Pool.empty =
      (.ok [[0]], Pool.empty) := by
    refine ExceptT.bind_eq_ok.mpr ⟨0, Pool.empty, ExceptT.lift_eq_ok.mpr ⟨hoffset, rfl⟩, ?_⟩
    rfl
  have htable : body.frameTable #[some frame] frame layout Pool.empty =
      (.ok (some [0, 1, 0]), Pool.empty) := by
    unfold Body.frameTable
    rw [show layout.landings = [] from rfl, needsFrame_eq]
    exact ExceptT.bind_eq_ok.mpr ⟨[[0]], Pool.empty, hentries, rfl⟩
  exact ExceptT.bind_eq_ok.mpr ⟨some [0, 1, 0], Pool.empty, htable, rfl⟩

theorem hasDeadCode_eq : Analysis.hasDeadCode ⟨#[some frame], 0, 0⟩ = false := by
  simp [Analysis.hasDeadCode]

theorem live_eq : body.live ⟨#[some frame], 0, 0⟩ = body :=
  Body.live_of_not_hasDeadCode hasDeadCode_eq body

theorem liveFrames_eq : Analysis.liveFrames ⟨#[some frame], 0, 0⟩ = #[some frame] := by
  unfold Analysis.liveFrames
  rw [hasDeadCode_eq]
  rfl

/-- The sizes, the code, no handlers, and the table under its name. -/
def encoded : Bytes :=
  [0, 0, 0, 0] ++ [0, 0, 0, 3, 0xa7, 0, 0] ++ [0, 0] ++ [0, 1, 0, 2, 0, 0, 0, 3, 0, 1, 0]

theorem bytes_eq : body.bytes layout (some ⟨2, [0, 1, 0]⟩) = .ok encoded := rfl

theorem exists_refreshBody :
    ∃ file', ClassFile.refreshBody 0 head .unknown body file = (.ok (), file') := by
  refine ⟨_, ClassFile.refreshBody_eq_ok.mpr ⟨_, layout, some ⟨2, [0, 1, 0]⟩, Pool.empty, encoded,
    analyze_eq, ?_, ?_, ?_, rfl⟩⟩
  · rw [live_eq]
    exact ofSteps_eq
  · rw [if_neg (by decide), live_eq, liveFrames_eq]
    exact ⟨frame, rfl, frameAttribute_eq⟩
  · rw [live_eq]
    exact bytes_eq

/-- The loop is refreshed, and its table is read back. -/
theorem framesAgree_refreshBody_loop :
    (body.steps.map (·.mark)).Nodup ∧
    (∀ step ∈ body.steps, step.instruction.isReadable = true) ∧
    framesVersion ≤ file.majorVersion ∧
    (∀ analysis, body.analyze head file.pool .unknown = .ok analysis →
      ∀ (index : Nat) frame, analysis.frames[index]? = some (some frame) → frame.IsPaired) ∧
    ∃ file', ClassFile.refreshBody 0 head .unknown body file = (.ok (), file') ∧
      ClassFile.ShowsFrames 0 head .unknown body file file' := by
  have hn : (body.steps.map (·.mark)).Nodup := by decide
  have hr : ∀ step ∈ body.steps, step.instruction.isReadable = true := by decide
  have hv : framesVersion ≤ file.majorVersion := by decide
  have hp : ∀ analysis, body.analyze head file.pool .unknown = .ok analysis →
      ∀ (index : Nat) frame, analysis.frames[index]? = some (some frame) → frame.IsPaired := by
    intro analysis h index found hf
    obtain rfl := Except.ok.inj (analyze_eq.symm.trans h)
    obtain rfl : found = frame := by simpa using Array.mem_of_getElem? hf
    exact ⟨FrameType.paired_nil, FrameType.paired_nil⟩
  obtain ⟨file', hrefresh⟩ := exists_refreshBody
  exact ⟨hn, hr, hv, hp, file', hrefresh, ClassFile.framesAgree_refreshBody hn hr hv hp hrefresh⟩

end Looping

/-! ### An instruction that is read as another -/

namespace Disguised

/-- A null reference is given to an instruction about a class, after which the method returns. -/
def body (base : Body) (op : Opcode) (index : UInt16) : Body :=
  { base with
    steps := [⟨⟨1⟩, .plain 0x01⟩, ⟨⟨2⟩, .classOp op index⟩, ⟨⟨0⟩, .plain Opcode.returnVoid⟩]
    handlers := [] }

def head : MethodHead := ⟨Bytes.ofAscii "C", Bytes.ofAscii "n", Bytes.ofAscii "()V", true⟩

/-- The frames of the body. -/
def frames (outcome : FrameType) : Array (Option Frame) :=
  #[some ⟨[], []⟩, some ⟨[], [.null]⟩, some ⟨[], [outcome]⟩]

/-- The analysis does not depend on what opcode the instruction about a class has but for what it
leaves. -/
theorem analyze_eq {base : Body} {op : Opcode} {index : UInt16} {pool : Pool} {outcome : FrameType}
    (hd : base.declaredFrames = [])
    (hc : ∀ scene : Scene, scene.pool = pool →
      scene.classOp ⟨[], [.null]⟩ ⟨2⟩ op index = .ok ⟨[], [outcome]⟩)
    (hf : (Instruction.classOp op index : Instruction Mark).fallsThrough = true) :
    (body base op index).analyze head pool .unknown = .ok ⟨frames outcome, 1, 0⟩ := by
  let course : Course := (body base op index).plainCourse head pool .unknown
  have hnone := (body base op index).declared_plainCourse head pool .unknown
  have hsend : (Flow.start 3).send course 0 0 ⟨[], []⟩ =
      .ok ⟨#[some ⟨[], []⟩, none, none], [0], #[true, false, false], 0⟩ :=
    Flow.send_of_unreached (hnone 0) rfl
  have null : Flow.visit course 0 ⟨⟨1⟩, .plain 0x01⟩ ⟨[], []⟩
      ⟨#[some ⟨[], []⟩, none, none], [], #[false, false, false], 0⟩ =
      .ok ⟨#[some ⟨[], []⟩, some ⟨[], [.null]⟩, none], [1], #[false, true, false], 1⟩ :=
    Flow.visit_eq_ok.mpr ⟨⟨[], [.null]⟩, _, _,
      Scene.execute_plain rfl (Opcode.effect?_of_row (k := 0) (i := 1) rfl rfl rfl), rfl, rfl,
      show 0 + 1 ≠ 3 by decide, Flow.send_of_unreached (hnone 1) rfl⟩
  have check : Flow.visit course 1 ⟨⟨2⟩, .classOp op index⟩ ⟨[], [.null]⟩
      ⟨#[some ⟨[], []⟩, some ⟨[], [.null]⟩, none], [], #[false, false, false], 1⟩ =
      .ok ⟨frames outcome, [2], #[false, false, true], 1⟩ := by
    refine Flow.visit_eq_ok.mpr ⟨⟨[], [outcome]⟩, _, _, hc course.scene rfl, rfl, rfl, ?_⟩
    rw [if_pos hf]
    exact ⟨show 1 + 1 ≠ 3 by decide, Flow.send_of_unreached (hnone 2) rfl⟩
  have finish : Flow.visit course 2 ⟨⟨0⟩, .plain Opcode.returnVoid⟩ ⟨[], [outcome]⟩
      ⟨frames outcome, [], #[false, false, false], 1⟩ =
      .ok ⟨frames outcome, [], #[false, false, false], 1⟩ :=
    Flow.visit_eq_ok.mpr ⟨⟨[], [outcome]⟩, _, _,
      Scene.execute_plain rfl Opcode.effect?_returnVoid, rfl, rfl, rfl⟩
  have hsettle : ∀ fuel, Flow.settle course (fuel + 3)
      ⟨#[some ⟨[], []⟩, none, none], [0], #[true, false, false], 0⟩ =
        .ok ⟨frames outcome, [], #[false, false, false], 1⟩ := by
    intro fuel
    refine (Flow.settle_of_visit null rfl rfl (by rfl)).trans ?_
    refine (Flow.settle_of_visit check rfl rfl (by rfl)).trans ?_
    refine (Flow.settle_of_visit finish rfl rfl (by rfl)).trans ?_
    exact Flow.settle_of_nil (frames outcome) #[false, false, false] 1 fuel
  have hdeclared : (body base op index).declaredFrames = [] := hd
  exact Body.analyze_of_settle hdeclared rfl (by simp [body]) rfl hsend hsettle
    (Flow.le_budget (Nat.le_succ 3)) (by simp) (show 0 ≤ 65535 by decide)

/-- The class `D` is the third constant. -/
def pool : Pool :=
  let one := Pool.empty.push (.utf8 (Bytes.ofAscii "D")) (by decide)
  let two := one.push (.utf8 (Bytes.ofAscii "n")) (by decide +kernel)
  two.push (.named .classRef 1) (by decide +kernel)

/-- The opcode of `ifnull`, whose three bytes are those of a jump by three bytes. -/
def jumping : Body := body { Body.new 1 with nextMark := 3 } 0xc6 3

def file : ClassFile := ⟨0, 52, pool, 0, 0, 0, [], [], [⟨8, 0, 0, [.code jumping]⟩], []⟩

theorem analyze_jumping : jumping.analyze head pool .unknown = .ok ⟨frames .int, 1, 0⟩ := by
  refine analyze_eq rfl (fun scene hpool => ?_) rfl
  have hclass : scene.pool.requireClass 3 = .ok (Bytes.ofAscii "D") := by
    rw [hpool]
    decide +kernel
  exact Except.bind_eq_ok.mpr ⟨_, hclass, rfl⟩

/-- The body with the size of its stack. -/
def sized : Body := { jumping with maxStack := 1 }

theorem live_jumping : jumping.live ⟨frames .int, 1, 0⟩ = sized :=
  Body.live_of_not_hasDeadCode (by simp [Analysis.hasDeadCode, frames]) jumping

/-- The sizes, the code and nothing else. -/
def encoded : Bytes := [0, 1, 0, 0, 0, 0, 0, 5, 0x01, 0xc6, 0, 3, 0xb1, 0, 0, 0, 0]

theorem exists_layout : ∃ layout, Layout.ofSteps pool sized.steps = .ok layout ∧
    layout.code = [0x01, 0xc6, 0, 3, 0xb1] ∧ layout.landings = [] ∧
    sized.bytes layout none = .ok encoded := by
  have hparts : ((Layout.ofSteps pool sized.steps).toOption.any fun layout =>
      layout.code == [0x01, 0xc6, 0, 3, 0xb1] && layout.landings == [] &&
        decide (sized.bytes layout none = .ok encoded)) = true := by
    decide +kernel
  obtain ⟨layout, hlayout, hall⟩ := Except.exists_of_any hparts
  simp only [Bool.and_eq_true, beq_iff_eq, decide_eq_true_eq] at hall
  exact ⟨layout, hlayout, hall.1.1, hall.1.2, hall.2⟩

theorem isPaired_jumping (analysis : Analysis)
    (h : jumping.analyze head pool .unknown = .ok analysis) (index : Nat) (frame : Frame)
    (hf : analysis.frames[index]? = some (some frame)) : frame.IsPaired := by
  obtain rfl := Except.ok.inj (analyze_jumping.symm.trans h)
  have hone {type : FrameType} (ht : type.isWide = false) : Frame.IsPaired ⟨[], [type]⟩ :=
    ⟨FrameType.paired_nil, FrameType.paired_cons ht FrameType.paired_nil⟩
  have hmem := Array.mem_of_getElem? hf
  simp only [frames, List.mem_toArray, List.mem_cons, Option.some.injEq, List.not_mem_nil,
    or_false] at hmem
  rcases hmem with rfl | rfl | rfl
  · exact ⟨FrameType.paired_nil, FrameType.paired_nil⟩
  · exact hone rfl
  · exact hone rfl

/-- No step needs a frame, while in what is written for them a jump leads to the return. -/
theorem not_showsFrames_refreshBody :
    ¬∀ (index : Nat) (head : MethodHead) (hierarchy : Hierarchy) (body : Body)
      (file file' : ClassFile), (body.steps.map (·.mark)).Nodup →
      framesVersion ≤ file.majorVersion →
      (∀ analysis, body.analyze head file.pool hierarchy = .ok analysis →
        ∀ (index : Nat) frame, analysis.frames[index]? = some (some frame) → frame.IsPaired) →
      ClassFile.refreshBody index head hierarchy body file = (.ok (), file') →
      ClassFile.ShowsFrames index head hierarchy body file file' := by
  intro hclaim
  obtain ⟨layout, hlayout, hcode, hlandings, hbytes⟩ := exists_layout
  have hneeded : sized.needsFrame layout.landings = [] := by
    rw [hlandings]
    decide +kernel
  rw [← live_jumping] at hlayout hbytes hneeded
  have hrefresh : ClassFile.refreshBody 0 head .unknown jumping file = _ :=
    ClassFile.refreshBody_of_needsFrame_nil analyze_jumping hlayout rfl hneeded hbytes
  obtain ⟨analysis, entry, found, table, bytes, rows, changes, held, hanalysis, -, hfound, -, -,
    hrows, -, -, hagree⟩ := hclaim 0 head .unknown jumping file _ (by decide) (by decide)
      isPaired_jumping hrefresh
  obtain rfl := Except.ok.inj (analyze_jumping.symm.trans hanalysis)
  obtain rfl := Except.ok.inj (hlayout.symm.trans hfound)
  -- the table holds no frame
  have hnone : held = [] := by
    have hheld := hagree.agree
    rw [hneeded] at hheld
    exact List.forall₂_nil_left_iff.mp hheld
  -- but the second instruction that is read jumps to the third
  have hjump : ∃ row ∈ rows, 4 ∈ row.2.targets := by
    have hparts : (Bytecode.all ⟨[0x01, 0xc6, 0, 3, 0xb1], 0⟩).toOption.any (fun read =>
        read.1.any fun row => row.2.targets.contains 4) = true := by decide +kernel
    obtain ⟨read, hread, hany⟩ := Except.exists_of_any hparts
    rw [hcode] at hrows
    obtain rfl := Except.ok.inj (hrows.symm.trans hread)
    obtain ⟨row, hrow, htarget⟩ := List.any_eq_true.mp hany
    exact ⟨row, hrow, List.contains_iff_mem.mp htarget⟩
  obtain ⟨row, hrow, htarget⟩ := hjump
  obtain ⟨mark, frame, -, hmem⟩ := hagree.covers 4 (.target hrow htarget)
  rw [hnone] at hmem
  nomatch hmem

end Disguised

end ClassGraft

import ClassGraft.Proofs.Class.Unfolded
import ClassGraft.Proofs.Code.Relayout
import ClassGraft.Proofs.Graft.Legibility

/-!
# Encoding what was read back

What is written for a body is read back as the same instructions under other marks, with two jumps
for each one that has a bypass, and with the frames declared that were written.  If the first time
nothing is lost (`Body.LosesNothing`), the analysis finds the same frames again
(`Body.IsEncodedBy.exists_analyze`), and the instructions are laid out as they were
(`Body.IsEncodedBy.exists_ofSteps`).  So the same bytes are written up to the number of locals
(`ClassFile.refreshBody_reread`).

The number of locals may differ.  The first time it also counts slots that only dead instructions
name, which are gone when they are read back (`Departing.exists_reread_ne`).
-/

namespace ClassGraft

open Reader

namespace Body

variable {number : Mark → Mark} {place : Nat → Nat} {body again : Body} {head : MethodHead}
  {pool later : Pool} {hierarchy : Hierarchy} {analysis : Analysis} {entry : Frame}
  {layout : Layout} {base : Nat} {table : Option RawAttribute} {encoded : Bytes}
  {rows : List (Nat × Instruction Nat)} {declared : List (Mark × Frame)}

/-- What a body is encoded by in a version that declares frames. -/
structure IsEncodedBy (body : Body) (head : MethodHead) (hierarchy : Hierarchy) (pool later : Pool)
    (analysis : Analysis) (entry : Frame) (layout : Layout) (table : Option RawAttribute)
    (encoded : Bytes) : Prop where
  analyzed : body.analyze head pool hierarchy = .ok analysis
  starts : head.entryFrame = .ok entry
  laid : Layout.ofSteps pool (body.live analysis).steps = .ok layout
  framed : (body.live analysis).frameAttribute analysis.liveFrames entry layout pool =
    (.ok table, later)
  bytes : (body.live analysis).bytes layout table = .ok encoded

/-- Whether what is written for a body says as much as was found: wide values have both slots,
handlers cover instructions, no jump has a bypass in code with a switch, whose size depends on where
it stands, and the frames forget no more than they must. -/
structure LosesNothing (body : Body) (head : MethodHead) (hierarchy : Hierarchy) (later : Pool)
    (analysis : Analysis) (entry : Frame) (layout : Layout) : Prop where
  paired : ∀ (index : Nat) frame, analysis.frames[index]? = some (some frame) → frame.IsPaired
  covers : ∀ handler ∈ (body.live analysis).handlers,
    (body.live analysis).hasRange handler = true
  landings : layout.landings = [] ∨
    ∀ step ∈ (body.live analysis).steps, step.instruction.isSwitch = false
  faithful : ∀ course, (body.live analysis).HasCourse head later hierarchy entry course →
    course.IsFaithful entry analysis.frames ((body.live analysis).needsFrame layout.landings)

/-- Whether a number of slots is enough for the instructions and for the frames that are written. -/
structure SlotsSuffice (body : Body) (analysis : Analysis) (entry : Frame) (layout : Layout)
    (limit : Nat) : Prop where
  steps : (body.live analysis).localSlots entry [] ≤ limit
  frames : ∀ index ∈ (body.live analysis).needsFrame layout.landings, ∀ frame,
    analysis.liveFrames[index]? = some (some frame) →
      (FrameType.trim frame.locals).length ≤ limit

namespace IsEncodedBy

theorem grows (h : body.IsEncodedBy head hierarchy pool later analysis entry layout table encoded) :
    pool.Grows later :=
  ((body.live analysis).onlyAdds_frameAttribute _ _ _ _ _ _ h.framed).grows

theorem nodup (h : body.IsEncodedBy head hierarchy pool later analysis entry layout table encoded)
    (hn : (body.steps.map (·.mark)).Nodup) : ((body.live analysis).steps.map (·.mark)).Nodup := by
  rw [map_mark_live h.analyzed]
  exact hn

/-- The slots that are counted are enough for what is written. -/
theorem slotsSuffice_maxLocals
    (h : body.IsEncodedBy head hierarchy pool later analysis entry layout table encoded) :
    body.SlotsSuffice analysis entry layout analysis.maxLocals.toNat := by
  obtain ⟨entry', course, hcourse, hlocals, -⟩ := sizes_of_analyze h.analyzed
  obtain rfl := Except.ok.inj (h.starts.symm.trans hcourse.starts)
  rw [hlocals]
  refine ⟨(foldl_max_le.mp (Nat.le_refl _)).1.trans
    (localSlots_live_le h.analyzed entry course.declared.values), fun index _ frame hframe => ?_⟩
  rw [analysis.getElem?_liveFrames] at hframe
  obtain ⟨held, hheld, hsame⟩ := Option.map_eq_some_iff.mp hframe
  obtain rfl := Option.some.inj hsame
  cases held with
  | none => exact Nat.zero_le _
  | some held =>
    exact (Frame.length_trim_le held.locals).trans (locals_of_frame h.analyzed hcourse hheld)

/-- The frames that are declared when a body is read back are those that were written. -/
theorem exists_declared
    (h : body.IsEncodedBy head hierarchy pool later analysis entry layout table encoded)
    (hn : (body.steps.map (·.mark)).Nodup)
    (hp : ∀ (index : Nat) frame, analysis.frames[index]? = some (some frame) → frame.IsPaired)
    (hread : layout.IsReadAs base (body.live analysis).steps rows)
    (hr : (body.live analysis).IsReread layout rows later table again) :
    ∃ declared, again.declaredFramesFrom entry = .ok declared ∧
      AreDeclared (layout.number rows) (body.live analysis) analysis.liveFrames
        ((body.live analysis).needsFrame layout.landings) declared := by
  obtain ⟨changes, declared, hchanges, hexpand, hagree⟩ := hread.exists_framesAgree (h.nodup hn)
    h.starts (Analysis.isPaired_liveFrames hp) h.framed
  refine ⟨declared, ?_, hagree.agree⟩
  unfold declaredFramesFrom
  rw [hr.declaredFrames (hchanges later (.refl later))]
  exact hexpand

/-- As many locals are counted as are enough for what is written. -/
theorem localSlots_le (hu : (body.live analysis).Unfolds number place layout.landings again)
    (hd : AreDeclared number (body.live analysis) analysis.liveFrames
      ((body.live analysis).needsFrame layout.landings) declared)
    {limit : Nat} (hl : body.SlotsSuffice analysis entry layout limit) :
    again.localSlots entry (framesByIndex again.positions declared).values ≤ limit := by
  refine localSlots_le_of_declared hd ?_ hl.frames
  rw [hu.localSlots_eq]
  exact hl.steps

/-- The locals that are counted are enough for what was written. -/
theorem slotsSuffice_localSlots (hu : (body.live analysis).Unfolds number place layout.landings again)
    {second : Course} (hd : Unfolds.Declares number place analysis.frames
      ((body.live analysis).needsFrame layout.landings) second) :
    body.SlotsSuffice analysis entry layout
      (again.localSlots entry second.declared.values) := by
  refine ⟨?_, fun index hindex frame hframe => ?_⟩
  · rw [← hu.localSlots_eq]
    exact (foldl_max_le.mp (Nat.le_refl _)).1
  · rw [analysis.getElem?_liveFrames] at hframe
    obtain ⟨held, hold, hsame⟩ := Option.map_eq_some_iff.mp hframe
    obtain rfl := Option.some.inj hsame
    cases held with
    | none => exact Nat.zero_le _
    | some held =>
      have hrow := hd.held index held hold
      rw [if_pos hindex] at hrow
      have hle := (again.le_localSlots entry second.declared.values).2.2 _
        (mem_values.mpr ⟨place index, hrow⟩)
      rwa [Frame.declared, List.length_map] at hle

/-- A frame that is needed is listed as the one that is found again. -/
theorem exists_isListedAs {found : Analysis} {held : Option Frame} {index : Nat}
    (ha : body.analyze head pool hierarchy = .ok analysis)
    (hfound : again.analyze head later hierarchy = .ok found)
    (hflags : body.AreFlags place analysis.dead found.dead) (hi : index < body.steps.length)
    (hold : analysis.frames[index]? = some held)
    (hf : ∀ frame, held = some frame → ∃ frame', found.frames[place index]? = some (some frame') ∧
      (frame.rename number).Corresponds Eq Eq frame') :
    ∃ frame', found.liveFrames[place index]? = some (some frame') ∧
      (held.getD (Frame.catching [] throwableName)).IsListedAs number (body.steps.map (·.mark))
        frame' := by
  rw [found.getElem?_liveFrames]
  cases held with
  | some held =>
    obtain ⟨held', hheld', hcorresponds⟩ := hf held rfl
    refine ⟨held', by rw [hheld']; rfl, Frame.isListedAs_of_corresponds hcorresponds
      (paired_locals ha hold) (paired_locals hfound hheld') ?_⟩
    exact made_of_analyze ha index held hold
  | none =>
    -- dead code has the same frame both times
    have hflag := hflags.held index (Nat.le_of_lt hi)
    rw [Analysis.getElem?_dead, Analysis.getElem?_dead, hold] at hflag
    obtain ⟨other, hother, hnone⟩ := Option.map_eq_some_iff.mp hflag
    cases other with
    | none => exact ⟨_, by rw [hother]; rfl, Frame.isListedAs_catching _⟩
    | some other => cases hnone

/-- What is read back of a body is analyzed to the frames that were written. -/
theorem exists_analyze
    (h : body.IsEncodedBy head hierarchy pool later analysis entry layout table encoded)
    (hb : hierarchy.IsBuilt) (hc : hierarchy.HasClassSupers)
    (hn : (body.steps.map (·.mark)).Nodup)
    (ht : body.LosesNothing head hierarchy later analysis entry layout)
    (hread : layout.IsReadAs base (body.live analysis).steps rows)
    (hr : (body.live analysis).IsReread layout rows later table again)
    (hu : (body.live analysis).Unfolds (layout.number rows) place layout.landings again) :
    ∃ found, again.analyze head later hierarchy = .ok found ∧
      (body.live analysis).AreFlags place analysis.dead found.dead ∧
      found.maxStack = analysis.maxStack ∧
      IsLeast {limit | body.SlotsSuffice analysis entry layout limit} found.maxLocals.toNat ∧
      ∀ index ∈ (body.live analysis).needsFrame layout.landings, ∃ frame frame',
        analysis.liveFrames[index]? = some (some frame) ∧
        found.liveFrames[place index]? = some (some frame') ∧
        frame.IsListedAs (layout.number rows) ((body.live analysis).steps.map (·.mark)) frame' := by
  obtain ⟨settled, hagain, hframes, hstack, -, -⟩ := exists_analyze_again hn h.grows h.analyzed
  have hsettled : (body.live analysis).analyze head later hierarchy = .ok settled := hagain
  have hdead : settled.dead = analysis.dead := by rw [Analysis.dead, Analysis.dead, hframes]
  obtain ⟨entry', first, hfirst, -⟩ := sizes_of_analyze hsettled
  obtain rfl := Except.ok.inj (h.starts.symm.trans hfirst.starts)
  obtain ⟨declared, hdeclared, hareDeclared⟩ := h.exists_declared hn ht.paired hread hr
  let second : Course := ⟨⟨later, hierarchy, head, again.steps.toArray, again.positions⟩,
    first.handlers.map (HandlerRange.moved place), framesByIndex again.positions declared⟩
  have hsecond : again.HasCourse head later hierarchy entry second := by
    refine ⟨h.starts, rfl, ?_, declared, hdeclared, rfl⟩
    refine hu.handlerRanges ?_ rfl ?_ List.size_toArray ?_ hfirst.handlers
    · rw [hfirst.scene]
    · rw [hfirst.scene, List.size_toArray]
    · rw [hfirst.scene]
  have hdeclares : Unfolds.Declares (layout.number rows) place analysis.frames
      ((body.live analysis).needsFrame layout.landings) second := by
    refine hu.declares (pairwise_needsFrame _ _).nodup hareDeclared (fun index frame hf => ?_) ?_ rfl
    · rw [analysis.getElem?_liveFrames, hf]
      rfl
    · rw [(goesOn_of_analyze h.analyzed).1, length_steps_live h.analyzed]
  have hfew := localSlots_le hu hareDeclared h.slotsSuffice_maxLocals
  obtain ⟨found, hfound, hheight, hcount, hfollows⟩ := hu.exists_analyze hfirst hsecond
    (ht.faithful first hfirst) hdeclares hb hc hsettled hframes
    (hfew.trans (Nat.le_of_lt_succ analysis.maxLocals.toNat_lt))
  have hflags : (body.live analysis).AreFlags place analysis.dead found.dead := by
    rw [← hdead]
    exact hu.areFlags hsettled hfound fun index step hstep hflag =>
      ⟨_, instruction_live_of_dead h.analyzed hstep (hdead ▸ hflag)⟩
  have htoNat : found.maxLocals.toNat = again.localSlots entry second.declared.values := by
    rw [hcount]
    exact UInt16.toNat_ofNat_of_lt' (hfew.trans_lt analysis.maxLocals.toNat_lt)
  refine ⟨found, hfound, hflags, hheight.trans hstack, ?_, fun index hindex => ?_⟩
  · rw [htoNat]
    exact ⟨slotsSuffice_localSlots hu hdeclares, fun limit hl => localSlots_le hu hareDeclared hl⟩
  · obtain ⟨row, -, step, frame, hstep, hframe, -⟩ := exists_of_mem_left hareDeclared hindex
    have hlive := hframe
    rw [analysis.getElem?_liveFrames] at hlive
    obtain ⟨held, hold, hsame⟩ := Option.map_eq_some_iff.mp hlive
    obtain rfl := Option.some.inj hsame
    obtain ⟨frame', hframe', hlisted⟩ := exists_isListedAs hsettled hfound (hdead ▸ hflags)
      (List.getElem?_eq_some_iff.mp hstep).1 (hframes ▸ hold)
      fun frame hsome => hfollows index hindex frame (hsome ▸ hold)
    exact ⟨_, frame', hframe, hframe', hlisted⟩

/-- What replaced dead code is read back as something that stays. -/
theorem withoutDead_eq
    (h : body.IsEncodedBy head hierarchy pool later analysis entry layout table encoded)
    (hn : (body.steps.map (·.mark)).Nodup)
    (hu : (body.live analysis).Unfolds number place layout.landings again)
    (hcode : analysis.hasDeadCode = true) {found : Analysis}
    (hfound : again.analyze head later hierarchy = .ok found)
    (hflags : (body.live analysis).AreFlags place analysis.dead found.dead) :
    again.withoutDead found.dead = again.touch := by
  obtain ⟨settled, hsettled, -⟩ := exists_analyze_again hn h.grows h.analyzed
  obtain ⟨-, entry', rows', handlers, first, last, -, -, hhandlers, -⟩ := analyze_eq_ok.mp hsettled
  have hhandlers : (body.live analysis).handlerRanges ⟨later, hierarchy, head,
      (body.live analysis).steps.toArray, (body.live analysis).positions⟩ = .ok handlers := hhandlers
  have hburied := isBuried_live hn h.analyzed hcode rfl List.size_toArray h.grows hhandlers
  have hranges : ∀ range ∈ handlers, range.start ≤ (body.live analysis).steps.length ∧
      range.stop ≤ (body.live analysis).steps.length := by
    intro range hrange
    obtain ⟨handler, -, hisRange⟩ := exists_of_mem_right (handlerRanges_eq_ok.mp hhandlers) hrange
    obtain ⟨-, -, hstop⟩ := places_of_isRangeOf (h.nodup hn) rfl List.size_toArray hisRange
    exact ⟨Nat.le_trans (Nat.le_of_lt (hburied.ranges range hrange).1) hstop, hstop⟩
  have hagain : again.handlerRanges ⟨later, hierarchy, head, again.steps.toArray, again.positions⟩ =
      .ok (handlers.map (HandlerRange.moved place)) := by
    refine hu.handlerRanges ?_ rfl ?_ List.size_toArray ?_ hhandlers
    · rfl
    · exact List.size_toArray
    · rfl
  exact (hu.isBuried hburied hflags hranges).withoutDead hu.steps.nodup (length_dead hfound) rfl
    List.size_toArray hagain

/-- Nothing is dead in what is read back but what replaced dead code, and that stays. -/
theorem live_eq (h : body.IsEncodedBy head hierarchy pool later analysis entry layout table encoded)
    (hn : (body.steps.map (·.mark)).Nodup)
    (hu : (body.live analysis).Unfolds number place layout.landings again)
    (hs : again.maxStack = (body.live analysis).maxStack) {found : Analysis}
    (hfound : again.analyze head later hierarchy = .ok found)
    (hflags : (body.live analysis).AreFlags place analysis.dead found.dead)
    (hstack : found.maxStack = analysis.maxStack) :
    again.touch.live found = { again.touch with maxLocals := found.maxLocals } := by
  have hcode := hu.hasDeadCode_eq ((length_dead h.analyzed).trans (length_steps_live h.analyzed).symm)
    (length_dead hfound) hflags
  unfold live at hs ⊢
  rw [hcode]
  cases hfound' : analysis.hasDeadCode with
  | false =>
    rw [hfound'] at hs
    have hsame : again.maxStack = found.maxStack := hs.trans hstack.symm
    show { again.touch with maxStack := found.maxStack, maxLocals := found.maxLocals } = _
    rw [← hsame]
    rfl
  | true =>
    rw [hfound'] at hs
    have hsame : again.maxStack = max found.maxStack 1 :=
      hs.trans (congrArg (max · 1) hstack.symm)
    have hwithout := h.withoutDead_eq hn hu hfound' hfound hflags
    show { again.withoutDead found.dead with
      maxStack := max found.maxStack 1, maxLocals := found.maxLocals } = _
    rw [hwithout, ← hsame]
    rfl

/-- What is read back is laid out as it was written: without a bypass the instructions are the same
ones, and without a switch a bypass is as long as two jumps. -/
theorem exists_ofSteps
    (h : body.IsEncodedBy head hierarchy pool later analysis entry layout table encoded)
    (ht : body.LosesNothing head hierarchy later analysis entry layout)
    (hr : (body.live analysis).IsReread layout rows later table again)
    (hu : (body.live analysis).Unfolds (layout.number rows) place layout.landings again) :
    ∃ placed', Layout.ofSteps later again.steps = .ok ⟨layout.code, placed', []⟩ ∧
      Mark.Carries (layout.number rows) ((body.live analysis).steps.map (·.mark)) layout.placed
        placed' := by
  have hlaid := (Layout.ofSteps_congr (sameWidths_live h.analyzed h.grows)).trans h.laid
  rcases ht.landings with hnone | hswitch
  · obtain ⟨placed', hlayout, hcarries⟩ :=
      Layout.exists_ofSteps_renumber hu.separates hu.steps.targets hlaid
    rw [hnone, List.map_nil] at hlayout
    rw [hr.steps_eq hnone]
    exact ⟨placed', hlayout, hcarries⟩
  · exact Layout.exists_ofSteps_unfolded hu.steps (Layout.ne_nil_of_ofSteps h.laid) hswitch
      (fallsThrough_live h.analyzed) hlaid

/-- What is read back is written again as it is, up to the number of locals. -/
theorem isRefreshed_of_isReread {majorVersion : UInt16}
    (h : body.IsEncodedBy head hierarchy pool later analysis entry layout table encoded)
    (hb : hierarchy.IsBuilt) (hc : hierarchy.HasClassSupers) (hv : framesVersion ≤ majorVersion)
    (hn : (body.steps.map (·.mark)).Nodup)
    (ht : body.LosesNothing head hierarchy later analysis entry layout)
    (hread : layout.IsReadAs base (body.live analysis).steps rows)
    (hr : (body.live analysis).IsReread layout rows later table again) :
    ∃ rest locals, encoded = Bytes.ofUInt16 (body.live analysis).maxStack ++
        Bytes.ofUInt16 (body.live analysis).maxLocals ++ rest ∧
      again.touch.IsRefreshed majorVersion head hierarchy later later
        { again.touch with
          maxLocals := locals
          encoded := some
            (Bytes.ofUInt16 (body.live analysis).maxStack ++ Bytes.ofUInt16 locals ++ rest) } ∧
      IsLeast {limit | body.SlotsSuffice analysis entry layout limit} locals.toNat := by
  obtain ⟨place, hu⟩ := hr.exists_unfolds (h.nodup hn) ht.covers
  obtain ⟨found, hfound, hflags, hstack, hleast, hlisted⟩ :=
    h.exists_analyze hb hc hn ht hread hr hu
  have hlive := h.live_eq hn hu hr.maxStack hfound hflags hstack
  obtain ⟨placed', hlayout, hcarries⟩ := h.exists_ofSteps ht hr hu
  have hrelabels : layout.Relabels (layout.number rows) ((body.live analysis).steps.map (·.mark))
      ⟨layout.code, placed', []⟩ := by
    refine ⟨rfl, fun mark hmark => ?_⟩
    obtain ⟨position, hposition⟩ := hread.exists_offset hmark
    exact ⟨position, hposition, Layout.offset_eq_ok.mpr
      ((hcarries mark hmark).trans (Layout.offset_eq_ok.mp hposition))⟩
  -- the table of frames is the same, and its constants are there
  have htable := hu.frameTable_eq hrelabels rfl hlisted
    fun type htype mark => MethodHead.ne_uninitialized h.starts
      (FrameType.mem_of_mem_trim (FrameType.mem_of_mem_collapse htype)) mark
  have hframed := frameAttribute_of_frameTable (fun raw hraw => ⟨_, hr.frames?_of_mem hraw⟩)
    ((congrFun htable later).trans (frameTable_of_frameAttribute h.framed))
  have hagain := (hr.bytes_eq ht.covers hrelabels).trans h.bytes
  obtain ⟨rest, hencoded, hbytes⟩ := exists_of_bytes hagain
  rw [hr.maxStack] at hbytes
  rw [hr.maxStack, hr.maxLocals] at hencoded
  refine ⟨rest, found.maxLocals, hencoded, ⟨found, ⟨layout.code, placed', []⟩, table,
    Bytes.ofUInt16 (body.live analysis).maxStack ++ Bytes.ofUInt16 found.maxLocals ++ rest, hfound,
    ?_, ?_, ?_, ?_⟩, hleast⟩
  · exact (congrArg (Layout.ofSteps later ·.steps) hlive).trans hlayout
  · rw [if_neg (UInt16.not_lt.mpr hv), hlive]
    exact ⟨entry, h.starts, hframed⟩
  · rw [hlive]
    exact hbytes found.maxLocals
  · rw [hlive]

/-- Fewer slots are enough for what is written only if a dead instruction named the last slot, or a
declared frame reached to it. -/
theorem exists_of_slotsSuffice_lt
    (h : body.IsEncodedBy head hierarchy pool later analysis entry layout table encoded) {limit : Nat}
    (hs : body.SlotsSuffice analysis entry layout limit) (hlt : limit < analysis.maxLocals.toNat) :
    (∃ (index : Nat) (step : Step), body.steps[index]? = some step ∧
      analysis.dead[index]? = some true ∧
      slotsOf step.instruction = analysis.maxLocals.toNat) ∨
    ∃ frames row, body.declaredFramesFrom entry = .ok frames ∧ row ∈ frames ∧
      row.2.locals.length = analysis.maxLocals.toNat := by
  obtain ⟨entry', course, hcourse, hlocals, -⟩ := sizes_of_analyze h.analyzed
  obtain rfl := Except.ok.inj (h.starts.symm.trans hcourse.starts)
  rw [hlocals] at hlt ⊢
  have hsteps := hs.steps
  rcases Nat.lt_or_ge ((body.live analysis).localSlots entry course.declared.values)
    (body.localSlots entry course.declared.values) with hfewer | hsame
  · exact .inl (exists_dead_of_localSlots_lt h.analyzed hfewer)
  · -- what is alive names fewer slots, so it is a declared frame that has them all
    rcases foldl_max_cases (fun frame : Frame => frame.locals.length) course.declared.values
      ((body.live analysis).localSlots entry []) with hfirst | ⟨frame, hframe, hlast⟩
    · exact absurd (hsame.trans (Nat.le_of_eq hfirst)) (by omega)
    · obtain ⟨frames, hframes, hdeclared⟩ := hcourse.declared
      have hmem := hframe
      rw [hdeclared] at hframe
      obtain ⟨index, hindex⟩ := mem_values.mp hframe
      obtain ⟨mark, hrow, -⟩ := mem_of_getElem?_framesByIndex hindex
      exact .inr ⟨frames, (mark, frame), hframes, hrow, Nat.le_antisymm
        ((body.le_localSlots entry course.declared.values).2.2 frame hmem)
        (hsame.trans (Nat.le_of_eq hlast))⟩

end IsEncodedBy

end Body

namespace ClassFile

variable {index : Nat} {head : MethodHead} {hierarchy : Hierarchy} {body : Body}
  {file file' : ClassFile}

/-- Whether the bytes that were written for a body are read back, wherever they stand, as a body that
is refreshed to the same ones with the constants there are, up to the number of locals. -/
def RepeatsBody (index : Nat) (head : MethodHead) (hierarchy : Hierarchy) (file : ClassFile)
    (written : Body) (counts : UInt16 → Prop) : Prop :=
  ∃ rest, written.encoded = some
      (Bytes.ofUInt16 written.maxStack ++ Bytes.ofUInt16 written.maxLocals ++ rest) ∧
    ∀ offset, ∃ again last locals,
      Body.read written.name file.pool
        ⟨Bytes.ofUInt16 written.maxStack ++ Bytes.ofUInt16 written.maxLocals ++ rest, offset⟩ =
          .ok (again, last) ∧
      refreshBody index head hierarchy again.touch file = (.ok (), file.setBody index
        { again.touch with
          maxLocals := locals
          encoded := some
            (Bytes.ofUInt16 written.maxStack ++ Bytes.ofUInt16 locals ++ rest) }) ∧
      counts locals

/-- Bytes with another number of locals are others. -/
theorem RepeatsBody.exists_ne {written : Body} {counts : UInt16 → Prop}
    (h : RepeatsBody index head hierarchy file written counts) (hn : ¬counts written.maxLocals) :
    ∃ bytes again last second, written.encoded = some bytes ∧
      Body.read written.name file.pool ⟨bytes, 0⟩ = .ok (again, last) ∧
      refreshBody index head hierarchy again.touch file = (.ok (), file.setBody index second) ∧
      second.encoded ≠ some bytes := by
  obtain ⟨rest, hencoded, hrepeats⟩ := h
  obtain ⟨again, last, locals, hread, hrefresh, hcounts⟩ := hrepeats 0
  refine ⟨_, again, last, _, hencoded, hread, hrefresh, fun hsame => hn ?_⟩
  have hlocals : Bytes.ofUInt16 locals = Bytes.ofUInt16 written.maxLocals :=
    List.append_cancel_left (List.append_cancel_right (Option.some.inj hsame))
  have htaken := takes_uint16 locals 0 []
  rw [hlocals, takes_uint16 written.maxLocals 0 []] at htaken
  obtain rfl := (Prod.mk.inj (Except.ok.inj htaken)).1
  exact hcounts

/-- What a body was encoded by is read back as one that is refreshed to the same bytes. -/
theorem repeatsBody {pool : Pool} {analysis : Analysis} {entry : Frame} {layout : Layout}
    {table : Option RawAttribute} {encoded : Bytes}
    (h : body.IsEncodedBy head hierarchy pool file.pool analysis entry layout table encoded)
    (hb : hierarchy.IsBuilt) (hc : hierarchy.HasClassSupers)
    (hv : framesVersion ≤ file.majorVersion) (ht : body.IsTidy pool)
    (hw : body.LosesNothing head hierarchy file.pool analysis entry layout) :
    RepeatsBody index head hierarchy file { body.live analysis with encoded := some encoded }
      fun locals => IsLeast {limit | body.SlotsSuffice analysis entry layout limit}
        locals.toNat := by
  have hlive := ht.live h.analyzed
  obtain ⟨rest, rfl, -⟩ := Body.exists_of_bytes h.bytes
  refine ⟨rest, rfl, fun offset => ?_⟩
  obtain ⟨base, rows, again, last, hread, hagain, hreread⟩ := Body.exists_isReread_of_bytes
    (hlive.grow h.grows) (Body.fallsThrough_live h.analyzed) h.laid
    (hlive.utf8_of_frameAttribute h.framed) h.bytes offset
  obtain ⟨rest', locals, hsame, hrepeats, hleast⟩ :=
    h.isRefreshed_of_isReread hb hc hv ht.nodup hw hread hreread
  obtain rfl := List.append_cancel_left hsame
  exact ⟨again, last, locals, hagain, refreshBody_of_isRefreshed hrepeats, hleast⟩

/-- What is written when a body is refreshed is read back as a body that is refreshed to the same
bytes, without more constants, as long as nothing is lost the first time.  The number of locals is
the least one that is enough for what is written.  The first time slots are also counted that only
dead code names, or only a declared frame. -/
theorem refreshBody_reread (hb : hierarchy.IsBuilt) (hc : hierarchy.HasClassSupers)
    (hv : framesVersion ≤ file.majorVersion) (ht : body.IsTidy file.pool)
    (hw : ∀ analysis entry layout, body.analyze head file.pool hierarchy = .ok analysis →
      head.entryFrame = .ok entry →
      Layout.ofSteps file.pool (body.live analysis).steps = .ok layout →
      body.LosesNothing head hierarchy file'.pool analysis entry layout)
    (h : refreshBody index head hierarchy body file = (.ok (), file')) :
    ∃ analysis entry layout written,
      body.analyze head file.pool hierarchy = .ok analysis ∧
      head.entryFrame = .ok entry ∧
      Layout.ofSteps file.pool (body.live analysis).steps = .ok layout ∧
      file' = { file with
        pool := file'.pool
        methods := file.methods.modify index fun method => method.withBody written } ∧
      RepeatsBody index head hierarchy file' written (fun locals =>
        IsLeast {limit | body.SlotsSuffice analysis entry layout limit} locals.toNat) ∧
      ∀ limit, body.SlotsSuffice analysis entry layout limit → limit < written.maxLocals.toNat →
        (∃ (i : Nat) (step : Step), body.steps[i]? = some step ∧
          analysis.dead[i]? = some true ∧
          Body.slotsOf step.instruction = written.maxLocals.toNat) ∨
        ∃ frames row, body.declaredFramesFrom entry = .ok frames ∧ row ∈ frames ∧
          row.2.locals.length = written.maxLocals.toNat := by
  obtain ⟨written, hrefreshed, hfile⟩ := refreshBody_spec h
  obtain ⟨analysis, layout, table, encoded, hanalysis, hlayout, htable, hbytes, rfl⟩ := hrefreshed
  rw [if_neg (UInt16.not_lt.mpr hv)] at htable
  obtain ⟨entry, hentry, htable⟩ := htable
  have hencoded : body.IsEncodedBy head hierarchy file.pool file'.pool analysis entry layout table
      encoded := ⟨hanalysis, hentry, hlayout, htable, hbytes⟩
  have hversion : file'.majorVersion = file.majorVersion := by rw [hfile]
  have hcount := Body.maxLocals_live body analysis
  refine ⟨analysis, entry, layout, _, hanalysis, hentry, hlayout, hfile,
    repeatsBody hencoded hb hc (hversion ▸ hv) ht (hw analysis entry layout hanalysis hentry hlayout),
    fun limit hl hlt => ?_⟩
  have hwhy := hencoded.exists_of_slotsSuffice_lt hl (hcount ▸ hlt)
  rw [← hcount] at hwhy
  exact hwhy

end ClassFile

/-! ### A method with a local that is not needed

A method returns, and then would load a local.  The first time it is refreshed it gets slots for
that local, the second time it gets none. -/

namespace Departing

/-- The name of the class that all exceptions are objects of, that class, and the names of the
attributes. -/
def pool : Pool :=
  (((Pool.empty.push (.utf8 throwableName) (by decide)).push (.named .classRef 1) (by decide)).push
    (.utf8 (Bytes.ofAscii "Code")) (by decide)).push (.utf8 (Bytes.ofAscii "StackMapTable"))
    (by decide)

def head : MethodHead := ⟨Bytes.ofAscii "C", Bytes.ofAscii "m", Bytes.ofAscii "()V", true⟩

/-- A return, and what comes after it. -/
def body (rest : Instruction Mark) : Body :=
  { Body.new 3 with
    steps := [⟨⟨0⟩, .plain Opcode.returnVoid⟩, ⟨⟨1⟩, rest⟩]
    attributes := [.frames 4 []]
    nextMark := 2 }

/-- The load of a local that is never reached. -/
def load : Instruction Mark := .access Opcode.iload 5

def file : ClassFile := ⟨0, 52, pool, 0, 0, 0, [], [], [⟨8, 0, 0, [.code (body load)]⟩], []⟩

/-- The frames that are found: what comes after the return has none. -/
def frames : Array (Option Frame) := #[some ⟨[], []⟩, none]

/-- The body that is written, with slots for a number of locals. -/
def live (locals : UInt16) : Body :=
  { body (.plain Opcode.athrow) with maxStack := 1, maxLocals := locals }

def layout : Layout :=
  ⟨[0xb1, 0xbf], ((∅ : Std.HashMap Mark Nat).insert ⟨0⟩ 0).insert ⟨1⟩ 1, []⟩

/-- The sizes, the code, no handlers, and a table with one frame. -/
def encoded (locals : UInt16) : Bytes :=
  Bytes.ofUInt16 1 ++ Bytes.ofUInt16 locals ++ [0, 0, 0, 2, 0xb1, 0xbf] ++ [0, 0] ++
    [0, 1, 0, 4, 0, 0, 0, 6, 0, 1, 65, 7, 0, 2]

/-- The analysis finds the same frames whatever comes after the return. -/
theorem analyze_eq (rest : Instruction Mark) (hs : (body rest).localSlots ⟨[], []⟩ [] ≤ 65535) :
    (body rest).analyze head pool .unknown =
      .ok ⟨frames, 0, UInt16.ofNat ((body rest).localSlots ⟨[], []⟩ [])⟩ := by
  let course : Course := (body rest).plainCourse head pool .unknown
  have hd := (body rest).declared_plainCourse head pool .unknown
  have hsend : (Flow.start 2).send course 0 0 ⟨[], []⟩ = .ok ⟨frames, [0], #[true, false], 0⟩ :=
    Flow.send_of_unreached (hd 0) rfl
  have hvisit : Flow.visit course 0 ⟨⟨0⟩, .plain Opcode.returnVoid⟩ ⟨[], []⟩
      ⟨frames, [], #[false, false], 0⟩ = .ok ⟨frames, [], #[false, false], 0⟩ :=
    Flow.visit_eq_ok.mpr ⟨⟨[], []⟩, _, _, Scene.execute_plain rfl Opcode.effect?_returnVoid,
      rfl, rfl, rfl⟩
  have hsettle (fuel : Nat) : Flow.settle course (fuel + 1) ⟨frames, [0], #[true, false], 0⟩ =
      .ok ⟨frames, [], #[false, false], 0⟩ :=
    (Flow.settle_of_visit hvisit rfl rfl (by rfl)).trans
      (Flow.settle_of_nil frames #[false, false] 0 fuel)
  have hentry : head.entryFrame = .ok ⟨[], []⟩ := by decide +kernel
  exact Body.analyze_of_settle rfl rfl (by simp [body]) hentry hsend hsettle
    (Flow.le_budget (Nat.le_add_left 1 _)) (Nat.zero_le _) hs

theorem ofSteps_eq (locals : UInt16) : Layout.ofSteps pool (live locals).steps = .ok layout := by
  unfold Layout.ofSteps
  rw [Layout.within]
  simp only [Draft.extend, live, body, Draft.empty, Instruction.form]
  rfl

theorem hasDeadCode_eq (locals : UInt16) : Analysis.hasDeadCode ⟨frames, 0, locals⟩ = true := by
  simp [Analysis.hasDeadCode, frames]

theorem liveFrames_eq (locals : UInt16) : Analysis.liveFrames ⟨frames, 0, locals⟩ =
    #[some ⟨[], []⟩, some (Frame.catching [] throwableName)] := by
  unfold Analysis.liveFrames
  rw [if_pos (hasDeadCode_eq locals)]
  simp [Analysis.withDead, frames]

/-- The frame of what comes after the return has a throwable on the stack, whose class is in the
pool. -/
theorem frameAttribute_eq (locals : UInt16) :
    (live locals).frameAttribute (Analysis.liveFrames ⟨frames, 0, locals⟩) ⟨[], []⟩ layout pool =
      (.ok (some ⟨4, [0, 1, 65, 7, 0, 2]⟩), pool) := by
  have hoffset : layout.offset ⟨1⟩ = .ok 1 := by
    unfold Layout.offset Draft.find
    rw [show layout.placed[(⟨1⟩ : Mark)]? = some 1 from Std.HashMap.getElem?_insert_self]
  have hclass : Interning.classBytes throwableName pool = (.ok 2, pool) :=
    ExceptT.bind_eq_ok.mpr ⟨1, pool, Pool.add_of_findIdx?_eq_some rfl,
      Pool.add_of_findIdx?_eq_some rfl⟩
  have htype : layout.typeBytes (.object throwableName) pool = (.ok [7, 0, 2], pool) :=
    ExceptT.bind_eq_ok.mpr ⟨2, pool, hclass, rfl⟩
  have hchange : layout.changeBytes 1 (.sameOne (.object throwableName)) pool =
      (.ok [65, 7, 0, 2], pool) := ExceptT.bind_eq_ok.mpr ⟨[7, 0, 2], pool, htype, rfl⟩
  have hentries : layout.frameEntries [(1, ⟨1⟩, some (Frame.catching [] throwableName))] [] none
      pool = (.ok [[65, 7, 0, 2]], pool) :=
    ExceptT.bind_eq_ok.mpr ⟨1, pool, ExceptT.lift_eq_ok.mpr ⟨hoffset, rfl⟩,
      ExceptT.bind_eq_ok.mpr ⟨[65, 7, 0, 2], pool, hchange, rfl⟩⟩
  have hneeded : (live locals).needsFrame layout.landings = [1] := rfl
  have htable : (live locals).frameTable (Analysis.liveFrames ⟨frames, 0, locals⟩) ⟨[], []⟩ layout
      pool = (.ok (some [0, 1, 65, 7, 0, 2]), pool) := by
    unfold Body.frameTable
    rw [hneeded, liveFrames_eq]
    exact ExceptT.bind_eq_ok.mpr ⟨[[65, 7, 0, 2]], pool, hentries, rfl⟩
  exact ExceptT.bind_eq_ok.mpr ⟨some [0, 1, 65, 7, 0, 2], pool, htable, rfl⟩

theorem bytes_eq (locals : UInt16) :
    (live locals).touch.bytes layout (some ⟨4, [0, 1, 65, 7, 0, 2]⟩) = .ok (encoded locals) := by
  have hcode : Bytes.block layout.code = .ok [0, 0, 0, 2, 0xb1, 0xbf] := rfl
  have hattributes : Bytes.listOf RawAttribute.bytes [⟨4, [0, 1, 65, 7, 0, 2]⟩] =
      .ok [0, 1, 0, 4, 0, 0, 0, 6, 0, 1, 65, 7, 0, 2] := rfl
  exact Except.bind_eq_ok.mpr ⟨_, hcode, Except.bind_eq_ok.mpr ⟨[], rfl, Except.bind_eq_ok.mpr
    ⟨[0, 0], rfl, Except.bind_eq_ok.mpr ⟨_, rfl, Except.bind_eq_ok.mpr ⟨_, hattributes, rfl⟩⟩⟩⟩⟩

/-- The body that is written, with its bytes. -/
def written (locals : UInt16) : Body :=
  { (live locals).touch with encoded := some (encoded locals) }

/-- The body is written with slots for all locals that it names, dead or not, whatever its sizes
were. -/
theorem isRefreshed (rest : Instruction Mark) {locals : UInt16} (maxStack maxLocals : UInt16)
    (modified : Bool) (hs : (body rest).localSlots ⟨[], []⟩ [] ≤ 65535)
    (hl : UInt16.ofNat ((body rest).localSlots ⟨[], []⟩ []) = locals) :
    Body.IsRefreshed 52 head .unknown pool pool
      { body rest with maxStack := maxStack, maxLocals := maxLocals, modified := modified }
      (written locals) := by
  have hanalysis := analyze_eq rest hs
  rw [hl] at hanalysis
  have hlive : Body.live
      { body rest with maxStack := maxStack, maxLocals := maxLocals, modified := modified }
      ⟨frames, 0, locals⟩ = (live locals).touch := by
    unfold Body.live
    rw [if_pos (hasDeadCode_eq locals), if_pos (hasDeadCode_eq locals)]
    rfl
  refine ⟨_, layout, some ⟨4, [0, 1, 65, 7, 0, 2]⟩, encoded locals, hanalysis, ?_, ?_, ?_, ?_⟩
  · rw [hlive]
    exact ofSteps_eq locals
  · rw [if_neg (by decide), hlive]
    exact ⟨⟨[], []⟩, by decide +kernel, frameAttribute_eq locals⟩
  · rw [hlive]
    exact bytes_eq locals
  · rw [hlive]
    rfl

theorem refreshBody_eq : ClassFile.refreshBody 0 head .unknown (body load) file =
    (.ok (), file.setBody 0 (written 6)) := by
  have hlocals : UInt16.ofNat ((body load).localSlots ⟨[], []⟩ []) = 6 := by decide
  exact ClassFile.refreshBody_of_isRefreshed (isRefreshed load 0 0 true (by decide) hlocals)

theorem isTidy : (body load).IsTidy pool := by
  refine ⟨⟨by decide, by decide, by decide⟩, by decide +kernel, fun item hitem => ?_⟩
  obtain rfl := List.mem_singleton.mp hitem
  show pool.utf8 4 = some (Bytes.ofAscii "StackMapTable")
  decide +kernel

theorem live_eq : (body load).live ⟨frames, 0, 6⟩ = (live 6).touch := by
  unfold Body.live
  rw [if_pos (hasDeadCode_eq 6), if_pos (hasDeadCode_eq 6)]
  rfl

/-- Nothing follows the return, so no frame arrives but the first one. -/
theorem isFaithful {course : Course} (h : (live 6).touch.HasCourse head pool .unknown ⟨[], []⟩ course) :
    course.IsFaithful ⟨[], []⟩ frames [1] := by
  have hsends {target : Nat} {sent : Frame} (hs : course.Sends ⟨[], []⟩ frames target sent) :
      target = 0 ∧ sent = ⟨[], []⟩ := by
    cases hs with
    | entry => exact ⟨rfl, rfl⟩
    | @edge index _ step _ _ _ hstep hframe _ hedge =>
      rw [h.scene, List.getElem?_toArray] at hstep
      match index with
      | 0 =>
        obtain rfl := Option.some.inj hstep
        cases hedge with
        | jump hm => nomatch hm
        | next hf => nomatch hf
        | thrownBefore hr | thrownAfter hr =>
          have hnone : course.handlers = [] := (Except.ok.inj h.handlers).symm
          rw [hnone] at hr
          nomatch hr
      | 1 => nomatch hframe
      | index + 2 => nomatch hframe
  refine ⟨fun target sent held hs _ hheld => ?_, fun index held slot hindex hheld => ?_,
    fun target sent held slot hs _ hthis => ?_⟩
  · obtain ⟨rfl, rfl⟩ := hsends hs
    obtain rfl := Option.some.inj (Option.some.inj hheld)
    exact ⟨.nil, fun _ => rfl⟩
  · obtain rfl := List.mem_singleton.mp hindex
    nomatch hheld
  · obtain ⟨-, rfl⟩ := hsends hs
    nomatch hthis

/-- Nothing is lost when the body is written. -/
theorem losesNothing (analysis : Analysis) (entry : Frame) (layout : Layout)
    (ha : (body load).analyze head pool .unknown = .ok analysis)
    (hentry : head.entryFrame = .ok entry)
    (hl : Layout.ofSteps pool ((body load).live analysis).steps = .ok layout) :
    (body load).LosesNothing head .unknown pool analysis entry layout := by
  have hlocals : UInt16.ofNat ((body load).localSlots ⟨[], []⟩ []) = 6 := by decide
  have hanalysis := analyze_eq load (by decide)
  rw [hlocals] at hanalysis
  obtain rfl := Except.ok.inj (hanalysis.symm.trans ha)
  rw [live_eq] at hl
  obtain rfl := Except.ok.inj ((ofSteps_eq 6).symm.trans hl)
  have hfirst : head.entryFrame = .ok ⟨[], []⟩ := by decide +kernel
  obtain rfl := Except.ok.inj (hfirst.symm.trans hentry)
  refine ⟨fun index frame hframe => ?_, ?_, .inl rfl, fun course hcourse => ?_⟩
  · match index with
    | 0 =>
      obtain rfl := Option.some.inj (Option.some.inj hframe)
      exact ⟨FrameType.paired_nil, FrameType.paired_nil⟩
    | 1 => nomatch hframe
    | index + 2 => nomatch hframe
  · rw [live_eq]
    nofun
  · rw [live_eq] at hcourse ⊢
    exact isFaithful hcourse

theorem isEncodedBy : (body load).IsEncodedBy head .unknown pool pool ⟨frames, 0, 6⟩ ⟨[], []⟩ layout
    (some ⟨4, [0, 1, 65, 7, 0, 2]⟩) (encoded 6) := by
  have hlocals : UInt16.ofNat ((body load).localSlots ⟨[], []⟩ []) = 6 := by decide
  have hanalysis := analyze_eq load (by decide)
  rw [hlocals] at hanalysis
  refine ⟨hanalysis, by decide +kernel, ?_, ?_, ?_⟩
  · rw [live_eq]
    exact ofSteps_eq 6
  · rw [live_eq]
    exact frameAttribute_eq 6
  · rw [live_eq]
    exact bytes_eq 6

theorem repeatsBody : ClassFile.RepeatsBody 0 head .unknown (file.setBody 0 (written 6)) (written 6)
    fun locals => IsLeast {limit | (body load).SlotsSuffice ⟨frames, 0, 6⟩ ⟨[], []⟩ layout limit}
      locals.toNat := by
  have hrepeats := @ClassFile.repeatsBody 0 head .unknown (body load) (file.setBody 0 (written 6))
    pool _ _ _ _ _ isEncodedBy (.inl rfl) trivial (show framesVersion ≤ 52 by decide) isTidy
    (losesNothing _ _ _ isEncodedBy.analyzed isEncodedBy.starts isEncodedBy.laid)
  rw [live_eq] at hrepeats
  exact hrepeats

/-- The body is written, and what is read back is written again. -/
theorem refreshBody_reread_departing :
    (Hierarchy.unknown.IsBuilt ∧ Hierarchy.unknown.HasClassSupers ∧
      framesVersion ≤ file.majorVersion ∧ (body load).IsTidy file.pool ∧
      (∀ analysis entry layout, (body load).analyze head file.pool .unknown = .ok analysis →
        head.entryFrame = .ok entry →
        Layout.ofSteps file.pool ((body load).live analysis).steps = .ok layout →
        (body load).LosesNothing head .unknown (file.setBody 0 (written 6)).pool analysis entry
          layout) ∧
      ClassFile.refreshBody 0 head .unknown (body load) file =
        (.ok (), file.setBody 0 (written 6))) ∧
    ∃ analysis entry layout again,
      (body load).analyze head file.pool .unknown = .ok analysis ∧
      head.entryFrame = .ok entry ∧
      Layout.ofSteps file.pool ((body load).live analysis).steps = .ok layout ∧
      ClassFile.RepeatsBody 0 head .unknown (file.setBody 0 (written 6)) again
        fun locals => IsLeast {limit | (body load).SlotsSuffice analysis entry layout limit}
          locals.toNat := by
  have hversion : framesVersion ≤ file.majorVersion := by decide
  refine ⟨⟨.inl rfl, trivial, hversion, isTidy, losesNothing, refreshBody_eq⟩, ?_⟩
  obtain ⟨analysis, entry, layout, again, hanalysis, hentry, hlayout, -, hrepeats, -⟩ :=
    ClassFile.refreshBody_reread (.inl rfl) trivial hversion isTidy losesNothing refreshBody_eq
  exact ⟨analysis, entry, layout, again, hanalysis, hentry, hlayout, hrepeats⟩

/-- The first time the body is written with slots for six locals.  What is read back is written with
none. -/
theorem exists_reread_ne : ∃ (first second again : Body) (last : Cursor) (bytes : Bytes),
    ClassFile.refreshBody 0 head .unknown (body load) file = (.ok (), file.setBody 0 first) ∧
    first.encoded = some bytes ∧
    Body.read 3 pool ⟨bytes, 0⟩ = .ok (again, last) ∧
    ClassFile.refreshBody 0 head .unknown again.touch (file.setBody 0 first) =
      (.ok (), (file.setBody 0 first).setBody 0 second) ∧
    second.encoded ≠ some bytes := by
  -- what is left names no local
  have hnone : (body load).SlotsSuffice ⟨frames, 0, 6⟩ ⟨[], []⟩ layout 0 := by
    refine ⟨?_, fun index hindex frame hframe => ?_⟩
    · rw [live_eq]
      decide
    · rw [live_eq] at hindex
      obtain rfl : index = 1 := List.mem_singleton.mp hindex
      rw [liveFrames_eq] at hframe
      obtain rfl := Option.some.inj (Option.some.inj hframe)
      exact Nat.le_refl 0
  obtain ⟨bytes, again, last, second, hencoded, hread, hrefresh, hne⟩ := repeatsBody.exists_ne
    fun hleast => absurd (hleast.2 hnone) (by decide)
  exact ⟨written 6, second, again, last, bytes, refreshBody_eq, hencoded, hread, hrefresh, hne⟩

end Departing

end ClassGraft

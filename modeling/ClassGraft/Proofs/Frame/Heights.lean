import ClassGraft.Proofs.Class.DeadCode
import ClassGraft.Proofs.Frame.Halves
import ClassGraft.Proofs.Frame.Invariants
import ClassGraft.Proofs.Frame.Words

/-!
# The sizes that code needs

The stack is as high before an instruction as on every path that control takes to it
(`Body.Climbs`), since merging and fitting frames change no heights.  The sizes that an analysis
gives are enough for all of these stacks, before and after each instruction, and for all slots that
arguments, instructions and frames use (`Body.suffices_of_analyze`).  No fewer words are enough for
the stacks (`Body.maxStack_le`).
-/

namespace ClassGraft

/-! ### Heights of frames that arrive -/

/-- Whether two frames are equally high, and the second one has no more locals. -/
structure Frame.Shrinks (lower upper : Frame) : Prop where
  height : upper.stack.length = lower.stack.length
  locals : upper.locals.length ≤ lower.locals.length

/-- Merging changes no heights, and adds no locals. -/
theorem Frame.isAscent_shrinks (hierarchy : Hierarchy) : IsAscent hierarchy Shrinks := by
  refine ⟨fun _ => ⟨rfl, le_refl _⟩, fun h h' => ⟨h'.height.trans h.height,
    h'.locals.trans h.locals⟩, fun {old new merged} h => ?_⟩
  obtain ⟨hl, words, hw, rfl⟩ := merge_eq_ok.mp h
  have hheight : words.reverse.length = old.stack.length := by
    rw [List.length_reverse, ← hw.length_eq, List.length_zip, fromBottom, fromBottom,
      List.length_reverse, List.length_reverse, ← hl, Nat.min_self]
  have hlocals := length_trim_le (FrameType.dropHalves
    (List.zipWith hierarchy.meetLocal old.locals new.locals))
  rw [length_dropHalves, List.length_zipWith] at hlocals
  obtain ⟨hold, hnew⟩ := le_min_iff.mp hlocals
  exact ⟨⟨hheight, hold⟩, ⟨hheight.trans hl, hnew⟩⟩

namespace Flow

variable {course : Course} {flow flow' : Flow}

/-- What is held is as high as what was sent. -/
theorem Accounts.height_eq {target : Nat} {sent held : Frame}
    (h : Accounts Frame.Shrinks course target sent held) :
    held.stack.length = sent.stack.length := by
  unfold Accounts at h
  split at h
  · exact h.height
  · obtain ⟨fitted, hfit, hheld⟩ := h
    obtain ⟨hnone, rfl⟩ := Frame.fit_eq_ok.mp hfit
    exact hheld.height.trans (Frame.fits_of_misfit?_eq_none hnone).stack.length_eq.symm

/-- What is held has no more locals than what was sent and the declared frame. -/
theorem Accounts.locals_le {target slots : Nat} {sent held : Frame}
    (h : Accounts Frame.Shrinks course target sent held) (hs : sent.locals.length ≤ slots)
    (hd : ∀ declared, course.declared[target]? = some declared →
      declared.locals.length ≤ slots) : held.locals.length ≤ slots := by
  unfold Accounts at h
  split at h
  · exact h.locals.trans hs
  · rename_i declared hdeclared
    obtain ⟨fitted, hfit, hheld⟩ := h
    obtain ⟨-, rfl⟩ := Frame.fit_eq_ok.mp hfit
    refine hheld.locals.trans ((Frame.length_trim_le _).trans ?_)
    have hslots := hd declared hdeclared
    rw [List.length_append, List.length_drop]
    omega

/-! ### Runs -/

theorem height_send {origin target : Nat} {sent : Frame}
    (h : flow.send course origin target sent = .ok flow') : flow'.height = flow.height := by
  have hset (frame : Frame) : (flow.set target frame).height = flow.height := by
    unfold set
    dsimp only
    split_ifs <;> rfl
  obtain ⟨fitted, -, h⟩ := arrive_eq_ok.mp (Except.mapError_eq_ok.mp h)
  split at h
  · exact h ▸ hset fitted
  · obtain ⟨merged, -, rfl⟩ := h
    split_ifs
    · rfl
    · exact hset merged

theorem height_throwFrom {origin : Nat} {before after : Frame} {handlers : List HandlerRange}
    (h : flow.throwFrom course origin before after handlers = .ok flow') :
    flow.height ≤ flow'.height :=
  keeps_of_throwFrom (I := fun reached => flow.height ≤ reached.height)
    (fun _ hle => hle.trans (le_max_left _ _))
    (fun _ _ _ _ _ _ _ hle hsend => hle.trans (height_send hsend).symm.le) (le_refl _) h

theorem height_jumpFrom {origin : Nat} {after : Frame} {targets : List Mark}
    (h : flow.jumpFrom course origin after targets = .ok flow') : flow'.height = flow.height :=
  keeps_of_jumpFrom (I := fun reached => reached.height = flow.height)
    (fun _ _ _ _ _ _ heq hsend => (height_send hsend).trans heq) rfl h

/-- A visit counts the words before the instruction and after it. -/
theorem height_visit {origin : Nat} {step : Step} {before : Frame}
    (h : flow.visit course origin step before = .ok flow') :
    flow.height ≤ flow'.height ∧ before.stack.length ≤ flow'.height ∧
      ∀ after, course.scene.execute step before = .ok after →
        after.stack.length ≤ flow'.height := by
  obtain ⟨after, thrown, jumped, hexecute, hthrow, hjump, h⟩ := visit_eq_ok.mp h
  have hlast : flow'.height = jumped.height := by
    split_ifs at h
    · exact height_send h.2
    · rw [h]
  have hcounted := (height_throwFrom hthrow).trans
    ((height_jumpFrom hjump).symm.le.trans hlast.symm.le)
  obtain ⟨hfirst, hafter⟩ := max_le_iff.mp hcounted
  obtain ⟨hflow, hbefore⟩ := max_le_iff.mp hfirst
  refine ⟨hflow, hbefore, fun other hother => ?_⟩
  obtain rfl := Except.ok.inj (hexecute.symm.trans hother)
  exact hafter

/-- Whether the words before and after every instruction with a frame were counted, unless it is
pending. -/
structure IsCounted (course : Course) (flow : Flow) : Prop where
  valid : Valid course flow
  counted : ∀ index step before, course.scene.steps[index]? = some step →
    flow.frameAt? index = some before → index ∈ flow.pending ∨
      before.stack.length ≤ flow.height ∧ ∀ after, course.scene.execute step before = .ok after →
        after.stack.length ≤ flow.height

/-- A turn counts the words of the instruction that it visits; one whose frame changes is pending
again. -/
theorem Turn.isCounted {R : Frame → Frame → Prop} (hs : course.IsSound R)
    (hc : flow.IsCounted course) (h : Turn course flow flow') : flow'.IsCounted course := by
  cases h with
  | @visit origin rest frames isPending height step before _ hstep hbefore hvisit =>
    have ho : origin < course.scene.steps.size := (Array.getElem?_eq_some_iff.mp hstep).1
    obtain ⟨hvalid, hrises, -⟩ := visit_spec hs (valid_pop hc.valid) ho hvisit
    obtain ⟨hheight, hcounted⟩ := height_visit hvisit
    refine ⟨hvalid, fun index step' before' hstep' hbefore' => ?_⟩
    -- A frame that the visit left as it was is counted: the one visited now, the others already,
    -- and the height only grows.
    by_cases hsame : flow'.frameAt? index = (frames[index]?).join
    · rw [hsame] at hbefore'
      by_cases he : index = origin
      · subst he
        obtain rfl := Option.some.inj (hstep.symm.trans hstep')
        obtain rfl := Option.some.inj (hbefore.symm.trans hbefore')
        exact .inr hcounted
      · refine (hc.counted index step' before' hstep' hbefore').imp (fun hin => ?_) fun hold => ?_
        · exact hrises.pending index ((List.mem_cons.mp hin).resolve_left he)
        · exact ⟨hold.1.trans hheight, fun after ha => (hold.2 after ha).trans hheight⟩
    · exact .inl (hrises.changed index hsame)
  | @skip origin rest frames isPending height hnone =>
    refine ⟨valid_pop hc.valid, fun index step before hstep hbefore => ?_⟩
    refine (hc.counted index step before hstep hbefore).imp_left fun hin => ?_
    refine (List.mem_cons.mp hin).resolve_left ?_
    rintro rfl
    exact hnone step before hstep hbefore

end Flow

/-! ### Paths -/

namespace Body

/-- The indices at which the range of a handler starts and stops. -/
def rangeOf? (body : Body) (handler : Handler) : Option (Nat × Nat) := do
  let start ← body.positions[handler.start]?
  let stop ← match handler.stop with
    | .at mark => body.positions[mark]?
    | .finish => some body.steps.length
  return (start, stop)

/-- How high the stack is before an instruction on a path from the first one. -/
inductive Climbs (body : Body) (pool : Pool) : Nat → Nat → Prop
  | first : Climbs body pool 0 0
  | jump {index height target : Nat} {step : Step} {words : Nat × Nat} {mark : Mark}
      (h : Climbs body pool index height) (hs : body.steps[index]? = some step)
      (hw : step.instruction.words? pool = some words) (hm : mark ∈ step.instruction.targets)
      (ht : body.positions[mark]? = some target) :
      Climbs body pool target (height - words.1 + words.2)
  | next {index height : Nat} {step : Step} {words : Nat × Nat}
      (h : Climbs body pool index height) (hs : body.steps[index]? = some step)
      (hw : step.instruction.words? pool = some words)
      (hf : step.instruction.fallsThrough = true) :
      Climbs body pool (index + 1) (height - words.1 + words.2)
  /-- A handler finds nothing but the exception on the stack. -/
  | caught {index height target : Nat} {handler : Handler} {range : Nat × Nat}
      (h : Climbs body pool index height) (hh : handler ∈ body.handlers)
      (hr : body.rangeOf? handler = some range) (hi : range.1 ≤ index ∧ index < range.2)
      (ht : body.positions[handler.entry]? = some target) : Climbs body pool target 1

end Body

/-- Whether the sizes that an analysis found are enough for a body in a method. -/
structure Analysis.Suffices (analysis : Analysis) (body : Body) (head : MethodHead) (pool : Pool) :
    Prop where
  /-- The frame before an instruction is as high as the stack on each path to it, and there is none
  where no path leads. -/
  frames : ∀ index height, body.Climbs pool index height ↔
    ∃ frame, analysis.frames[index]? = some (some frame) ∧ frame.stack.length = height
  /-- All paths to an instruction agree. -/
  heights : ∀ index height height', body.Climbs pool index height →
    body.Climbs pool index height' → height = height'
  /-- An instruction finds the words that it takes, and the stack fits before it and after it. -/
  stack : ∀ index height step, body.Climbs pool index height → body.steps[index]? = some step →
    ∃ words, step.instruction.words? pool = some words ∧ words.1 ≤ height ∧
      height ≤ analysis.maxStack.toNat ∧ height - words.1 + words.2 ≤ analysis.maxStack.toNat
  /-- Where exceptions go on that an instruction may throw, the stack has one word, which fits. -/
  handlers : ∀ index height handler range target, body.Climbs pool index height →
    handler ∈ body.handlers → body.rangeOf? handler = some range →
    range.1 ≤ index ∧ index < range.2 → body.positions[handler.entry]? = some target →
    1 ≤ analysis.maxStack.toNat ∧
      ∃ frame, analysis.frames[target]? = some (some frame) ∧ frame.stack.length = 1
  /-- The slots that instructions name are there, also those of instructions that no path
  reaches. -/
  accessed : ∀ step ∈ body.steps, ∀ slot ∈ step.instruction.slots,
    slot < analysis.maxLocals.toNat
  /-- There is room for the receiver and the arguments. -/
  arguments : ∃ type, Descriptor.method? head.descriptor = some type ∧
    (if head.isStatic then 0 else 1) + (type.arguments.map ValueType.size).sum ≤
      analysis.maxLocals.toNat
  /-- There is room for the locals of every frame that was found. -/
  locals : ∀ (index : Nat) frame, analysis.frames[index]? = some (some frame) →
    frame.locals.length ≤ analysis.maxLocals.toNat
  /-- There is room for the locals of every frame that is declared. -/
  declared : ∀ entry rows, head.entryFrame = .ok entry → body.declaredFramesFrom entry = .ok rows →
    ∀ (index : Nat) frame, (Body.framesByIndex body.positions rows)[index]? = some frame →
      frame.locals.length ≤ analysis.maxLocals.toNat

namespace Body

variable {body : Body} {head : MethodHead} {pool : Pool} {hierarchy : Hierarchy}
  {analysis : Analysis} {entry : Frame} {course : Course}

/-! ### The sizes that are found -/

theorem HasCourse.eq_of_mem (h : body.HasCourse head pool hierarchy entry course)
    {handler : Handler} {range : HandlerRange} (hr : IsRangeOf course.scene handler range) :
    body.rangeOf? handler = some (range.start, range.stop) ∧
      body.positions[handler.entry]? = some range.entry := by
  have hpositions : course.scene.positions = body.positions := by rw [h.scene]
  have hstart := Scene.position_eq_ok.mp hr.start
  have hstop := hr.stop
  have hentry := Scene.position_eq_ok.mp hr.entry
  rw [hpositions] at hstart hentry
  refine ⟨?_, hentry⟩
  rw [rangeOf?, hstart]
  cases hplace : handler.stop with
  | «at» mark =>
    rw [hplace] at hstop
    have hfound := Scene.position_eq_ok.mp hstop
    rw [hpositions] at hfound
    simp [hfound]
  | finish =>
    rw [hplace] at hstop
    simp [hstop, h.scene]

theorem le_localSlots (body : Body) (entry : Frame) (declared : List Frame) :
    entry.locals.length ≤ body.localSlots entry declared ∧
      (∀ step ∈ body.steps, slotsOf step.instruction ≤ body.localSlots entry declared) ∧
      ∀ frame ∈ declared, frame.locals.length ≤ body.localSlots entry declared := by
  obtain ⟨hsteps, hdeclared⟩ := foldl_max_le.mp (le_refl (body.localSlots entry declared))
  obtain ⟨hentry, hslots⟩ := foldl_max_le.mp hsteps
  exact ⟨hentry, hslots, hdeclared⟩

/-- The sizes that are given are those that were counted, without a wrap at 65536. -/
theorem sizes_of_analyze (h : body.analyze head pool hierarchy = .ok analysis) :
    ∃ entry course, body.HasCourse head pool hierarchy entry course ∧
      analysis.maxLocals.toNat = body.localSlots entry course.declared.values ∧
      ∀ (index : Nat) step before after, body.steps[index]? = some step →
        analysis.frames[index]? = some (some before) →
        course.scene.execute step before = .ok after →
        before.stack.length ≤ analysis.maxStack.toNat ∧
          after.stack.length ≤ analysis.maxStack.toNat := by
  obtain ⟨hne, entry, rows, handlers, first, last, hentry, hrows, hhandlers, hfirst, hlast,
    hheight, hslots, rfl⟩ := analyze_eq_ok.mp h
  have hcourse : body.HasCourse head pool hierarchy entry
      ⟨⟨pool, hierarchy, head, body.steps.toArray, body.positions⟩, handlers,
        framesByIndex body.positions rows⟩ :=
    ⟨hentry, rfl, hhandlers, rows, hrows, rfl⟩
  refine ⟨entry, _, hcourse, UInt16.toNat_ofNat_of_lt' (Nat.lt_succ_of_le hslots), ?_⟩
  have hs := hcourse.isSound (Frame.isAscent_shrinks hierarchy)
  obtain ⟨hvalid, hrises, -⟩ := Flow.send_spec hs Flow.valid_start (hcourse.size_pos hne)
    (hcourse.send_start hfirst)
  have hbegun : first.IsCounted _ := ⟨hvalid, fun index _ _ _ hbefore =>
    .inl (hrises.changed index (by rw [hbefore, Flow.frameAt?_start]; simp))⟩
  obtain ⟨hcounted, hnil⟩ := Flow.keeps_of_settle
    (fun _ _ hc hturn => Flow.Turn.isCounted hs hc hturn) hbegun hlast
  intro index step before after hstep hbefore hexecute
  rw [← List.getElem?_toArray] at hstep
  obtain ⟨hlow, hhigh⟩ := (hcounted.counted index step before hstep
    (Flow.frameAt?_eq_some.mpr hbefore)).resolve_left (by simp [hnil])
  rw [UInt16.toNat_ofNat_of_lt' (Nat.lt_succ_of_le hheight)]
  exact ⟨hlow, hhigh after hexecute⟩

theorem length_expand (types : List FrameType) :
    (FrameType.expand types).length = (types.map FrameType.size).sum := by
  induction types with
  | nil => rfl
  | cons type types ih =>
    rw [FrameType.expand_cons, List.map_cons, List.sum_cons, ← ih, FrameType.size]
    split_ifs
    · exact List.length_append
    · exact List.length_append

theorem length_entryFrame (h : head.entryFrame = .ok entry) :
    ∃ type, Descriptor.method? head.descriptor = some type ∧ entry.locals.length =
      (if head.isStatic then 0 else 1) + (type.arguments.map ValueType.size).sum := by
  unfold MethodHead.entryFrame at h
  split at h
  · nomatch h
  · rename_i type htype
    obtain rfl := Except.ok.inj h
    refine ⟨type, htype, ?_⟩
    have hsizes : FrameType.size ∘ FrameType.ofValue = ValueType.size :=
      funext FrameType.size_ofValue
    have harguments := length_expand (type.arguments.map FrameType.ofValue)
    rw [List.map_map, hsizes] at harguments
    dsimp only
    split_ifs
    · rw [harguments, Nat.zero_add]
    · rw [List.length_cons, harguments, Nat.add_comm]

/-! ### Paths and frames -/

theorem HasCourse.pool_eq (h : body.HasCourse head pool hierarchy entry course) :
    course.scene.pool = pool := by
  rw [h.scene]

theorem HasCourse.position_eq_ok (h : body.HasCourse head pool hierarchy entry course)
    {mark : Mark} {index : Nat} :
    course.scene.position mark = .ok index ↔ body.positions[mark]? = some index := by
  rw [Scene.position_eq_ok, h.scene]

/-- A frame that is found is as high as the stack on some path to it. -/
theorem climbs_of_frame (h : body.analyze head pool hierarchy = .ok analysis) {index : Nat}
    {frame : Frame} (hf : analysis.frames[index]? = some (some frame)) :
    body.Climbs pool index frame.stack.length := by
  have hr := Frame.isAscent_shrinks hierarchy
  obtain ⟨entry, course, -, hcourse, -⟩ := settled_of_analyze hr h
  refine frames_induction hr h hcourse
    (Q := fun index frame => body.Climbs pool index frame.stack.length) ?_ ?_ hf
  · intro held _ ha
    rw [ha.height_eq, MethodHead.stack_entryFrame hcourse.starts]
    exact .first
  · intro index step before after target sent held hstep _ hbefore hexecute hedge _ ha
    obtain ⟨words, hwords, hmoves⟩ := Scene.words_of_execute hexecute
    rw [hcourse.pool_eq] at hwords
    rw [hcourse.getElem?_steps] at hstep
    -- What is thrown stands alone on the stack of the handler, whatever was there before.
    have hcaught {range : HandlerRange} (hr : range ∈ course.handlers)
        (hi : range.start ≤ index ∧ index < range.stop) : body.Climbs pool range.entry 1 := by
      obtain ⟨handler, hh, hrange⟩ := exists_of_mem_handlerRanges hcourse.handlers hr
      obtain ⟨hrange, hentry⟩ := hcourse.eq_of_mem hrange
      exact .caught hbefore hh hrange hi hentry
    rw [ha.height_eq]
    cases hedge with
    | jump hm ht =>
      rw [hmoves.height]
      exact .jump hbefore hstep hwords hm (hcourse.position_eq_ok.mp ht)
    | next hf =>
      rw [hmoves.height]
      exact .next hbefore hstep hwords hf
    | thrownBefore hr hi => exact hcaught hr hi
    | thrownAfter hr hi => exact hcaught hr hi

/-- An instruction with a frame moves the words that it says, and where it leads there is a frame as
high as the one that it sends. -/
theorem exists_sent (h : body.analyze head pool hierarchy = .ok analysis)
    (hcourse : body.HasCourse head pool hierarchy entry course) {index : Nat} {step : Step}
    {before : Frame} (hs : body.steps[index]? = some step)
    (hbefore : analysis.frames[index]? = some (some before)) :
    ∃ after words, step.instruction.words? pool = some words ∧ before.Moves after words ∧
      ∀ target sent, course.Edge index step before after target sent →
        ∃ frame, analysis.frames[target]? = some (some frame) ∧
          frame.stack.length = sent.stack.length := by
  obtain ⟨entry', course', flow, hcourse', hframes, -, -, hpassed⟩ :=
    settled_of_analyze (Frame.isAscent_shrinks hierarchy) h
  obtain ⟨rfl, rfl⟩ := hcourse.unique hcourse'
  obtain ⟨after, hexecute, -, -, harrived⟩ := hpassed index step before
    ((hcourse.getElem?_steps index).trans hs) (Flow.frameAt?_eq_some.mpr (hframes ▸ hbefore))
  obtain ⟨words, hwords, hmoves⟩ := Scene.words_of_execute hexecute
  rw [hcourse.pool_eq] at hwords
  refine ⟨after, words, hwords, hmoves, fun target sent hedge => ?_⟩
  obtain ⟨held, hheld, ha⟩ := harrived target sent hedge
  exact ⟨held, hframes ▸ Flow.frameAt?_eq_some.mp hheld, ha.height_eq⟩

/-- There is a frame where a path leads, which is as high as the stack on it. -/
theorem exists_frame_of_climbs (h : body.analyze head pool hierarchy = .ok analysis)
    {index height : Nat} (hc : body.Climbs pool index height) :
    ∃ frame, analysis.frames[index]? = some (some frame) ∧ frame.stack.length = height := by
  obtain ⟨entry, course, flow, hcourse, hframes, -, hstart, -⟩ :=
    settled_of_analyze (Frame.isAscent_shrinks hierarchy) h
  -- along the path, each frame is there by what the one before it sends
  induction hc with
  | first =>
    obtain ⟨held, hheld, ha⟩ := hstart
    refine ⟨held, hframes ▸ Flow.frameAt?_eq_some.mp hheld, ha.height_eq.trans ?_⟩
    rw [MethodHead.stack_entryFrame hcourse.starts]
    rfl
  | jump _ hs hw hm ht ih =>
    obtain ⟨before, hbefore, rfl⟩ := ih
    obtain ⟨after, words, hwords, hmoves, hsent⟩ := exists_sent h hcourse hs hbefore
    obtain rfl := Option.some.inj (hw.symm.trans hwords)
    rw [← hmoves.height]
    exact hsent _ _ (.jump hm (hcourse.position_eq_ok.mpr ht))
  | next _ hs hw hf ih =>
    obtain ⟨before, hbefore, rfl⟩ := ih
    obtain ⟨after, words, hwords, hmoves, hsent⟩ := exists_sent h hcourse hs hbefore
    obtain rfl := Option.some.inj (hw.symm.trans hwords)
    rw [← hmoves.height]
    exact hsent _ _ (.next hf)
  | @caught index height target handler range _ hh hrange hi ht ih =>
    obtain ⟨before, hbefore, rfl⟩ := ih
    obtain ⟨found, hfound, hr⟩ := exists_of_mem_left (handlerRanges_eq_ok.mp hcourse.handlers) hh
    obtain ⟨heq, hentry⟩ := hcourse.eq_of_mem hr
    obtain rfl := Option.some.inj (heq.symm.trans hrange)
    obtain rfl := Option.some.inj (hentry.symm.trans ht)
    have hlt : index < body.steps.length := by
      have hlt := (Array.getElem?_eq_some_iff.mp hbefore).1
      rwa [(goesOn_of_analyze h).1] at hlt
    obtain ⟨after, words, -, -, hsent⟩ :=
      exists_sent h hcourse (List.getElem?_eq_getElem hlt) hbefore
    exact hsent _ _ (.thrownBefore hfound hi)

/-- No frame has locals beyond those that are counted. -/
theorem locals_of_frame (h : body.analyze head pool hierarchy = .ok analysis)
    (hcourse : body.HasCourse head pool hierarchy entry course) {index : Nat} {frame : Frame}
    (hf : analysis.frames[index]? = some (some frame)) :
    frame.locals.length ≤ body.localSlots entry course.declared.values := by
  obtain ⟨hentry, hsteps, hdeclared⟩ := body.le_localSlots entry course.declared.values
  have hrows (target : Nat) (declared : Frame) (hd : course.declared[target]? = some declared) :
      declared.locals.length ≤ body.localSlots entry course.declared.values :=
    hdeclared declared (mem_values.mpr ⟨_, hd⟩)
  refine frames_induction (Frame.isAscent_shrinks hierarchy) h hcourse
    (Q := fun _ frame => frame.locals.length ≤ body.localSlots entry course.declared.values)
    (fun held _ ha => ha.locals_le hentry (hrows 0)) ?_ hf
  intro index step before after target sent held hstep _ hbefore hexecute hedge _ ha
  rw [hcourse.getElem?_steps] at hstep
  have hafter : after.locals.length ≤ body.localSlots entry course.declared.values :=
    (Scene.length_locals_of_execute hexecute).trans
      (max_le hbefore (hsteps step (List.mem_of_getElem? hstep)))
  refine ha.locals_le ?_ (hrows target)
  cases hedge with
  | jump => exact hafter
  | next => exact hafter
  | thrownBefore => exact hbefore
  | thrownAfter => exact hafter

/-- The sizes that an analysis gives are enough for the code, whatever the hierarchy is. -/
theorem suffices_of_analyze (h : body.analyze head pool hierarchy = .ok analysis) :
    analysis.Suffices body head pool := by
  obtain ⟨entry, course, hcourse, hlocals, hcounted⟩ := sizes_of_analyze h
  obtain ⟨hentry, hsteps, hdeclared⟩ := body.le_localSlots entry course.declared.values
  rw [← hlocals] at hentry hsteps hdeclared
  -- Every instruction with a frame can be executed, since the run has visited it in the end.
  have hexecuted (index : Nat) (step : Step) (before : Frame)
      (hs : body.steps[index]? = some step)
      (hb : analysis.frames[index]? = some (some before)) :
      ∃ after, course.scene.execute step before = .ok after := by
    obtain ⟨entry', course', flow, hcourse', hframes, -, -, hpassed⟩ :=
      settled_of_analyze (isAscent_true hierarchy) h
    obtain ⟨rfl, rfl⟩ := hcourse.unique hcourse'
    obtain ⟨after, hexecute, -⟩ := hpassed index step before
      ((hcourse.getElem?_steps index).trans hs) (Flow.frameAt?_eq_some.mpr (hframes ▸ hb))
    exact ⟨after, hexecute⟩
  have hstack (index height : Nat) (step : Step) (hc : body.Climbs pool index height)
      (hs : body.steps[index]? = some step) : ∃ words,
        step.instruction.words? pool = some words ∧ words.1 ≤ height ∧
        height ≤ analysis.maxStack.toNat ∧
        height - words.1 + words.2 ≤ analysis.maxStack.toNat := by
    obtain ⟨before, hbefore, rfl⟩ := exists_frame_of_climbs h hc
    obtain ⟨after, hexecute⟩ := hexecuted index step before hs hbefore
    obtain ⟨words, hwords, hmoves⟩ := Scene.words_of_execute hexecute
    obtain ⟨hlow, hhigh⟩ := hcounted index step before after hs hbefore hexecute
    rw [hcourse.pool_eq] at hwords
    exact ⟨words, hwords, hmoves.takes, hlow, hmoves.height ▸ hhigh⟩
  constructor
  case frames =>
    refine fun index height => ⟨exists_frame_of_climbs h, ?_⟩
    rintro ⟨frame, hframe, rfl⟩
    exact climbs_of_frame h hframe
  case heights =>
    intro index height height' hc hc'
    obtain ⟨frame, hframe, rfl⟩ := exists_frame_of_climbs h hc
    obtain ⟨frame', hframe', rfl⟩ := exists_frame_of_climbs h hc'
    rw [Option.some.inj (Option.some.inj (hframe.symm.trans hframe'))]
  case stack => exact hstack
  case handlers =>
    intro index height handler range target hc hh hr hi ht
    obtain ⟨frame, hframe, hheight⟩ := exists_frame_of_climbs h (.caught hc hh hr hi ht)
    have hlt := (Array.getElem?_eq_some_iff.mp hframe).1
    rw [(goesOn_of_analyze h).1] at hlt
    obtain ⟨words, -, -, hfits, -⟩ := hstack target 1 _ (.caught hc hh hr hi ht)
      (List.getElem?_eq_getElem hlt)
    exact ⟨hfits, frame, hframe, hheight⟩
  case accessed =>
    exact fun step hstep slot hslot => (lt_slotsOf hslot).trans_le (hsteps step hstep)
  case arguments =>
    obtain ⟨type, htype, hlength⟩ := length_entryFrame hcourse.starts
    exact ⟨type, htype, hlength ▸ hentry⟩
  case locals => exact fun index frame hf => hlocals ▸ locals_of_frame h hcourse hf
  case declared =>
    intro entry' rows hentry' hrows index frame hf
    obtain ⟨found, hfound, heq⟩ := hcourse.declared
    obtain rfl := Except.ok.inj (hcourse.starts.symm.trans hentry')
    obtain rfl := Except.ok.inj (hfound.symm.trans hrows)
    rw [← heq] at hf
    exact hdeclared frame (mem_values.mpr ⟨_, hf⟩)

end Body

/-- Two words are enough for a long value that is taken again. -/
theorem Taken.suffices_of_analyze_pop2 :
    (body pop2).analyze head Pool.empty .unknown = .ok ⟨frames [], 2, 0⟩ ∧
      (Analysis.mk (frames []) 2 0).Suffices (body pop2) head Pool.empty :=
  ⟨analyze_pop2, Body.suffices_of_analyze analyze_pop2⟩

/-! ### The least height -/

namespace Flow

variable {course : Course} {flow flow' : Flow} {limit : Nat}

/-- What arrives at an instruction is kept at its height, or merged to a frame of the height of the
one that was held. -/
theorem isKept_heights (course : Course) (Q : Nat → Nat → Prop) : IsKept course
    (fun frames => ∀ (index : Nat) held, frames[index]? = some (some held) →
      Q index held.stack.length) fun target sent => Q target sent.stack.length := by
  intro flow flow' target sent hall hq h
  obtain ⟨fitted, hfit, h⟩ := arrive_eq_ok.mp h
  have hset (frame : Frame) (hheight : Q target frame.stack.length) (index : Nat) (held : Frame)
      (hheld : (flow.set target frame).frames[index]? = some (some held)) :
      Q index held.stack.length := by
    rw [frames_set, Array.getElem?_setIfInBounds] at hheld
    split_ifs at hheld with he
    · obtain rfl := Option.some.inj (Option.some.inj hheld)
      exact he ▸ hheight
    · exact hall index held hheld
  have hfitted : fitted.stack.length = sent.stack.length := by
    split at hfit
    · rw [(Frame.fits_of_misfit?_eq_none (Frame.fit_eq_ok.mp hfit).1).stack.length_eq]
      obtain ⟨-, rfl⟩ := Frame.fit_eq_ok.mp hfit
      rfl
    · rw [Except.ok.inj hfit]
  split at h
  · obtain rfl := h
    exact hset fitted (hfitted ▸ hq)
  · rename_i old hold
    obtain ⟨merged, hmerge, rfl⟩ := h
    split_ifs
    · exact hall
    · have hheight := ((Frame.isAscent_shrinks course.scene.hierarchy).merge hmerge).1.height
      exact hset merged (hheight ▸ hall target old (frameAt?_eq_some.mp hold))

/-- No more words are counted than there are, and the one of an exception. -/
theorem height_throwFrom_le {origin : Nat} {before after : Frame} {handlers : List HandlerRange}
    (hc : ∀ range ∈ handlers, range.start ≤ origin ∧ origin < range.stop → 1 ≤ limit)
    (hl : flow.height ≤ limit)
    (h : flow.throwFrom course origin before after handlers = .ok flow') :
    flow'.height ≤ limit := by
  induction handlers generalizing flow with
  | nil =>
    obtain rfl := Except.ok.inj h
    exact hl
  | cons range rest ih =>
    have hrest := fun other ho => hc other (List.mem_cons_of_mem range ho)
    unfold throwFrom at h
    split_ifs at h with hin
    · obtain ⟨first, hfirst, h⟩ := Except.bind_eq_ok.mp h
      obtain ⟨second, hsecond, h⟩ := Except.bind_eq_ok.mp h
      refine ih hrest ?_ h
      rw [height_send hsecond, height_send hfirst]
      exact Nat.max_le.mpr ⟨hl, hc range List.mem_cons_self hin⟩
    · exact ih hrest hl h

/-- A visit counts no more words than there are before the instruction and after it. -/
theorem height_visit_le {origin : Nat} {step : Step} {before : Frame}
    (hc : ∀ range ∈ course.handlers, range.start ≤ origin ∧ origin < range.stop → 1 ≤ limit)
    (hb : before.stack.length ≤ limit)
    (ha : ∀ after, course.scene.execute step before = .ok after → after.stack.length ≤ limit)
    (hl : flow.height ≤ limit) (h : flow.visit course origin step before = .ok flow') :
    flow'.height ≤ limit := by
  obtain ⟨after, thrown, jumped, hexecute, hthrown, hjumped, h⟩ := visit_eq_ok.mp h
  have hjump : jumped.height ≤ limit := by
    rw [height_jumpFrom hjumped]
    refine height_throwFrom_le hc ?_ hthrown
    exact Nat.max_le.mpr ⟨Nat.max_le.mpr ⟨hl, hb⟩, ha after hexecute⟩
  split_ifs at h
  · rw [height_send h.2]
    exact hjump
  · exact h ▸ hjump

end Flow

namespace Body

variable {body : Body} {head : MethodHead} {pool : Pool} {hierarchy : Hierarchy}
  {analysis : Analysis}

/-- Whether a number of words is enough for the stack on all paths, before and after each
instruction, and for an exception where one is caught. -/
structure IsEnough (body : Body) (pool : Pool) (limit : Nat) : Prop where
  stack : ∀ index height step words, body.Climbs pool index height →
    body.steps[index]? = some step → step.instruction.words? pool = some words →
    height ≤ limit ∧ height - words.1 + words.2 ≤ limit
  caught : ∀ index height handler range target, body.Climbs pool index height →
    handler ∈ body.handlers → body.rangeOf? handler = some range →
    range.1 ≤ index ∧ index < range.2 → body.positions[handler.entry]? = some target → 1 ≤ limit

/-- The number of words that an analysis gives is enough. -/
theorem isEnough_maxStack (h : body.analyze head pool hierarchy = .ok analysis) :
    body.IsEnough pool analysis.maxStack.toNat := by
  have hsuffices := suffices_of_analyze h
  refine ⟨fun index height step words hc hs hw => ?_, fun index height handler range target hc hh hr
    hi ht => (hsuffices.handlers index height handler range target hc hh hr hi ht).1⟩
  obtain ⟨words', hwords, -, hlow, hhigh⟩ := hsuffices.stack index height step hc hs
  obtain rfl := Option.some.inj (hw.symm.trans hwords)
  exact ⟨hlow, hhigh⟩

/-- A run counts no more words than are enough. -/
theorem HasCourse.height_le {entry : Frame} {course : Course}
    (h : body.HasCourse head pool hierarchy entry course) {first last : Flow} {fuel limit : Nat}
    (hfirst : (Flow.start body.steps.length).send course 0 0 entry = .ok first)
    (hlast : first.settle course fuel = .ok last) (he : body.IsEnough pool limit) :
    last.height ≤ limit := by
  have hkept := Flow.isKept_heights course (body.Climbs pool)
  -- the words of a frame that is held are those on some path, and so are the words it leaves
  refine (Flow.keeps_of_settle (I := fun flow => (∀ (index : Nat) held,
    flow.frames[index]? = some (some held) → body.Climbs pool index held.stack.length) ∧
    flow.height ≤ limit) (fun flow next hI hturn => ?_) ⟨?_, ?_⟩ hlast).1.2
  · obtain ⟨hclimbs, hlimit⟩ := hI
    cases hturn with
    | @visit origin rest frames isPending height step before visited hs hf hv =>
      have hbefore := hclimbs origin before (Option.join_eq_some_iff.mp hf)
      have hstep := (h.getElem?_steps origin).symm.trans hs
      have hwords (after : Frame) (hexecute : course.scene.execute step before = .ok after) :
          ∃ words, step.instruction.words? pool = some words ∧ before.Moves after words :=
        h.pool_eq ▸ Scene.words_of_execute hexecute
      have hcaught : ∀ range ∈ course.handlers, range.start ≤ origin ∧ origin < range.stop →
          body.Climbs pool range.entry 1 ∧ 1 ≤ limit := by
        intro range hr hi
        obtain ⟨handler, hh, hrange⟩ := exists_of_mem_handlerRanges h.handlers hr
        obtain ⟨hrange, hentry⟩ := h.eq_of_mem hrange
        exact ⟨.caught hbefore hh hrange hi hentry,
          he.caught _ _ _ _ _ hbefore hh hrange hi hentry⟩
      constructor
      · refine @Flow.kept_visit _ ⟨frames, rest, _, height⟩ _ _ _ hkept _ _ _ hclimbs
          (fun after target sent hexecute hedge => ?_) hv
        obtain ⟨words, hw, hmoves⟩ := hwords after hexecute
        cases hedge with
        | jump hm ht =>
          rw [hmoves.height]
          exact .jump hbefore hstep hw hm (h.position_eq_ok.mp ht)
        | next hf =>
          rw [hmoves.height]
          exact .next hbefore hstep hw hf
        | thrownBefore hr hi => exact (hcaught _ hr hi).1
        | thrownAfter hr hi => exact (hcaught _ hr hi).1
      · obtain ⟨after, -, -, hexecute, -⟩ := Flow.visit_eq_ok.mp hv
        obtain ⟨words, hw, -⟩ := hwords after hexecute
        refine @Flow.height_visit_le _ ⟨frames, rest, _, height⟩ _ _ _ _ _
          (fun range hr hi => (hcaught range hr hi).2)
          (he.stack origin _ step words hbefore hstep hw).1 (fun after hexecute => ?_) hlimit hv
        obtain ⟨words, hw, hmoves⟩ := hwords after hexecute
        rw [hmoves.height]
        exact (he.stack origin _ step words hbefore hstep hw).2
    | skip => exact ⟨hclimbs, hlimit⟩
  · refine Flow.kept_send hkept (fun index held hheld => ?_) ?_ hfirst
    · rw [Flow.start, Array.getElem?_replicate] at hheld
      split_ifs at hheld
      cases hheld
    · rw [MethodHead.stack_entryFrame h.starts]
      exact .first
  · rw [Flow.height_send hfirst]
    exact Nat.zero_le limit

/-- The number of words that an analysis gives is the least that is enough. -/
theorem maxStack_le (h : body.analyze head pool hierarchy = .ok analysis) {limit : Nat}
    (he : body.IsEnough pool limit) : analysis.maxStack.toNat ≤ limit := by
  obtain ⟨-, entry, rows, handlers, first, last, hentry, hrows, hhandlers, hfirst, hlast, hheight, -,
    rfl⟩ := analyze_eq_ok.mp h
  have hcourse : body.HasCourse head pool hierarchy entry
      ⟨⟨pool, hierarchy, head, body.steps.toArray, body.positions⟩, handlers,
        framesByIndex body.positions rows⟩ :=
    ⟨hentry, rfl, hhandlers, rows, hrows, rfl⟩
  rw [UInt16.toNat_ofNat_of_lt' (Nat.lt_succ_of_le hheight)]
  exact hcourse.height_le hfirst hlast he

end Body

end ClassGraft

import ClassGraft.Proofs.Frame.Consistency
import ClassGraft.Proofs.Frame.Executed

/-!
# What every run of a flow keeps

A run only changes frames where one arrives.  So what holds of the frames at the start, and stays
whenever a frame arrives that an instruction sends, holds in the end (`Flow.kept_settle`), whether
or not the hierarchy is one in which types meet above both.

One such property is that every type in a frame has a property that values have
(`Flow.isKept_holds`), as merging and fitting make no types but those of objects.

Frames arrive along edges only, so what holds of the first one, and goes on holding along edges from
one of the frames that are found in the end to another, holds of all (`Body.frames_induction`).
-/

namespace ClassGraft

/-! ### Properties of the frames -/

namespace Flow

variable {course : Course} {flow flow' : Flow} {P : Array (Option Frame) → Prop}
  {S : Nat → Frame → Prop}

/-- Whether a property of the frames is kept when one arrives that has another property. -/
def IsKept (course : Course) (P : Array (Option Frame) → Prop) (S : Nat → Frame → Prop) : Prop :=
  ∀ flow flow' target sent, P flow.frames → S target sent →
    arrive course target sent flow = .ok flow' → P flow'.frames

theorem kept_send (hk : IsKept course P S) {origin target : Nat} {sent : Frame}
    (hp : P flow.frames) (hs : S target sent)
    (h : flow.send course origin target sent = .ok flow') : P flow'.frames :=
  hk flow flow' target sent hp hs (Except.mapError_eq_ok.mp h)

/-- A visit keeps what is kept when frames arrive as they are sent along its edges. -/
theorem kept_visit (hk : IsKept course P S) {origin : Nat} {step : Step} {before : Frame}
    (hp : P flow.frames)
    (hs : ∀ after target sent, course.scene.execute step before = .ok after →
      course.Edge origin step before after target sent → S target sent)
    (h : flow.visit course origin step before = .ok flow') : P flow'.frames :=
  keeps_of_visit (I := fun flow => P flow.frames) (fun _ _ hp => hp)
    (fun after target sent hexecute hedge _ _ hp hsend =>
      kept_send hk hp (hs after target sent hexecute hedge) hsend) hp h

/-- A run keeps what is kept when frames arrive as they are sent from the frames that are held. -/
theorem kept_settle (hk : IsKept course P S)
    (hs : ∀ frames index step before after target sent, P frames →
      course.scene.steps[index]? = some step → frames[index]? = some (some before) →
      course.scene.execute step before = .ok after →
      course.Edge index step before after target sent → S target sent)
    {fuel : Nat} (hp : P flow.frames) (h : flow.settle course fuel = .ok flow') :
    P flow'.frames := by
  refine (keeps_of_settle (I := fun flow => P flow.frames) (fun flow next hp hturn => ?_) hp h).1
  cases hturn with
  | @visit origin rest frames _ height step before _ hstep hbefore hvisit =>
    refine @kept_visit course ⟨frames, rest, _, height⟩ next P S hk origin step before hp
      (fun after target sent hexecute => ?_) hvisit
    exact hs frames origin step before after target sent hp hstep
      (Option.join_eq_some_iff.mp hbefore) hexecute
  | skip => exact hp

/-- An instruction that has a frame always has one. -/
theorem isKept_held (course : Course) (index : Nat) :
    IsKept course (fun frames => (frames[index]?).join ≠ none) fun _ _ => True := by
  intro flow flow' target sent hheld _ h
  obtain ⟨fitted, -, h⟩ := arrive_eq_ok.mp h
  have hset : ∀ frame : Frame,
      (((flow.set target frame).frames)[index]?).join ≠ none := by
    intro frame
    rw [frames_set, Array.getElem?_setIfInBounds]
    split_ifs with he hin
    · simp
    · exact absurd (by rw [Array.getElem?_eq_none (by omega)]; rfl) hheld
    · exact hheld
  split at h
  · exact h ▸ hset fitted
  · obtain ⟨merged, -, rfl⟩ := h
    split_ifs
    · exact hheld
    · exact hset merged

/-- What has a frame at some time of a run has one in the end. -/
theorem held_of_settle {fuel index : Nat} (h : flow.settle course fuel = .ok flow')
    (hheld : flow.frameAt? index ≠ none) : flow'.frameAt? index ≠ none :=
  kept_settle (isKept_held course index) (fun _ _ _ _ _ _ _ _ _ _ _ _ => trivial) hheld h

/-- Frames only arrive where something holds. -/
theorem isKept_only (course : Course) (Q : Nat → Prop) : IsKept course
    (fun frames => ∀ index frame, frames[index]? = some (some frame) → Q index)
    fun target _ => Q target := by
  intro flow flow' target sent hall hq h
  obtain ⟨fitted, -, h⟩ := arrive_eq_ok.mp h
  have hset : ∀ frame index other,
      (flow.set target frame).frames[index]? = some (some other) → Q index := by
    intro frame index other hi
    rw [frames_set, Array.getElem?_setIfInBounds] at hi
    split_ifs at hi with he
    · exact he ▸ hq
    · exact hall index other hi
  split at h
  · exact h ▸ hset fitted
  · obtain ⟨merged, -, rfl⟩ := h
    split_ifs
    · exact hall
    · exact hset merged

end Flow

/-! ### Along the edges -/

theorem Body.HasCourse.unique {body : Body} {head : MethodHead} {pool : Pool}
    {hierarchy : Hierarchy} {entry entry' : Frame} {course course' : Course}
    (h : body.HasCourse head pool hierarchy entry course)
    (h' : body.HasCourse head pool hierarchy entry' course') : entry = entry' ∧ course = course' := by
  obtain ⟨scene, handlers, declared⟩ := course
  obtain ⟨scene', handlers', declared'⟩ := course'
  obtain ⟨hstart, rfl, hhandlers, frames, hframes, rfl⟩ := h
  obtain ⟨hstart', rfl, hhandlers', frames', hframes', rfl⟩ := h'
  obtain rfl := Except.ok.inj (hstart.symm.trans hstart')
  obtain rfl := Except.ok.inj (hhandlers.symm.trans hhandlers')
  obtain rfl := Except.ok.inj (hframes.symm.trans hframes')
  exact ⟨rfl, rfl⟩

/-- What holds of the first frame that an analysis finds, and goes on holding along edges from one
of its frames to another, holds of all of them. -/
theorem Body.frames_induction {body : Body} {head : MethodHead} {pool : Pool}
    {hierarchy : Hierarchy} {analysis : Analysis} {R : Frame → Frame → Prop}
    (hr : Frame.IsAscent hierarchy R) (h : body.analyze head pool hierarchy = .ok analysis)
    {entry : Frame} {course : Course} (hcourse : body.HasCourse head pool hierarchy entry course)
    {Q : Nat → Frame → Prop}
    (first : ∀ held, analysis.frames[0]? = some (some held) →
      Flow.Accounts R course 0 entry held → Q 0 held)
    (step : ∀ index step before after target sent held, course.scene.steps[index]? = some step →
      analysis.frames[index]? = some (some before) → Q index before →
      course.scene.execute step before = .ok after →
      course.Edge index step before after target sent →
      analysis.frames[target]? = some (some held) → Flow.Accounts R course target sent held →
      Q target held) {index : Nat} {held : Frame}
    (hheld : analysis.frames[index]? = some (some held)) : Q index held := by
  obtain ⟨entry', course', flow, hcourse', hframes, -, hstart, hpassed⟩ := settled_of_analyze hr h
  obtain ⟨rfl, rfl⟩ := hcourse.unique hcourse'
  simp only [Flow.HasArrived, Flow.IsPassed, Flow.frameAt?_eq_some, hframes] at hstart hpassed
  -- a frame arrived at every instruction that has one in the end, and goes on along the same edges
  let Holds (index : Nat) : Prop :=
    ∃ held, analysis.frames[index]? = some (some held) ∧ Q index held
  have hkept := Flow.isKept_only course Holds
  obtain ⟨-, entry', declared, handlers, begun, last, hentry, hdeclared, hhandlers, hbegun, hlast,
    -, -, hlastframes⟩ := analyze_eq_ok.mp h
  obtain ⟨rfl, rfl⟩ := hcourse.unique (⟨hentry, rfl, hhandlers, declared, hdeclared, rfl⟩ :
    body.HasCourse head pool hierarchy entry' ⟨⟨pool, hierarchy, head, body.steps.toArray,
      body.positions⟩, handlers, framesByIndex body.positions declared⟩)
  have hnone : ∀ index frame,
      (Flow.start body.steps.length).frames[index]? = some (some frame) → Holds index := by
    intro index frame hi
    rw [← Flow.frameAt?_eq_some, Flow.frameAt?_start] at hi
    nomatch hi
  have hzero : Holds 0 := by
    obtain ⟨held, hheld, ha⟩ := hstart
    exact ⟨held, hheld, first held hheld ha⟩
  have hall : ∀ index frame, last.frames[index]? = some (some frame) → Holds index := by
    refine Flow.kept_settle hkept ?_ (Flow.kept_send hkept hnone hzero hbegun) hlast
    intro frames index instruction before after target sent hheld hstep hbefore hexecute hedge
    obtain ⟨final, hfinal, hq⟩ := hheld index before hbefore
    obtain ⟨after', hexecute', -, -, harrived⟩ := hpassed index instruction final hstep hfinal
    obtain ⟨sent', hedge'⟩ : ∃ sent',
        Course.Edge _ index instruction final after' target sent' := by
      cases hedge with
      | jump hm ht => exact ⟨_, .jump hm ht⟩
      | next hf => exact ⟨_, .next hf⟩
      | thrownBefore hr hi => exact ⟨_, .thrownBefore hr hi⟩
      | thrownAfter hr hi => exact ⟨_, .thrownAfter hr hi⟩
    obtain ⟨held, hheld, ha⟩ := harrived target sent' hedge'
    exact ⟨held, hheld, step index instruction final after' target sent' held hstep hfinal hq
      hexecute' hedge' hheld ha⟩
  have hlastheld : last.frames[index]? = some (some held) := by
    rw [← hlastframes] at hheld
    exact hheld
  obtain ⟨other, hother, hq⟩ := hall index held hlastheld
  obtain rfl := Option.some.inj (Option.some.inj (hheld.symm.trans hother))
  exact hq

/-! ### Properties of the types -/

/-- Whether all types of a frame have a property. -/
structure Frame.Holds (Q : FrameType → Prop) (frame : Frame) : Prop where
  locals : ∀ type ∈ frame.locals, Q type
  stack : ∀ type ∈ frame.stack, Q type

/-- Types that meet give one of them, or that of an object. -/
theorem Hierarchy.eq_of_meet {hierarchy : Hierarchy} {a b type : FrameType}
    (h : hierarchy.meet a b = .ok type) : type = a ∨ type.isInitialized = true := by
  unfold meet at h
  split_ifs at h
  · exact .inl (Except.ok.inj h).symm
  · split at h
    · exact .inr (Except.ok.inj h ▸ rfl)
    · exact .inr (Except.ok.inj h ▸ rfl)
    · split at h
      · exact .inr (Except.ok.inj h ▸ rfl)
      · simp at h
    · simp at h

theorem Hierarchy.eq_meetLocal (hierarchy : Hierarchy) (a b : FrameType) :
    hierarchy.meetLocal a b = a ∨ (hierarchy.meetLocal a b).isInitialized = true := by
  unfold meetLocal
  split
  · rename_i type h
    exact eq_of_meet h
  · exact .inr rfl

/-- What is not of an object that is ready is only accepted as itself. -/
theorem Hierarchy.eq_of_accepts {hierarchy : Hierarchy} {found wanted : FrameType}
    (h : hierarchy.accepts found wanted = true) (hw : wanted.isInitialized = false) :
    found = wanted := by
  cases wanted <;> simp_all [FrameType.isInitialized, accepts]

namespace Frame

variable {hierarchy : Hierarchy} {Q : FrameType → Prop} {frame old new merged declared sent
  fitted : Frame}

theorem holds_merge (hq : ∀ type : FrameType, type.isInitialized = true → Q type)
    (ho : old.Holds Q) (h : merge hierarchy old new = .ok merged) : merged.Holds Q := by
  obtain ⟨-, words, hw, rfl⟩ := merge_eq_ok.mp h
  refine ⟨fun type ht => ?_, fun type ht => ?_⟩
  · obtain ⟨i, hi⟩ := List.mem_iff_getElem?.mp (FrameType.mem_of_mem_trim ht)
    rw [FrameType.getElem?_dropHalves] at hi
    obtain ⟨met, hmet, rfl⟩ := Option.map_eq_some_iff.mp hi
    rw [List.getElem?_zipWith] at hmet
    -- A local that merging leaves is unusable, the meet of the two, or lost with its second slot.
    split_ifs
    · exact hq _ rfl
    · cases ha : old.locals[i]? with
      | none => simp [ha] at hmet
      | some a =>
        cases hb : new.locals[i]? with
        | none => simp [ha, hb] at hmet
        | some b =>
          simp only [ha, hb, Option.some.injEq] at hmet
          subst hmet
          rcases hierarchy.eq_meetLocal a b with he | he
          · rw [he]
            exact ho.locals a (List.mem_of_getElem? ha)
          · exact hq _ he
  · obtain ⟨⟨a, b⟩, hpair, hmeet⟩ := exists_of_mem_right hw (List.mem_reverse.mp ht)
    have ha := List.mem_reverse.mp (List.of_mem_zip hpair).1
    -- Two different words meet in an initialized type only, of which the property holds anyway.
    rcases Hierarchy.eq_of_meet hmeet with rfl | he
    · exact ho.stack _ ha
    · exact hq _ he

theorem holds_fit (hq : ∀ type : FrameType, type.isInitialized = true → Q type)
    (hs : sent.Holds Q) (h : fit hierarchy declared sent = .ok fitted) : fitted.Holds Q := by
  have hfits := fits_of_misfit?_eq_none (fit_eq_ok.mp h).1
  obtain ⟨-, rfl⟩ := fit_eq_ok.mp h
  refine ⟨fun type ht => ?_, fun type ht => ?_⟩
  · rcases List.mem_append.mp (FrameType.mem_of_mem_trim ht) with ht | ht
    · by_cases hi : type.isInitialized = true
      · exact hq type hi
      · -- the frame that was sent has the declared type in the same slot
        obtain ⟨slot, hslot⟩ := List.mem_iff_getElem?.mp ht
        have haccepts := hfits.locals slot
        have hdeclared : declared.localAt slot = type := by
          rw [localAt, List.getD_eq_getElem?_getD, hslot]
          rfl
        have hsame := Hierarchy.eq_of_accepts (hdeclared ▸ haccepts) (by simpa using hi)
        rw [localAt, List.getD_eq_getElem?_getD] at hsame
        cases hfound : sent.locals[slot]? with
        | none =>
          rw [hfound] at hsame
          exact absurd (hsame ▸ rfl) hi
        | some found =>
          rw [hfound] at hsame
          exact hs.locals type (List.mem_of_getElem? (hfound.trans (congrArg some hsame)))
    · exact hs.locals type (List.mem_of_mem_drop ht)
  · by_cases hi : type.isInitialized = true
    · exact hq type hi
    · obtain ⟨found, hfound, haccepts⟩ := exists_of_mem_right hfits.stack ht
      exact Hierarchy.eq_of_accepts haccepts (by simpa using hi) ▸ hs.stack found hfound

/-- The locals after a store: what is stored, what was there, and slots that cannot be used. -/
theorem mem_store {slot : UInt16} {stored type : FrameType}
    (h : type ∈ (frame.store slot stored).locals) :
    type ∈ frame.locals ∨ type = stored ∨ type = .top := by
  have hfront : ∀ type ∈ frame.locals.take slot.toNat ++ List.replicate
      (slot.toNat - (frame.locals.take slot.toNat).length) FrameType.top,
      type ∈ frame.locals ∨ type = .top := by
    intro type ht
    rcases List.mem_append.mp ht with ht | ht
    · exact .inl (List.mem_of_mem_take ht)
    · exact .inr (List.eq_of_mem_replicate ht)
  unfold store at h
  dsimp only at h
  -- Whatever pads the front, what it holds was there or is unusable; its last slot may be cut.
  generalize frame.locals.take slot.toNat ++ List.replicate
    (slot.toNat - (frame.locals.take slot.toNat).length) FrameType.top = front at hfront h
  rcases List.mem_append.mp h with h | h
  · rcases List.mem_append.mp h with h | h
    · refine (?_ : type ∈ front ∨ type = .top).elim
        (fun hm => (hfront type hm).imp_right .inr) (fun he => .inr (.inr he))
      split at h
      · split_ifs at h
        · rcases List.mem_append.mp h with h | h
          · exact .inl (List.dropLast_subset front h)
          · exact .inr (List.mem_singleton.mp h)
        · exact .inl h
      · exact .inl h
    · refine .inr ?_
      rw [FrameType.expand_cons] at h
      simp only [FrameType.expand, List.flatMap_nil, List.append_nil] at h
      split_ifs at h
      · simpa using h
      · exact .inl (List.mem_singleton.mp h)
  · exact .inl (List.mem_of_mem_drop h)

theorem holds_of_changes {scene : Scene} {step : Step} {before after : Frame}
    (hq : ∀ type : FrameType, type.isInitialized = true → Q type) (hb : before.Holds Q)
    (hn : ∀ index, step.instruction = .classOp Opcode.newObject index →
      Q (.uninitialized step.mark)) (h : scene.Changes step before after) : after.Holds Q := by
  -- The property holds of all that the instruction can find.
  have hf : ∀ type, step.Finds before type → Q type := by
    intro type ht
    cases ht with
    | «local» h => exact hb.locals type h
    | word h => exact hb.stack type h
    | value h => exact hq type h
    | made h => exact hn _ h
  cases h with
  | work hs => exact ⟨hb.locals, fun type ht => hf type (hs type ht)⟩
  | store hi ho hstored hs =>
    refine ⟨fun type ht => ?_, fun type ht => hf type (hs type ht)⟩
    rcases mem_store ht with ht | rfl | rfl
    · exact hb.locals type ht
    · exact hf _ hstored
    · exact hq _ rfl
  | construct hc hs =>
    refine ⟨fun type ht => ?_, fun type ht => hf type (hs type ht)⟩
    obtain ⟨other, ho, rfl⟩ := List.mem_map.mp ht
    split_ifs
    · exact hq _ rfl
    · exact hb.locals other ho

end Frame

/-- A run keeps a property of all types that values have. -/
theorem Flow.isKept_holds {course : Course} {Q : FrameType → Prop}
    (hq : ∀ type : FrameType, type.isInitialized = true → Q type) :
    IsKept course (fun frames => ∀ (index : Nat) held, frames[index]? = some (some held) →
      held.Holds Q) fun _ sent => sent.Holds Q := by
  intro flow flow' target sent hp hs h
  obtain ⟨fitted, hfit, h⟩ := arrive_eq_ok.mp h
  have hfitted : fitted.Holds Q := by
    split at hfit
    · exact Frame.holds_fit hq hs hfit
    · exact Except.ok.inj hfit ▸ hs
  -- One frame is set, and the others are as they were.
  have hset : ∀ frame : Frame, frame.Holds Q → ∀ (index : Nat) held,
      (flow.set target frame).frames[index]? = some (some held) → held.Holds Q := by
    intro frame hframe index held hheld
    rw [frames_set, Array.getElem?_setIfInBounds] at hheld
    split_ifs at hheld
    · exact Option.some.inj (Option.some.inj hheld) ▸ hframe
    · exact hp index held hheld
  split at h
  · exact h ▸ hset fitted hfitted
  · rename_i old hold
    obtain ⟨merged, hmerge, rfl⟩ := h
    split_ifs
    · exact hp
    · exact hset merged (Frame.holds_merge hq (hp target old (frameAt?_eq_some.mp hold)) hmerge)

end ClassGraft

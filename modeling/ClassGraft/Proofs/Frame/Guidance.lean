import ClassGraft.Proofs.Frame.Correspondence
import ClassGraft.Proofs.Frame.Gathering
import ClassGraft.Proofs.Frame.Halves
import ClassGraft.Proofs.Frame.Heights
import ClassGraft.Proofs.Frame.Termination

/-!
# Runs that follow a guide

A guide gives one frame for every instruction that control comes to, such that what is sent along an
edge from one frame of the guide leads to another one (`Course.IsGuide`).  The run of a flow then
never fails: the frames that it holds follow the guide (`Frame.Follows`), in that they only differ
from its frames in locals that the guide does not know.
-/

namespace ClassGraft

/-- Whether a local may hold a type where a guide has another one: the same, or, where the guide
has nothing that can be used, anything but a receiver that is not ready. -/
def FrameType.Follows (guide held : FrameType) : Prop :=
  held = guide ∨ guide = top ∧ held ≠ uninitializedThis

/-- Whether a frame differs from that of a guide only in locals that the guide does not know. -/
structure Frame.Follows (guide held : Frame) : Prop where
  corresponds : guide.Corresponds Eq FrameType.Follows held
  paired : FrameType.Paired held.locals

/-- Whether what is sent leads to a frame of a guide: where a frame is declared it fits that one,
and elsewhere it is that frame. -/
def Course.Leads (course : Course) (target : Nat) (sent guide : Frame) : Prop :=
  match course.declared[target]? with
  | none => sent.stack = guide.stack ∧ ∀ slot, sent.localAt slot = guide.localAt slot
  | some declared => guide.stack = declared.stack ∧
      (∀ slot, guide.localAt slot = declared.localAt slot) ∧
      sent.Fits course.scene.hierarchy declared ∧
      ∀ slot, sent.localAt slot = .uninitializedThis → declared.localAt slot = .uninitializedThis

/-- Whether an instruction can be executed on a frame, and what goes on from there leads to frames of
a guide. -/
def Course.LeadsOn (course : Course) (guide : Nat → Frame → Prop) (index : Nat) (step : Step)
    (before : Frame) : Prop :=
  ∃ after, course.scene.execute step before = .ok after ∧
    (∀ mark ∈ step.instruction.targets, ∃ target, course.scene.position mark = .ok target) ∧
    (step.instruction.fallsThrough = true → index + 1 < course.scene.steps.size) ∧
    ∀ target sent, course.Edge index step before after target sent →
      ∃ held, guide target held ∧ course.Leads target sent held

/-- Frames that lead a run, at most one for each instruction: from one that has a frame control goes
on to others that have one. -/
structure Course.IsGuide (course : Course) (entry : Frame) (guide : Nat → Frame → Prop) : Prop where
  unique : ∀ index held other, guide index held → guide index other → held = other
  entry : ∃ held, guide 0 held ∧ course.Leads 0 entry held
  steps : ∀ index step before, course.scene.steps[index]? = some step → guide index before →
    course.LeadsOn guide index step before

/-! ### Types and frames that follow -/

theorem FrameType.Follows.refl (type : FrameType) : Follows type type := .inl rfl

/-- A type in which a receiver that is not ready meets another one is not that of such a receiver. -/
theorem Hierarchy.meetLocal_ne_uninitializedThis (hierarchy : Hierarchy) {a : FrameType}
    (ha : a ≠ .uninitializedThis) (b : FrameType) :
    hierarchy.meetLocal a b ≠ .uninitializedThis := by
  rcases hierarchy.eq_meetLocal a b with h | h
  · rw [h]
    exact ha
  · intro he
    rw [he] at h
    nomatch h

theorem FrameType.Follows.meetLocal {guide a b : FrameType} (ha : Follows guide a)
    (hb : Follows guide b) (hierarchy : Hierarchy) :
    Follows guide (hierarchy.meetLocal a b) := by
  rcases ha with rfl | ⟨rfl, ha⟩
  · rcases hb with rfl | ⟨rfl, -⟩
    · exact .inl (Hierarchy.meetLocal_self b)
    · exact .inl (Hierarchy.meetLocal_top_left hierarchy b)
  · exact .inr ⟨rfl, hierarchy.meetLocal_ne_uninitializedThis ha b⟩

/-- The instructions of a course do the same with a frame that follows a guide as with that of the
guide. -/
theorem Course.ties_follows (course : Course) :
    course.scene.Ties True Eq FrameType.Follows course.scene where
  pool := rfl
  head := rfl
  value _ := rfl
  store := by
    rintro a b rfl
    exact .refl a
  load := by
    rintro a b expected (rfl | ⟨rfl, -⟩) ha
    · exact ⟨rfl, ha⟩
    · cases expected <;> nomatch ha
  wide := by
    rintro a b (rfl | ⟨rfl, -⟩) hb
    · exact .inl hb
    · exact .inr rfl
  unready := by
    rintro - a (rfl | ⟨rfl, hne⟩)
    · rfl
    · exact absurd rfl hne
  element := by
    rintro a b type rfl ha
    exact Except.keeps_of_eq ha rfl
  construct := by
    rintro a b name rfl ha
    refine Except.keeps_of_eq ha ⟨fun c d hcd => by rw [hcd], ?_⟩
    rintro c d (rfl | ⟨rfl, hne⟩)
    · exact .refl _
    · -- what the guide does not know may be a copy of what is constructed
      have htop : FrameType.top ≠ a := by
        rintro rfl
        nomatch ha
      rw [if_neg htop]
      refine .inr ⟨rfl, ?_⟩
      split_ifs
      · nofun
      · exact hne

theorem Frame.WordsMeetIn.refl {hierarchy : Hierarchy} (words : List FrameType) :
    WordsMeetIn hierarchy words words words := by
  induction words with
  | nil => exact .nil
  | cons word words ih => exact .cons (Hierarchy.meet_self word) ih

/-- What fits a declared frame is fitted to it. -/
theorem Frame.misfit?_eq_none_of_fits {hierarchy : Hierarchy} {declared arriving : Frame}
    (h : arriving.Fits hierarchy declared) : misfit? hierarchy declared arriving = none := by
  unfold misfit?
  rw [if_neg (not_not.mpr h.stack.length_eq.symm)]
  refine Option.or_eq_none_iff.mpr ⟨?_, ?_⟩
  · refine List.findSome?_eq_none_iff.mpr ?_
    rintro ⟨⟨found, wanted⟩, slot⟩ hmem
    have hpair := List.mem_of_getElem? (List.mem_zipIdx_iff_getElem?.mp hmem)
    have hwords := List.forall₂_reverse_iff.mpr h.stack
    exact if_pos (List.forall₂_iff_zip.mp hwords |>.2 hpair)
  · refine List.findSome?_eq_none_iff.mpr ?_
    rintro ⟨⟨found, wanted⟩, slot⟩ hmem
    have hpair := List.mem_zipIdx_iff_getElem?.mp hmem
    obtain ⟨hfound, hwanted⟩ := List.getElem?_zip_eq_some.mp hpair
    refine if_pos ?_
    -- a local that does not arrive is filled up with what cannot be used
    have hlocal := h.locals slot
    have hdeclared : declared.localAt slot = wanted := by
      rw [localAt, List.getD_eq_getElem?_getD, hwanted]
      rfl
    have harriving : arriving.localAt slot = found := by
      rw [List.getElem?_append] at hfound
      rw [localAt, List.getD_eq_getElem?_getD]
      split_ifs at hfound with hslot
      · rw [hfound]
        rfl
      · rw [List.getElem?_eq_none (Nat.le_of_not_lt hslot)]
        exact (List.eq_of_mem_replicate (List.mem_of_getElem? hfound)).symm
    rwa [harriving, hdeclared] at hlocal

namespace Frame.Follows

variable {hierarchy : Hierarchy} {guide held other merged : Frame}

theorem stack (h : guide.Follows held) : held.stack = guide.stack :=
  (List.forall₂_eq_eq_eq ▸ h.corresponds.stack : guide.stack = held.stack).symm

/-- Frames that follow a guide can be merged. -/
theorem merge (hu : hierarchy.IsUnique) (h : guide.Follows held) (h' : guide.Follows other) :
    ∃ merged, Frame.merge hierarchy held other = .ok merged ∧ guide.Follows merged := by
  have hwords : WordsMeetIn hierarchy held.stack other.stack guide.stack := by
    rw [h.stack, h'.stack]
    exact .refl _
  obtain ⟨merged, hmerged, hstack⟩ := exists_mergeIn hierarchy h.paired h'.paired hu hwords
  refine ⟨merged, (merge_iff hu h.paired h'.paired).mpr hmerged, ⟨?_, fun slot => ?_⟩,
    hmerged.paired⟩
  · rw [hstack]
    exact List.forall₂_same.mpr fun _ _ => rfl
  · rw [hmerged.locals slot]
    exact (h.corresponds.locals slot).meetLocal (h'.corresponds.locals slot) hierarchy

/-- What is caught follows what the guide catches. -/
theorem catching (h : guide.Follows held) (caught : Bytes) :
    (Frame.catching guide.locals caught).Follows (.catching held.locals caught) :=
  ⟨⟨.cons rfl .nil, h.corresponds.locals⟩, h.paired⟩

/-- What follows a guide fits what the guide fits. -/
theorem fits {declared : Frame} (h : guide.Follows held) (hf : guide.Fits hierarchy declared) :
    held.Fits hierarchy declared := by
  refine ⟨h.stack ▸ hf.stack, fun slot => ?_⟩
  have hslot := hf.locals slot
  rcases h.corresponds.locals slot with he | ⟨he, -⟩
  · rw [he]
    exact hslot
  · -- where the guide has nothing, nothing is declared
    rw [he] at hslot
    have hnone : declared.localAt slot = .top := by
      cases hdeclared : declared.localAt slot with
      | top => rfl
      | _ =>
        rw [hdeclared] at hslot
        nomatch hslot
    rw [hnone]
    rfl

end Frame.Follows

/-- What follows a frame that leads to one of a guide arrives as one that follows that. -/
theorem Course.Leads.follows {course : Course} {target : Nat} {sent guide held : Frame}
    (h : course.Leads target sent guide) (hf : sent.Follows held)
    (hp : ∀ declared, course.declared[target]? = some declared →
      FrameType.Paired declared.locals) : ∃ fitted,
      (match course.declared[target]? with
        | some declared => Frame.fit course.scene.hierarchy declared held
        | none => .ok held) = .ok fitted ∧ guide.Follows fitted := by
  unfold Course.Leads at h
  split at h
  · rename_i hnone
    obtain ⟨hstack, hlocals⟩ := h
    rw [hnone]
    refine ⟨held, rfl, ⟨?_, fun slot => hlocals slot ▸ hf.corresponds.locals slot⟩, hf.paired⟩
    rw [← hstack]
    exact hf.corresponds.stack
  · rename_i declared hdeclared
    obtain ⟨hstack, hlocals, hfits, hready⟩ := h
    rw [hdeclared]
    have hfit := Frame.fit_eq_ok.mpr ⟨Frame.misfit?_eq_none_of_fits (hf.fits hfits), rfl⟩
    refine ⟨_, hfit, ⟨?_, fun slot => ?_⟩, Frame.paired_fit (hp declared hdeclared) hf.paired hfit⟩
    · rw [hstack]
      exact List.forall₂_same.mpr fun _ _ => rfl
    · rw [Frame.localAt_fit hfit, hlocals slot]
      split_ifs with hslot
      · exact .refl _
      · -- past what is declared, a receiver that is not ready does not arrive
        have hnone : declared.localAt slot = .top := by
          simp [Frame.localAt, Nat.le_of_not_lt hslot]
        refine .inr ⟨hnone, fun hthis => ?_⟩
        rcases hf.corresponds.locals slot with he | ⟨-, hne⟩
        · have hsent := hready slot (he.symm.trans hthis)
          rw [hnone] at hsent
          cases hsent
        · exact hne hthis

/-! ### Runs that follow -/

namespace Flow

variable {course : Course} {flow : Flow} {entry : Frame} {guide : Nat → Frame → Prop}

/-- Whether all frames that a flow holds follow a guide. -/
def Follows (guide : Nat → Frame → Prop) (frames : Array (Option Frame)) : Prop :=
  ∀ (index : Nat) held, frames[index]? = some (some held) →
    ∃ frame, guide index frame ∧ frame.Follows held

/-- What a run that follows a guide relies on. -/
structure IsGuided (course : Course) (entry : Frame) (guide : Nat → Frame → Prop) : Prop
    extends course.IsGuide entry guide where
  decides : course.scene.hierarchy.IsUnique
  paired : ∀ (index : Nat) declared, course.declared[index]? = some declared →
    FrameType.Paired declared.locals

/-- What leads to a frame of the guide is sent without fault. -/
theorem IsGuided.exists_send (h : IsGuided course entry guide) (hf : Follows guide flow.frames)
    {origin target : Nat} {sent held frame : Frame} (ht : guide target frame)
    (hl : course.Leads target sent frame) (hs : sent.Follows held) :
    ∃ flow', flow.send course origin target held = .ok flow' ∧ Follows guide flow'.frames := by
  obtain ⟨fitted, hfit, hfitted⟩ := hl.follows hs (h.paired target)
  have hset {new : Frame} (hnew : frame.Follows new) : Follows guide (flow.set target new).frames := by
    intro index held hheld
    rw [frames_set, Array.getElem?_setIfInBounds] at hheld
    split_ifs at hheld with he hin
    · obtain rfl := Option.some.inj (Option.some.inj hheld)
      exact ⟨frame, he ▸ ht, hnew⟩
    · exact hf index held hheld
  suffices harrive : ∃ flow', flow.arrive course target held = .ok flow' ∧
      Follows guide flow'.frames by
    obtain ⟨flow', harrive, hflow'⟩ := harrive
    exact ⟨flow', Except.mapError_eq_ok.mpr harrive, hflow'⟩
  cases hold : flow.frameAt? target with
  | none =>
    refine ⟨flow.set target fitted, arrive_eq_ok.mpr ⟨fitted, hfit, ?_⟩, hset hfitted⟩
    rw [hold]
  | some old =>
    -- what was held there follows the same frame, so the two can be merged
    obtain ⟨frame', ht', hold'⟩ := hf target old (frameAt?_eq_some.mp hold)
    obtain rfl := h.unique target frame frame' ht ht'
    obtain ⟨merged, hmerge, hmerged⟩ := hold'.merge h.decides hfitted
    refine ⟨if merged = old then flow else flow.set target merged,
      arrive_eq_ok.mpr ⟨fitted, hfit, ?_⟩, ?_⟩
    · rw [hold]
      exact ⟨merged, hmerge, rfl⟩
    · split_ifs
      · exact hf
      · exact hset hmerged

theorem IsGuided.exists_throwFrom (h : IsGuided course entry guide)
    (hf : Follows guide flow.frames) {origin : Nat} {before after held held' : Frame}
    (hb : before.Follows held) (ha : after.Follows held') {handlers : List HandlerRange}
    (he : ∀ range ∈ handlers, range.start ≤ origin ∧ origin < range.stop →
      ∀ locals ∈ [before.locals, after.locals], ∃ frame, guide range.entry frame ∧
        course.Leads range.entry (.catching locals range.caught) frame) :
    ∃ flow', flow.throwFrom course origin held held' handlers = .ok flow' ∧
      Follows guide flow'.frames := by
  induction handlers generalizing flow with
  | nil => exact ⟨flow, rfl, hf⟩
  | cons range rest ih =>
    have hrest := fun other ho => he other (List.mem_cons_of_mem range ho)
    unfold throwFrom
    split_ifs with hin
    · have hsent := he range List.mem_cons_self hin
      obtain ⟨frame, ht, hl⟩ := hsent before.locals List.mem_cons_self
      obtain ⟨frame', ht', hl'⟩ := hsent after.locals (List.mem_cons_of_mem _ List.mem_cons_self)
      have hcount : Follows guide { flow with height := max flow.height 1 }.frames := hf
      obtain ⟨first, hfirst, hf₁⟩ := h.exists_send hcount ht hl (hb.catching range.caught)
      obtain ⟨second, hsecond, hf₂⟩ := h.exists_send hf₁ ht' hl' (ha.catching range.caught)
      obtain ⟨flow', hlast, hf'⟩ := ih hf₂ hrest
      exact ⟨flow', Except.bind_eq_ok.mpr ⟨first, hfirst, Except.bind_eq_ok.mpr
        ⟨second, hsecond, hlast⟩⟩, hf'⟩
    · exact ih hf hrest

theorem IsGuided.exists_jumpFrom (h : IsGuided course entry guide)
    (hf : Follows guide flow.frames) {origin : Nat} {after held : Frame} (ha : after.Follows held)
    {targets : List Mark} (ht : ∀ mark ∈ targets, ∃ target, course.scene.position mark = .ok target ∧
      ∃ frame, guide target frame ∧ course.Leads target after frame) :
    ∃ flow', flow.jumpFrom course origin held targets = .ok flow' ∧
      Follows guide flow'.frames := by
  induction targets generalizing flow with
  | nil => exact ⟨flow, rfl, hf⟩
  | cons mark rest ih =>
    obtain ⟨target, hposition, frame, htarget, hl⟩ := ht mark List.mem_cons_self
    obtain ⟨first, hfirst, hf₁⟩ := h.exists_send hf htarget hl ha
    obtain ⟨flow', hlast, hf'⟩ := ih hf₁ fun other ho => ht other (List.mem_cons_of_mem mark ho)
    exact ⟨flow', Except.bind_eq_ok.mpr ⟨target, Except.mapError_eq_ok.mpr hposition,
      Except.bind_eq_ok.mpr ⟨first, hfirst, hlast⟩⟩, hf'⟩

/-- An instruction is visited without fault on a frame that follows the guide. -/
theorem IsGuided.exists_visit (h : IsGuided course entry guide) (hf : Follows guide flow.frames)
    {origin : Nat} {step : Step} {before held : Frame}
    (hs : course.scene.steps[origin]? = some step) (hg : guide origin before)
    (hb : before.Follows held) :
    ∃ flow', flow.visit course origin step held = .ok flow' ∧ Follows guide flow'.frames := by
  obtain ⟨after, hexecute, htargets, hnext, hedge⟩ := h.steps origin step before hs hg
  -- the instruction does the same with the frame that is held
  have hkept := course.ties_follows.execute rfl hb.corresponds hexecute
  obtain ⟨held', hexecute'⟩ := hkept.succeeds trivial
  have ha : after.Follows held' := ⟨hkept.holds held' hexecute',
    Frame.paired_of_changes hb.paired (Scene.changes_of_execute hexecute')⟩
  have hcount : Follows guide { flow with
    height := max (max flow.height held.stack.length) held'.stack.length }.frames := hf
  have hcaught : ∀ range ∈ course.handlers, range.start ≤ origin ∧ origin < range.stop →
      ∀ locals ∈ [before.locals, after.locals], ∃ frame, guide range.entry frame ∧
        course.Leads range.entry (.catching locals range.caught) frame := by
    intro range hr hin locals hl
    rcases List.mem_pair.mp hl with rfl | rfl
    · exact hedge _ _ (.thrownBefore hr hin)
    · exact hedge _ _ (.thrownAfter hr hin)
  have hjumps : ∀ mark ∈ step.instruction.targets, ∃ target,
      course.scene.position mark = .ok target ∧
        ∃ frame, guide target frame ∧ course.Leads target after frame := by
    intro mark hm
    obtain ⟨target, htarget⟩ := htargets mark hm
    exact ⟨target, htarget, hedge _ _ (.jump hm htarget)⟩
  obtain ⟨thrown, hthrown, hf₁⟩ := h.exists_throwFrom hcount hb ha hcaught
  obtain ⟨jumped, hjumped, hf₂⟩ := h.exists_jumpFrom hf₁ ha hjumps
  by_cases hfall : step.instruction.fallsThrough = true
  · obtain ⟨frame, ht, hl⟩ := hedge _ _ (.next hfall)
    obtain ⟨flow', hlast, hf'⟩ := h.exists_send hf₂ ht hl ha
    refine ⟨flow', visit_eq_ok.mpr ⟨held', thrown, jumped, hexecute', hthrown, hjumped, ?_⟩, hf'⟩
    rw [if_pos hfall]
    exact ⟨Nat.ne_of_lt (hnext hfall), hlast⟩
  · refine ⟨jumped, visit_eq_ok.mpr ⟨held', thrown, jumped, hexecute', hthrown, hjumped, ?_⟩, hf₂⟩
    rw [if_neg hfall]

/-- A run that follows a guide only fails if it is given up. -/
theorem IsGuided.exists_settle (h : IsGuided course entry guide) (fuel : Nat)
    (hf : Follows guide flow.frames) :
    (∃ last, flow.settle course fuel = .ok last ∧ Follows guide last.frames) ∨
      flow.settle course fuel = .error (.anywhere .unsettled) := by
  induction fuel generalizing flow with
  | zero =>
    unfold settle
    split_ifs
    · exact .inl ⟨flow, rfl, hf⟩
    · exact .inr rfl
  | succ fuel ih =>
    obtain ⟨frames, pending, isPending, height⟩ := flow
    cases pending with
    | nil => exact .inl ⟨_, rfl, hf⟩
    | cons origin rest =>
      cases hs : course.scene.steps[origin]? with
      | none =>
        rw [settle_of_turn (.skip fun step before hstep => by rw [hs] at hstep; cases hstep)]
        exact ih hf
      | some step =>
        cases hb : (frames[origin]?).join with
        | none =>
          rw [settle_of_turn (.skip fun step before _ hbefore => by
            rw [hb] at hbefore; cases hbefore)]
          exact ih hf
        | some held =>
          obtain ⟨before, hg, hheld⟩ := hf origin held (Option.join_eq_some_iff.mp hb)
          obtain ⟨visited, hvisit, hvisited⟩ := @exists_visit course
            ⟨frames, rest, isPending.setIfInBounds origin false, height⟩ entry guide h hf origin
            step before held hs hg hheld
          rw [settle_of_turn (.visit hs hb hvisit)]
          exact ih hvisited

end Flow

/-- A body is analyzed if there is a guide for it, to frames that follow the guide. -/
theorem Body.HasCourse.exists_analyze {body : Body} {head : MethodHead} {pool : Pool}
    {hierarchy : Hierarchy} {entry : Frame} {course : Course} {guide : Nat → Frame → Prop}
    (h : body.HasCourse head pool hierarchy entry course) (hb : hierarchy.IsBuilt)
    (hc : hierarchy.HasClassSupers) (hne : body.steps ≠ []) (hg : course.IsGuide entry guide)
    {limit : Nat} (he : body.IsEnough pool limit) (hl : limit ≤ 65535)
    (hs : body.localSlots entry course.declared.values ≤ 65535) :
    ∃ analysis, body.analyze head pool hierarchy = .ok analysis ∧
      Flow.Follows guide analysis.frames ∧
      analysis.maxLocals = UInt16.ofNat (body.localSlots entry course.declared.values) := by
  have hsound := h.isSound (Frame.isAscent_shrinks hierarchy)
  have hunique : course.scene.hierarchy.IsUnique := by
    rw [h.scene]
    exact (hb.isProper hc).isUnique
  have hguided : Flow.IsGuided course entry guide := ⟨hg, hunique, hsound.paired⟩
  -- the first frame arrives, as what the guide begins with
  have hstart : Flow.Follows guide (Flow.start body.steps.length).frames := by
    intro index held hheld
    rw [Flow.start, Array.getElem?_replicate] at hheld
    split_ifs at hheld
    cases hheld
  have hself : entry.Follows entry :=
    ⟨⟨List.forall₂_same.mpr fun _ _ => rfl, fun _ => .refl _⟩, paired_entryFrame h.starts⟩
  obtain ⟨frame, hframe, hleads⟩ := hg.entry
  obtain ⟨first, hfirst, hfollows⟩ : ∃ first,
      (Flow.start body.steps.length).send course 0 0 entry = .ok first ∧
        Flow.Follows guide first.frames := hguided.exists_send hstart hframe hleads hself
  obtain ⟨rows, hrows, hdeclared⟩ := h.declared
  obtain ⟨last, hlast, hlastFollows⟩ :=
    (hguided.exists_settle _ hfollows).resolve_right (h.settle_ne_unsettled hb hne hfirst)
  have hheight := h.height_le hfirst hlast he
  obtain ⟨scene, handlers, declared⟩ := course
  obtain rfl := h.scene
  obtain rfl := hdeclared
  refine ⟨_, analyze_eq_ok.mpr ⟨hne, entry, rows, handlers, first, last, h.starts, hrows,
    h.handlers, hfirst, hlast, hheight.trans hl, hs, rfl⟩, hlastFollows, rfl⟩

end ClassGraft

import ClassGraft.Graft.Edits
import ClassGraft.Proofs.Pool.Soundness
import ClassGraft.Proofs.Template.Steps
import Mathlib.Data.List.Nodup

/-!
# Code that is woven into a body

Whatever order insertions are made in, and however many of them meet in one place, the body that
they leave is that of a plan: what was inserted at the start, then each instruction of the body as
it was, between what was inserted before it and what was inserted after it (`weave`).  Each kind of
insertion appends to one place of the plan (`IsWoven.insertSteps`), and anchors find in the body
what they found in it before (`IsWoven.sites`).
-/

namespace ClassGraft

/-! ### Plans -/

/-- A place in a body where code is inserted. -/
inductive Spot where
  | start
  | before (mark : Mark)
  | after (mark : Mark)
  deriving DecidableEq, Repr

/-- Code that was inserted, and where. -/
structure Insertion where
  spot : Spot
  steps : List Step
  deriving DecidableEq, Repr

/-- The step with other targets. -/
def Step.mapTargets (f : Mark → Mark) (step : Step) : Step :=
  { step with instruction := step.instruction.mapTargets f }

/-- What was inserted at a spot, in order. -/
def stepsAt (plan : List Insertion) (spot : Spot) : List Step :=
  plan.flatMap fun insertion => if insertion.spot = spot then insertion.steps else []

/-- Where a jump to an instruction leads: to the first of what was inserted before it, if any. -/
def landing (plan : List Insertion) (mark : Mark) : Mark :=
  ((stepsAt plan (.before mark)).head?.map (·.mark)).getD mark

/-- A step between what was inserted before and after it, with its jumps led elsewhere. -/
def weaveAround (plan : List Insertion) (lead : Mark → Mark) (step : Step) : List Step :=
  stepsAt plan (.before step.mark) ++ step.mapTargets lead :: stepsAt plan (.after step.mark)

/-- The steps with all that was inserted. -/
def weave (plan : List Insertion) (steps : List Step) : List Step :=
  stepsAt plan .start ++ steps.flatMap (weaveAround plan (landing plan))

variable {plan : List Insertion} {steps new : List Step}

theorem stepsAt_append (plan : List Insertion) (spot other : Spot) (new : List Step) :
    stepsAt (plan ++ [⟨spot, new⟩]) other =
      stepsAt plan other ++ if spot = other then new else [] := by
  rw [stepsAt, List.flatMap_append, List.flatMap_singleton]
  rfl

theorem stepsAt_append_of_ne {spot other : Spot} (h : spot ≠ other) :
    stepsAt (plan ++ [⟨spot, new⟩]) other = stepsAt plan other := by
  rw [stepsAt_append, if_neg h, List.append_nil]

theorem stepsAt_append_self (plan : List Insertion) (spot : Spot) (new : List Step) :
    stepsAt (plan ++ [⟨spot, new⟩]) spot = stepsAt plan spot ++ new := by
  rw [stepsAt_append, if_pos rfl]

theorem exists_of_mem_stepsAt {spot : Spot} {step : Step} (h : step ∈ stepsAt plan spot) :
    ∃ insertion ∈ plan, insertion.spot = spot ∧ step ∈ insertion.steps := by
  obtain ⟨insertion, hin, hstep⟩ := List.mem_flatMap.mp h
  split_ifs at hstep with hspot
  · exact ⟨insertion, hin, hspot, hstep⟩
  · simp at hstep

/-- Only insertions before instructions move jumps. -/
theorem landing_append_of_ne {spot : Spot} (h : ∀ mark, spot ≠ .before mark) :
    landing (plan ++ [⟨spot, new⟩]) = landing plan := by
  funext mark
  rw [landing, stepsAt_append_of_ne (h mark)]
  rfl

/-- When jumps to an instruction are led to the start of what is inserted before it, jumps that led
there lead to what was inserted first. -/
theorem move_landing {mark other : Mark} {first : Step} {rest : List Step}
    (h : ∀ step ∈ stepsAt plan (.before other), step.mark ≠ mark) :
    Mark.move mark first.mark (landing plan other) =
      landing (plan ++ [⟨.before mark, first :: rest⟩]) other := by
  unfold landing
  rw [stepsAt_append]
  cases hat : stepsAt plan (.before other) with
  | nil =>
    by_cases he : mark = other
    · subst he
      simp [Mark.move]
    · have hne : Spot.before mark ≠ Spot.before other := fun hc => he (Spot.before.inj hc)
      simp [Mark.move, hne, Ne.symm he]
  | cons step others =>
    have hne : step.mark ≠ mark := h step (hat ▸ List.mem_cons_self)
    simp [Mark.move, hne]

/-! ### Moving targets -/

theorem Step.mapTargets_of_forall {f : Mark → Mark} {step : Step}
    (h : ∀ target ∈ step.instruction.targets, f target = target) : step.mapTargets f = step := by
  have hid : step.instruction.mapTargets f = step.instruction :=
    (Instruction.mapTargets_congr h).trans (Instruction.mapTargets_id _)
  rw [mapTargets, hid]

theorem Step.mapTargets_mapTargets (f g : Mark → Mark) (step : Step) :
    (step.mapTargets f).mapTargets g = step.mapTargets fun mark => g (f mark) := by
  unfold mapTargets
  rw [Instruction.mapTargets_mapTargets]

theorem map_mark_mapTargets (f : Mark → Mark) (steps : List Step) :
    (steps.map (Step.mapTargets f)).map (·.mark) = steps.map (·.mark) := by
  rw [List.map_map]
  rfl

/-! ### Inserting into a body -/

namespace Body

variable {body : Body}

/-- Where all marks are distinct, a step is found where it stands. -/
theorem position?_of_split (hn : (body.steps.map (·.mark)).Nodup) {before after : List Step}
    {step : Step} (h : body.steps = before ++ step :: after) :
    body.position? step.mark = some before.length := by
  rw [h, List.map_append, List.map_cons] at hn
  have hnone : before.findIdx? (·.mark == step.mark) = none := by
    refine List.findIdx?_eq_none_iff.mpr fun other ho => beq_eq_false_iff_ne.mpr fun he => ?_
    exact (List.nodup_append.mp hn).2.2 _ (List.mem_map_of_mem ho) _ List.mem_cons_self he
  rw [position?, h, List.findIdx?_append, hnone, List.findIdx?_cons]
  simp

theorem insertAt_of_split {before after : List Step} (h : body.steps = before ++ after)
    (new : List Step) :
    body.insertAt before.length new = { body.touch with steps := before ++ (new ++ after) } := by
  rw [insertAt, h, List.take_left, List.drop_left, List.append_assoc]

theorem insertBefore_of_split (hn : (body.steps.map (·.mark)).Nodup) {before after : List Step}
    {step : Step} (h : body.steps = before ++ step :: after) (new : List Step) :
    body.insertBefore step.mark new false =
      some { body.touch with steps := before ++ (new ++ step :: after) } := by
  rw [insertBefore, position?_of_split hn h, Option.map_some]
  exact congrArg some (insertAt_of_split h new)

/-- What is inserted before a step is where jumps to the step lead. -/
theorem insertBefore_of_split_moved (hn : (body.steps.map (·.mark)).Nodup)
    {before after : List Step} {step : Step} (h : body.steps = before ++ step :: after)
    (first : Step) (rest : List Step) :
    body.insertBefore step.mark (first :: rest) true =
      some { (body.retarget step.mark first.mark).touch with
        steps := before.map (Step.mapTargets (Mark.move step.mark first.mark)) ++ (first :: rest ++
          (step :: after).map (Step.mapTargets (Mark.move step.mark first.mark))) } := by
  have hsteps : (body.retarget step.mark first.mark).steps =
      before.map (Step.mapTargets (Mark.move step.mark first.mark)) ++
        (step :: after).map (Step.mapTargets (Mark.move step.mark first.mark)) := by
    rw [← List.map_append, ← h]
    rfl
  have hinsert := insertAt_of_split hsteps (first :: rest)
  rw [List.length_map] at hinsert
  rw [insertBefore, position?_of_split hn h, Option.map_some]
  exact congrArg some hinsert

theorem insertAfter_of_split (hn : (body.steps.map (·.mark)).Nodup) {before after : List Step}
    {last : Step} (h : body.steps = before ++ after) (hl : before.getLast? = some last)
    (new : List Step) :
    body.insertAfter last.mark new =
      some { body.touch with steps := before ++ (new ++ after) } := by
  obtain ⟨rest, rfl⟩ := List.getLast?_eq_some_iff.mp hl
  have hsplit : body.steps = rest ++ last :: after := by rw [h, List.append_assoc]; rfl
  have hlength : rest.length + 1 = (rest ++ [last]).length := by simp
  rw [insertAfter, position?_of_split hn hsplit, Option.map_some, hlength, insertAt_of_split h]

end Body

/-! ### Plans that grow -/

/-- What comes before a step of the body: all that was inserted before it as well. -/
def wovenBefore (plan : List Insertion) (lead : Mark → Mark) (before : List Step) (step : Step) :
    List Step :=
  stepsAt plan .start ++ before.flatMap (weaveAround plan lead) ++ stepsAt plan (.before step.mark)

theorem weave_split (plan : List Insertion) (before after : List Step) (step : Step) :
    weave plan (before ++ step :: after) =
      wovenBefore plan (landing plan) before step ++ step.mapTargets (landing plan) ::
        (stepsAt plan (.after step.mark) ++ after.flatMap (weaveAround plan (landing plan))) := by
  unfold weave wovenBefore
  rw [List.flatMap_append, List.flatMap_cons, weaveAround]
  simp only [List.append_assoc, List.cons_append]

/-- What is inserted at one step does not change what is around others. -/
theorem weaveAround_append_of_ne {spot : Spot} {step : Step} (hb : spot ≠ .before step.mark)
    (ha : spot ≠ .after step.mark) (lead : Mark → Mark) :
    weaveAround (plan ++ [⟨spot, new⟩]) lead step = weaveAround plan lead step := by
  rw [weaveAround, weaveAround, stepsAt_append_of_ne hb, stepsAt_append_of_ne ha]

theorem flatMap_weaveAround_append {spot : Spot}
    (h : ∀ step ∈ steps, spot ≠ .before step.mark ∧ spot ≠ .after step.mark) (lead : Mark → Mark) :
    steps.flatMap (weaveAround (plan ++ [⟨spot, new⟩]) lead) =
      steps.flatMap (weaveAround plan lead) := by
  induction steps with
  | nil => rfl
  | cons step rest ih =>
    obtain ⟨⟨hb, ha⟩, hrest⟩ := List.forall_mem_cons.mp h
    rw [List.flatMap_cons, List.flatMap_cons, weaveAround_append_of_ne hb ha, ih hrest]

theorem weave_append_start (plan : List Insertion) (new steps : List Step) :
    weave (plan ++ [⟨.start, new⟩]) steps =
      stepsAt plan .start ++ (new ++ steps.flatMap (weaveAround plan (landing plan))) := by
  rw [weave, stepsAt_append_self, landing_append_of_ne (by simp),
    flatMap_weaveAround_append (by simp), List.append_assoc]

/-- The marks of steps around one of them are not its own. -/
theorem ne_of_nodup {before after : List Step} {step : Step}
    (hn : ((before ++ step :: after).map (·.mark)).Nodup) :
    (∀ other ∈ before, step.mark ≠ other.mark) ∧ ∀ other ∈ after, step.mark ≠ other.mark := by
  rw [List.map_append, List.map_cons, List.nodup_append, List.nodup_cons] at hn
  obtain ⟨-, ⟨hafter, -⟩, hbefore⟩ := hn
  refine ⟨fun other ho he => ?_, fun other ho he => ?_⟩
  · exact hbefore _ (List.mem_map_of_mem ho) _ List.mem_cons_self he.symm
  · exact hafter (he ▸ List.mem_map_of_mem ho)

theorem weave_append_after {before after : List Step} {step : Step}
    (hn : ((before ++ step :: after).map (·.mark)).Nodup) (new : List Step) :
    weave (plan ++ [⟨.after step.mark, new⟩]) (before ++ step :: after) =
      (wovenBefore plan (landing plan) before step ++ step.mapTargets (landing plan) ::
        stepsAt plan (.after step.mark)) ++
          (new ++ after.flatMap (weaveAround plan (landing plan))) := by
  obtain ⟨hbefore, hafter⟩ := ne_of_nodup hn
  rw [weave_split, landing_append_of_ne (by simp), stepsAt_append_self, wovenBefore,
    stepsAt_append_of_ne (by simp), stepsAt_append_of_ne (by simp),
    flatMap_weaveAround_append fun other ho => ⟨by simp, by simpa using hbefore other ho⟩,
    flatMap_weaveAround_append fun other ho => ⟨by simp, by simpa using hafter other ho⟩, wovenBefore]
  simp only [List.append_assoc, List.cons_append]

theorem map_mapTargets_stepsAt {f : Mark → Mark}
    (h : ∀ insertion ∈ plan, ∀ step ∈ insertion.steps, step.mapTargets f = step) (spot : Spot) :
    (stepsAt plan spot).map (Step.mapTargets f) = stepsAt plan spot := by
  refine (List.map_congr_left fun step hstep => ?_).trans (List.map_id _)
  obtain ⟨insertion, hin, -, hstep⟩ := exists_of_mem_stepsAt hstep
  exact h insertion hin step hstep

/-- Moving all jumps leads those of the body elsewhere, if those of what was inserted stay. -/
theorem map_mapTargets_weaveAround {f lead : Mark → Mark} {step : Step}
    (h : ∀ insertion ∈ plan, ∀ step ∈ insertion.steps, step.mapTargets f = step) :
    (weaveAround plan lead step).map (Step.mapTargets f) =
      weaveAround plan (fun mark => f (lead mark)) step := by
  rw [weaveAround, List.map_append, List.map_cons, map_mapTargets_stepsAt h,
    map_mapTargets_stepsAt h, Step.mapTargets_mapTargets, weaveAround]

/-- When jumps to a step are led to what is inserted before it, the rest of the plan is as it was. -/
theorem weave_append_before {before after : List Step} {step first : Step} {rest : List Step}
    (hn : ((before ++ step :: after).map (·.mark)).Nodup)
    (hm : ∀ insertion ∈ plan, ∀ other ∈ insertion.steps, other.mark ≠ step.mark)
    (ht : ∀ insertion ∈ plan, ∀ other ∈ insertion.steps, ∀ target ∈ other.instruction.targets,
      target ≠ step.mark) :
    weave (plan ++ [⟨.before step.mark, first :: rest⟩]) (before ++ step :: after) =
      (wovenBefore plan (landing plan) before step).map
          (Step.mapTargets (Mark.move step.mark first.mark)) ++
        (first :: rest ++ (step.mapTargets (landing plan) :: (stepsAt plan (.after step.mark) ++
          after.flatMap (weaveAround plan (landing plan)))).map
            (Step.mapTargets (Mark.move step.mark first.mark))) := by
  obtain ⟨hbefore, hafter⟩ := ne_of_nodup hn
  have hfixed : ∀ insertion ∈ plan, ∀ other ∈ insertion.steps,
      other.mapTargets (Mark.move step.mark first.mark) = other := fun insertion hi other ho =>
    Step.mapTargets_of_forall fun target htarget => if_neg (ht insertion hi other ho target htarget)
  have hat : ∀ spot, (stepsAt plan spot).map (Step.mapTargets (Mark.move step.mark first.mark)) =
      stepsAt plan spot := map_mapTargets_stepsAt hfixed
  have hlead : (fun mark => Mark.move step.mark first.mark (landing plan mark)) =
      landing (plan ++ [⟨.before step.mark, first :: rest⟩]) := by
    funext other
    refine move_landing fun found hfound => ?_
    obtain ⟨insertion, hin, -, hstep⟩ := exists_of_mem_stepsAt hfound
    exact hm insertion hin found hstep
  have haround : ∀ steps : List Step, (steps.flatMap (weaveAround plan (landing plan))).map
      (Step.mapTargets (Mark.move step.mark first.mark)) = steps.flatMap (weaveAround plan
        (landing (plan ++ [⟨.before step.mark, first :: rest⟩]))) := by
    intro steps
    rw [List.map_flatMap, ← hlead]
    exact congrArg (List.flatMap · steps) (funext fun other => map_mapTargets_weaveAround hfixed)
  rw [weave_split, wovenBefore, stepsAt_append_of_ne (by simp), stepsAt_append_self,
    stepsAt_append_of_ne (by simp),
    flatMap_weaveAround_append fun other ho => ⟨by simpa using hbefore other ho, by simp⟩,
    flatMap_weaveAround_append fun other ho => ⟨by simpa using hafter other ho, by simp⟩,
    wovenBefore, List.map_append, List.map_append, List.map_cons, List.map_append, hat, hat, hat,
    haround, haround, Step.mapTargets_mapTargets, hlead]
  simp only [List.append_assoc, List.cons_append]

/-! ### Bodies that code was woven into -/

/-- Whether a body is as it was before anything was inserted: its marks are its own, and all of them
were there from the start. -/
structure Body.IsInitial (body : Body) : Prop where
  nodup : (body.steps.map (·.mark)).Nodup
  initial : ∀ step ∈ body.steps, step.mark.number < body.initialCount
  nextMark : body.initialCount ≤ body.nextMark
  offsets : body.initialOffsets.length ≤ body.initialCount

/-- Whether a body is one into which code was inserted according to a plan. -/
structure IsWoven (body : Body) (plan : List Insertion) (woven : Body) : Prop where
  steps : woven.steps = weave plan body.steps
  entries : woven.handlers.map (·.entry) = body.handlers.map (·.entry)
  initialCount : woven.initialCount = body.initialCount
  initialOffsets : woven.initialOffsets = body.initialOffsets
  nextMark : body.initialCount ≤ woven.nextMark
  nodup : (woven.steps.map (·.mark)).Nodup
  marks : ∀ step ∈ woven.steps, step.mark.number < woven.nextMark
  fresh : ∀ insertion ∈ plan, ∀ step ∈ insertion.steps, body.initialCount ≤ step.mark.number ∧
    ∀ target ∈ step.instruction.targets, body.initialCount ≤ target.number

/-- Whether what is remembered of a method is what was inserted according to a plan. -/
structure MethodHistory.IsOf (history : MethodHistory) (plan : List Insertion) : Prop where
  replacedBy : history.replacedBy = none
  entryEnd : history.entryEnd = (stepsAt plan .start).getLast?.map (·.mark)
  afterCall : ∀ mark : Mark, history.afterCall[mark]? =
    (stepsAt plan (.after mark)).getLast?.map (·.mark)

/-- Where an anchor has code inserted for one of its sites. -/
def Anchor.spot (site : Mark) : Anchor → Spot
  | .methodEntry => .start
  | .afterCall _ => .after site
  | _ => .before site

theorem weave_nil (steps : List Step) : weave [] steps = steps := by
  have hlanding : landing [] = id := rfl
  have haround : weaveAround [] id = fun step => [step] := by
    funext step
    rw [weaveAround]
    show [step.mapTargets id] = [step]
    rw [@Step.mapTargets_of_forall id step fun _ _ => rfl]
  rw [weave, hlanding, haround, List.flatMap_singleton']
  rfl

/-- Nothing was inserted into a body that is as it was. -/
theorem Body.IsInitial.isWoven {body : Body} (h : body.IsInitial) : IsWoven body [] body where
  steps := (weave_nil body.steps).symm
  entries := rfl
  initialCount := rfl
  initialOffsets := rfl
  nextMark := h.nextMark
  nodup := h.nodup
  marks := fun step hs => Nat.lt_of_lt_of_le (h.initial step hs) h.nextMark
  fresh := by simp

theorem MethodHistory.isOf_untouched : MethodHistory.untouched.IsOf [] where
  replacedBy := rfl
  entryEnd := rfl
  afterCall := fun _ => by simp [MethodHistory.untouched, stepsAt]

/-- Whether steps are new to a body: their marks are consecutive ones from a number on that none of
its marks has, and so are those that they jump to. -/
structure Body.HasNew (body : Body) (first : Nat) (new : List Step) : Prop where
  old : ∀ step ∈ body.steps, step.mark.number < first
  initial : body.initialCount ≤ first
  marked : Template.AreMarked first new
  below : first + new.length ≤ body.nextMark
  targets : ∀ step ∈ new, ∀ target ∈ step.instruction.targets, first ≤ target.number

namespace IsWoven

open Grafting

variable {body woven : Body} {history : MethodHistory} {first : Nat}

/-- New steps that stand among those that were there are woven in, if they stand where the plan has
them. -/
theorem of_insert (hw : IsWoven body plan woven) (hn : woven.HasNew first new) {spot : Spot}
    {before after : List Step} {body' : Body}
    (hold : woven.steps.map (·.mark) = (before ++ after).map (·.mark))
    (hsteps : body'.steps = before ++ (new ++ after))
    (hweave : weave (plan ++ [⟨spot, new⟩]) body.steps = before ++ (new ++ after))
    (hentries : body'.handlers.map (·.entry) = woven.handlers.map (·.entry))
    (hcount : body'.initialCount = woven.initialCount)
    (hoffsets : body'.initialOffsets = woven.initialOffsets)
    (hmark : body'.nextMark = woven.nextMark) :
    IsWoven body (plan ++ [⟨spot, new⟩]) body' := by
  have hperm : (before ++ (new ++ after)).Perm (new ++ (before ++ after)) :=
    List.perm_append_comm_assoc before new after
  have holds : ∀ mark ∈ (before ++ after).map (·.mark), mark.number < first := by
    intro mark hin
    rw [← hold] at hin
    obtain ⟨step, hstep, rfl⟩ := List.mem_map.mp hin
    exact hn.old step hstep
  have hinitial : body.initialCount ≤ first := hw.initialCount ▸ hn.initial
  refine ⟨hsteps.trans hweave.symm, hentries.trans hw.entries, hcount.trans hw.initialCount,
    hoffsets.trans hw.initialOffsets, hmark ▸ hw.nextMark, ?_, fun step hstep => ?_,
    fun insertion hi => ?_⟩
  · rw [hsteps, (hperm.map _).nodup_iff, List.map_append, List.nodup_append]
    refine ⟨hn.marked.nodup, hold ▸ hw.nodup, fun mark hnew other ho he => ?_⟩
    obtain ⟨step, hstep, rfl⟩ := List.mem_map.mp hnew
    have hlt := holds other ho
    rw [← he] at hlt
    exact absurd (hn.marked.bounds hstep).1 (Nat.not_le_of_lt hlt)
  · rw [hmark]
    rw [hsteps] at hstep
    rcases List.mem_append.mp (hperm.mem_iff.mp hstep) with hin | hin
    · exact Nat.lt_of_lt_of_le (hn.marked.bounds hin).2 hn.below
    · have hlt := holds step.mark (List.mem_map_of_mem hin)
      have hbelow := hn.below
      omega
  · rcases List.mem_append.mp hi with hi | hi
    · exact hw.fresh insertion hi
    · obtain rfl := List.mem_singleton.mp hi
      exact fun step hstep => ⟨Nat.le_trans hinitial (hn.marked.bounds hstep).1,
        fun target htarget => Nat.le_trans hinitial (hn.targets step hstep target htarget)⟩

/-- At the start, code goes after what was inserted there. -/
theorem insertSteps_start (hw : IsWoven body plan woven) (hh : history.IsOf plan)
    (hn : woven.HasNew first new) {site : Mark}
    (hsite : woven.steps.head?.map (·.mark) = some site) :
    IsWoven body (plan ++ [⟨.start, new⟩])
      (insertSteps .methodEntry site new woven history).1 := by
  have hsplit : woven.steps =
      stepsAt plan .start ++ body.steps.flatMap (weaveAround plan (landing plan)) := hw.steps
  have hweave := weave_append_start plan new body.steps
  have hmarks := congrArg (List.map (·.mark)) hsplit
  unfold insertSteps
  cases hlast : (stepsAt plan .start).getLast? with
  | none =>
    -- nothing was inserted at the start, so the first step is where code goes
    obtain ⟨step, hstep, rfl⟩ := Option.map_eq_some_iff.mp hsite
    have hrest : woven.steps = [] ++ step :: woven.steps.tail := List.eq_cons_of_mem_head? hstep
    simp only [hh.entryEnd, hlast, Option.map_none, Body.insertBefore_of_split hw.nodup hrest new,
      Option.getD_some]
    refine hw.of_insert hn hmarks ?_ hweave rfl rfl rfl rfl
    rw [List.getLast?_eq_none_iff.mp hlast] at hsplit ⊢
    exact congrArg (new ++ ·) (hrest.symm.trans hsplit)
  | some last =>
    simp only [hh.entryEnd, hlast, Option.map_some,
      Body.insertAfter_of_split hw.nodup hsplit hlast new, Option.getD_some]
    exact hw.of_insert hn hmarks rfl hweave rfl rfl rfl rfl

/-- After a call, code goes after what was inserted there. -/
theorem insertSteps_after (hw : IsWoven body plan woven) (hi : body.IsInitial)
    (hh : history.IsOf plan) (hn : woven.HasNew first new) {before after : List Step} {step : Step}
    (hstep : body.steps = before ++ step :: after) (call : CallMatch) :
    IsWoven body (plan ++ [⟨.after step.mark, new⟩])
      (insertSteps (.afterCall call) step.mark new woven history).1 := by
  have hsplit : woven.steps = (wovenBefore plan (landing plan) before step ++
      step.mapTargets (landing plan) :: stepsAt plan (.after step.mark)) ++
        after.flatMap (weaveAround plan (landing plan)) := by
    rw [hw.steps, hstep, weave_split]
    simp only [List.append_assoc, List.cons_append]
  have hweave : weave (plan ++ [⟨.after step.mark, new⟩]) body.steps = _ :=
    hstep ▸ weave_append_after (hstep ▸ hi.nodup) new
  have hmarks := congrArg (List.map (·.mark)) hsplit
  have hlast : ∃ last, (wovenBefore plan (landing plan) before step ++
      step.mapTargets (landing plan) :: stepsAt plan (.after step.mark)).getLast? = some last ∧
        history.afterCall.getD step.mark step.mark = last.mark := by
    rw [Std.HashMap.getD_eq_getD_getElem?, hh.afterCall, List.getLast?_append, List.getLast?_cons]
    cases (stepsAt plan (.after step.mark)).getLast? with
    | none => exact ⟨_, rfl, rfl⟩
    | some last => exact ⟨last, rfl, rfl⟩
  obtain ⟨last, hlast, hafter⟩ := hlast
  unfold insertSteps
  simp only [hafter, Body.insertAfter_of_split hw.nodup hsplit hlast new, Option.getD_some]
  exact hw.of_insert hn hmarks rfl hweave rfl rfl rfl rfl

/-- Before an instruction, code goes after what was inserted there, and jumps lead to the first of
it. -/
theorem insertSteps_before (hw : IsWoven body plan woven) (hi : body.IsInitial)
    (hn : woven.HasNew first new) (hne : new ≠ []) {before after : List Step} {step : Step}
    (hstep : body.steps = before ++ step :: after) {anchor : Anchor}
    (ha : anchor.spot step.mark = .before step.mark) :
    IsWoven body (plan ++ [⟨.before step.mark, new⟩])
      (insertSteps anchor step.mark new woven history).1 := by
  obtain ⟨head, rest, rfl⟩ := List.exists_cons_of_ne_nil hne
  have hsplit : woven.steps = wovenBefore plan (landing plan) before step ++
      step.mapTargets (landing plan) ::
        (stepsAt plan (.after step.mark) ++ after.flatMap (weaveAround plan (landing plan))) := by
    rw [hw.steps, hstep, weave_split]
  have hold : step.mark.number < body.initialCount :=
    hi.initial step (hstep ▸ List.mem_append_right _ List.mem_cons_self)
  have hfresh : ∀ mark : Mark, body.initialCount ≤ mark.number → mark ≠ step.mark := by
    rintro mark hmark rfl
    exact absurd hold (Nat.not_lt_of_le hmark)
  have hweave : weave (plan ++ [⟨.before step.mark, head :: rest⟩]) body.steps = _ :=
    hstep ▸ weave_append_before (hstep ▸ hi.nodup)
      (fun insertion hin other ho => hfresh _ (hw.fresh insertion hin other ho).1)
      (fun insertion hin other ho target ht => hfresh _ ((hw.fresh insertion hin other ho).2 _ ht))
  have hmarks : woven.steps.map (·.mark) =
      ((wovenBefore plan (landing plan) before step).map
          (Step.mapTargets (Mark.move step.mark head.mark)) ++
        (step.mapTargets (landing plan) :: (stepsAt plan (.after step.mark) ++
          after.flatMap (weaveAround plan (landing plan)))).map
            (Step.mapTargets (Mark.move step.mark head.mark))).map (·.mark) := by
    rw [hsplit, ← List.map_append, map_mark_mapTargets]
  have hinsert : insertSteps anchor step.mark (head :: rest) woven history =
      ((woven.insertBefore step.mark (head :: rest) true).getD woven, history) := by
    cases anchor with
    | methodEntry | afterCall call => nomatch ha
    | _ => rfl
  have hmoved : woven.insertBefore step.mark (head :: rest) true = some _ :=
    Body.insertBefore_of_split_moved hw.nodup hsplit head rest
  rw [hinsert, hmoved, Option.getD_some]
  refine hw.of_insert hn hmarks rfl hweave ?_ rfl rfl rfl
  exact List.map_map.trans rfl

/-- What is remembered is what was inserted last at the start and after calls. -/
theorem isOf_insertSteps (hh : history.IsOf plan) (hne : new ≠ []) (anchor : Anchor) (site : Mark) :
    (insertSteps anchor site new woven history).2.IsOf (plan ++ [⟨anchor.spot site, new⟩]) := by
  obtain ⟨last, hlast⟩ := Option.ne_none_iff_exists'.mp (mt List.getLast?_eq_none_iff.mp hne)
  have hsame : ∀ mark : Mark, anchor.spot site = .before mark →
      history.IsOf (plan ++ [⟨anchor.spot site, new⟩]) := by
    intro mark hspot
    refine ⟨hh.replacedBy, ?_, fun other => ?_⟩
    · rw [hspot, stepsAt_append_of_ne (by simp), hh.entryEnd]
    · rw [hspot, stepsAt_append_of_ne (by simp), hh.afterCall]
  cases anchor with
  | methodEntry =>
    refine ⟨hh.replacedBy, ?_, fun mark => ?_⟩
    · rw [Anchor.spot, stepsAt_append_self, List.getLast?_append, hlast]
      exact congrArg (Option.map (·.mark)) hlast
    · rw [Anchor.spot, stepsAt_append_of_ne (by simp), ← hh.afterCall]
      rfl
  | afterCall call =>
    refine ⟨hh.replacedBy, ?_, fun mark => ?_⟩
    · rw [Anchor.spot, stepsAt_append_of_ne (by simp), ← hh.entryEnd]
      rfl
    · have hinsert : (insertSteps (.afterCall call) site new woven history).2.afterCall =
          history.afterCall.insert site last.mark := by
        simp only [insertSteps, hlast, Option.map_some]
      rw [hinsert, Std.HashMap.getElem?_insert, Anchor.spot]
      by_cases he : site = mark
      · subst he
        rw [if_pos (beq_self_eq_true site), stepsAt_append_self, List.getLast?_append, hlast]
        rfl
      · rw [if_neg (mt beq_iff_eq.mp he), hh.afterCall,
          stepsAt_append_of_ne fun hc => he (Spot.after.inj hc)]
  | beforeReturn | beforeCall call | offset place | index number => exact hsame site rfl

end IsWoven

end ClassGraft

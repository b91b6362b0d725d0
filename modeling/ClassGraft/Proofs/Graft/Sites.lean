import ClassGraft.Proofs.Graft.Weaving

/-!
# Where anchors apply in woven code

Anchors look only at instructions that were there from the start, and weaving keeps those with all
but their targets (`IsWoven.initialSteps`).  A call is known by the constant it refers to, so an
anchor at calls finds what it found before as long as constants that were missing are not added
later (`Body.HasCallees`).  Then each anchor has code inserted in the same places, whatever was
inserted before (`IsWoven.spots`).
-/

namespace ClassGraft

/-! ### Calls -/

/-- The constant for the method that the instruction calls. -/
def Instruction.calleeIndex? {τ : Type} : Instruction τ → Option UInt16
  | invoke _ index | invokeInterface index _ => some index
  | _ => none

/-- Whether the calls of a body refer to constants that a pool has, of whatever kind. -/
def Body.HasCallees (body : Body) (pool : Pool) : Prop :=
  ∀ step ∈ body.steps, ∀ index, step.instruction.calleeIndex? = some index →
    (pool.get index).isSome

variable {pool later : Pool}

theorem Instruction.calls_eq {τ : Type} (instruction : Instruction τ) (method : MemberName) :
    instruction.calls pool method = (instruction.calleeIndex?.bind pool.member).any
      (·.is method.owner method.name method.descriptor) := by
  cases instruction <;> rfl

theorem Instruction.calls_mapTargets {τ σ : Type} (f : τ → σ) (instruction : Instruction τ)
    (method : MemberName) :
    (instruction.mapTargets f).calls pool method = instruction.calls pool method := by
  cases instruction <;> rfl

theorem Instruction.isReturn_mapTargets {τ σ : Type} (f : τ → σ) (instruction : Instruction τ) :
    (instruction.mapTargets f).isReturn = instruction.isReturn := by
  cases instruction <;> rfl

/-- Which method is called does not change when constants are added, if there is a constant for
it. -/
theorem Instruction.calls_of_grows {τ : Type} {instruction : Instruction τ} (hs : pool.IsSound)
    (hg : pool.Grows later)
    (h : ∀ index, instruction.calleeIndex? = some index → (pool.get index).isSome)
    (method : MemberName) : instruction.calls later method = instruction.calls pool method := by
  rw [calls_eq, calls_eq]
  cases hi : instruction.calleeIndex? with
  | none => rfl
  | some index =>
    obtain ⟨entry, hentry⟩ := Option.isSome_iff_exists.mp (h index hi)
    rw [Option.bind_some, Option.bind_some, hs.member_of_grows hg hentry]

/-! ### Instructions that were there from the start -/

variable {body woven : Body} {plan : List Insertion}

/-- What a test makes of woven steps, if it fails for what was inserted and holds of the rest. -/
theorem filter_weave {p : Step → Bool} {steps : List Step}
    (hnew : ∀ insertion ∈ plan, ∀ step ∈ insertion.steps, p step = false)
    (hold : ∀ step ∈ steps, p (step.mapTargets (landing plan)) = true) :
    (weave plan steps).filter p = steps.map (Step.mapTargets (landing plan)) := by
  have hat : ∀ spot, (stepsAt plan spot).filter p = [] := fun spot =>
    List.filter_eq_nil_iff.mpr fun step hstep => by
      obtain ⟨insertion, hin, -, hin'⟩ := exists_of_mem_stepsAt hstep
      simp [hnew insertion hin step hin']
  rw [weave, List.filter_append, hat, List.nil_append, List.filter_flatMap]
  induction steps with
  | nil => rfl
  | cons step rest ih =>
    obtain ⟨hstep, hrest⟩ := List.forall_mem_cons.mp hold
    rw [List.flatMap_cons, ih hrest, weaveAround, List.filter_append, hat,
      List.filter_cons_of_pos hstep, hat]
    rfl

theorem Body.IsInitial.isInitial (hi : body.IsInitial) {step : Step} (hs : step ∈ body.steps) :
    body.isInitial step.mark = true := decide_eq_true (hi.initial step hs)

theorem Body.IsInitial.initialSteps (hi : body.IsInitial) : body.initialSteps = body.steps :=
  List.filter_eq_self.mpr fun _ hs => hi.isInitial hs

/-- Whether a mark is one of an instruction that was there from the start. -/
theorem Body.has_eq_any (body : Body) {mark : Mark} (h : body.isInitial mark = true) :
    body.has mark = body.initialSteps.any (·.mark == mark) := by
  rw [has, step?, List.isSome_find?, initialSteps, List.any_filter]
  refine congrArg (List.any body.steps) (funext fun step => ?_)
  by_cases he : step.mark = mark
  · rw [he, h, Bool.true_and]
  · rw [beq_false_of_ne he, Bool.and_false]

namespace IsWoven

theorem isInitial (hw : IsWoven body plan woven) (mark : Mark) :
    woven.isInitial mark = body.isInitial mark := by
  rw [Body.isInitial, hw.initialCount, Body.isInitial]

/-- The instructions that were there from the start still are, with all but their targets. -/
theorem initialSteps (hw : IsWoven body plan woven) (hi : body.IsInitial) :
    woven.initialSteps = body.steps.map (Step.mapTargets (landing plan)) := by
  rw [Body.initialSteps, hw.steps]
  refine filter_weave (fun insertion hin step hstep => ?_) fun step hstep => ?_
  · rw [hw.isInitial]
    exact decide_eq_false (Nat.not_lt_of_le (hw.fresh insertion hin step hstep).1)
  · exact (hw.isInitial step.mark).trans (hi.isInitial hstep)

/-- The marks of the instructions that a test finds, if it does not look at targets. -/
theorem map_mark_filter (hw : IsWoven body plan woven) (hi : body.IsInitial)
    {p q : Step → Bool} (h : ∀ step ∈ body.steps, p (step.mapTargets (landing plan)) = q step) :
    (woven.initialSteps.filter p).map (·.mark) = (body.initialSteps.filter q).map (·.mark) := by
  rw [hw.initialSteps hi, hi.initialSteps, List.filter_map, List.map_map]
  exact congrArg (List.map (·.mark)) (List.filter_congr h)

theorem has (hw : IsWoven body plan woven) (hi : body.IsInitial) {mark : Mark}
    (h : body.isInitial mark = true) : woven.has mark = body.has mark := by
  rw [woven.has_eq_any (hw.isInitial mark ▸ h), body.has_eq_any h, hw.initialSteps hi,
    hi.initialSteps, List.any_map]
  rfl

theorem callsOf (hw : IsWoven body plan woven) (hi : body.IsInitial) (hs : pool.IsSound)
    (hg : pool.Grows later) (hc : body.HasCallees pool) (method : MemberName) :
    woven.callsOf later method = body.callsOf pool method :=
  hw.map_mark_filter hi fun step hstep => (Instruction.calls_mapTargets _ _ method).trans
    (Instruction.calls_of_grows hs hg (hc step hstep) method)

theorem matchingCalls (hw : IsWoven body plan woven) (hi : body.IsInitial) (hs : pool.IsSound)
    (hg : pool.Grows later) (hc : body.HasCallees pool) (call : CallMatch) :
    woven.matchingCalls later call = body.matchingCalls pool call := by
  rw [Body.matchingCalls, hw.callsOf hi hs hg hc, Body.matchingCalls]

/-- Anchors apply to the same instructions as before anything was inserted, if they do not ask for
the first instruction. -/
theorem sites (hw : IsWoven body plan woven) (hi : body.IsInitial) (hs : pool.IsSound)
    (hg : pool.Grows later) (hc : body.HasCallees pool) {anchor : Anchor}
    (ha : anchor ≠ .methodEntry) : woven.sites later anchor = body.sites pool anchor := by
  cases anchor with
  | methodEntry => exact absurd rfl ha
  | beforeReturn => exact hw.map_mark_filter hi fun _ _ => Instruction.isReturn_mapTargets _ _
  | beforeCall call | afterCall call => exact hw.matchingCalls hi hs hg hc call
  | offset place =>
    have hsame : woven.initialAtOffset? place = body.initialAtOffset? place := by
      rw [Body.initialAtOffset?, hw.initialOffsets, Body.initialAtOffset?]
    rw [Body.sites, Body.sites, hsame]
    cases hmark : body.initialAtOffset? place with
    | none => rfl
    | some mark =>
      obtain ⟨number, hnumber, rfl⟩ := Option.map_eq_some_iff.mp hmark
      obtain ⟨hlt, -⟩ := List.findIdx?_eq_some_iff_getElem.mp hnumber
      have hinitial : body.isInitial ⟨number⟩ = true :=
        decide_eq_true (Nat.lt_of_lt_of_le hlt hi.offsets)
      rw [Option.filter_some, Option.filter_some, hw.has hi hinitial]
  | index number =>
    have hsame : woven.initialAtIndex? number = body.initialAtIndex? number := by
      rw [Body.initialAtIndex?, hw.initialCount, Body.initialAtIndex?]
    rw [Body.sites, Body.sites, hsame]
    cases hmark : body.initialAtIndex? number with
    | none => rfl
    | some mark =>
      unfold Body.initialAtIndex? at hmark
      split_ifs at hmark with hlt
      obtain rfl := Option.some.inj hmark
      rw [Option.filter_some, Option.filter_some, hw.has hi (decide_eq_true hlt)]

end IsWoven

/-- Where an anchor has code inserted in a body, in order. -/
def Body.spots (body : Body) (pool : Pool) (anchor : Anchor) : List Spot :=
  (body.sites pool anchor).map fun site => anchor.spot site

/-- A site of an anchor is an instruction, the first one for the start. -/
theorem Body.exists_of_mem_sites {site : Mark} {anchor : Anchor}
    (h : site ∈ body.sites pool anchor) : ∃ step ∈ body.steps, step.mark = site := by
  -- Sites are found in three ways: among the initial steps, among the calls, by their mark.
  have hfilter : ∀ p : Step → Bool, site ∈ (body.initialSteps.filter p).map (·.mark) →
      ∃ step ∈ body.steps, step.mark = site := by
    intro p hsite
    obtain ⟨step, hstep, rfl⟩ := List.mem_map.mp hsite
    exact ⟨step, List.mem_of_mem_filter (List.mem_of_mem_filter hstep), rfl⟩
  have hcalls : ∀ call, site ∈ body.matchingCalls pool call →
      ∃ step ∈ body.steps, step.mark = site := by
    intro call hsite
    unfold matchingCalls at hsite
    refine hfilter (·.instruction.calls pool call.method) ?_
    cases hordinal : call.ordinal with
    | none =>
      simp only [hordinal] at hsite
      exact hsite
    | some ordinal =>
      simp only [hordinal] at hsite
      exact List.mem_of_getElem? (Option.mem_toList.mp hsite)
  have hhas : ∀ found : Option Mark, site ∈ (found.filter body.has).toList →
      ∃ step ∈ body.steps, step.mark = site := by
    intro found hsite
    have hstep := (Option.filter_eq_some_iff.mp (Option.mem_toList.mp hsite)).2
    obtain ⟨step, hstep⟩ := Option.isSome_iff_exists.mp hstep
    have hfound : body.steps.find? (·.mark == site) = some step := hstep
    have hmark := List.find?_some hfound
    exact ⟨step, List.mem_of_find?_eq_some hfound, beq_iff_eq.mp hmark⟩
  cases anchor with
  | methodEntry =>
    obtain ⟨step, hstep, rfl⟩ := Option.map_eq_some_iff.mp (Option.mem_toList.mp h)
    exact ⟨step, List.mem_of_mem_head? hstep, rfl⟩
  | beforeReturn => exact hfilter _ h
  | beforeCall call | afterCall call => exact hcalls call h
  | offset place => exact hhas _ h
  | index number => exact hhas _ h

/-- Anchors have code inserted in the same places as before anything was inserted. -/
theorem IsWoven.spots (hw : IsWoven body plan woven) (hi : body.IsInitial) (hn : body.steps ≠ [])
    (hs : pool.IsSound) (hg : pool.Grows later) (hc : body.HasCallees pool) (anchor : Anchor) :
    woven.spots later anchor = body.spots pool anchor := by
  by_cases ha : anchor = .methodEntry
  · subst ha
    have hone : ∀ {steps : List Step}, steps ≠ [] →
        ((steps.head?.map (·.mark)).toList.map fun site => Anchor.methodEntry.spot site) =
          [.start] := by
      intro steps hne
      obtain ⟨step, rest, rfl⟩ := List.exists_cons_of_ne_nil hne
      rfl
    have hwoven : woven.steps ≠ [] := by
      rw [hw.steps, weave]
      obtain ⟨step, rest, hsteps⟩ := List.exists_cons_of_ne_nil hn
      simp [hsteps, weaveAround]
    exact (hone hwoven).trans (hone hn).symm
  · rw [Body.spots, hw.sites hi hs hg hc ha, Body.spots]

end ClassGraft

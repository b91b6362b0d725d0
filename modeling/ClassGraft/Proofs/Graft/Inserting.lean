import ClassGraft.Proofs.Graft.Deeds
import ClassGraft.Proofs.Graft.Sites

/-!
# Insertions of an edit

An edit inserts its template once for each site of its anchor.  What each use of the template makes
is woven into the body, and what is remembered of the method follows (`insertAtSites_spec`).
-/

namespace ClassGraft

/-- Whether a template becomes steps that have marks from a number on, and constants of a pool that
one grew into and that grew into another. -/
def Template.Makes (template : Template) (number : Nat) (pool later : Pool) (steps : List Step) :
    Prop :=
  ∃ supply used : Supply, template.steps supply = (.ok steps, used) ∧ number ≤ supply.nextMark ∧
    pool.Extends supply.pool ∧ used.pool.Extends later

theorem Template.Makes.mono {template : Template} {number : Nat} {first pool later last : Pool}
    {steps : List Step} (h : template.Makes number pool later steps) (hf : first.Extends pool)
    (hl : later.Extends last) : template.Makes number first last steps := by
  obtain ⟨supply, used, hsteps, hnumber, hpool, hused⟩ := h
  exact ⟨supply, used, hsteps, hnumber, hf.trans hpool, hused.trans hl⟩

/-! ### One insertion -/

variable {body woven : Body} {plan : List Insertion} {history : MethodHistory}

/-- Marks that were given out but not used do no harm. -/
theorem IsWoven.withNextMark (hw : IsWoven body plan woven) {number : Nat}
    (hn : woven.nextMark ≤ number) : IsWoven body plan { woven with nextMark := number } :=
  { hw with
    nextMark := Nat.le_trans hw.nextMark hn
    marks := fun step hs => Nat.lt_of_lt_of_le (hw.marks step hs) hn }

/-- What a template makes is new to the body that gave out the marks. -/
theorem IsWoven.hasNew (hw : IsWoven body plan woven) {code : Template} {pool : Pool}
    {steps : List Step} {supply : Supply}
    (h : code.steps ⟨woven.nextMark, pool⟩ = (.ok steps, supply)) :
    Body.HasNew { woven with nextMark := supply.nextMark } woven.nextMark steps := by
  obtain ⟨-, hlength, hmarked, htargets, -⟩ := Template.steps_spec h
  exact ⟨hw.marks, hw.initialCount ▸ hw.nextMark, hmarked, hlength,
    fun step hs target ht => (htargets step hs target ht).1⟩

namespace Grafting

/-- Where code is inserted, the body and what is remembered of it follow the plan. -/
theorem insertSteps_spec (hi : body.IsInitial) (hw : IsWoven body plan woven)
    (hh : history.IsOf plan) {first : Nat} {new : List Step} (hn : woven.HasNew first new)
    (hne : new ≠ []) {anchor : Anchor} {site : Mark}
    (hentry : anchor = .methodEntry → woven.steps.head?.map (·.mark) = some site)
    (hother : anchor ≠ .methodEntry → ∃ step ∈ body.steps, step.mark = site) :
    IsWoven body (plan ++ [⟨anchor.spot site, new⟩])
        (insertSteps anchor site new woven history).1 ∧
      (insertSteps anchor site new woven history).2.IsOf (plan ++ [⟨anchor.spot site, new⟩]) := by
  refine ⟨?_, IsWoven.isOf_insertSteps hh hne anchor site⟩
  cases anchor with
  | methodEntry => exact hw.insertSteps_start hh hn (hentry rfl)
  | afterCall call =>
    obtain ⟨step, hstep, rfl⟩ := hother (by simp)
    obtain ⟨before, after, hsplit⟩ := List.append_of_mem hstep
    exact hw.insertSteps_after hi hh hn hsplit call
  | beforeReturn | beforeCall call | offset place | index number =>
    obtain ⟨step, hstep, rfl⟩ := hother (by simp)
    obtain ⟨before, after, hsplit⟩ := List.append_of_mem hstep
    exact hw.insertSteps_before hi hn hne hsplit rfl

/-! ### All insertions of an edit -/

/-- Insertions only add constants. -/
theorem extends_insertAtSites {anchor : Anchor} {code : Template} {sites : List Mark}
    {graft later : Graft} {body' : Body} {history' : MethodHistory}
    (h : insertAtSites anchor code sites body history graft = (.ok (body', history'), later)) :
    ∃ pool, graft.file.pool.Extends pool ∧ later = graft.withPool pool := by
  refine insertAtSites_induction
    (P := fun _ _ last => ∃ pool, graft.file.pool.Extends pool ∧ last = graft.withPool pool)
    (fun site _ body history before steps supply hbefore hsteps => ?_) ⟨_, .refl _, rfl⟩ h
  obtain ⟨pool, hpool, rfl⟩ := hbefore
  exact ⟨supply.pool, hpool.trans (Template.steps_spec hsteps).1, rfl⟩

/-- Each site of an anchor gets what a use of the template makes. -/
theorem insertAtSites_spec (hi : body.IsInitial) {anchor : Anchor} {code : Template}
    (hne : code ≠ []) {sites : List Mark} {graft later : Graft} {body' : Body}
    {history' : MethodHistory} (hw : IsWoven body plan woven) (hh : history.IsOf plan)
    (hentry : anchor = .methodEntry →
      sites = [] ∨ sites = (woven.steps.head?.map (·.mark)).toList)
    (hother : anchor ≠ .methodEntry → ∀ site ∈ sites, ∃ step ∈ body.steps, step.mark = site)
    (h : insertAtSites anchor code sites woven history graft = (.ok (body', history'), later)) :
    ∃ added, IsWoven body (plan ++ added) body' ∧ history'.IsOf (plan ++ added) ∧
      List.Forall₂ (fun site (insertion : Insertion) => insertion.spot = anchor.spot site ∧
        code.Makes body.initialCount graft.file.pool later.file.pool insertion.steps)
        sites added := by
  induction sites generalizing woven history graft plan with
  | nil =>
    obtain ⟨hpair, rfl⟩ := ExceptT.pure_eq_ok.mp h
    obtain ⟨rfl, rfl⟩ := Prod.mk.inj hpair
    exact ⟨[], by rwa [List.append_nil], by rwa [List.append_nil], .nil⟩
  | cons site rest ih =>
    obtain ⟨⟨new, woven'⟩, between, huse, h⟩ := ExceptT.bind_eq_ok.mp h
    obtain ⟨supply, hsteps, rfl, rfl⟩ := useTemplate_eq_ok.mp huse
    obtain ⟨hextends, hlength, -, -, hnonempty⟩ := Template.steps_spec hsteps
    have hmore : woven.nextMark ≤ supply.nextMark := Nat.le_trans (Nat.le_add_right _ _) hlength
    -- At the entry there is one site at most, and it is the first instruction.
    have hfirst : anchor = .methodEntry →
        woven.steps.head?.map (·.mark) = some site ∧ rest = [] := by
      intro ha
      rcases hentry ha with hnil | hone
      · nomatch hnil
      · cases hhead : woven.steps.head?.map (·.mark) with
        | none => simp [hhead] at hone
        | some mark =>
          rw [hhead, Option.toList_some, List.cons.injEq] at hone
          exact ⟨hone.1 ▸ rfl, hone.2⟩
    obtain ⟨hwoven, hhistory⟩ := insertSteps_spec hi (hw.withNextMark hmore) hh (hw.hasNew hsteps)
      (hnonempty hne) (fun ha => (hfirst ha).1) (fun ha => hother ha site List.mem_cons_self)
    obtain ⟨added, hw', hh', hall⟩ := ih hwoven hhistory
      (fun ha => .inl (hfirst ha).2)
      (fun ha other ho => hother ha other (List.mem_cons_of_mem _ ho)) h
    obtain ⟨pool, hpool, rfl⟩ := extends_insertAtSites h
    refine ⟨⟨anchor.spot site, new⟩ :: added, ?_, ?_, ?_⟩
    · rwa [List.append_cons]
    · rwa [List.append_cons]
    · refine .cons ⟨rfl, _, supply, hsteps, hw.nextMark, .refl _, hpool⟩ ?_
      exact hall.imp fun site insertion hmade =>
        ⟨hmade.1, hmade.2.mono hextends (.refl _)⟩

end Grafting

end ClassGraft

import ClassGraft.Proofs.Pool.Numbering
import ClassGraft.Proofs.Template.Steps

/-!
# Templates that are used again

A template that became steps becomes the same steps again, a number of marks later, and adds no
constants (`Template.steps_shift`).
-/

namespace ClassGraft

/-- The mark that is given out a number of marks later. -/
def Mark.shift (distance : Nat) (mark : Mark) : Mark := ⟨mark.number + distance⟩

/-- The step with its mark and its targets a number of marks later. -/
def Step.shift (distance : Nat) (step : Step) : Step :=
  ⟨step.mark.shift distance, step.instruction.mapTargets (Mark.shift distance)⟩

namespace Template

variable {labels labels' shifted : Labels} {distance next : Nat} {supply later : Supply}
  {lines : Template} {last : Pool}

/-- Whether labels have the marks of others, a number of marks later. -/
def Labels.AreShifted (distance : Nat) (labels shifted : Labels) : Prop :=
  ∀ name : String, shifted[name]? = (labels[name]?).map (Mark.shift distance)

theorem Labels.areShifted_insert (h : labels.AreShifted distance shifted) (name : String)
    (mark : Mark) : Labels.AreShifted distance (labels.insert name mark)
      (shifted.insert name (mark.shift distance)) := by
  intro other
  rw [Std.HashMap.getElem?_insert, Std.HashMap.getElem?_insert]
  split_ifs
  · rfl
  · exact h other

theorem Labels.areShifted_foldl (h : labels.AreShifted distance shifted) (names : List String)
    (mark : Mark) : Labels.AreShifted distance
      (names.foldl (fun labels name => labels.insert name mark) labels)
      (names.foldl (fun labels name => labels.insert name (mark.shift distance)) shifted) := by
  induction names generalizing labels shifted with
  | nil => exact h
  | cons name rest ih => exact ih (Labels.areShifted_insert h name mark)

theorem labelMarks_shift {pending trailing : List String} (hs : labels.AreShifted distance shifted)
    (h : labelMarks next pending labels lines = (labels', trailing)) :
    ∃ shifted', labelMarks (next + distance) pending shifted lines = (shifted', trailing) ∧
      labels'.AreShifted distance shifted' := by
  induction lines generalizing next pending labels shifted with
  | nil =>
    obtain ⟨rfl, rfl⟩ := Prod.mk.inj h
    exact ⟨shifted, rfl, hs⟩
  | cons line rest ih =>
    unfold labelMarks at h ⊢
    cases hlabel : line.label? with
    | some name =>
      simp only [hlabel] at h ⊢
      exact ih hs h
    | none =>
      simp only [hlabel] at h ⊢
      rw [Nat.add_right_comm]
      exact ih (Labels.areShifted_foldl hs _ _) h

/-- Whether what is made with labels is made again with labels that have the marks a number of marks
later: it uses as many marks and adds no constants, wherever those that it added are there. -/
def Repeats {α : Type} (distance : Nat) (move : α → α) (make : Labels → Supplied (α × Labels)) :
    Prop :=
  ∀ {labels labels' : Labels} {supply later : Supply} {value : α},
    make labels supply = (.ok (value, labels'), later) → supply.pool.Precedes later.pool ∧
      ∀ (last : Pool) (shifted : Labels), later.pool.Precedes last →
        labels.AreShifted distance shifted → ∃ shifted',
          make shifted ⟨supply.nextMark + distance, last⟩ =
              (.ok (move value, shifted'), ⟨later.nextMark + distance, last⟩) ∧
            labels'.AreShifted distance shifted'

theorem repeats_pure {α : Type} {move : α → α} {value : α} (hm : move value = value) :
    Repeats distance move fun labels => pure (value, labels) := by
  intro labels labels' supply later found h
  obtain ⟨hpair, rfl⟩ := ExceptT.pure_eq_ok.mp h
  obtain ⟨rfl, rfl⟩ := Prod.mk.inj hpair
  refine ⟨.refl _, fun last shifted _ hs => ⟨shifted, ?_, hs⟩⟩
  rw [hm]
  rfl

/-- A label that is looked up again has its mark, a number of marks later. -/
theorem repeats_target (name : String) :
    Repeats distance (Mark.shift distance) (target · name) := by
  intro labels labels' supply later mark h
  rcases target_eq_ok.mp h with ⟨hname, rfl, rfl⟩ | ⟨hname, rfl, rfl, rfl⟩
  · refine ⟨.refl _, fun last shifted _ hs => ⟨shifted, target_eq_ok.mpr (.inl ⟨?_, rfl, rfl⟩), hs⟩⟩
    rw [hs name, hname]
    rfl
  · refine ⟨.refl _, fun last shifted _ hs =>
      ⟨_, target_eq_ok.mpr (.inr ⟨?_, rfl, rfl, ?_⟩), Labels.areShifted_insert hs name _⟩⟩
    · rw [hs name, hname]
      rfl
    · rw [Nat.add_right_comm]

/-- What only adds constants, and refers to no mark, is made again. -/
theorem repeats_intern {step : Interning UInt16} (hs : step.Settles)
    (given : UInt16 → Except TemplateFault (Instruction Mark))
    (hg : ∀ index made, given index = .ok made → made.targets = []) :
    Repeats distance (Option.map (·.mapTargets (Mark.shift distance))) fun labels => do
      let index ← Supplied.intern step
      return (some (← liftM (given index)), labels) := by
  intro labels labels' supply later value h
  obtain ⟨index, between, hindex, h⟩ := ExceptT.bind_eq_ok.mp h
  obtain ⟨pool, hstep, rfl⟩ := Supplied.intern_eq_ok.mp hindex
  obtain ⟨made, between', hmade, h⟩ := ExceptT.bind_eq_ok.mp h
  obtain ⟨hgiven, rfl⟩ := ExceptT.lift_eq_ok.mp hmade
  obtain ⟨hpair, rfl⟩ := ExceptT.pure_eq_ok.mp h
  obtain ⟨rfl, rfl⟩ := Prod.mk.inj hpair
  obtain ⟨hprecedes, hagain⟩ := hs _ _ _ hstep
  have hmove : made.mapTargets (Mark.shift distance) = made := by
    rw [Instruction.mapTargets_congr (g := id) (by simp [hg index made hgiven]),
      Instruction.mapTargets_id]
  refine ⟨hprecedes, fun last shifted hl hshifted => ⟨shifted, ?_, hshifted⟩⟩
  refine ExceptT.bind_eq_ok.mpr
    ⟨index, _, Supplied.intern_eq_ok.mpr ⟨last, hagain last hl, rfl⟩, ?_⟩
  refine ExceptT.bind_eq_ok.mpr ⟨made, _, ExceptT.lift_eq_ok.mpr ⟨hgiven, rfl⟩, ?_⟩
  rw [Option.map_some, hmove]
  rfl

/-- The instruction of a line is made again, with its jump a number of marks later. -/
theorem repeats_instruction (line : Line) :
    Repeats distance (Option.map (·.mapTargets (Mark.shift distance))) (instruction · line) := by
  -- Only a jump has a target, and only its mark is shifted; the others find their constants again.
  cases line with
  | jump op name =>
    intro labels labels' supply later value h
    obtain ⟨⟨mark, after⟩, between, hmark, h⟩ := ExceptT.bind_eq_ok.mp h
    obtain ⟨hpair, rfl⟩ := ExceptT.pure_eq_ok.mp h
    obtain ⟨rfl, rfl⟩ := Prod.mk.inj hpair
    obtain ⟨hprecedes, hagain⟩ := repeats_target name hmark
    refine ⟨hprecedes, fun last shifted hl hs => ?_⟩
    obtain ⟨shifted', hmark', hs'⟩ := hagain last shifted hl hs
    exact ⟨shifted', ExceptT.bind_eq_ok.mpr ⟨_, _, hmark', rfl⟩, hs'⟩
  | constant value =>
    exact repeats_intern value.settles_intern (fun index => .ok (.constant index))
      fun _ _ h => Except.ok.inj h ▸ rfl
  | field op member =>
    exact repeats_intern (Interning.settles_member _ _ _ _) (fun index => .ok (.field op index))
      fun _ _ h => Except.ok.inj h ▸ rfl
  | invoke op member interface =>
    exact repeats_intern (Interning.settles_member _ _ _ _) _ fun _ _ h =>
      targets_of_callInstruction h
  | classOp op name =>
    exact repeats_intern (Interning.settles_classRef name) (fun index => .ok (.classOp op index))
      fun _ _ h => Except.ok.inj h ▸ rfl
  | newMultiArray name dimensions =>
    exact repeats_intern (Interning.settles_classRef name)
      (fun index => .ok (.newMultiArray index dimensions)) fun _ _ h => Except.ok.inj h ▸ rfl
  | _ => exact repeats_pure rfl

/-- The steps of lines are made again. -/
theorem stepsFrom_shift (distance : Nat) {mark : Nat} {found steps : List Step}
    (h : stepsFrom mark labels found lines supply = (.ok steps, later)) :
    supply.pool.Precedes later.pool ∧ ∀ (last : Pool) (shifted : Labels),
      later.pool.Precedes last → labels.AreShifted distance shifted →
        stepsFrom (mark + distance) shifted (found.map (·.shift distance)) lines
            ⟨supply.nextMark + distance, last⟩ =
          (.ok (steps.map (·.shift distance)), ⟨later.nextMark + distance, last⟩) := by
  induction lines generalizing mark labels found supply with
  | nil =>
    obtain ⟨rfl, rfl⟩ := ExceptT.pure_eq_ok.mp h
    refine ⟨.refl _, fun last shifted _ _ => ?_⟩
    rw [stepsFrom, List.map_reverse]
    rfl
  | cons line rest ih =>
    unfold stepsFrom at h
    obtain ⟨⟨value, labels'⟩, between, hline, h⟩ := ExceptT.bind_eq_ok.mp h
    obtain ⟨hfirst, hagain⟩ := repeats_instruction line hline
    cases value with
    | none =>
      obtain ⟨hrest, hsteps⟩ := ih h
      refine ⟨hfirst.trans hrest, fun last shifted hl hs => ?_⟩
      obtain ⟨shifted', hline', hs'⟩ := hagain last shifted (hrest.trans hl) hs
      unfold stepsFrom
      exact ExceptT.bind_eq_ok.mpr ⟨_, _, hline', hsteps last shifted' hl hs'⟩
    | some instruction =>
      obtain ⟨hrest, hsteps⟩ := ih h
      refine ⟨hfirst.trans hrest, fun last shifted hl hs => ?_⟩
      obtain ⟨shifted', hline', hs'⟩ := hagain last shifted (hrest.trans hl) hs
      have hnext := hsteps last shifted' hl hs'
      rw [Nat.add_right_comm] at hnext
      unfold stepsFrom
      exact ExceptT.bind_eq_ok.mpr ⟨_, _, hline', hnext⟩

/-- A template that became steps becomes the same steps again, a number of marks later, and adds no
constants. -/
theorem steps_shift (distance : Nat) {template : Template} {steps : List Step}
    (h : template.steps supply = (.ok steps, later)) :
    supply.pool.Precedes later.pool ∧ ∀ last : Pool, later.pool.Precedes last →
      template.steps ⟨supply.nextMark + distance, last⟩ =
        (.ok (steps.map (·.shift distance)), ⟨later.nextMark + distance, last⟩) := by
  obtain ⟨labels, hlabels, h⟩ := steps_eq_ok.mp h
  obtain ⟨hprecedes, hagain⟩ := stepsFrom_shift distance h
  have hempty : Labels.AreShifted distance ∅ ∅ := fun name => by simp
  obtain ⟨shifted, hshifted, hs⟩ := labelMarks_shift hempty hlabels
  refine ⟨hprecedes, fun last hl => steps_eq_ok.mpr ⟨shifted, hshifted, ?_⟩⟩
  rw [Nat.add_right_comm]
  exact hagain last shifted hl hs

end Template

end ClassGraft

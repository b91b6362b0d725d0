import ClassGraft.Proofs.Template.Resolving

/-!
# Uses of templates

A template becomes other steps each time it is used (`Template.Use`), with the marks that are given
out next.  Its jumps lead to these steps, or to what the use reserves for the label that their lines
name (`Template.Use.mem_or_reserves`), which is the mark of no step of the use.
-/

namespace ClassGraft

/-- A line that stands for an instruction with a target is a jump, and that instruction leads where
the label is. -/
theorem Line.Becomes.eq_jump {line : Line} {pool : Pool} {marks : String → Mark}
    {made : Instruction Mark} (h : line.Becomes pool marks made) {target : Mark}
    (ht : target ∈ made.targets) :
    ∃ op name, line = .jump op name ∧ made = .jump op target ∧ marks name = target := by
  cases line with
  | label name => exact absurd h id
  | jump op name =>
    obtain rfl : made = .jump op (marks name) := h
    obtain rfl := List.mem_singleton.mp ht
    exact ⟨op, name, rfl, rfl, rfl⟩
  | constant | field | classOp | newMultiArray =>
    obtain ⟨index, -, rfl⟩ := h
    exact absurd ht List.not_mem_nil
  | invoke op member interface =>
    obtain ⟨index, -, hcall⟩ := h
    rw [Template.targets_of_callInstruction hcall] at ht
    exact absurd ht List.not_mem_nil
  | _ =>
    subst h
    exact absurd ht List.not_mem_nil

namespace Template

/-- A template together with the steps that it became, and the marks and constants from before and
after that. -/
structure Use where
  template : Template
  before : Supply
  steps : List Step
  after : Supply
  made : template.steps before = (.ok steps, after)

namespace Use

variable {use : Use} {name : String} {target : Mark} {step : Step}

/-- Whether a use reserves a mark for a label that its template does not define: one that was given
out after those of the steps, and to which those of them jump whose lines name the label. -/
structure Reserves (use : Use) (name : String) (mark : Mark) : Prop where
  misses : use.template.Misses name
  first : use.before.nextMark + use.steps.length ≤ mark.number
  next : mark.number < use.after.nextMark
  jumps : List.Forall₂
    (fun line step => ∀ op, line = .jump op name ↔ step.instruction = .jump op mark)
    (instructions use.template) use.steps

/-- The steps have new marks. -/
theorem bounds (use : Use) (hs : step ∈ use.steps) : use.before.nextMark ≤ step.mark.number ∧
    step.mark.number < use.before.nextMark + use.steps.length :=
  (steps_spec use.made).2.2.1.bounds hs

theorem nextMark_le (use : Use) :
    use.before.nextMark + use.steps.length ≤ use.after.nextMark := (steps_spec use.made).2.1

theorem nodup (use : Use) : (use.steps.map (·.mark)).Nodup :=
  (steps_spec use.made).2.2.1.nodup

/-- A step jumps to one of its use, or to what is reserved for the label that its line names. -/
theorem mem_or_reserves (use : Use) (hs : step ∈ use.steps)
    (ht : target ∈ step.instruction.targets) :
    target ∈ use.steps.map (·.mark) ∨
      (∃ name, use.Reserves name target) ∧ ∃ op, step.instruction = .jump op target := by
  obtain ⟨-, -, hmarked, hbounds, -⟩ := steps_spec use.made
  have hlength := length_of_steps use.made
  obtain ⟨labels, marks, hlabels, hagrees, hall, hreserved, hdistinct⟩ :=
    exists_marks_of_steps use.made
  have hin : ∀ line ∈ instructions use.template, line ∈ use.template :=
    fun line hline => (List.mem_filter.mp hline).1
  -- a label that a jump names and that the template defines has the mark of a step
  have hdefined : ∀ {op : Opcode} {name : String}, .jump op name ∈ use.template →
      ¬use.template.Misses name → (marks name).number < use.before.nextMark + use.steps.length := by
    intro op name hjump hnot
    have hlabel : .label name ∈ use.template := by
      by_contra hmissing
      exact hnot ⟨⟨op, hjump⟩, hmissing⟩
    obtain ⟨mark, hmark⟩ := exists_mark_of_labelMarks hlabels hlabel
    rw [hagrees name mark hmark, hlength]
    exact (within_start hlabels name mark hmark).2
  have hlines := (List.forall₂_and_left _ _).mpr ⟨hin, hall⟩
  obtain ⟨line, hline, hbecomes⟩ := exists_of_mem_right hall hs
  obtain ⟨op, name, rfl, hinstruction, rfl⟩ := hbecomes.eq_jump ht
  by_cases hmisses : use.template.Misses name
  · obtain ⟨hfirst, hnext⟩ := hreserved name hmisses
    refine .inr ⟨⟨name, hmisses, hfirst, hnext, hlines.imp ?_⟩, op, hinstruction⟩
    rintro other made ⟨hother, hmade⟩ op'
    refine ⟨fun he => ?_, fun he => ?_⟩
    · subst he
      exact hmade
    · have hleads : marks name ∈ made.instruction.targets := by
        rw [he]
        exact List.mem_singleton.mpr rfl
      obtain ⟨op'', name', rfl, he', hsame⟩ := hmade.eq_jump hleads
      obtain ⟨rfl, -⟩ := Instruction.jump.inj (he.symm.trans he')
      have hmisses' : use.template.Misses name' := by
        by_contra hnot
        have hlt := hdefined hother hnot
        rw [hsame] at hlt
        omega
      rw [hdistinct name' name hmisses' hmisses hsame]
  · refine .inl ?_
    rw [hmarked]
    exact List.mem_map.mpr ⟨_, List.mem_range'_1.mpr
      ⟨(hbounds step hs _ ht).1, hdefined (hin _ hline) hmisses⟩, rfl⟩

namespace Reserves

/-- What is reserved is the mark of no step of the use. -/
theorem not_mem (h : use.Reserves name target) : target ∉ use.steps.map (·.mark) := by
  intro hin
  obtain ⟨step, hstep, rfl⟩ := List.mem_map.mp hin
  exact absurd (use.bounds hstep).2 (Nat.not_lt_of_le h.first)

theorem before_le (h : use.Reserves name target) : use.before.nextMark ≤ target.number :=
  Nat.le_trans (Nat.le_add_right _ _) h.first

/-- A step that leads to what is reserved is a jump. -/
theorem eq_jump (h : use.Reserves name target) (hs : step ∈ use.steps)
    (ht : target ∈ step.instruction.targets) : ∃ op, step.instruction = .jump op target :=
  ((use.mem_or_reserves hs ht).resolve_left h.not_mem).2

end Reserves

end Use

end Template

end ClassGraft

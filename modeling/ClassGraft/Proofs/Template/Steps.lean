import ClassGraft.Proofs.Pool.Growth
import ClassGraft.Template.Steps
import Mathlib.Data.List.Nodup

/-!
# What templates become

A template becomes one step for each of its instructions, with consecutive fresh marks, and jumps
lead to marks that were fresh as well (`Template.steps_spec`).  Labels are looked up among the marks
of the steps; those that a template does not define get later ones.
-/

namespace ClassGraft

/-! ### Supplies -/

/-- Whether a supply may have become another one by use. -/
structure Supply.Leads (supply later : Supply) : Prop where
  marks : supply.nextMark ≤ later.nextMark
  pool : supply.pool.Extends later.pool

theorem Supply.Leads.refl (supply : Supply) : supply.Leads supply := ⟨Nat.le_refl _, .refl _⟩

theorem Supply.Leads.trans {supply later last : Supply} (h : supply.Leads later)
    (h' : later.Leads last) : supply.Leads last :=
  ⟨Nat.le_trans h.marks h'.marks, h.pool.trans h'.pool⟩

theorem Supplied.intern_eq_ok {α : Type} {step : Interning α} {supply later : Supply} {a : α} :
    Supplied.intern step supply = (.ok a, later) ↔
      ∃ pool, step supply.pool = (.ok a, pool) ∧ ⟨supply.nextMark, pool⟩ = later := by
  obtain ⟨result, pool, h⟩ : ∃ result pool, step supply.pool = (result, pool) := ⟨_, _, rfl⟩
  obtain ⟨nextMark, before⟩ := supply
  unfold Supplied.intern
  simp only at h ⊢
  rw [h]
  cases result with
  | error fault =>
    constructor
    · intro h
      nomatch h
    · rintro ⟨other, h, -⟩
      nomatch h
  | ok value =>
    constructor
    · intro h
      obtain ⟨ha, rfl⟩ := Prod.mk.inj h
      obtain rfl := Except.ok.inj ha
      exact ⟨pool, rfl, rfl⟩
    · rintro ⟨other, h, rfl⟩
      obtain ⟨ha, rfl⟩ := Prod.mk.inj h
      obtain rfl := Except.ok.inj ha
      rfl

theorem Supplied.leads_intern {α : Type} {step : Interning α} {supply later : Supply} {a : α}
    (hs : Interning.OnlyAdds step) (h : Supplied.intern step supply = (.ok a, later)) :
    supply.nextMark = later.nextMark ∧ supply.pool.Extends later.pool := by
  obtain ⟨pool, hstep, rfl⟩ := intern_eq_ok.mp h
  exact ⟨rfl, hs _ _ _ hstep⟩

theorem Constant.onlyAdds_intern (value : Constant) : Interning.OnlyAdds value.intern := by
  have hentry : ∀ entry : Pool.Entry, entry.references? = some [] →
      Interning.OnlyAdds (Interning.entry entry) :=
    fun entry hr pool index later h => Pool.extends_add h ⟨[], hr, by simp⟩
  cases value with
  | string text => exact fun _ _ _ h => (Interning.named_spec h).1
  | classRef name => exact Interning.onlyAdds_classRef name
  | _ => exact hentry _ rfl

namespace Template

/-! ### Labels -/

/-- Whether all labels have marks from one number on and below another. -/
def Labels.Within (labels : Labels) (first next : Nat) : Prop :=
  ∀ (name : String) (mark : Mark), labels[name]? = some mark →
    first ≤ mark.number ∧ mark.number < next

variable {labels labels' : Labels} {first next : Nat}

theorem Labels.Within.mono (h : labels.Within first next) {later : Nat} (hl : next ≤ later) :
    labels.Within first later := fun name mark hm =>
  ⟨(h name mark hm).1, Nat.lt_of_lt_of_le (h name mark hm).2 hl⟩

theorem Labels.within_insert (h : labels.Within first next) {mark : Mark}
    (hf : first ≤ mark.number) (hn : mark.number < next) (name : String) :
    Labels.Within (labels.insert name mark) first next := by
  intro other found hfound
  rw [Std.HashMap.getElem?_insert] at hfound
  split_ifs at hfound
  · obtain rfl := Option.some.inj hfound
    exact ⟨hf, hn⟩
  · exact h other found hfound

theorem Labels.within_foldl (h : labels.Within first next) {mark : Mark}
    (hf : first ≤ mark.number) (hn : mark.number < next) (names : List String) :
    Labels.Within (names.foldl (fun labels name => labels.insert name mark) labels) first next := by
  induction names generalizing labels with
  | nil => exact h
  | cons name rest ih => exact ih (Labels.within_insert h hf hn name)

/-- The number of instructions of a template. -/
def count (template : Template) : Nat := (template.filter (·.label?.isNone)).length

/-- Labels get the marks of instructions that follow them. -/
theorem within_labelMarks {template : Template} {pending trailing : List String}
    (hf : first ≤ next) (hl : labels.Within first next)
    (h : labelMarks next pending labels template = (labels', trailing)) :
    labels'.Within first (next + count template) := by
  induction template generalizing next pending labels with
  | nil =>
    obtain ⟨rfl, -⟩ := Prod.mk.inj h
    exact hl
  | cons line rest ih =>
    unfold labelMarks at h
    cases hlabel : line.label? with
    | some name =>
      simp only [hlabel] at h
      rw [count, List.filter_cons_of_neg (by simp [hlabel])]
      exact ih hf hl h
    | none =>
      simp only [hlabel] at h
      rw [count, List.filter_cons_of_pos (by simp [hlabel]), List.length_cons,
        Nat.add_comm _ 1, ← Nat.add_assoc]
      refine ih (Nat.le_succ_of_le hf) ?_ h
      exact Labels.within_foldl (hl.mono (Nat.le_succ next)) hf (Nat.lt_succ_self next) _

theorem within_start {template : Template} {trailing : List String}
    (h : labelMarks first [] ∅ template = (labels, trailing)) :
    labels.Within first (first + count template) :=
  within_labelMarks (Nat.le_refl _) (fun name mark hm => by simp at hm) h

/-- A template of labels alone has one that no instruction follows. -/
theorem ne_nil_of_labelMarks {template : Template} {pending trailing : List String}
    (hc : count template = 0) (hp : pending ≠ [] ∨ template ≠ [])
    (h : labelMarks next pending labels template = (labels', trailing)) : trailing ≠ [] := by
  induction template generalizing pending with
  | nil =>
    obtain ⟨-, rfl⟩ := Prod.mk.inj h
    simpa using hp
  | cons line rest ih =>
    unfold labelMarks at h
    cases hlabel : line.label? with
    | some name =>
      simp only [hlabel] at h
      rw [count, List.filter_cons_of_neg (by simp [hlabel])] at hc
      exact ih hc (.inl (List.cons_ne_nil _ _)) h
    | none =>
      rw [count, List.filter_cons_of_pos (by simp [hlabel])] at hc
      simp at hc

/-! ### Instructions -/

/-- A label that is known has its mark, and any other gets the next one. -/
theorem target_eq_ok {name : String} {supply later : Supply} {mark : Mark} :
    target labels name supply = (.ok (mark, labels'), later) ↔
      (labels[name]? = some mark ∧ labels = labels' ∧ supply = later) ∨
      (labels[name]? = none ∧ ⟨supply.nextMark⟩ = mark ∧ labels.insert name mark = labels' ∧
        ⟨supply.nextMark + 1, supply.pool⟩ = later) := by
  unfold target
  cases hname : labels[name]? with
  | some found =>
    constructor
    · intro h
      obtain ⟨hpair, rfl⟩ := ExceptT.pure_eq_ok.mp h
      obtain ⟨rfl, rfl⟩ := Prod.mk.inj hpair
      exact .inl ⟨rfl, rfl, rfl⟩
    · rintro (⟨hfound, rfl, rfl⟩ | ⟨hnone, -⟩)
      · obtain rfl := Option.some.inj hfound
        rfl
      · cases hnone
  | none =>
    constructor
    · intro h
      obtain ⟨fresh, between, hfresh, h⟩ := ExceptT.bind_eq_ok.mp h
      obtain ⟨hmark, rfl⟩ := Prod.mk.inj hfresh
      obtain rfl := Except.ok.inj hmark
      obtain ⟨hpair, rfl⟩ := ExceptT.pure_eq_ok.mp h
      obtain ⟨rfl, rfl⟩ := Prod.mk.inj hpair
      exact .inr ⟨rfl, rfl, rfl, rfl⟩
    · rintro (⟨hsome, -⟩ | ⟨-, rfl, rfl, rfl⟩)
      · cases hsome
      · exact ExceptT.bind_eq_ok.mpr ⟨_, _, rfl, rfl⟩

/-- The mark of a label is one of those that are known, or a new one. -/
theorem target_spec {name : String} {supply later : Supply} {mark : Mark}
    (hf : first ≤ supply.nextMark) (hl : labels.Within first supply.nextMark)
    (h : target labels name supply = (.ok (mark, labels'), later)) :
    supply.Leads later ∧ labels'.Within first later.nextMark ∧ first ≤ mark.number ∧
      mark.number < later.nextMark := by
  rcases target_eq_ok.mp h with ⟨hname, rfl, rfl⟩ | ⟨hname, rfl, rfl, rfl⟩
  · exact ⟨.refl supply, hl, hl name mark hname⟩
  · exact ⟨⟨Nat.le_succ _, .refl _⟩,
      Labels.within_insert (hl.mono (Nat.le_succ _)) hf (Nat.lt_succ_self _) name, hf,
      Nat.lt_succ_self _⟩

/-- What is known of the instruction that a line gives, if any: its jumps lead to marks from a number
on that are given out, and so do the labels. -/
structure IsGiven (first : Nat) (supply later : Supply) (labels : Labels)
    (value : Option (Instruction Mark)) : Prop where
  leads : supply.Leads later
  labels : labels.Within first later.nextMark
  targets : ∀ made, value = some made → ∀ target ∈ made.targets,
    first ≤ target.number ∧ target.number < later.nextMark

section Lines

variable {supply later : Supply} {value : Option (Instruction Mark)}

theorem isGiven_of_pure (hl : labels.Within first supply.nextMark)
    {given : Option (Instruction Mark)}
    (ht : ∀ made, given = some made → made.targets = [])
    (h : (pure (given, labels) : Supplied (Option (Instruction Mark) × Labels)) supply =
      (.ok (value, labels'), later)) :
    IsGiven first supply later labels' value ∧ value.isSome = given.isSome := by
  obtain ⟨hpair, rfl⟩ := ExceptT.pure_eq_ok.mp h
  obtain ⟨rfl, rfl⟩ := Prod.mk.inj hpair
  exact ⟨⟨.refl supply, hl, fun made hm => by simp [ht made hm]⟩, rfl⟩

/-- What is given after a constant was added. -/
theorem isGiven_of_intern (hl : labels.Within first supply.nextMark) {step : Interning UInt16}
    (hs : Interning.OnlyAdds step) {isSome : Bool}
    {next : UInt16 → Supplied (Option (Instruction Mark) × Labels)}
    (hn : ∀ index between, labels.Within first between.nextMark →
      next index between = (.ok (value, labels'), later) →
        IsGiven first between later labels' value ∧ value.isSome = isSome)
    (h : (Supplied.intern step >>= next) supply = (.ok (value, labels'), later)) :
    IsGiven first supply later labels' value ∧ value.isSome = isSome := by
  obtain ⟨index, between, hindex, h⟩ := ExceptT.bind_eq_ok.mp h
  obtain ⟨hmark, hx⟩ := Supplied.leads_intern hs hindex
  rw [hmark] at hl
  obtain ⟨⟨⟨hmarks, hpool⟩, hlabels, htargets⟩, hsome⟩ := hn index between hl h
  exact ⟨⟨⟨hmark ▸ hmarks, hx.trans hpool⟩, hlabels, htargets⟩, hsome⟩

theorem targets_of_callInstruction {op : Opcode} {index : UInt16} {descriptor : String}
    {made : Instruction Mark} (h : callInstruction op index descriptor = .ok made) :
    made.targets = [] := by
  unfold callInstruction at h
  split_ifs at h
  · obtain ⟨count, -, rfl⟩ := Except.map_eq_ok.mp h
    rfl
  · obtain rfl := Except.ok.inj h
    rfl

/-- A label gives no instruction, and any other line gives one. -/
theorem instruction_spec {line : Line} (hf : first ≤ supply.nextMark)
    (hl : labels.Within first supply.nextMark)
    (h : instruction labels line supply = (.ok (value, labels'), later)) :
    IsGiven first supply later labels' value ∧ value.isSome = line.label?.isNone := by
  cases line with
  | label name => exact isGiven_of_pure hl (by simp) h
  | jump op name =>
    obtain ⟨⟨mark, after⟩, between, hmark, h⟩ := ExceptT.bind_eq_ok.mp h
    obtain ⟨hpair, rfl⟩ := ExceptT.pure_eq_ok.mp h
    obtain ⟨rfl, rfl⟩ := Prod.mk.inj hpair
    obtain ⟨hleads, hlabels, hfirst, hlast⟩ := target_spec hf hl hmark
    refine ⟨⟨hleads, hlabels, fun made hm target ht => ?_⟩, rfl⟩
    obtain rfl := Option.some.inj hm
    obtain rfl := List.mem_singleton.mp ht
    exact ⟨hfirst, hlast⟩
  | constant constant =>
    exact isGiven_of_intern hl constant.onlyAdds_intern
      (fun index between hl => isGiven_of_pure hl fun made hm => Option.some.inj hm ▸ rfl) h
  | field op member =>
    obtain ⟨owner, name, descriptor⟩ := member
    exact isGiven_of_intern hl (Interning.onlyAdds_member _ owner name descriptor)
      (fun index between hl => isGiven_of_pure hl fun made hm => Option.some.inj hm ▸ rfl) h
  | invoke op member interface =>
    obtain ⟨owner, name, descriptor⟩ := member
    refine isGiven_of_intern hl (Interning.onlyAdds_method owner name descriptor interface)
      (fun index between hl h => ?_) h
    obtain ⟨made, between', hmade, h⟩ := ExceptT.bind_eq_ok.mp h
    obtain ⟨hcall, rfl⟩ := ExceptT.lift_eq_ok.mp hmade
    exact isGiven_of_pure hl (fun other ho => Option.some.inj ho ▸ targets_of_callInstruction hcall)
      h
  | classOp op name =>
    exact isGiven_of_intern hl (Interning.onlyAdds_classRef name)
      (fun index between hl => isGiven_of_pure hl fun made hm => Option.some.inj hm ▸ rfl) h
  | newMultiArray name dimensions =>
    exact isGiven_of_intern hl (Interning.onlyAdds_classRef name)
      (fun index between hl => isGiven_of_pure hl fun made hm => Option.some.inj hm ▸ rfl) h
  | _ => exact isGiven_of_pure hl (fun made hm => by rw [← Option.some.inj hm]; rfl) h

/-! ### Steps -/

/-- Whether steps have consecutive marks from a number on. -/
def AreMarked (mark : Nat) (steps : List Step) : Prop :=
  steps.map (·.mark) = (List.range' mark steps.length).map Mark.mk

/-- Steps with marks of their own do not share any. -/
theorem AreMarked.nodup {mark : Nat} {steps : List Step} (h : AreMarked mark steps) :
    (steps.map (·.mark)).Nodup := by
  rw [h]
  exact List.Nodup.map (fun a b he => congrArg Mark.number he) List.nodup_range'

theorem AreMarked.bounds {mark : Nat} {steps : List Step} (h : AreMarked mark steps) {step : Step}
    (hs : step ∈ steps) : mark ≤ step.mark.number ∧ step.mark.number < mark + steps.length := by
  have hmem : step.mark ∈ steps.map (·.mark) := List.mem_map_of_mem hs
  rw [h] at hmem
  obtain ⟨number, hnumber, he⟩ := List.mem_map.mp hmem
  rw [← he]
  exact List.mem_range'_1.mp hnumber

theorem AreMarked.exists_getElem? {mark index : Nat} {steps : List Step} (h : AreMarked mark steps)
    (hi : index < steps.length) : ∃ step, steps[index]? = some step ∧ step.mark = ⟨mark + index⟩ := by
  refine ⟨steps[index], List.getElem?_eq_getElem hi, ?_⟩
  have hmarks := congrArg (·[index]?) h
  rw [List.getElem?_map, List.getElem?_map, List.getElem?_eq_getElem hi,
    List.getElem?_range' hi, Option.map_some, Option.map_some, Option.some_inj] at hmarks
  rw [hmarks, Nat.one_mul]

/-- The steps that lines give come after those that were there. -/
theorem stepsFrom_spec {template : Template} {mark : Nat} {found steps : List Step}
    (hf : first ≤ supply.nextMark) (hl : labels.Within first supply.nextMark)
    (h : stepsFrom mark labels found template supply = (.ok steps, later)) :
    supply.Leads later ∧ ∃ made, steps = found.reverse ++ made ∧ AreMarked mark made ∧
      made.length = count template ∧ ∀ step ∈ made, ∀ target ∈ step.instruction.targets,
        first ≤ target.number ∧ target.number < later.nextMark := by
  induction template generalizing mark labels found supply with
  | nil =>
    obtain ⟨rfl, rfl⟩ := ExceptT.pure_eq_ok.mp h
    exact ⟨.refl supply, [], (List.append_nil _).symm, rfl, rfl, by simp⟩
  | cons line rest ih =>
    unfold stepsFrom at h
    obtain ⟨⟨value, labels'⟩, between, hline, h⟩ := ExceptT.bind_eq_ok.mp h
    obtain ⟨⟨hleads, hlabels, htargets⟩, hsome⟩ := instruction_spec hf hl hline
    have hf' := Nat.le_trans hf hleads.marks
    -- A label is no step, so that the marks of the steps go on without a gap.
    cases value with
    | none =>
      obtain ⟨hrest, made, hmade, hmarks, hlength, hall⟩ := ih hf' hlabels h
      refine ⟨hleads.trans hrest, made, hmade, hmarks, ?_, hall⟩
      rw [hlength, count, count, List.filter_cons_of_neg (by simp [← hsome])]
    | some instruction =>
      obtain ⟨hrest, made, hmade, hmarks, hlength, hall⟩ := ih hf' hlabels h
      refine ⟨hleads.trans hrest, ⟨⟨mark⟩, instruction⟩ :: made, ?_, ?_, ?_, ?_⟩
      · rw [hmade, List.reverse_cons, List.append_assoc]
        rfl
      · unfold AreMarked at hmarks ⊢
        rw [List.map_cons, hmarks, List.length_cons, List.range'_succ, List.map_cons]
      · rw [List.length_cons, hlength, count, count, List.filter_cons_of_pos (by simp [← hsome]),
          List.length_cons]
      · refine List.forall_mem_cons.mpr ⟨fun target ht => ?_, hall⟩
        obtain ⟨hfirst, hlast⟩ := htargets instruction rfl target ht
        exact ⟨hfirst, Nat.lt_of_lt_of_le hlast hrest.marks⟩

/-- A template becomes the steps of its lines if an instruction follows each of its labels. -/
theorem steps_eq_ok {template : Template} {steps : List Step} :
    template.steps supply = (.ok steps, later) ↔
      ∃ labels, labelMarks supply.nextMark [] ∅ template = (labels, []) ∧
        stepsFrom supply.nextMark labels [] template
          ⟨supply.nextMark + count template, supply.pool⟩ = (.ok steps, later) := by
  constructor
  · intro h
    unfold Template.steps at h
    obtain ⟨_, _, hget, h⟩ := ExceptT.bind_eq_ok.mp h
    obtain ⟨rfl, rfl⟩ := ExceptT.get_eq_ok.mp hget
    obtain ⟨_, between, hset, h⟩ := ExceptT.bind_eq_ok.mp h
    obtain rfl := (Prod.mk.inj hset).2
    cases hlabels : labelMarks supply.nextMark [] ∅ template with
    | mk labels trailing =>
      simp only [hlabels] at h
      cases trailing with
      | nil => exact ⟨labels, rfl, h⟩
      | cons label others => exact absurd h ExceptT.throw_ne_ok
  · rintro ⟨labels, hlabels, h⟩
    unfold Template.steps
    refine ExceptT.bind_eq_ok.mpr ⟨_, _, ExceptT.get_eq_ok.mpr ⟨rfl, rfl⟩, ?_⟩
    refine ExceptT.bind_eq_ok.mpr ⟨_, _, rfl, ?_⟩
    simp only [hlabels]
    exact h

/-- A template becomes steps with fresh marks, which only jump to fresh marks. -/
theorem steps_spec {template : Template} {steps : List Step}
    (h : template.steps supply = (.ok steps, later)) :
    supply.pool.Extends later.pool ∧ supply.nextMark + steps.length ≤ later.nextMark ∧
      AreMarked supply.nextMark steps ∧ (∀ step ∈ steps, ∀ target ∈ step.instruction.targets,
        supply.nextMark ≤ target.number ∧ target.number < later.nextMark) ∧
      (template ≠ [] → steps ≠ []) := by
  obtain ⟨labels, hlabels, h⟩ := steps_eq_ok.mp h
  obtain ⟨hleads, made, rfl, hmarks, hlength, hall⟩ :=
    stepsFrom_spec (Nat.le_add_right _ _) (within_start hlabels) h
  refine ⟨hleads.pool, hlength ▸ hleads.marks, hmarks, hall, fun hne hnil => ?_⟩
  have hzero : count template = 0 := by
    rw [← hlength, ← List.length_eq_zero_iff.mpr hnil]
  exact ne_nil_of_labelMarks hzero (.inr hne) hlabels rfl

theorem length_of_steps {template : Template} {steps : List Step}
    (h : template.steps supply = (.ok steps, later)) : steps.length = count template := by
  obtain ⟨labels, hlabels, h⟩ := steps_eq_ok.mp h
  obtain ⟨-, made, rfl, -, hlength, -⟩ :=
    stepsFrom_spec (Nat.le_add_right _ _) (within_start hlabels) h
  exact hlength

end Lines

end Template

end ClassGraft

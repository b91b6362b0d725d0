import ClassGraft.Proofs.Class.DeadCode
import ClassGraft.Proofs.Code.Mentions
import ClassGraft.Proofs.Graft.Tidied
import ClassGraft.Proofs.Template.Uses

/-!
# Bodies that come from others

What edits and refreshes make of a body is a chain of few kinds of changes (`Body.Alters`).  The life
of a body is such a chain together with the templates that were used in it (`Body.Lives`), in order.

All its life a body continues the one that it began with (`Body.Lives.continues`): no mark was given
to two instructions, an instruction with the mark of another one is what became of it, and a mark
that a use reserves for a label is that of no instruction.  It stays anchored as well
(`Body.Lives.isAnchored`): its tables mention its own instructions, and its jumps lead to these, or
are those of a template to what is reserved for a label that it does not define.
-/

namespace ClassGraft

/-- What may become of an instruction that keeps its mark, as long as it can be reached: its jumps
lead elsewhere, or a call takes the place of a call. -/
def Instruction.MayBecome (instruction instruction' : Instruction Mark) : Prop :=
  (∃ f, instruction' = instruction.mapTargets f) ∨
    instruction.callKind?.isSome ∧ instruction'.callKind?.isSome

namespace Instruction

variable {first second third : Instruction Mark}

theorem callKind?_mapTargets (f : Mark → Mark) (instruction : Instruction Mark) :
    (instruction.mapTargets f).callKind? = instruction.callKind? := by
  cases instruction <;> rfl

theorem MayBecome.refl (instruction : Instruction Mark) : instruction.MayBecome instruction :=
  .inl ⟨id, instruction.mapTargets_id.symm⟩

theorem MayBecome.trans (h : first.MayBecome second) (h' : second.MayBecome third) :
    first.MayBecome third := by
  rcases h with ⟨f, rfl⟩ | ⟨hfirst, hsecond⟩
  · rcases h' with ⟨g, rfl⟩ | ⟨hsecond, hthird⟩
    · exact .inl ⟨g ∘ f, first.mapTargets_mapTargets f g⟩
    · exact .inr ⟨first.callKind?_mapTargets f ▸ hsecond, hthird⟩
  · rcases h' with ⟨g, rfl⟩ | ⟨-, hthird⟩
    · exact .inr ⟨hfirst, (second.callKind?_mapTargets g).symm ▸ hsecond⟩
    · exact .inr ⟨hfirst, hthird⟩

theorem callKind?_of_callInstruction {kind : CallKind} {index : UInt16} {descriptor : String}
    {made : Instruction Mark} (h : callInstruction kind.opcode index descriptor = .ok made) :
    made.callKind?.isSome := by
  unfold callInstruction at h
  split_ifs at h with hop
  · obtain ⟨count, -, rfl⟩ := Except.map_eq_ok.mp h
    rfl
  · obtain rfl := Except.ok.inj h
    rw [callKind?, CallKind.ofOpcode?_opcode]
    rfl

/-- Whether an instruction is left of one that control does not reach. -/
def IsBuried (instruction : Instruction Mark) : Prop :=
  instruction = .plain Opcode.nop ∨ instruction = .plain Opcode.athrow

theorem IsBuried.mapTargets (h : first.IsBuried) (f : Mark → Mark) :
    (first.mapTargets f).IsBuried := by
  rcases h with rfl | rfl
  · exact .inl rfl
  · exact .inr rfl

/-- What is left of an instruction that is not reached does not become another one. -/
theorem IsBuried.of_mayBecome (h : first.IsBuried) (h' : first.MayBecome second) :
    second.IsBuried := by
  rcases h' with ⟨f, rfl⟩ | ⟨hcall, -⟩
  · exact h.mapTargets f
  · rcases h with rfl | rfl <;> nomatch hcall

end Instruction

theorem Step.IsRedirected.mayBecome {step step' : Step} (h : step.IsRedirected step') :
    step.instruction.MayBecome step'.instruction := by
  rcases h.instruction with hsame | ⟨hold, kind, number, descriptor, hcall⟩
  · exact hsame ▸ .refl _
  · exact .inr ⟨hold, Instruction.callKind?_of_callInstruction hcall⟩

namespace Body

/-- What one change may make of a body, with the templates that it uses. -/
inductive Alters (body : Body) : List Template.Use → Body → Prop
  | keep {later : Body} (steps : later.steps = body.steps)
      (handlers : later.handlers = body.handlers) (attributes : later.attributes = body.attributes)
      (nextMark : body.nextMark ≤ later.nextMark) : Alters body [] later
  | replace (use : Template.Use) (hu : use.before.nextMark = body.nextMark) :
      Alters body [use] ({ body with nextMark := use.after.nextMark }.replace use.steps [])
  /-- Steps are inserted, before which references to an instruction may have moved to one of them. -/
  | insert (use : Template.Use) (hu : use.before.nextMark = body.nextMark) {base : Body}
      (hb : base = { body with nextMark := use.after.nextMark } ∨ ∃ anchor, ∃ first ∈ use.steps,
        base = Body.retarget { body with nextMark := use.after.nextMark } anchor first.mark)
      (index : Nat) : Alters body [use] (base.insertAt index use.steps)
  | redirect {steps : List Step} (hs : List.Forall₂ Step.IsRedirected body.steps steps) :
      Alters body [] { body.touch with steps := steps }
  | withoutDead {head : MethodHead} {pool : Pool} {hierarchy : Hierarchy} {analysis : Analysis}
      (ha : body.analyze head pool hierarchy = .ok analysis) :
      Alters body [] (body.withoutDead analysis.dead)

/-- What changes one after the other may make of a body, with all templates that they use. -/
inductive Lives (body : Body) : List Template.Use → Body → Prop
  | refl : Lives body [] body
  | tail {uses new : List Template.Use} {between later : Body} (h : Lives body uses between)
      (ha : between.Alters new later) : Lives body (uses ++ new) later

/-- What changes one after the other may make of a body, where only some templates are used. -/
def Becomes (used : Template → Prop) (body later : Body) : Prop :=
  ∃ uses : List Template.Use, (∀ use ∈ uses, used use.template) ∧ body.Lives uses later

/-- Whether the marks of the instructions of a body are distinct and were given out. -/
structure IsNumbered (body : Body) : Prop where
  nodup : (body.steps.map (·.mark)).Nodup
  below : ∀ mark ∈ body.steps.map (·.mark), mark.number < body.nextMark

/-- All instructions that were ever in a body: those that it began with, and those of the templates
that were used since. -/
def given (body : Body) (uses : List Template.Use) : List Step :=
  body.steps ++ uses.flatMap (·.steps)

/-- Whether at some time of its life control did not reach the instruction of a body with a mark. -/
def Passed (body : Body) (uses : List Template.Use) (later : Body) (mark : Mark) : Prop :=
  ∃ past rest between, uses = past ++ rest ∧ body.Lives past between ∧ between.Lives rest later ∧
    ∃ index step, between.steps[index]? = some step ∧ step.mark = mark ∧ ¬between.Reaches index

/-- Whether a body has the marks of another one that it became while templates were used. -/
structure Continues (body : Body) (uses : List Template.Use) (later : Body) : Prop where
  /-- No mark was given to two instructions. -/
  nodup : ((body.given uses).map (·.mark)).Nodup
  below : ∀ step ∈ body.given uses, step.mark.number < later.nextMark
  /-- An instruction is one that was there, or what became of it. -/
  steps : ∀ step' ∈ later.steps, ∃ step ∈ body.given uses, step.mark = step'.mark ∧
    (step.instruction.MayBecome step'.instruction ∨
      step'.instruction.IsBuried ∧ body.Passed uses later step.mark)
  /-- What is reserved for a label that a template does not define was never given to any. -/
  reserved : ∀ use ∈ uses, ∀ name mark, use.Reserves name mark →
    mark ∉ (body.given uses).map (·.mark) ∧ mark.number < later.nextMark

/-- Whether all that a body refers to is in order after templates were used: its tables mention its
own instructions, and its jumps lead to them, or are steps of a template and lead to what is reserved
for the label that their lines name. -/
structure IsAnchored (uses : List Template.Use) (body : Body) : Prop where
  nodup : (body.steps.map (·.mark)).Nodup
  below : ∀ mark ∈ body.steps.map (·.mark), mark.number < body.nextMark
  mentions : ∀ mark ∈ body.mentions, mark ∈ body.steps.map (·.mark)
  targets : ∀ step ∈ body.steps, ∀ target ∈ step.instruction.targets,
    target ∈ body.steps.map (·.mark) ∨
      ∃ use ∈ uses, step ∈ use.steps ∧ ∃ name, use.Reserves name target

variable {body later : Body} {uses new : List Template.Use}

theorem given_append : body.given (uses ++ new) = body.given uses ++ new.flatMap (·.steps) := by
  rw [given, given, List.flatMap_append, List.append_assoc]

/-! ### One change -/

section Templates

variable {base : Body} {use : Template.Use}

/-- Where references moved to one of the steps of a template, or not at all, the instructions are
those that were there, and no others are referred to but that step. -/
theorem of_moved (hb : base = { body with nextMark := use.after.nextMark } ∨
      ∃ anchor, ∃ first ∈ use.steps,
        base = Body.retarget { body with nextMark := use.after.nextMark } anchor first.mark) :
    base.nextMark = use.after.nextMark ∧
      base.steps.map (·.mark) = body.steps.map (·.mark) ∧
      (∀ mark ∈ base.mentions, mark ∈ use.steps.map (·.mark) ∨ mark ∈ body.mentions) ∧
      ∀ step' ∈ base.steps, ∃ step ∈ body.steps, step.mark = step'.mark ∧
        ∃ f : Mark → Mark, step'.instruction = step.instruction.mapTargets f ∧
          ∀ mark, f mark = mark ∨ f mark ∈ use.steps.map (·.mark) := by
  rcases hb with rfl | ⟨anchor, first, hfirst, rfl⟩
  · exact ⟨rfl, rfl, fun _ => .inr, fun step hstep => ⟨step, hstep, rfl, id,
      step.instruction.mapTargets_id.symm, fun _ => .inl rfl⟩⟩
  · have hmark : first.mark ∈ use.steps.map (·.mark) := List.mem_map_of_mem hfirst
    refine ⟨rfl, map_mark_retarget _ _ _, fun mark hmention => ?_, fun step' hstep' => ?_⟩
    · refine (mem_mentions_retarget hmention).imp_left ?_
      rintro rfl
      exact hmark
    · obtain ⟨step, hstep, rfl⟩ := List.mem_map.mp hstep'
      refine ⟨step, hstep, rfl, Mark.move anchor first.mark, rfl, fun mark => ?_⟩
      unfold Mark.move
      split_ifs
      · exact .inr hmark
      · exact .inl rfl

theorem mem_map_mark_insertAt {index : Nat} {mark : Mark} :
    mark ∈ (base.insertAt index use.steps).steps.map (·.mark) ↔
      mark ∈ use.steps.map (·.mark) ∨ mark ∈ base.steps.map (·.mark) := by
  rw [((base.perm_insertAt index use.steps).map (·.mark)).mem_iff, List.map_append, List.mem_append]

end Templates

/-- Where calls became others the marks are the same. -/
theorem map_mark_of_redirected {steps : List Step}
    (hs : List.Forall₂ Step.IsRedirected body.steps steps) :
    steps.map (·.mark) = body.steps.map (·.mark) := by
  rw [← List.forall₂_eq_eq_eq, List.forall₂_map_left_iff, List.forall₂_map_right_iff]
  exact hs.flip.imp fun step' step hstep => hstep.mark

/-- What is left without dead code is an instruction as it was, or what is left of one that control
does not reach. -/
theorem of_mem_withoutDead {head : MethodHead} {pool : Pool} {hierarchy : Hierarchy}
    {analysis : Analysis} (ha : body.analyze head pool hierarchy = .ok analysis)
    (hn : (body.steps.map (·.mark)).Nodup) {step' : Step}
    (h : step' ∈ (body.withoutDead analysis.dead).steps) :
    step' ∈ body.steps ∨ step'.instruction.IsBuried ∧ ∃ index step,
      body.steps[index]? = some step ∧ step.mark = step'.mark ∧ ¬body.Reaches index := by
  have hlength := length_dead ha
  obtain ⟨index, hindex⟩ := List.mem_iff_getElem?.mp h
  have hmarks := congrArg (·[index]?) (map_mark_withoutDead hlength)
  rw [List.getElem?_map, List.getElem?_map, hindex, Option.map_some] at hmarks
  obtain ⟨step, hstep, hmark⟩ := Option.map_eq_some_iff.mp hmarks.symm
  by_cases hreach : body.Reaches index
  · refine .inl ?_
    have hlive := getElem?_withoutDead hstep ((dead_iff_reaches hn ha index).mpr hreach)
    rw [Option.some.inj (hindex.symm.trans hlive)]
    exact List.mem_of_getElem? hstep
  · refine .inr ⟨?_, index, step, hstep, hmark, hreach⟩
    have hlt := (List.getElem?_eq_some_iff.mp hstep).1
    have hburied := getElem?_withoutDead_of_dead hlength hstep
      ((dead_iff_not_reaches hn ha index).mpr ⟨hlt, hreach⟩)
    rw [Option.some.inj (hindex.symm.trans hburied)]
    dsimp only
    split_ifs
    · exact .inl rfl
    · exact .inr rfl

namespace Alters

/-- The templates of a change get the marks that the body gives out next. -/
theorem bounds (h : body.Alters new later) : body.nextMark ≤ later.nextMark ∧
    ∀ use ∈ new, use.before.nextMark = body.nextMark ∧ use.after.nextMark = later.nextMark := by
  cases h with
  | keep _ _ _ nextMark => exact ⟨nextMark, List.forall_mem_nil _⟩
  | redirect | withoutDead => exact ⟨Nat.le_refl _, List.forall_mem_nil _⟩
  | replace use hu =>
    refine ⟨?_, List.forall_mem_singleton.mpr ⟨hu, rfl⟩⟩
    rw [← hu]
    exact Nat.le_trans (Nat.le_add_right _ _) use.nextMark_le
  | @insert use hu base hb index =>
    have hnext : (base.insertAt index use.steps).nextMark = use.after.nextMark := (of_moved hb).1
    refine ⟨?_, List.forall_mem_singleton.mpr ⟨hu, hnext.symm⟩⟩
    rw [hnext, ← hu]
    exact Nat.le_trans (Nat.le_add_right _ _) use.nextMark_le

/-- The steps of the templates of a change have marks that were not given out before. -/
theorem fresh (h : body.Alters new later) {step : Step} (hs : step ∈ new.flatMap (·.steps)) :
    body.nextMark ≤ step.mark.number ∧ step.mark.number < later.nextMark := by
  obtain ⟨use, huse, hin⟩ := List.mem_flatMap.mp hs
  obtain ⟨hbefore, hafter⟩ := h.bounds.2 use huse
  obtain ⟨hge, hlt⟩ := use.bounds hin
  exact ⟨hbefore ▸ hge, hafter ▸ Nat.lt_of_lt_of_le hlt use.nextMark_le⟩

/-- A change uses one template at most. -/
theorem eq_singleton (h : body.Alters new later) {use : Template.Use} (hu : use ∈ new) :
    new = [use] := by
  cases h with
  | keep | redirect | withoutDead => exact absurd hu List.not_mem_nil
  | replace | insert => rw [List.mem_singleton.mp hu]

/-- The templates of a change have distinct marks, as there is one of them at most. -/
theorem nodup_new (h : body.Alters new later) :
    ((new.flatMap (·.steps)).map (·.mark)).Nodup := by
  cases h with
  | keep | redirect | withoutDead => exact .nil
  | replace use | insert use =>
    rw [List.flatMap_singleton]
    exact use.nodup

/-- A mark is one that was there, or that of a template. -/
theorem marks (h : body.Alters new later) {step' : Step} (hs : step' ∈ later.steps) :
    step'.mark ∈ body.steps.map (·.mark) ∨ ∃ use ∈ new, step' ∈ use.steps := by
  cases h with
  | keep steps => exact .inl (List.mem_map_of_mem (steps ▸ hs))
  | replace use hu => exact .inr ⟨use, List.mem_singleton.mpr rfl, hs⟩
  | @insert use hu base hb index =>
    rcases List.mem_append.mp ((base.perm_insertAt index use.steps).mem_iff.mp hs) with hin | hin
    · exact .inr ⟨use, List.mem_singleton.mpr rfl, hin⟩
    · rw [← (of_moved hb).2.1]
      exact .inl (List.mem_map_of_mem hin)
  | redirect hredirected =>
    rw [← map_mark_of_redirected hredirected]
    exact .inl (List.mem_map_of_mem hs)
  | withoutDead ha =>
    rw [← map_mark_withoutDead (length_dead ha)]
    exact .inl (List.mem_map_of_mem hs)

/-- An instruction is new, or what became of one that was there. -/
theorem steps (h : body.Alters new later) (hn : (body.steps.map (·.mark)).Nodup) {step' : Step}
    (hs : step' ∈ later.steps) :
    (∃ use ∈ new, step' ∈ use.steps) ∨ ∃ step ∈ body.steps, step.mark = step'.mark ∧
      (step.instruction.MayBecome step'.instruction ∨
        step'.instruction.IsBuried ∧ ∃ index step, body.steps[index]? = some step ∧
          step.mark = step'.mark ∧ ¬body.Reaches index) := by
  cases h with
  | keep steps => exact .inr ⟨step', steps ▸ hs, rfl, .inl (.refl _)⟩
  | replace use hu => exact .inl ⟨use, List.mem_singleton.mpr rfl, hs⟩
  | @insert use hu base hb index =>
    rcases List.mem_append.mp ((base.perm_insertAt index use.steps).mem_iff.mp hs) with hin | hin
    · exact .inl ⟨use, List.mem_singleton.mpr rfl, hin⟩
    · obtain ⟨step, hstep, hmark, f, hmoved, -⟩ := (of_moved hb).2.2.2 step' hin
      exact .inr ⟨step, hstep, hmark, .inl (.inl ⟨f, hmoved⟩)⟩
  | redirect hredirected =>
    obtain ⟨step, hstep, hcall⟩ := exists_of_mem_right hredirected hs
    exact .inr ⟨step, hstep, hcall.mark.symm, .inl hcall.mayBecome⟩
  | withoutDead ha =>
    rcases of_mem_withoutDead ha hn hs with hsame | ⟨hburied, index, step, hstep, hmark, hreach⟩
    · exact .inr ⟨step', hsame, rfl, .inl (.refl _)⟩
    · exact .inr ⟨step, List.mem_of_getElem? hstep, hmark,
        .inr ⟨hburied, index, step, hstep, hmark, hreach⟩⟩

/-- A change keeps the marks of instructions distinct. -/
theorem isNumbered (h : body.Alters new later) (hb : body.IsNumbered) : later.IsNumbered := by
  obtain ⟨hnext, hnew⟩ := h.bounds
  refine ⟨?_, fun mark hmark => ?_⟩
  · cases h with
    | keep steps => exact steps ▸ hb.nodup
    | replace use hu => exact use.nodup
    | @insert use hu base hbase index =>
      have hmarked := (Template.steps_spec use.made).2.2.1
      have hmarks := (of_moved hbase).2.1
      rw [hu] at hmarked
      exact nodup_insertAt (hmarks ▸ hb.nodup) (hmarks ▸ hb.below) hmarked index
    | redirect hredirected => exact (map_mark_of_redirected hredirected).symm ▸ hb.nodup
    | withoutDead ha => exact (map_mark_withoutDead (length_dead ha)).symm ▸ hb.nodup
  · obtain ⟨step', hstep', rfl⟩ := List.mem_map.mp hmark
    rcases h.marks hstep' with hold | ⟨use, huse, hin⟩
    · exact Nat.lt_of_lt_of_le (hb.below _ hold) hnext
    · obtain ⟨-, hafter⟩ := hnew use huse
      exact hafter ▸ Nat.lt_of_lt_of_le (use.bounds hin).2 use.nextMark_le

/-- What the tables of a body mention stays one of its instructions. -/
theorem mentions (h : body.Alters new later)
    (hb : ∀ mark ∈ body.mentions, mark ∈ body.steps.map (·.mark)) :
    ∀ mark ∈ later.mentions, mark ∈ later.steps.map (·.mark) := by
  cases h with
  | keep steps handlers attributes =>
    have hmentions : later.mentions = body.mentions := by
      rw [Body.mentions, Body.mentions, handlers, attributes]
    exact steps ▸ hmentions ▸ hb
  | replace use hu =>
    intro mark hmark
    rw [mentions_replace] at hmark
    exact absurd hmark List.not_mem_nil
  | @insert use hu base hbase index =>
    obtain ⟨-, hmarks, hmentions, -⟩ := of_moved hbase
    intro mark hmark
    rw [mem_map_mark_insertAt, hmarks]
    exact (hmentions mark hmark).imp_right (hb mark)
  | redirect hredirected => exact (map_mark_of_redirected hredirected) ▸ hb
  | withoutDead ha =>
    intro mark hmark
    rw [map_mark_withoutDead (length_dead ha)]
    exact (mem_mentions_withoutDead hmark).elim id (hb mark)

/-- Where references moved to a step that is inserted, a target is an instruction, or still what is
reserved for a label. -/
theorem target_of_moved {base : Body} {use : Template.Use}
    (hbase : base = { body with nextMark := use.after.nextMark } ∨ ∃ anchor, ∃ first ∈ use.steps,
      base = Body.retarget { body with nextMark := use.after.nextMark } anchor first.mark)
    (hb : body.IsAnchored uses) {step' : Step} (hs : step' ∈ base.steps) {target : Mark}
    (ht : target ∈ step'.instruction.targets) :
    (target ∈ use.steps.map (·.mark) ∨ target ∈ body.steps.map (·.mark)) ∨
      ∃ use ∈ uses, step' ∈ use.steps ∧ ∃ name, use.Reserves name target := by
  obtain ⟨step, hstep, hmark, f, hmoved, hf⟩ := (of_moved hbase).2.2.2 step' hs
  rw [hmoved, Instruction.targets_mapTargets] at ht
  obtain ⟨origin, horigin, rfl⟩ := List.mem_map.mp ht
  rcases hf origin with hsame | hnew
  · rw [hsame]
    refine (hb.targets step hstep origin horigin).imp .inr ?_
    rintro ⟨other, hother, hin, name, hreserved⟩
    -- a jump to a label that is missing is as it was
    obtain ⟨op, hjump⟩ := hreserved.eq_jump hin horigin
    have hkept : step'.instruction = step.instruction := by
      rw [hmoved, hjump, Instruction.mapTargets, hsame]
    have hstep' : step' = step := congrArg₂ Step.mk hmark.symm hkept
    exact ⟨other, hother, hstep' ▸ hin, name, hreserved⟩
  · exact .inl (.inl hnew)

/-- A target is an instruction, or where the jump of a template leads that was there before or is
new. -/
theorem targets (h : body.Alters new later) (hb : body.IsAnchored uses) {step' : Step}
    (hs : step' ∈ later.steps) {target : Mark} (ht : target ∈ step'.instruction.targets) :
    target ∈ later.steps.map (·.mark) ∨
      ∃ use ∈ uses ++ new, step' ∈ use.steps ∧ ∃ name, use.Reserves name target := by
  -- where the marks are those from before, a step that was there leads where it did
  have hold (hmarks : later.steps.map (·.mark) = body.steps.map (·.mark))
      (hs : step' ∈ body.steps) : target ∈ later.steps.map (·.mark) ∨
        ∃ use ∈ uses ++ new, step' ∈ use.steps ∧ ∃ name, use.Reserves name target :=
    (hb.targets step' hs target ht).imp (fun hin => hmarks ▸ hin)
      (Exists.imp fun _ => And.imp_left (List.mem_append_left _))
  -- a step that is new leads to a new one, or to what is reserved
  have hnew {use : Template.Use} (hin : step' ∈ use.steps) :
      target ∈ use.steps.map (·.mark) ∨
        ∃ use' ∈ uses ++ [use], step' ∈ use'.steps ∧ ∃ name, use'.Reserves name target := by
    refine (use.mem_or_reserves hin ht).imp_right fun hreserved => ?_
    exact ⟨use, List.mem_append_right _ (List.mem_singleton.mpr rfl), hin, hreserved.1⟩
  cases h with
  | keep steps => exact hold (congrArg _ steps) (steps ▸ hs)
  | replace use hu => exact hnew hs
  | @insert use hu base hbase index =>
    rw [mem_map_mark_insertAt, (of_moved hbase).2.1]
    rcases List.mem_append.mp ((base.perm_insertAt index use.steps).mem_iff.mp hs) with hin | hin
    · exact (hnew hin).imp_left .inl
    · exact (target_of_moved hbase hb hin ht).imp_right
        (Exists.imp fun _ => And.imp_left (List.mem_append_left _))
  | @redirect steps hredirected =>
    obtain ⟨step, hstep, hcall⟩ := exists_of_mem_right hredirected hs
    rcases hcall.instruction with hsame | ⟨-, kind, number, descriptor, hmade⟩
    · have hstep' : step' = step := congrArg₂ Step.mk hcall.mark hsame
      exact hold (map_mark_of_redirected hredirected) (hstep' ▸ hstep)
    · rw [Template.targets_of_callInstruction hmade] at ht
      exact absurd ht List.not_mem_nil
  | withoutDead ha =>
    rcases of_mem_withoutDead ha hb.nodup hs with hsame | ⟨hnop | hthrow, -⟩
    · exact hold (map_mark_withoutDead (length_dead ha)) hsame
    · rw [hnop] at ht
      exact absurd ht List.not_mem_nil
    · rw [hthrow] at ht
      exact absurd ht List.not_mem_nil

/-- A body stays anchored. -/
theorem isAnchored (h : body.Alters new later) (hb : body.IsAnchored uses) :
    later.IsAnchored (uses ++ new) := by
  obtain ⟨hnodup, hbelow⟩ := h.isNumbered ⟨hb.nodup, hb.below⟩
  exact ⟨hnodup, hbelow, h.mentions hb.mentions, fun step' hs target ht => h.targets hb hs ht⟩

end Alters

/-! ### Lives -/

namespace Lives

variable {more : List Template.Use} {last : Body}

theorem single (h : body.Alters uses later) : body.Lives uses later := .tail .refl h

theorem trans (h : body.Lives uses later) (h' : later.Lives more last) :
    body.Lives (uses ++ more) last := by
  induction h' with
  | refl => exact (List.append_nil uses).symm ▸ h
  | tail _ ha ih => exact List.append_assoc _ _ _ ▸ .tail ih ha

/-- All templates got marks that the body had not given out, and has given out since. -/
theorem bounds (h : body.Lives uses later) : body.nextMark ≤ later.nextMark ∧
    ∀ use ∈ uses, body.nextMark ≤ use.before.nextMark ∧ use.after.nextMark ≤ later.nextMark := by
  induction h with
  | refl => exact ⟨Nat.le_refl _, List.forall_mem_nil _⟩
  | tail _ ha ih =>
    obtain ⟨hnext, hnew⟩ := ha.bounds
    refine ⟨Nat.le_trans ih.1 hnext, List.forall_mem_append.mpr ⟨fun use huse => ?_,
      fun use huse => ?_⟩⟩
    · exact (ih.2 use huse).imp_right (Nat.le_trans · hnext)
    · obtain ⟨hbefore, hafter⟩ := hnew use huse
      exact ⟨hbefore ▸ ih.1, Nat.le_of_eq hafter⟩

/-- A mark is one that was there, or had not been given out. -/
theorem mem_or_le (h : body.Lives uses later) {mark : Mark}
    (hm : mark ∈ later.steps.map (·.mark)) :
    mark ∈ body.steps.map (·.mark) ∨ body.nextMark ≤ mark.number := by
  induction h with
  | refl => exact .inl hm
  | tail hlives ha ih =>
    obtain ⟨step', hstep', rfl⟩ := List.mem_map.mp hm
    rcases ha.marks hstep' with hold | ⟨use, huse, hin⟩
    · exact ih hold
    · have hnext := hlives.bounds.1
      rw [← (ha.bounds.2 use huse).1] at hnext
      exact .inr (Nat.le_trans hnext (use.bounds hin).1)

/-- A mark that was given out and is that of no instruction never becomes that of one. -/
theorem not_mem_of_lt (h : body.Lives uses later) {mark : Mark} (hlt : mark.number < body.nextMark)
    (hn : mark ∉ body.steps.map (·.mark)) : mark ∉ later.steps.map (·.mark) := by
  intro hin
  rcases h.mem_or_le hin with hold | hnew
  · exact hn hold
  · exact absurd hlt (Nat.not_lt_of_le hnew)

theorem isNumbered (h : body.Lives uses later) (hb : body.IsNumbered) : later.IsNumbered := by
  induction h with
  | refl => exact hb
  | tail _ ha ih => exact ha.isNumbered ih

/-- All its life a body is anchored. -/
theorem isAnchored (h : body.Lives uses later) (hb : body.IsAnchored []) :
    later.IsAnchored uses := by
  induction h with
  | refl => exact hb
  | tail _ ha ih => exact ha.isAnchored ih

end Lives

theorem Passed.tail {between : Body} {mark : Mark} (h : body.Passed uses between mark)
    (ha : between.Alters new later) : body.Passed (uses ++ new) later mark := by
  obtain ⟨past, rest, middle, rfl, hpast, hrest, hunreached⟩ := h
  exact ⟨past, rest ++ new, middle, List.append_assoc _ _ _, hpast, .tail hrest ha, hunreached⟩

namespace Continues

variable {between : Body}

/-- The marks stay distinct. -/
theorem nodup_append (h : body.Continues uses between) (ha : between.Alters new later) :
    ((body.given (uses ++ new)).map (·.mark)).Nodup := by
  rw [given_append, List.map_append]
  refine List.nodup_append.mpr ⟨h.nodup, ha.nodup_new, fun mark hmark other hother heq => ?_⟩
  obtain ⟨step, hstep, rfl⟩ := List.mem_map.mp hmark
  obtain ⟨step', hstep', rfl⟩ := List.mem_map.mp hother
  have hlt := h.below step hstep
  have hge := (ha.fresh hstep').1
  rw [heq] at hlt
  omega

theorem below_append (h : body.Continues uses between) (ha : between.Alters new later) :
    ∀ step ∈ body.given (uses ++ new), step.mark.number < later.nextMark := by
  rw [given_append]
  exact List.forall_mem_append.mpr
    ⟨fun step hstep => Nat.lt_of_lt_of_le (h.below step hstep) ha.bounds.1,
      fun step hstep => (ha.fresh hstep).2⟩

/-- A mark that was reserved is not given to an instruction later. -/
theorem not_mem_append (h : body.Continues uses between) (ha : between.Alters new later)
    {use : Template.Use} (hu : use ∈ uses ++ new) {name : String} {mark : Mark}
    (hr : use.Reserves name mark) :
    mark ∉ (body.given (uses ++ new)).map (·.mark) ∧ mark.number < later.nextMark := by
  obtain ⟨hnext, hnew⟩ := ha.bounds
  rw [given_append, List.map_append, List.mem_append, not_or]
  rcases List.mem_append.mp hu with hold | hin
  · obtain ⟨hnot, hlt⟩ := h.reserved use hold name mark hr
    refine ⟨⟨hnot, fun hmem => ?_⟩, Nat.lt_of_lt_of_le hlt hnext⟩
    obtain ⟨step, hstep, rfl⟩ := List.mem_map.mp hmem
    exact absurd hlt (Nat.not_lt_of_le (ha.fresh hstep).1)
  · obtain ⟨hbefore, hafter⟩ := hnew use hin
    refine ⟨⟨fun hmem => ?_, fun hmem => ?_⟩, hafter ▸ hr.next⟩
    · obtain ⟨step, hstep, rfl⟩ := List.mem_map.mp hmem
      have hlt := h.below step hstep
      rw [← hbefore] at hlt
      exact absurd hlt (Nat.not_lt_of_le hr.before_le)
    · rw [ha.eq_singleton hin, List.flatMap_singleton] at hmem
      exact hr.not_mem hmem

/-- A change continues what the body that it changes continues. -/
theorem tail (h : body.Continues uses between) (hlives : body.Lives uses between)
    (hb : between.IsNumbered) (ha : between.Alters new later) :
    body.Continues (uses ++ new) later := by
  refine ⟨h.nodup_append ha, h.below_append ha, fun step' hstep' => ?_,
    fun use huse name mark hreserved => h.not_mem_append ha huse hreserved⟩
  rw [given_append]
  rcases ha.steps hb.nodup hstep' with ⟨use, huse, hin⟩ | ⟨middle, hmiddle, hmark, hbecame⟩
  · exact ⟨step', List.mem_append_right _ (List.mem_flatMap.mpr ⟨use, huse, hin⟩), rfl,
      .inl (.refl _)⟩
  · obtain ⟨step, hstep, hmark', hbecame'⟩ := h.steps middle hmiddle
    refine ⟨step, List.mem_append_left _ hstep, hmark'.trans hmark, ?_⟩
    rcases hbecame with hmay | ⟨hburied, hunreached⟩
    · refine hbecame'.imp (·.trans hmay) fun ⟨hburied, hpassed⟩ => ?_
      exact ⟨hburied.of_mayBecome hmay, hpassed.tail ha⟩
    · exact .inr ⟨hburied, uses, new, between, rfl, hlives, .single ha,
        (hmark'.trans hmark) ▸ hunreached⟩

end Continues

/-- All its life a body continues the one that it began with. -/
theorem Lives.continues (h : body.Lives uses later) (hb : body.IsNumbered) :
    body.Continues uses later := by
  induction h with
  | refl =>
    have hgiven : body.given [] = body.steps := List.append_nil _
    refine ⟨hgiven ▸ hb.nodup, fun step hstep => ?_, fun step hstep => ?_, List.forall_mem_nil _⟩
    · exact hb.below _ (List.mem_map_of_mem (hgiven ▸ hstep))
    · exact ⟨step, hgiven ▸ hstep, rfl, .inl (.refl _)⟩
  | tail hlives ha ih => exact ih.tail hlives (hlives.isNumbered hb) ha

/-! ### What a body becomes -/

namespace Becomes

variable {used : Template → Prop} {last : Body}

theorem refl : body.Becomes used body := ⟨[], List.forall_mem_nil _, .refl⟩

theorem trans (h : body.Becomes used later) (h' : later.Becomes used last) :
    body.Becomes used last := by
  obtain ⟨uses, huses, hlives⟩ := h
  obtain ⟨more, hmore, hlives'⟩ := h'
  exact ⟨uses ++ more, List.forall_mem_append.mpr ⟨huses, hmore⟩, hlives.trans hlives'⟩

theorem single (hu : ∀ use ∈ uses, used use.template) (h : body.Alters uses later) :
    body.Becomes used later := ⟨uses, hu, .single h⟩

theorem keep (steps : later.steps = body.steps) (handlers : later.handlers = body.handlers)
    (attributes : later.attributes = body.attributes) (nextMark : body.nextMark ≤ later.nextMark) :
    body.Becomes used later :=
  .single (List.forall_mem_nil _) (.keep steps handlers attributes nextMark)

theorem redirect {steps : List Step} (hs : List.Forall₂ Step.IsRedirected body.steps steps) :
    body.Becomes used { body.touch with steps := steps } :=
  .single (List.forall_mem_nil _) (.redirect hs)

theorem withoutDead {head : MethodHead} {pool : Pool} {hierarchy : Hierarchy} {analysis : Analysis}
    (ha : body.analyze head pool hierarchy = .ok analysis) :
    body.Becomes used (body.withoutDead analysis.dead) :=
  .single (List.forall_mem_nil _) (.withoutDead ha)

section Templates

variable {code : Template} {steps : List Step} {pool : Pool} {supply : Supply}

theorem replace (hc : used code) (hs : code.steps ⟨body.nextMark, pool⟩ = (.ok steps, supply)) :
    body.Becomes used ({ body with nextMark := supply.nextMark }.replace steps []) :=
  .single (List.forall_mem_singleton.mpr hc) (.replace ⟨code, _, steps, supply, hs⟩ rfl)

theorem insert (hc : used code) (hs : code.steps ⟨body.nextMark, pool⟩ = (.ok steps, supply))
    {base : Body} (hb : base = { body with nextMark := supply.nextMark } ∨ ∃ anchor,
      ∃ first ∈ steps,
        base = Body.retarget { body with nextMark := supply.nextMark } anchor first.mark)
    (index : Nat) : body.Becomes used (base.insertAt index steps) :=
  .single (List.forall_mem_singleton.mpr hc) (.insert ⟨code, _, steps, supply, hs⟩ rfl hb index)

/-- Where there is nothing to insert at, marks were given out all the same. -/
theorem unused (hs : code.steps ⟨body.nextMark, pool⟩ = (.ok steps, supply)) :
    body.Becomes used { body with nextMark := supply.nextMark } := by
  refine .keep rfl rfl rfl ?_
  exact Nat.le_trans (Nat.le_add_right _ _) (Template.steps_spec hs).2.1

end Templates

end Becomes

/-! ### Where bodies come from -/

theorem isAnchored_new (name : UInt16) : (Body.new name).IsAnchored [] :=
  ⟨.nil, List.forall_mem_nil _, List.forall_mem_nil _, List.forall_mem_nil _⟩

theorem isAnchored_of_read {name : UInt16} {pool : Pool} {cursor next : Cursor}
    (h : read name pool cursor = .ok (body, next)) : body.IsAnchored [] := by
  obtain ⟨offsets, hbody⟩ := exists_isDecoded h
  refine ⟨?_, fun mark hmark => ?_, mem_of_mentions_of_read h,
    fun step hstep target htarget => .inl ?_⟩
  · rw [hbody.marks]
    exact List.nodup_range.map fun _ _ he => congrArg Mark.number he
  · rw [hbody.marks] at hmark
    obtain ⟨number, hnumber, rfl⟩ := List.mem_map.mp hmark
    rw [hbody.nextMark]
    exact List.mem_range.mp hnumber
  · rw [hbody.marks]
    exact (hbody.steps step hstep).2 target htarget

end Body

end ClassGraft

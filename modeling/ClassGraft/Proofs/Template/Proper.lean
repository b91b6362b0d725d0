import ClassGraft.Code.CallKind
import ClassGraft.Proofs.Code.Decoding
import ClassGraft.Proofs.Template.Spelling
import ClassGraft.Proofs.Template.Steps

/-!
# Templates with opcodes of their kinds

A line of a template states its opcode next to the kind of its operands.  A proper line has an
opcode that takes such operands (`Line.isProper`), and becomes an instruction that can be read back
(`Template.isReadable_of_steps`).  Every template that was read from a text is proper
(`Template.isProper_of_read`).
-/

namespace ClassGraft

/-- Whether the opcode of the line takes operands of the kind that the line has. -/
def Line.isProper : Line → Bool
  | .plain op => op.isPlain
  | .access op _ => op.isAccess
  | .jump op _ => op.isJump
  | .field op _ => op.isField
  | .invoke op _ _ => op.isInvoke || op == Opcode.invokeInterface
  | .classOp op _ => op.isClassOp
  | _ => true

/-- Whether all lines have opcodes of their kinds. -/
def Template.IsProper (template : Template) : Prop := ∀ line ∈ template, line.isProper = true

/-! ### Steps -/

/-- A call is readable if its opcode is that of a call. -/
theorem isReadable_callInstruction {op : Opcode} {index : UInt16} {descriptor : String}
    {made : Instruction Mark} (ho : (op.isInvoke || op == Opcode.invokeInterface) = true)
    (h : callInstruction op index descriptor = .ok made) : made.isReadable = true := by
  unfold callInstruction at h
  split_ifs at h with hop
  · obtain ⟨count, -, rfl⟩ := Except.map_eq_ok.mp h
    rfl
  · obtain rfl := Except.ok.inj h
    rw [Bool.eq_false_iff.mpr hop, Bool.or_false] at ho
    exact ho

/-- Calls of every kind are readable. -/
theorem isReadable_call {kind : CallKind} {index : UInt16} {descriptor : String}
    {made : Instruction Mark} (h : callInstruction kind.opcode index descriptor = .ok made) :
    made.isReadable = true := by
  refine isReadable_callInstruction ?_ h
  cases kind <;> decide

namespace Template

variable {labels labels' : Labels} {supply later : Supply} {steps : List Step}

theorem isReadable_of_pure {given made : Instruction Mark}
    (h : (pure (some given, labels) : Supplied (Option (Instruction Mark) × Labels)) supply =
      (.ok (some made, labels'), later))
    (hg : given.isReadable = true) : made.isReadable = true := by
  obtain ⟨hpair, -⟩ := ExceptT.pure_eq_ok.mp h
  obtain rfl := Option.some.inj (Prod.mk.inj hpair).1
  exact hg

/-- What a proper line becomes can be read back. -/
theorem isReadable_of_instruction {line : Line} (hp : line.isProper = true)
    {made : Instruction Mark}
    (h : instruction labels line supply = (.ok (some made, labels'), later)) :
    made.isReadable = true := by
  -- The opcode of a line is that of its instruction, but for calls, whose opcode is found by kind.
  cases line with
  | label name =>
    obtain ⟨hpair, -⟩ := ExceptT.pure_eq_ok.mp h
    nomatch (Prod.mk.inj hpair).1
  | jump op name =>
    obtain ⟨⟨mark, after⟩, between, -, h⟩ := ExceptT.bind_eq_ok.mp h
    exact isReadable_of_pure h hp
  | constant constant =>
    obtain ⟨index, between, -, h⟩ := ExceptT.bind_eq_ok.mp h
    exact isReadable_of_pure h rfl
  | field op member =>
    obtain ⟨index, between, -, h⟩ := ExceptT.bind_eq_ok.mp h
    exact isReadable_of_pure h hp
  | invoke op member interface =>
    obtain ⟨index, between, -, h⟩ := ExceptT.bind_eq_ok.mp h
    obtain ⟨call, between', hcall, h⟩ := ExceptT.bind_eq_ok.mp h
    exact isReadable_of_pure h (isReadable_callInstruction hp (ExceptT.lift_eq_ok.mp hcall).1)
  | classOp op name =>
    obtain ⟨index, between, -, h⟩ := ExceptT.bind_eq_ok.mp h
    exact isReadable_of_pure h hp
  | newMultiArray name dimensions =>
    obtain ⟨index, between, -, h⟩ := ExceptT.bind_eq_ok.mp h
    exact isReadable_of_pure h rfl
  | plain op => exact isReadable_of_pure h hp
  | access op slot => exact isReadable_of_pure h hp
  | _ => exact isReadable_of_pure h rfl

theorem isReadable_of_stepsFrom {template : Template} {mark : Nat} {found : List Step}
    (hp : template.IsProper) (hf : ∀ step ∈ found, step.instruction.isReadable = true)
    (h : stepsFrom mark labels found template supply = (.ok steps, later)) :
    ∀ step ∈ steps, step.instruction.isReadable = true := by
  induction template generalizing mark labels found supply with
  | nil =>
    obtain ⟨rfl, -⟩ := ExceptT.pure_eq_ok.mp h
    exact fun step hstep => hf step (List.mem_reverse.mp hstep)
  | cons line rest ih =>
    obtain ⟨hline, hrest⟩ := List.forall_mem_cons.mp hp
    obtain ⟨⟨value, labels'⟩, between, hvalue, h⟩ := ExceptT.bind_eq_ok.mp h
    cases value with
    | none => exact ih hrest hf h
    | some instruction =>
      refine ih hrest (List.forall_mem_cons.mpr ⟨?_, hf⟩) h
      exact isReadable_of_instruction hline hvalue

/-- The steps of a proper template can be read back. -/
theorem isReadable_of_steps {template : Template} (hp : template.IsProper)
    (h : template.steps supply = (.ok steps, later)) :
    ∀ step ∈ steps, step.instruction.isReadable = true := by
  obtain ⟨labels, -, h⟩ := steps_eq_ok.mp h
  exact isReadable_of_stepsFrom hp (List.forall_mem_nil _) h

end Template

/-! ### Texts -/

/-- A line that can be told from its text has an opcode of its kind. -/
theorem Line.IsSpellable.isProper {line : Line} (h : line.IsSpellable) : line.isProper = true := by
  cases line with
  | access op slot =>
    show (op.isLoad || op.isStore || op == Opcode.ret) = true
    rw [show (op.isLoad || op.isStore) = true from h, Bool.true_or]
  | jump op name =>
    show (op.isCondition || op == Opcode.goto || op == Opcode.jsr) = true
    rw [h.1, Bool.true_or]
  | plain op => exact h
  | field op member => exact h.1
  | invoke op member interface => exact h.1
  | classOp op name => exact h.1
  | _ => rfl

/-- A template that was read from a text is proper. -/
theorem Template.isProper_of_read {text : String} {template : Template}
    (h : read text = .ok template) : template.IsProper :=
  fun line hline => (isSpellable_of_read h line hline).isProper

end ClassGraft

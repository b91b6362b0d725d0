import ClassGraft.Frame.DeadCode
import ClassGraft.Proofs.Code.Tidy

/-!
# Bodies that are read back

What is read from the bytes of a body shows the body (`Body.IsShownBy`): the same instructions under
the numbers of their places, with two jumps for each that was written with a bypass, and the same
handlers and tables.  A body that was read and not changed is shown by what is read from its bytes,
wherever they stand (`Body.exists_isShownBy_of_read`).
-/

namespace ClassGraft

open Reader

/-! ### Other names for marks -/

/-- The place with other marks. -/
def Place.renumber (number : Mark → Mark) : Place → Place
  | .at mark => .at (number mark)
  | .finish => .finish

/-- The handler with other marks. -/
def Handler.renumber (number : Mark → Mark) (handler : Handler) : Handler :=
  { handler with
    start := number handler.start
    stop := handler.stop.renumber number
    entry := number handler.entry }

/-- The line with another mark. -/
def LineEntry.renumber (number : Mark → Mark) (entry : LineEntry) : LineEntry :=
  { entry with start := number entry.start }

/-- The local variable with other marks. -/
def VariableEntry.renumber (number : Mark → Mark) (entry : VariableEntry) : VariableEntry :=
  { entry with start := number entry.start, stop := entry.stop.renumber number }

/-- The table of lines or of local variables with other marks. -/
def BodyAttribute.renumber (number : Mark → Mark) : BodyAttribute → BodyAttribute
  | .lines name entries => .lines name (entries.map (LineEntry.renumber number))
  | .locals table name entries => .locals table name (entries.map (VariableEntry.renumber number))
  | .frames name entries => .frames name entries
  | .other raw => .other raw

@[simp] theorem Place.renumber_id : Place.renumber id = id := by
  funext place
  cases place <;> rfl

@[simp] theorem Handler.renumber_id : Handler.renumber id = id := by
  funext handler
  simp [Handler.renumber]

@[simp] theorem LineEntry.renumber_id : LineEntry.renumber id = id := rfl

@[simp] theorem VariableEntry.renumber_id : VariableEntry.renumber id = id := by
  funext entry
  simp [VariableEntry.renumber]

@[simp] theorem BodyAttribute.renumber_id : BodyAttribute.renumber id = id := by
  funext item
  cases item <;> simp [BodyAttribute.renumber]

/-! ### What shows a body -/

/-- Whether steps that were read show others, the first of which is instruction `k`: each is one
instruction that is marked with its place, except for jumps with a bypass, which are two. -/
inductive Step.AreShown (number : Mark → Mark) : Nat → List Step → List Step → Prop
  | nil (k : Nat) : AreShown number k [] []
  | same {k : Nat} {step : Step} {steps again : List Step} (hk : number step.mark = ⟨k⟩)
      (h : AreShown number (k + 1) steps again) :
      AreShown number k (step :: steps) (⟨⟨k⟩, step.instruction.mapTargets number⟩ :: again)
  /-- A jump with a bypass is the jump on the opposite condition to the instruction that follows,
  and a `goto` to the target. -/
  | bypass {k : Nat} {mark target : Mark} {op inverse : Opcode} {next : Step}
      {steps again : List Step} (hk : number mark = ⟨k⟩) (hi : op.inverse? = some inverse)
      (h : AreShown number (k + 2) (next :: steps) again) :
      AreShown number k (⟨mark, .jump op target⟩ :: next :: steps)
        (⟨⟨k⟩, .jump inverse (number next.mark)⟩ ::
          ⟨⟨k + 1⟩, .jump Opcode.goto (number target)⟩ :: again)

/-- Whether there is an instruction in the range of a handler. -/
def Body.hasRange (body : Body) (handler : Handler) : Bool :=
  match body.position? handler.start, body.indexOf? handler.stop with
  | some start, some stop => start < stop
  | _, _ => false

/-- The handlers of a body that are written; of a changed body these are the ones with a range. -/
def Body.keptHandlers (body : Body) : List Handler :=
  if body.modified then body.handlers.filter body.hasRange else body.handlers

/-- The tables of lines and of local variables. -/
def Body.tables (body : Body) : List BodyAttribute := body.attributes.filter (·.isTable)

/-- Whether a body that was read is one that was written, with other marks.  All marks that the
written one refers to are those of its instructions. -/
structure Body.IsShownBy (number : Mark → Mark) (body again : Body) : Prop where
  name : again.name = body.name
  maxStack : again.maxStack = body.maxStack
  maxLocals : again.maxLocals = body.maxLocals
  steps : Step.AreShown number 0 body.steps again.steps
  handlers : again.handlers = body.keptHandlers.map (Handler.renumber number)
  tables : again.tables = body.tables.map (BodyAttribute.renumber number)
  closed : body.IsClosed

/-! ### Bodies that were not changed -/

/-- Steps that are marked with their places show themselves. -/
theorem Step.areShown_self {k : Nat} {steps : List Step}
    (h : steps.map (·.mark) = (List.range' k steps.length).map Mark.mk) :
    AreShown id k steps steps := by
  induction steps generalizing k with
  | nil => exact .nil k
  | cons step steps ih =>
    rw [List.map_cons, List.length_cons, List.range'_succ, List.map_cons, List.cons.injEq] at h
    obtain ⟨hmark, hrest⟩ := h
    have hstep : step = ⟨⟨k⟩, step.instruction.mapTargets id⟩ := by
      rw [Instruction.mapTargets_id, ← hmark]
    have hshown : AreShown id k (step :: steps) (⟨⟨k⟩, step.instruction.mapTargets id⟩ :: steps) :=
      .same hmark (ih hrest)
    rwa [← hstep] at hshown

theorem BodyAttribute.filter_isTable_of_isAlike {items items' : List BodyAttribute}
    (h : List.Forall₂ IsAlike items items') : items'.filter (·.isTable) = items.filter (·.isTable) := by
  induction h with
  | nil => rfl
  | cons halike _ ih =>
    cases halike with
    | same item => rw [List.filter_cons, List.filter_cons, ih]
    | frames name entries entries' =>
      rw [List.filter_cons_of_neg (by simp [isTable]), List.filter_cons_of_neg (by simp [isTable]),
        ih]

namespace Body

variable {pool later : Pool} {name : UInt16} {cursor next : Cursor} {body : Body}

theorem modified_of_read (h : read name pool cursor = .ok (body, next)) : body.modified = false := by
  obtain ⟨length, rows, instructions, c₁, c₂, c₃, c₄, -, -, -, -, -, hbody⟩ := of_read h
  rw [hbody]

/-- The bytes of a body that was read are read as a body that shows it, wherever they stand and
with more constants. -/
theorem exists_isShownBy_of_read (h : read name pool cursor = .ok (body, next))
    (hg : pool.Grows later) (offset : Nat) : ∃ again last,
      read name later ⟨cursor.rest, offset⟩ = .ok (again, last) ∧ body.IsShownBy id again := by
  obtain ⟨offsets, hbody⟩ := exists_isDecoded h
  obtain ⟨again, length, ⟨attributes, halike, hagain⟩, -, hread⟩ :=
    @follows_read cursor.offset offset pool later hg name cursor.rest 0 body next h
  refine ⟨again, _, hread, ?_⟩
  have hcount : body.steps.length = offsets.length := by
    rw [← List.length_map (f := (·.mark)), hbody.marks]
    simp [Starts.marks]
  rw [hagain]
  refine ⟨rfl, rfl, rfl, Step.areShown_self ?_, ?_, ?_, isClosed_of_read h⟩
  · rw [hbody.marks, hcount, Starts.marks, List.range_eq_range']
  · have hkept : body.keptHandlers = body.handlers := by
      simp [keptHandlers, modified_of_read h]
    rw [hkept, Handler.renumber_id, List.map_id]
  · rw [BodyAttribute.renumber_id, List.map_id]
    exact BodyAttribute.filter_isTable_of_isAlike halike

end Body

end ClassGraft

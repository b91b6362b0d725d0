import ClassGraft.Proofs.Frame.Extents

/-!
# Words that instructions take and leave

How many words an instruction takes from the stack and how many it leaves there is known without the
frame it is executed on (`Instruction.words?`).  What can be executed finds that many words, and the
height of the stack after it follows from that before (`Scene.words_of_execute`).  Locals only grow
to the slots that the instruction names (`Scene.length_locals_of_execute`).
-/

namespace ClassGraft

/-! ### Words -/

/-- The words of a value that a local is expected to hold. -/
def Expected.size : Expected → Nat
  | .long | .double => 2
  | .int | .float | .reference => 1

/-- The words that an effect takes, and those that it leaves. -/
def Effect.words : Effect → Nat × Nat
  | .compute operands value => (operands.sum, (value.map FrameType.size).getD 0)
  | .shuffle count depths => (count, depths.length)
  | .loadReference => (2, 1)
  | .finish => (0, 0)

/-- The words that a call takes, and those that it leaves. -/
def MethodType.words (type : MethodType) (hasReceiver : Bool) : Nat × Nat :=
  ((type.arguments.map ValueType.size).sum + hasReceiver.toNat, type.resultSize)

namespace Opcode

/-- Whether the opcode loads or stores a long or a double. -/
def accessesWide (op : Opcode) : Bool :=
  op == lload || op == dload || op == lstore || op == dstore

/-- The words that a load or a store takes, and those that it leaves. -/
def accessWords (op : Opcode) : Nat × Nat :=
  let size := if op.accessesWide then 2 else 1
  if op.isStore then (size, 0) else (0, size)

/-- The words that a jump takes. -/
def jumpWords (op : Opcode) : Nat :=
  if op == goto then 0
  else if isBetween ifEq ifLe op || op == ifNull || op == ifNonNull then 1
  else 2

/-- The words that an instruction about a class takes, and those that it leaves. -/
def classWords (op : Opcode) : Nat × Nat :=
  match op with
  | newObject => (0, 1)
  | _ => (1, 1)

/-- The words that an access to a field of a size takes, and those that it leaves. -/
def fieldWords (op : Opcode) (size : Nat) : Nat × Nat :=
  match op with
  | getStatic => (0, size)
  | putStatic => (size, 0)
  | getField => (1, size)
  | _ => (size + 1, 0)

end Opcode

/-- The words that a call of the member at an index takes, and those that it leaves. -/
def Pool.callWords? (pool : Pool) (index : UInt16) (hasReceiver : Bool) : Option (Nat × Nat) := do
  let member ← pool.member index
  let type ← Descriptor.method? member.descriptor
  return type.words hasReceiver

/-- The words that an instruction takes from the stack, and those that it leaves there. -/
def Instruction.words? {τ : Type} (pool : Pool) : Instruction τ → Option (Nat × Nat)
  | .plain op => op.effect?.map Effect.words
  | .bytePush _ | .shortPush _ => some (0, 1)
  | .constant index => (pool.constantType index).toOption.map fun type => (0, type.size)
  | .access op _ => some op.accessWords
  | .increment _ _ => some (0, 0)
  | .jump op _ => some (op.jumpWords, 0)
  | .tableSwitch _ _ _ _ | .lookupSwitch _ _ => some (1, 0)
  | .field op index => (pool.fieldType index).toOption.map fun type => op.fieldWords type.size
  | .invoke op index => pool.callWords? index (op != Opcode.invokeStatic)
  | .invokeInterface index _ => pool.callWords? index true
  | .invokeDynamic index => do
    let (_, descriptor) ← pool.dynamic index
    let type ← Descriptor.method? descriptor
    return type.words false
  | .classOp op _ => some op.classWords
  | .newArray _ => some (1, 1)
  | .newMultiArray _ dimensions => some (dimensions.toNat, 1)

/-! ### The height of the stack -/

/-- Whether a frame has as many words as another after some were taken and others left. -/
structure Frame.Moves (before after : Frame) (words : Nat × Nat) : Prop where
  takes : words.1 ≤ before.stack.length
  height : after.stack.length = before.stack.length - words.1 + words.2

theorem FrameType.size_ofValue (value : ValueType) : (ofValue value).size = value.size := by
  cases value <;> rfl

namespace Frame

variable {frame after : Frame} {type : FrameType}

theorem length_push (frame : Frame) (type : FrameType) :
    (frame.push type).stack.length = frame.stack.length + type.size := by
  unfold push FrameType.size
  split_ifs <;> rfl

theorem length_pushAll (frame : Frame) (type : Option FrameType) :
    (frame.pushAll type).stack.length =
      frame.stack.length + (type.map FrameType.size).getD 0 := by
  cases type with
  | none => rfl
  | some type => exact length_push frame type

theorem moves_drop {count : Nat} (h : frame.drop count = .ok after) :
    frame.Moves after (count, 0) := by
  obtain ⟨hle, rfl⟩ := drop_eq_ok.mp h
  exact ⟨hle, List.length_drop⟩

theorem moves_pop (h : frame.pop = .ok (type, after)) : frame.Moves after (1, 0) := by
  obtain ⟨hstack, -⟩ := pop_eq_ok.mp h
  constructor
  · rw [hstack]
    exact Nat.succ_pos _
  · rw [hstack]
    rfl

theorem moves_dropEach {operands : List Nat} (h : frame.dropEach operands = .ok after) :
    frame.Moves after (operands.sum, 0) := by
  exact moves_drop (dropEach_eq_ok.mp h)

theorem moves_dropArguments {type : MethodType} (h : frame.dropArguments type = .ok after) :
    frame.Moves after ((type.arguments.map ValueType.size).sum, 0) := by
  have hmoves := moves_dropEach h
  rwa [List.map_reverse, List.sum_reverse] at hmoves

namespace Moves

variable {before between : Frame} {words : Nat × Nat} {taken left : Nat}

theorem push (h : before.Moves between (taken, 0)) (type : FrameType) :
    before.Moves (between.push type) (taken, type.size) :=
  ⟨h.takes, (length_push between type).trans (congrArg (· + type.size) h.height)⟩

theorem pushAll (h : before.Moves between (taken, 0)) (type : Option FrameType) :
    before.Moves (between.pushAll type) (taken, (type.map FrameType.size).getD 0) :=
  ⟨h.takes, (length_pushAll between type).trans
    (congrArg (· + (type.map FrameType.size).getD 0) h.height)⟩

theorem trans (h : before.Moves between (taken, 0)) (h' : between.Moves after (left, 0)) :
    before.Moves after (taken + left, 0) := by
  obtain ⟨htakes, hheight⟩ := h
  obtain ⟨htakes', hheight'⟩ := h'
  dsimp only at *
  exact ⟨by omega, by omega⟩

end Moves

end Frame

theorem FrameType.size_elementOf {array type : FrameType} (h : Frame.elementOf array = .ok type) :
    type.size = 1 := by
  unfold Frame.elementOf at h
  split at h
  · obtain rfl := Except.ok.inj h
    rfl
  · split at h
    · obtain rfl := Except.ok.inj h
      rfl
    · simp at h
  · simp at h

namespace Scene

variable {scene : Scene} {step : Step} {before after : Frame} {index : UInt16}

theorem moves_apply {effect : Effect} (h : scene.apply before effect = .ok after) :
    before.Moves after effect.words := by
  cases apply_eq_ok.mp h with
  | @compute operands value _ htaken => exact (Frame.moves_dropEach htaken).pushAll value
  | shuffle hc =>
    refine ⟨hc, ?_⟩
    rw [List.length_append, List.length_map, List.length_drop, Nat.add_comm]
    rfl
  | @loadReference dropped rest array type hd hp ht =>
    have hmoves := ((Frame.moves_drop hd).trans (Frame.moves_pop hp)).push type
    rwa [FrameType.size_elementOf ht] at hmoves
  | finish => exact ⟨Nat.zero_le _, rfl⟩

theorem size_result (type : MethodType) :
    ((type.result.map FrameType.ofValue).map FrameType.size).getD 0 = type.resultSize := by
  unfold MethodType.resultSize
  cases type.result with
  | none => rfl
  | some value => exact FrameType.size_ofValue value

theorem moves_call {hasReceiver : Bool} (h : scene.call before hasReceiver index = .ok after) :
    ∃ words, scene.pool.callWords? index hasReceiver = some words ∧ before.Moves after words := by
  obtain ⟨member, type, taken, hmember, htype, htaken, h⟩ := call_eq_ok.mp h
  refine ⟨type.words hasReceiver, by simp [Pool.callWords?, hmember, htype], ?_⟩
  have htakes := Frame.moves_dropArguments htaken
  rw [MethodType.words, ← size_result]
  cases hasReceiver with
  | false => exact h ▸ htakes.pushAll _
  | true =>
    obtain ⟨receiver, rest, hpop, -, h⟩ := h
    have hrest := htakes.trans (Frame.moves_pop hpop)
    split_ifs at h
    · obtain ⟨name, -, rfl⟩ := h
      -- an object that was constructed has the same place on the stack
      have hconstruct : before.Moves (rest.construct receiver name)
          ((type.arguments.map ValueType.size).sum + 1, 0) :=
        ⟨hrest.takes, (List.length_map _).trans hrest.height⟩
      exact hconstruct.pushAll _
    · exact h ▸ hrest.pushAll _

theorem moves_callComputed (h : scene.callComputed before index = .ok after) :
    ∃ words, (Instruction.invokeDynamic index : Instruction Mark).words? scene.pool = some words ∧
      before.Moves after words := by
  obtain ⟨⟨name, descriptor⟩, type, taken, hdynamic, htype, htaken, rfl⟩ := callComputed_eq_ok.mp h
  refine ⟨type.words false, by simp [Instruction.words?, hdynamic, htype], ?_⟩
  rw [MethodType.words, ← size_result]
  exact (Frame.moves_dropArguments htaken).pushAll _

theorem size_of_isExpected {expected : Expected} {type : FrameType}
    (h : Frame.isExpected expected type = true) : type.size = expected.size := by
  cases expected with
  | reference => exact FrameType.size_of_isReference h
  | _ =>
    obtain rfl := eq_of_beq h
    rfl

theorem size_of_load {frame : Frame} {slot : UInt16} {expected : Expected} {type : FrameType}
    (h : frame.load slot expected = .ok type) : type.size = expected.size := by
  unfold Frame.load at h
  split at h
  · split_ifs at h with hexpected
    obtain rfl := Except.ok.inj h
    exact size_of_isExpected hexpected
  · simp at h

theorem accessWords_of_loads? {op : Opcode} {expected : Expected} (h : op.loads? = some expected) :
    op.accessWords = (0, expected.size) := by
  unfold Opcode.loads? at h
  split at h
  all_goals first | (obtain rfl := Option.some.inj h; rfl) | nomatch h

theorem accessWords_of_stores? {op : Opcode} {expected : Expected}
    (h : op.stores? = some expected) : op.accessWords = (expected.size, 0) := by
  unfold Opcode.stores? at h
  split at h
  all_goals first | (obtain rfl := Option.some.inj h; rfl) | nomatch h

theorem moves_access {op : Opcode} {slot : UInt16} (h : access before op slot = .ok after) :
    before.Moves after op.accessWords := by
  cases Frame.Accesses.of_access h with
  | @load _ type ho hl =>
    rw [accessWords_of_loads? ho, ← size_of_load hl]
    exact ⟨Nat.zero_le _, Frame.length_push before type⟩
  | store ho ht hd =>
    rw [accessWords_of_stores? ho, ← size_of_isExpected ht]
    exact ⟨(Frame.moves_drop hd).takes, (Frame.moves_drop hd).height⟩

theorem moves_jump {op : Opcode} (h : jump before op = .ok after) :
    before.Moves after (op.jumpWords, 0) := by
  unfold jump at h
  unfold Opcode.jumpWords
  split_ifs at h ⊢
  · obtain rfl := Except.ok.inj h
    exact ⟨Nat.zero_le _, rfl⟩
  · exact Frame.moves_drop h
  · exact Frame.moves_drop h

theorem moves_accessField {op : Opcode} (h : scene.accessField before op index = .ok after) :
    ∃ type, scene.pool.fieldType index = .ok type ∧
      before.Moves after (op.fieldWords type.size) := by
  obtain ⟨type, htype, h⟩ := Except.bind_eq_ok.mp h
  refine ⟨type, htype, ?_⟩
  split at h
  · obtain rfl := Except.pure_eq_ok.mp h
    exact ⟨Nat.zero_le _, Frame.length_push before type⟩
  · exact Frame.moves_drop h
  · obtain ⟨dropped, hd, h⟩ := Except.bind_eq_ok.mp h
    obtain rfl := Except.pure_eq_ok.mp h
    exact (Frame.moves_drop hd).push type
  · have hwords : op.fieldWords type.size = (type.size + 1, 0) := by
      unfold Opcode.fieldWords
      split
      all_goals first | contradiction | rfl
    obtain ⟨dropped, hd, h⟩ := Except.bind_eq_ok.mp h
    rw [hwords]
    exact (Frame.moves_drop hd).trans (Frame.moves_drop h)

theorem moves_classOp {mark : Mark} {op : Opcode}
    (h : scene.classOp before mark op index = .ok after) :
    before.Moves after op.classWords := by
  obtain ⟨name, -, h⟩ := Except.bind_eq_ok.mp h
  split at h
  · obtain rfl := Except.pure_eq_ok.mp h
    exact ⟨Nat.zero_le _, Frame.length_push before _⟩
  all_goals
    obtain ⟨dropped, hd, h⟩ := Except.bind_eq_ok.mp h
    obtain rfl := Except.pure_eq_ok.mp h
  · exact (Frame.moves_drop hd).push _
  · exact (Frame.moves_drop hd).push _
  · have hwords : op.classWords = (1, 1) := by
      unfold Opcode.classWords
      split
      all_goals first | contradiction | rfl
    rw [hwords]
    exact (Frame.moves_drop hd).push .int

/-- What can be executed finds the words that it takes, and the stack is as high after it as that
says. -/
theorem words_of_execute (h : scene.execute step before = .ok after) :
    ∃ words, step.instruction.words? scene.pool = some words ∧ before.Moves after words := by
  -- One case for each form of instruction, with the words read off the operation that it runs.
  unfold execute at h
  split at h
  case h_1 op hi =>
    split at h
    · rename_i effect heffect
      exact ⟨effect.words, by rw [hi, Instruction.words?, heffect]; rfl, moves_apply h⟩
    · simp at h
  case h_2 | h_3 =>
    rename_i hi
    obtain rfl := Except.ok.inj h
    exact ⟨(0, 1), by rw [hi]; rfl, Nat.zero_le _, Frame.length_push before .int⟩
  case h_4 index hi =>
    obtain ⟨type, ht, h⟩ := Except.bind_eq_ok.mp h
    obtain rfl := Except.pure_eq_ok.mp h
    exact ⟨(0, type.size), by rw [hi, Instruction.words?, ht]; rfl, Nat.zero_le _,
      Frame.length_push before type⟩
  case h_5 op slot hi => exact ⟨op.accessWords, by rw [hi]; rfl, moves_access h⟩
  case h_6 slot amount hi =>
    obtain ⟨type, -, h⟩ := Except.bind_eq_ok.mp h
    obtain rfl := Except.pure_eq_ok.mp h
    exact ⟨(0, 0), by rw [hi]; rfl, Nat.zero_le _, rfl⟩
  case h_7 op target hi => exact ⟨(op.jumpWords, 0), by rw [hi]; rfl, moves_jump h⟩
  case h_8 | h_9 =>
    rename_i hi
    exact ⟨(1, 0), by rw [hi]; rfl, Frame.moves_drop h⟩
  case h_10 op index hi =>
    obtain ⟨type, htype, hmoves⟩ := moves_accessField h
    exact ⟨op.fieldWords type.size, by rw [hi, Instruction.words?, htype]; rfl, hmoves⟩
  case h_11 op index hi =>
    obtain ⟨words, hwords, hmoves⟩ := moves_call h
    exact ⟨words, by rw [hi]; exact hwords, hmoves⟩
  case h_12 index count hi =>
    obtain ⟨words, hwords, hmoves⟩ := moves_call h
    exact ⟨words, by rw [hi]; exact hwords, hmoves⟩
  case h_13 index hi =>
    obtain ⟨words, hwords, hmoves⟩ := moves_callComputed h
    exact ⟨words, by rw [hi]; exact hwords, hmoves⟩
  case h_14 op index hi => exact ⟨_, by rw [hi]; rfl, moves_classOp h⟩
  case h_15 element hi =>
    obtain ⟨array, dropped, -, hd, rfl⟩ := newArray_eq_ok.mp h
    exact ⟨(1, 1), by rw [hi]; rfl, (Frame.moves_drop hd).push _⟩
  case h_16 index dimensions hi =>
    obtain ⟨name, dropped, -, -, hd, rfl⟩ := newMultiArray_eq_ok.mp h
    exact ⟨(dimensions.toNat, 1), by rw [hi]; rfl, (Frame.moves_drop hd).push _⟩

end Scene

/-! ### The slots of locals -/

/-- The slots of locals that an instruction reads or writes. -/
def Instruction.slots {τ : Type} : Instruction τ → List Nat
  | .access op slot => if op.accessesWide then [slot.toNat, slot.toNat + 1] else [slot.toNat]
  | .increment slot _ => [slot.toNat]
  | _ => []

theorem Body.slotsOf_access (op : Opcode) (slot : UInt16) :
    slotsOf (.access op slot) = slot.toNat + if op.accessesWide then 2 else 1 := by
  unfold slotsOf Opcode.accessesWide
  dsimp only
  split_ifs <;> rfl

theorem Body.lt_slotsOf {instruction : Instruction Mark} {slot : Nat}
    (h : slot ∈ instruction.slots) : slot < slotsOf instruction := by
  cases instruction with
  | access op index =>
    rw [slotsOf_access]
    dsimp only [Instruction.slots] at h
    -- A wide access has two slots, and the size counts the upper one.
    cases hw : op.accessesWide with
    | false =>
      rw [hw] at h
      obtain rfl := List.mem_singleton.mp h
      exact Nat.lt_succ_self _
    | true =>
      rw [hw] at h
      rcases List.mem_pair.mp h with rfl | rfl
      · exact Nat.lt_add_of_pos_right Nat.two_pos
      · exact Nat.lt_succ_self _
  | increment index delta =>
    obtain rfl := List.mem_singleton.mp h
    exact Nat.lt_succ_self _
  | _ => nomatch h

theorem Body.slotsOf_of_stores? {op : Opcode} {expected : Expected}
    (h : op.stores? = some expected) (slot : UInt16) :
    slotsOf (.access op slot) = slot.toNat + expected.size := by
  unfold Opcode.stores? at h
  split at h
  all_goals first | (obtain rfl := Option.some.inj h; rfl) | nomatch h

theorem Scene.length_locals_of_access {before after : Frame} {op : Opcode} {slot : UInt16}
    (h : access before op slot = .ok after) :
    after.locals.length ≤ max before.locals.length (Body.slotsOf (.access op slot)) := by
  cases Frame.Accesses.of_access h with
  | load => exact le_max_left _ _
  | store ho ht hd =>
    obtain ⟨-, rfl⟩ := Frame.drop_eq_ok.mp hd
    rw [Frame.length_store, Body.slotsOf_of_stores? ho, ← size_of_isExpected ht, max_comm]

/-- Locals only grow to the slots that the instruction names. -/
theorem Scene.length_locals_of_execute {scene : Scene} {step : Step} {before after : Frame}
    (h : scene.execute step before = .ok after) :
    after.locals.length ≤ max before.locals.length (Body.slotsOf step.instruction) := by
  cases changes_of_execute h with
  | work => exact le_max_left _ _
  | construct => exact (List.length_map _).trans_le (le_max_left _ _)
  | @store op slot stored stack hi ho =>
    rw [hi]
    refine length_locals_of_access (?_ : access before op slot = .ok _)
    unfold execute at h
    rw [hi] at h
    exact h

end ClassGraft

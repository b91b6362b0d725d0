import ClassGraft.Proofs.Frame.Operations
import ClassGraft.Proofs.Frame.Order

/-!
# What instructions change

An instruction that can be executed either leaves the locals as they are, stores into one of them,
or lets a receiver count as an object as its constructor ran (`Scene.changes_of_execute`).  The
types that it leaves were there before, or are types of values, except for what `new` makes
(`Step.Finds`).
-/

namespace ClassGraft

/-- Whether a type is not that of an object whose constructor did not run yet. -/
def FrameType.isInitialized : FrameType → Bool
  | uninitializedThis | uninitialized _ => false
  | _ => true

/-- The constant of the method that an instruction calls on a receiver. -/
def Instruction.calledOn? {τ : Type} : Instruction τ → Option UInt16
  | .invoke op index => if op = Opcode.invokeStatic then none else some index
  | .invokeInterface index _ => some index
  | _ => none

/-- Whether an instruction calls a constructor on a receiver of a type. -/
structure Scene.Constructs (scene : Scene) (step : Step) (before : Frame) (receiver : FrameType) :
    Prop where
  calls : ∃ index member type taken rest, step.instruction.calledOn? = some index ∧
    scene.pool.member index = some member ∧ member.name = constructorName ∧
    Descriptor.method? member.descriptor = some type ∧ before.dropArguments type = .ok taken ∧
    taken.stack = receiver :: rest
  reference : receiver.isReference = true

/-- Whether a type is what an instruction may leave: one that was there, that of a value, or that
of the object it makes. -/
inductive Step.Finds (step : Step) (before : Frame) : FrameType → Prop
  | «local» {type : FrameType} (h : type ∈ before.locals) : Finds step before type
  | word {type : FrameType} (h : type ∈ before.stack) : Finds step before type
  | value {type : FrameType} (h : type.isInitialized = true) : Finds step before type
  | made {index : UInt16} (h : step.instruction = .classOp Opcode.newObject index) :
      Finds step before (.uninitialized step.mark)

/-- What becomes of a frame when an instruction is executed. -/
inductive Scene.Changes (scene : Scene) (step : Step) (before : Frame) : Frame → Prop
  | work {stack : List FrameType} (hs : ∀ type ∈ stack, step.Finds before type) :
      Changes scene step before ⟨before.locals, stack⟩
  | store {op : Opcode} {slot : UInt16} {stored : FrameType} {stack : List FrameType}
      (hi : step.instruction = .access op slot) (ho : op.isStore = true)
      (ht : step.Finds before stored) (hs : ∀ type ∈ stack, step.Finds before type) :
      Changes scene step before ⟨(before.store slot stored).locals, stack⟩
  | construct {receiver : FrameType} {name : Bytes} {stack : List FrameType}
      (hc : scene.Constructs step before receiver)
      (hs : ∀ type ∈ stack, step.Finds before type) :
      Changes scene step before ⟨(before.construct receiver name).locals, stack⟩

/-! ### What an instruction leaves -/

/-- Whether a frame has the given locals, and only words that an instruction may leave. -/
structure Step.Leaves (step : Step) (before : Frame) (locals : List FrameType) (frame : Frame) :
    Prop where
  locals : frame.locals = locals
  stack : ∀ type ∈ frame.stack, step.Finds before type

namespace Step.Leaves

variable {step : Step} {before frame frame' : Frame} {locals : List FrameType}

theorem refl (step : Step) (before : Frame) : step.Leaves before before.locals before :=
  ⟨rfl, fun _ h => .word h⟩

theorem push (h : step.Leaves before locals frame) {type : FrameType}
    (ht : step.Finds before type) : step.Leaves before locals (frame.push type) := by
  refine ⟨h.locals, fun word hw => ?_⟩
  unfold Frame.push at hw
  split_ifs at hw
  · rcases List.mem_cons.mp hw with rfl | hw
    · exact .value rfl
    · rcases List.mem_cons.mp hw with rfl | hw
      · exact ht
      · exact h.stack word hw
  · rcases List.mem_cons.mp hw with rfl | hw
    · exact ht
    · exact h.stack word hw

theorem pushAll (h : step.Leaves before locals frame) {type : Option FrameType}
    (ht : ∀ value, type = some value → step.Finds before value) :
    step.Leaves before locals (frame.pushAll type) := by
  cases type with
  | none => exact h
  | some value => exact h.push (ht value rfl)

theorem pop (h : step.Leaves before locals frame) {word : FrameType}
    (hp : frame.pop = .ok (word, frame')) :
    step.Finds before word ∧ step.Leaves before locals frame' := by
  obtain ⟨hs, hl⟩ := Frame.pop_eq_ok.mp hp
  refine ⟨h.stack word (hs ▸ List.mem_cons_self), hl.trans h.locals, fun type ht => ?_⟩
  exact h.stack type (hs ▸ List.mem_cons_of_mem _ ht)

theorem drop (h : step.Leaves before locals frame) {count : Nat}
    (hd : frame.drop count = .ok frame') : step.Leaves before locals frame' := by
  obtain ⟨-, rfl⟩ := Frame.drop_eq_ok.mp hd
  exact ⟨h.locals, fun type ht => h.stack type (List.mem_of_mem_drop ht)⟩

theorem dropEach (h : step.Leaves before locals frame) {operands : List Nat}
    (hd : frame.dropEach operands = .ok frame') : step.Leaves before locals frame' := by
  exact h.drop (Frame.dropEach_eq_ok.mp hd)

theorem store (h : step.Leaves before before.locals frame) (slot : UInt16) (type : FrameType) :
    step.Leaves before (before.store slot type).locals (frame.store slot type) := by
  refine ⟨?_, h.stack⟩
  unfold Frame.store
  rw [h.locals]

theorem construct (h : step.Leaves before before.locals frame) (receiver : FrameType)
    (name : Bytes) : step.Leaves before (before.construct receiver name).locals
      (frame.construct receiver name) := by
  refine ⟨congrArg (List.map _) h.locals, fun type ht => ?_⟩
  obtain ⟨word, hw, rfl⟩ := List.mem_map.mp ht
  split_ifs
  · exact .value rfl
  · exact h.stack word hw

end Step.Leaves

/-! ### Each kind of instruction -/

theorem FrameType.isInitialized_ofValue (type : ValueType) :
    (FrameType.ofValue type).isInitialized = true := by
  cases type <;> rfl

theorem FrameType.isInitialized_of_not_isReference {type : FrameType}
    (h : ¬type.isReference = true) : type.isInitialized = true := by
  cases type with
  | uninitializedThis | uninitialized => exact absurd rfl h
  | _ => rfl

theorem Pool.isInitialized_fieldType {pool : Pool} {index : UInt16} {type : FrameType}
    (h : pool.fieldType index = .ok type) : type.isInitialized = true := by
  unfold fieldType at h
  split at h
  · simp at h
  · split at h
    · obtain rfl := Except.ok.inj h
      exact FrameType.isInitialized_ofValue _
    · simp at h

theorem Pool.isInitialized_constantType {pool : Pool} {index : UInt16} {type : FrameType}
    (h : pool.constantType index = .ok type) : type.isInitialized = true := by
  unfold constantType at h
  split at h <;> try (obtain rfl := Except.ok.inj h; rfl)
  · split at h
    · simp at h
    · split at h
      · obtain rfl := Except.ok.inj h
        exact FrameType.isInitialized_ofValue _
      · simp at h
  · simp at h
  · simp at h

/-- Whether what an effect leaves, if anything, is a value. -/
def Effect.leavesValue : Option Effect → Bool
  | some (.compute _ (some value)) => value.isInitialized
  | _ => true

/-- Effects leave values. -/
theorem Opcode.isInitialized_of_effect? {op : Opcode} {operands : List Nat} {value : FrameType}
    (h : op.effect? = some (.compute operands (some value))) : value.isInitialized = true := by
  have hall : Effect.all.toList.all Effect.leavesValue = true := by decide +kernel
  have hm : some (.compute operands (some value)) ∈ Effect.all.toList := by
    have := Option.join_eq_some_iff.mp h
    exact Array.mem_toList_iff.mpr (Array.mem_of_getElem? this)
  exact List.all_eq_true.mp hall _ hm

theorem Frame.isInitialized_elementOf {array type : FrameType}
    (h : Frame.elementOf array = .ok type) : type.isInitialized = true := by
  unfold elementOf at h
  split at h
  · obtain rfl := Except.ok.inj h
    rfl
  · split at h
    · obtain rfl := Except.ok.inj h
      rfl
    · simp at h
  · simp at h

theorem Frame.mem_of_load {frame : Frame} {slot : UInt16} {expected : Expected} {type : FrameType}
    (h : frame.load slot expected = .ok type) : type ∈ frame.locals := by
  unfold load at h
  split at h
  · rename_i found hfound
    split_ifs at h
    obtain rfl := Except.ok.inj h
    exact List.mem_of_getElem? hfound
  · simp at h

namespace Scene

variable {scene : Scene} {step : Step} {before after : Frame}

open Step (Leaves)

theorem leaves_apply {effect : Effect} (h : scene.apply before effect = .ok after)
    (hv : ∀ operands value, effect = .compute operands (some value) →
      value.isInitialized = true) : step.Leaves before before.locals after := by
  cases apply_eq_ok.mp h with
  | @compute operands value _ htaken =>
    exact ((Leaves.refl step before).dropEach htaken).pushAll fun v hvalue =>
      .value (hv operands v (hvalue ▸ rfl))
  | shuffle =>
    refine ⟨rfl, fun type ht => ?_⟩
    -- a word is one that was moved, or one from below; a depth without a word counts as a value
    rcases List.mem_append.mp ht with ht | ht
    · obtain ⟨depth, -, rfl⟩ := List.mem_map.mp ht
      rw [List.getD_eq_getElem?_getD]
      cases hword : before.stack[depth]? with
      | none => exact .value rfl
      | some word => exact .word (List.mem_of_getElem? hword)
    · exact .word (List.mem_of_mem_drop ht)
  | loadReference hd hp ht =>
    exact (((Leaves.refl step before).drop hd).pop hp).2.push
      (.value (Frame.isInitialized_elementOf ht))
  | finish => exact .refl step before

theorem Changes.of_leaves (h : step.Leaves before before.locals after) :
    scene.Changes step before after := by
  obtain ⟨locals, stack⟩ := after
  obtain ⟨rfl, hs⟩ := h
  exact .work hs

theorem changes_call {hasReceiver : Bool} {index : UInt16}
    (hi : hasReceiver = true → step.instruction.calledOn? = some index)
    (h : scene.call before hasReceiver index = .ok after) : scene.Changes step before after := by
  obtain ⟨member, type, taken, hmember, htype, htaken, h⟩ := call_eq_ok.mp h
  have hresult : ∀ value, type.result.map FrameType.ofValue = some value →
      step.Finds before value := by
    intro value hvalue
    obtain ⟨result, -, rfl⟩ := Option.map_eq_some_iff.mp hvalue
    exact .value (FrameType.isInitialized_ofValue result)
  have htakes := (Leaves.refl step before).dropEach htaken
  cases hasReceiver with
  | false => exact h ▸ .of_leaves (htakes.pushAll hresult)
  | true =>
    obtain ⟨receiver, rest, hpop, hreference, h⟩ := h
    obtain ⟨-, hrest⟩ := htakes.pop hpop
    split_ifs at h with hname
    · obtain ⟨name, -, rfl⟩ := h
      -- the call of a constructor is the only one that changes the locals
      have hc : scene.Constructs step before receiver :=
        ⟨⟨index, member, type, taken, rest.stack, hi rfl, hmember, hname, htype, htaken,
          (Frame.pop_eq_ok.mp hpop).1⟩, hreference⟩
      obtain ⟨hl, hs⟩ := (hrest.construct receiver name).pushAll hresult
      generalize (rest.construct receiver name).pushAll _ = made at hl hs ⊢
      obtain ⟨locals, stack⟩ := made
      obtain rfl := hl
      exact .construct hc hs
    · exact h ▸ .of_leaves (hrest.pushAll hresult)

theorem changes_access {op : Opcode} {slot : UInt16} (hi : step.instruction = .access op slot)
    (h : access before op slot = .ok after) : scene.Changes step before after := by
  cases Frame.Accesses.of_access h with
  | load _ hl => exact .of_leaves ((Leaves.refl step before).push (.local (Frame.mem_of_load hl)))
  | @store _ type rest ho ht hd hw =>
    have hfinds : step.Finds before type := by
      by_cases hr : type.isReference = true
      · exact .word (hw hr)
      · exact .value (FrameType.isInitialized_of_not_isReference hr)
    obtain ⟨hl, hs⟩ := ((Leaves.refl step before).drop hd).store slot type
    generalize rest.store slot type = made at hl hs ⊢
    obtain ⟨locals, stack⟩ := made
    obtain rfl := hl
    exact .store hi (Opcode.isStore_of_stores? ho) hfinds hs

theorem leaves_classOp {op : Opcode} {index : UInt16}
    (hi : step.instruction = .classOp op index)
    (h : scene.classOp before step.mark op index = .ok after) :
    step.Leaves before before.locals after := by
  obtain ⟨name, hname, h⟩ := Except.bind_eq_ok.mp h
  have hstart := Leaves.refl step before
  split at h
  · obtain rfl := Except.pure_eq_ok.mp h
    exact hstart.push (.made hi)
  all_goals
    obtain ⟨dropped, hd, h⟩ := Except.bind_eq_ok.mp h
    obtain rfl := Except.pure_eq_ok.mp h
    exact (hstart.drop hd).push (.value rfl)

theorem leaves_accessField {op : Opcode} {index : UInt16}
    (h : scene.accessField before op index = .ok after) :
    step.Leaves before before.locals after := by
  obtain ⟨type, htype, h⟩ := Except.bind_eq_ok.mp h
  have hstart := Leaves.refl step before
  have hvalue : step.Finds before type := .value (Pool.isInitialized_fieldType htype)
  split at h
  · obtain rfl := Except.pure_eq_ok.mp h
    exact hstart.push hvalue
  · exact hstart.drop h
  · obtain ⟨dropped, hd, h⟩ := Except.bind_eq_ok.mp h
    obtain rfl := Except.pure_eq_ok.mp h
    exact (hstart.drop hd).push hvalue
  · obtain ⟨dropped, hd, h⟩ := Except.bind_eq_ok.mp h
    exact (hstart.drop hd).drop h

theorem leaves_jump {op : Opcode} (h : jump before op = .ok after) :
    step.Leaves before before.locals after := by
  have hstart := Leaves.refl step before
  unfold jump at h
  split_ifs at h
  · obtain rfl := Except.ok.inj h
    exact hstart
  · exact hstart.drop h
  · exact hstart.drop h

theorem leaves_callComputed {index : UInt16} (h : scene.callComputed before index = .ok after) :
    step.Leaves before before.locals after := by
  obtain ⟨site, type, taken, -, -, htaken, rfl⟩ := callComputed_eq_ok.mp h
  refine ((Leaves.refl step before).dropEach htaken).pushAll fun value hvalue => ?_
  obtain ⟨result, -, rfl⟩ := Option.map_eq_some_iff.mp hvalue
  exact .value (FrameType.isInitialized_ofValue result)

/-- An instruction without operand bytes does what the table says. -/
theorem execute_plain {op : Opcode} {effect : Effect} (hi : step.instruction = .plain op)
    (he : op.effect? = some effect) : scene.execute step before = scene.apply before effect := by
  unfold execute
  rw [hi]
  dsimp only
  rw [he]

/-- What can happen to a frame when an instruction is executed. -/
theorem changes_of_execute (h : scene.execute step before = .ok after) :
    scene.Changes step before after := by
  have hstart := Leaves.refl step before
  -- one case for each kind of instruction, in the order of their definition
  unfold execute at h
  split at h
  case h_1 op hi =>
    split at h
    · rename_i effect heffect
      exact .of_leaves (leaves_apply h fun operands value he =>
        Opcode.isInitialized_of_effect? (he ▸ heffect))
    · simp at h
  case h_2 | h_3 =>
    obtain rfl := Except.ok.inj h
    exact .of_leaves (hstart.push (.value rfl))
  case h_4 index hi =>
    obtain ⟨type, ht, h⟩ := Except.bind_eq_ok.mp h
    obtain rfl := Except.pure_eq_ok.mp h
    exact .of_leaves (hstart.push (.value (Pool.isInitialized_constantType ht)))
  case h_5 op slot hi => exact changes_access hi h
  case h_6 slot amount hi =>
    obtain ⟨type, -, h⟩ := Except.bind_eq_ok.mp h
    obtain rfl := Except.pure_eq_ok.mp h
    exact .of_leaves hstart
  case h_7 op target hi => exact .of_leaves (leaves_jump h)
  case h_8 | h_9 => exact .of_leaves (hstart.drop h)
  case h_10 op index hi => exact .of_leaves (leaves_accessField h)
  case h_11 op index hi =>
    refine changes_call (fun hr => ?_) h
    rw [hi, Instruction.calledOn?, if_neg (by simpa using hr)]
  case h_12 index count hi => exact changes_call (fun _ => by rw [hi]; rfl) h
  case h_13 index hi => exact .of_leaves (leaves_callComputed h)
  case h_14 op index hi => exact .of_leaves (leaves_classOp hi h)
  case h_15 element hi =>
    obtain ⟨array, dropped, -, hd, rfl⟩ := newArray_eq_ok.mp h
    exact .of_leaves ((hstart.drop hd).push (.value rfl))
  case h_16 index dimensions hi =>
    obtain ⟨name, dropped, -, -, hd, rfl⟩ := newMultiArray_eq_ok.mp h
    exact .of_leaves ((hstart.drop hd).push (.value rfl))

end Scene

end ClassGraft

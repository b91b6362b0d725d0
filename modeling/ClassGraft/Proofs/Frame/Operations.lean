import ClassGraft.Frame.Execution
import ClassGraft.Proofs.Outcome
import Mathlib.Algebra.GroupWithZero.Nat

/-!
# What each operation does

Executing an instruction comes down to one operation on a frame.  For each of them, what it does
when it does not fail is said once: `Scene.apply_eq_ok` for the effects of plain instructions,
`Frame.Accesses.of_access` for local variables, `Scene.call_eq_ok` for calls, and so on.  What holds
of frames is proved from these, without a look at the operations.
-/

namespace ClassGraft

/-! ### The stack -/

namespace Frame

variable {frame frame' : Frame}

theorem pop_eq_ok {word : FrameType} : frame.pop = .ok (word, frame') ↔
    frame.stack = word :: frame'.stack ∧ frame'.locals = frame.locals := by
  obtain ⟨locals, stack⟩ := frame
  obtain ⟨locals', stack'⟩ := frame'
  cases stack with
  | nil => simp [pop]
  | cons first rest => simp [pop, eq_comm, and_left_comm, and_comm]

theorem drop_eq_ok {count : Nat} : frame.drop count = .ok frame' ↔
    count ≤ frame.stack.length ∧ frame' = ⟨frame.locals, frame.stack.drop count⟩ := by
  unfold drop
  split_ifs with h
  · simp [Nat.not_le.mpr h]
  · simp [Nat.le_of_not_lt h, eq_comm]

/-- What is popped is one word that is dropped. -/
theorem drop_of_pop {word : FrameType} (h : frame.pop = .ok (word, frame')) :
    frame.drop 1 = .ok frame' := by
  obtain ⟨locals', stack'⟩ := frame'
  obtain ⟨hstack, rfl⟩ := pop_eq_ok.mp h
  refine drop_eq_ok.mpr ⟨?_, ?_⟩
  · rw [hstack]
    exact Nat.succ_pos _
  · rw [hstack]
    rfl

/-- Operands that are taken one after the other are taken in one piece. -/
theorem dropEach_eq_ok {operands : List Nat} :
    frame.dropEach operands = .ok frame' ↔ frame.drop operands.sum = .ok frame' := by
  induction operands generalizing frame with
  | nil => simp [dropEach, drop]
  | cons size rest ih =>
    simp only [dropEach, Except.bind_eq_ok, ih, drop_eq_ok, List.sum_cons]
    constructor
    · rintro ⟨_, ⟨hsize, rfl⟩, hrest, rfl⟩
      rw [List.length_drop] at hrest
      exact ⟨by omega, by rw [List.drop_drop]⟩
    · rintro ⟨hall, rfl⟩
      refine ⟨_, ⟨by omega, rfl⟩, ?_, ?_⟩
      · rw [List.length_drop]
        omega
      · rw [List.drop_drop]

end Frame

/-! ### Local variables -/

namespace Opcode

/-- What a load expects its local to hold. -/
def loads? (op : Opcode) : Option Expected :=
  match op with
  | iload => some .int
  | lload => some .long
  | fload => some .float
  | dload => some .double
  | aload => some .reference
  | _ => none

/-- What a store expects on the stack. -/
def stores? (op : Opcode) : Option Expected :=
  match op with
  | istore => some .int
  | lstore => some .long
  | fstore => some .float
  | dstore => some .double
  | astore => some .reference
  | _ => none

theorem isStore_of_stores? {op : Opcode} {expected : Expected} (h : op.stores? = some expected) :
    op.isStore = true := by
  unfold stores? at h
  split at h
  all_goals first | rfl | nomatch h

end Opcode

theorem FrameType.size_of_isReference {type : FrameType} (h : type.isReference = true) :
    type.size = 1 := by
  cases type with
  | top | int | float | long | double => nomatch h
  | _ => rfl

/-- Whether a load or a store of a local variable leads from one frame to another: a load puts there
what the local holds, and a store takes its value from the stack, where a reference must be one. -/
inductive Frame.Accesses (before : Frame) (op : Opcode) (slot : UInt16) : Frame → Prop
  | load {expected : Expected} {type : FrameType} (ho : op.loads? = some expected)
      (h : before.load slot expected = .ok type) : Accesses before op slot (before.push type)
  | store {expected : Expected} {type : FrameType} {rest : Frame} (ho : op.stores? = some expected)
      (ht : isExpected expected type = true) (hd : before.drop type.size = .ok rest)
      (hw : type.isReference = true → type ∈ before.stack) :
      Accesses before op slot (rest.store slot type)

theorem Frame.Accesses.of_access {before after : Frame} {op : Opcode} {slot : UInt16}
    (h : Scene.access before op slot = .ok after) : before.Accesses op slot after := by
  have hload {expected : Expected} (ho : op.loads? = some expected)
      (h : (do return before.push (← before.load slot expected)) = .ok after) :
      before.Accesses op slot after := by
    obtain ⟨type, hl, h⟩ := Except.bind_eq_ok.mp h
    obtain rfl := Except.pure_eq_ok.mp h
    exact .load ho hl
  have hstore {expected : Expected} {type : FrameType} (ho : op.stores? = some expected)
      (ht : isExpected expected type = true) (hn : type.isReference = false)
      (h : (do return (← before.drop type.size).store slot type) = .ok after) :
      before.Accesses op slot after := by
    obtain ⟨rest, hd, h⟩ := Except.bind_eq_ok.mp h
    obtain rfl := Except.pure_eq_ok.mp h
    exact .store ho ht hd fun hr => absurd (hn.symm.trans hr) Bool.false_ne_true
  unfold Scene.access at h
  dsimp only at h
  split at h
  · nomatch h
  · exact hload rfl h
  · exact hload rfl h
  · exact hload rfl h
  · exact hload rfl h
  · exact hload rfl h
  · exact hstore rfl rfl rfl h
  · exact hstore rfl rfl rfl h
  · exact hstore rfl rfl rfl h
  · exact hstore rfl rfl rfl h
  · -- only a reference is taken as what it is
    obtain ⟨⟨type, rest⟩, hp, h⟩ := Except.bind_eq_ok.mp h
    dsimp only at h
    split_ifs at h with hr
    obtain rfl := Except.pure_eq_ok.mp h
    have ho : Opcode.stores? Opcode.astore = some .reference := rfl
    refine .store ho hr ?_ fun _ => ?_
    · rw [FrameType.size_of_isReference hr]
      exact drop_of_pop hp
    · rw [(pop_eq_ok.mp hp).1]
      exact List.mem_cons_self
  · nomatch h

namespace Scene

variable {scene : Scene} {before after : Frame} {index : UInt16}

/-! ### Effects of plain instructions -/

/-- Whether an effect leads from one frame to another. -/
inductive Applies (scene : Scene) (before : Frame) : Effect → Frame → Prop
  | compute {operands : List Nat} {value : Option FrameType} {taken : Frame}
      (h : before.dropEach operands = .ok taken) :
      Applies scene before (.compute operands value) (taken.pushAll value)
  | shuffle {count : Nat} {depths : List Nat} (h : count ≤ before.stack.length) :
      Applies scene before (.shuffle count depths)
        ⟨before.locals, depths.map (before.stack.getD · .top) ++ before.stack.drop count⟩
  | loadReference {dropped rest : Frame} {array type : FrameType}
      (hd : before.drop 1 = .ok dropped) (hp : dropped.pop = .ok (array, rest))
      (ht : Frame.elementOf array = .ok type) : Applies scene before .loadReference (rest.push type)
  | finish (h : ¬(scene.head.name = constructorName ∧ before.locals.contains .uninitializedThis)) :
      Applies scene before .finish before

theorem apply_eq_ok {effect : Effect} :
    scene.apply before effect = .ok after ↔ scene.Applies before effect after := by
  constructor
  · intro h
    cases effect with
    | compute operands value =>
      obtain ⟨taken, htaken, h⟩ := Except.bind_eq_ok.mp h
      obtain rfl := Except.pure_eq_ok.mp h
      exact .compute htaken
    | shuffle count depths =>
      simp only [apply] at h
      split_ifs at h with hc
      obtain rfl := Except.ok.inj h
      exact .shuffle (Nat.le_of_not_lt hc)
    | loadReference =>
      obtain ⟨dropped, hd, h⟩ := Except.bind_eq_ok.mp h
      obtain ⟨⟨array, rest⟩, hp, h⟩ := Except.bind_eq_ok.mp h
      obtain ⟨type, ht, h⟩ := Except.bind_eq_ok.mp h
      obtain rfl := Except.pure_eq_ok.mp h
      exact .loadReference hd hp ht
    | finish =>
      simp only [apply] at h
      split_ifs at h with hc
      obtain rfl := Except.ok.inj h
      exact .finish hc
  · intro h
    cases h with
    | compute htaken => exact Except.bind_eq_ok.mpr ⟨_, htaken, rfl⟩
    | shuffle hc => exact if_neg (Nat.not_lt_of_le hc)
    | loadReference hd hp ht =>
      exact Except.bind_eq_ok.mpr ⟨_, hd, Except.bind_eq_ok.mpr ⟨_, hp,
        Except.bind_eq_ok.mpr ⟨_, ht, rfl⟩⟩⟩
    | finish hc => exact if_neg hc

/-! ### Calls -/

/-- What a call does once its arguments are taken: without a receiver it leaves the result, with one
it takes that too, and a constructor makes it an object. -/
theorem call_eq_ok {hasReceiver : Bool} :
    scene.call before hasReceiver index = .ok after ↔ ∃ member type taken,
      scene.pool.member index = some member ∧
      Descriptor.method? member.descriptor = some type ∧
      before.dropArguments type = .ok taken ∧
      if hasReceiver = false then taken.pushAll (type.result.map FrameType.ofValue) = after
      else ∃ receiver rest, taken.pop = .ok (receiver, rest) ∧ receiver.isReference = true ∧
        if member.name = constructorName then ∃ name, scene.constructed receiver = .ok name ∧
          (rest.construct receiver name).pushAll (type.result.map FrameType.ofValue) = after
        else rest.pushAll (type.result.map FrameType.ofValue) = after := by
  unfold call
  cases hmember : scene.pool.member index with
  | none => simp
  | some member =>
    cases htype : Descriptor.method? member.descriptor with
    | none => simp [htype]
    | some type =>
      cases hasReceiver with
      | false => simp [htype, Except.bind_eq_ok, -bind_pure_comp]
      | true =>
        by_cases hname : member.name = constructorName
        · simp [htype, hname, Except.bind_eq_ok, Except.guard_eq_ok, -bind_pure_comp]
        · simp [htype, hname, Except.bind_eq_ok, Except.guard_eq_ok, -bind_pure_comp]

theorem callComputed_eq_ok :
    scene.callComputed before index = .ok after ↔ ∃ site type taken,
      scene.pool.dynamic index = some site ∧ Descriptor.method? site.2 = some type ∧
      before.dropArguments type = .ok taken ∧
      taken.pushAll (type.result.map FrameType.ofValue) = after := by
  unfold callComputed
  cases hsite : scene.pool.dynamic index with
  | none => simp
  | some site =>
    cases htype : Descriptor.method? site.2 with
    | none => simp [htype]
    | some type => simp [htype, Except.bind_eq_ok, -bind_pure_comp]

/-! ### Arrays -/

theorem newArray_eq_ok {element : UInt8} :
    newArray before element = .ok after ↔ ∃ array dropped,
      ElementType.arrayDescriptor? element = some array ∧ before.drop 1 = .ok dropped ∧
      dropped.push (.object (Bytes.ofAscii array)) = after := by
  unfold newArray
  cases ElementType.arrayDescriptor? element with
  | none => simp [Except.bind_eq_ok]
  | some array => simp [Except.bind_eq_ok, -bind_pure_comp]

theorem newMultiArray_eq_ok {dimensions : UInt8} :
    scene.newMultiArray before index dimensions = .ok after ↔ ∃ name dropped,
      scene.pool.requireClass index = .ok name ∧
      ¬(dimensions = 0 ∨
        (name.takeWhile (· == Descriptor.bracket)).length < dimensions.toNat) ∧
      before.drop dimensions.toNat = .ok dropped ∧ dropped.push (.object name) = after := by
  unfold newMultiArray
  simp only [Except.bind_eq_ok, Except.guard_eq_ok, Except.pure_eq_ok]
  constructor
  · rintro ⟨name, hname, hfits, dropped, hd, h⟩
    exact ⟨name, dropped, hname, hfits, hd, h⟩
  · rintro ⟨name, dropped, hname, hfits, hd, h⟩
    exact ⟨name, hname, hfits, dropped, hd, h⟩

end Scene

end ClassGraft

import ClassGraft.Proofs.Frame.Changes
import ClassGraft.Proofs.Frame.Gathering
import Mathlib.Data.List.Chain

/-!
# Halves of wide values

A wide value takes two slots.  In the locals of every frame that an analysis finds both are there
(`Body.paired_locals`): storing, merging and fitting make a local that lost its second slot
unusable.

Instructions take words from the stack by their number, whatever they are, so one that does not fit
what is on the stack cuts a wide value, and its first slot stays there alone.  Where no instruction
does so, the wide values on all stacks have both slots (`Body.isWhole_stack`): the kinds of words do
not change where frames are merged or fitted.
-/

namespace ClassGraft

namespace FrameType

/-! ### Locals -/

theorem Paired.append {slots others : List FrameType} (h : Paired slots) (h' : Paired others) :
    Paired (slots ++ others) := by
  induction slots with
  | nil => exact h'
  | cons type rest ih =>
    intro i found hi hw
    cases i with
    | zero =>
      have hnext := h 0 found (by simpa using hi) hw
      rw [List.cons_append, List.getElem?_cons_succ, List.getElem?_append_left]
      · simpa using hnext
      · simpa using (List.getElem?_eq_some_iff.mp hnext).1
    | succ i => exact ih h.tail i found (by simpa using hi) hw

theorem Paired.drop {slots : List FrameType} (h : Paired slots) (count : Nat) :
    Paired (slots.drop count) := by
  intro i type hi hw
  rw [List.getElem?_drop] at hi ⊢
  exact h (count + i) type hi hw

/-- Slots in which only the last one can lack the second slot of its value, if that is made
unusable. -/
theorem paired_of_last {slots : List FrameType}
    (h : ∀ i type, slots[i]? = some type → type.isWide = true → i + 1 < slots.length →
      slots[i + 1]? = some top) :
    Paired (match slots.getLast? with
      | some last => if last.isWide then slots.dropLast ++ [top] else slots
      | none => slots) := by
  rcases List.eq_nil_or_concat' slots with rfl | ⟨front, last, rfl⟩
  · exact paired_nil
  rw [List.getLast?_concat]
  dsimp only
  split_ifs with hlast
  · -- The last slot is replaced, so that it holds no wide value any more; a slot before it has its
    -- neighbour as before, which is the replaced one only for the slot next to the end.
    rw [List.dropLast_concat]
    intro i type hi hw
    rcases Nat.lt_trichotomy i front.length with hlt | rfl | hgt
    · rw [List.getElem?_append_left hlt] at hi
      have hnext := h i type (by rw [List.getElem?_append_left hlt, hi]) hw (by simpa using hlt)
      rcases Nat.lt_or_eq_of_le (Nat.succ_le_of_lt hlt) with hlt' | heq
      · rwa [List.getElem?_append_left hlt'] at hnext ⊢
      · rw [← Nat.succ_eq_add_one, heq, List.getElem?_append_right (Nat.le_refl _), Nat.sub_self]
        rfl
    · rw [List.getElem?_append_right (Nat.le_refl _), Nat.sub_self] at hi
      obtain rfl := Option.some.inj hi
      nomatch hw
    · rw [List.getElem?_eq_none (by rw [List.length_append]; exact hgt)] at hi
      nomatch hi
  · intro i type hi hw
    -- A wide slot at the end would be the last one, which is not wide here.
    refine h i type hi hw ?_
    have hlt := (List.getElem?_eq_some_iff.mp hi).1
    refine Nat.lt_of_le_of_ne hlt fun heq => hlast ?_
    have hi' : i = front.length := by simpa using heq
    rw [hi', List.getElem?_append_right (Nat.le_refl _), Nat.sub_self] at hi
    exact Option.some.inj hi ▸ hw

end FrameType

namespace Frame

open FrameType (Paired)

theorem paired_store {frame : Frame} (h : Paired frame.locals) (slot : UInt16)
    (stored : FrameType) : Paired (frame.store slot stored).locals := by
  unfold store
  dsimp only
  refine (Paired.append (FrameType.paired_of_last ?_) (FrameType.paired_expand _)).append
    (h.drop _)
  intro i type hi hw hlt
  -- the slots that are filled up are unusable, so the wide value was there
  have hi' : frame.locals[i]? = some type ∧ i < slot.toNat := by
    rw [List.getElem?_append] at hi
    split_ifs at hi with hin
    · rw [List.getElem?_take] at hi
      split_ifs at hi with hin'
      exact ⟨hi, hin'⟩
    · rw [List.getElem?_replicate] at hi
      split_ifs at hi
      obtain rfl := Option.some.inj hi
      nomatch hw
  have hnext := h i type hi'.1 hw
  have hbound := (List.getElem?_eq_some_iff.mp hnext).1
  rw [List.length_append, List.length_take, List.length_replicate] at hlt
  rw [List.getElem?_append_left (by rw [List.length_take]; omega), List.getElem?_take,
    if_pos (by omega)]
  exact hnext

theorem paired_fit {hierarchy : Hierarchy} {declared arriving fitted : Frame}
    (hd : Paired declared.locals) (ha : Paired arriving.locals)
    (h : fit hierarchy declared arriving = .ok fitted) : Paired fitted.locals := by
  obtain ⟨-, rfl⟩ := fit_eq_ok.mp h
  exact FrameType.paired_trim (hd.append (ha.drop _))

theorem paired_of_changes {scene : Scene} {step : Step} {before after : Frame}
    (hb : Paired before.locals) (h : scene.Changes step before after) : Paired after.locals := by
  cases h with
  | work => exact hb
  | store => exact paired_store hb _ _
  | @construct receiver name stack hc =>
    -- only references count as objects now, and none of them is a slot of a wide value
    intro i type hi hw
    unfold construct at hi ⊢
    rw [List.getElem?_map] at hi ⊢
    obtain ⟨found, hfound, rfl⟩ := Option.map_eq_some_iff.mp hi
    split_ifs at hw with he
    · nomatch hw
    · rw [hb i found hfound hw, Option.map_some, if_neg]
      rintro rfl
      exact absurd hc.reference (by decide)

end Frame

/-! ### The stack -/

namespace FrameType

/-- Whether a word may stand below another one: a wide value only below its second slot. -/
def Supports (upper lower : FrameType) : Prop := lower.isWide = true → upper = top

/-- Whether every wide value on a stack, whose top word comes first, has its second slot above
it. -/
structure IsWhole (stack : List FrameType) : Prop where
  head : ∀ type ∈ stack.head?, type.isWide = false
  chain : stack.IsChain Supports

variable {stack : List FrameType}

theorem isWhole_nil : IsWhole [] := ⟨nofun, .nil⟩

theorem IsWhole.cons (h : IsWhole stack) {type : FrameType} (ht : type.isWide = false) :
    IsWhole (type :: stack) := by
  refine ⟨fun found hf => Option.some.inj hf ▸ ht, ?_⟩
  refine List.isChain_cons.mpr ⟨fun lower hl hw => ?_, h.chain⟩
  rw [h.head lower hl] at hw
  nomatch hw

theorem IsWhole.cons_wide (h : IsWhole stack) (type : FrameType) :
    IsWhole (top :: type :: stack) := by
  refine ⟨fun found hf => Option.some.inj hf ▸ rfl, ?_⟩
  refine List.isChain_cons_cons.mpr ⟨fun _ => rfl, List.isChain_cons.mpr ⟨?_, h.chain⟩⟩
  intro lower hl hw
  rw [h.head lower hl] at hw
  nomatch hw

/-- What is left of a stack when its top words are taken, unless that cuts a wide value. -/
theorem IsWhole.drop (h : IsWhole stack) {count : Nat}
    (hc : ∀ type ∈ stack[count]?, type.isWide = false) : IsWhole (stack.drop count) := by
  refine ⟨fun type ht => hc type ?_, h.chain.drop count⟩
  rwa [List.head?_drop] at ht

/-- Whole stacks are those whose words, the bottom one first, are paired. -/
theorem isWhole_iff : IsWhole stack ↔ Paired stack.reverse := by
  constructor
  · rintro ⟨hhead, hchain⟩ i type hi hw
    have hlt : i < stack.length := by simpa using (List.getElem?_eq_some_iff.mp hi).1
    rw [List.getElem?_reverse hlt] at hi
    -- A slot and the one after it, from the bottom, are a depth and the one above it.
    cases hdepth : stack.length - 1 - i with
    | zero =>
      rw [hdepth, ← List.head?_eq_getElem?] at hi
      rw [hhead type hi] at hw
      nomatch hw
    | succ depth =>
      rw [hdepth] at hi
      obtain ⟨hbound, rfl⟩ := List.getElem?_eq_some_iff.mp hi
      have hupper := List.isChain_iff_getElem.mp hchain depth hbound hw
      rw [List.getElem?_reverse (by omega), show stack.length - 1 - (i + 1) = depth by omega,
        List.getElem?_eq_getElem (by omega), hupper]
  · intro h
    have hat (depth : Nat) (hd : depth < stack.length) :
        stack.reverse[stack.length - 1 - depth]? = some stack[depth] := by
      rw [List.getElem?_reverse (by omega), show stack.length - 1 - (stack.length - 1 - depth) =
        depth by omega, List.getElem?_eq_getElem hd]
    refine ⟨fun type ht => ?_, List.isChain_iff_getElem.mpr fun depth hd hw => ?_⟩
    · rw [List.head?_eq_getElem?] at ht
      obtain ⟨hpos, rfl⟩ := List.getElem?_eq_some_iff.mp ht
      by_contra hw
      have hnext := h _ _ (hat 0 hpos) (by simpa using hw)
      rw [List.getElem?_eq_none (by rw [List.length_reverse]; omega)] at hnext
      nomatch hnext
    · have hnext := h _ _ (hat (depth + 1) hd) hw
      rw [show stack.length - 1 - (depth + 1) + 1 = stack.length - 1 - depth by omega,
        hat depth (by omega)] at hnext
      exact Option.some.inj hnext

/-- What matters of a word: whether it is wide, and whether it cannot be used. -/
def kind (type : FrameType) : Bool × Bool := (type.isWide, decide (type = top))

theorem supports_iff_kind (upper lower : FrameType) :
    Supports upper lower ↔ ((kind lower).1 = true → (kind upper).2 = true) := by
  simp [Supports, kind]

theorem isWhole_iff_kind : IsWhole stack ↔ (∀ kinds ∈ (stack.map kind).head?, kinds.1 = false) ∧
    (stack.map kind).IsChain fun upper lower => lower.1 = true → upper.2 = true := by
  rw [List.isChain_map, List.head?_map]
  constructor
  · rintro ⟨hhead, hchain⟩
    refine ⟨fun kinds hk => ?_, hchain.imp fun a b hab => (supports_iff_kind a b).mp hab⟩
    obtain ⟨type, ht, rfl⟩ := Option.map_eq_some_iff.mp hk
    exact hhead type ht
  · rintro ⟨hhead, hchain⟩
    refine ⟨fun type ht => ?_, hchain.imp fun a b hab => (supports_iff_kind a b).mpr hab⟩
    exact hhead (kind type) (Option.mem_map_of_mem kind ht)

/-- Whether a stack is whole only depends on the kinds of its words. -/
theorem IsWhole.congr {others : List FrameType} (h : IsWhole stack)
    (hk : stack.map kind = others.map kind) : IsWhole others := by
  rw [isWhole_iff_kind, ← hk]
  exact isWhole_iff_kind.mp h

end FrameType

/-! ### What instructions take -/

/-- The words that the arguments of a method take. -/
def MethodType.argumentWords (type : MethodType) : Nat := (type.arguments.map ValueType.size).sum

/-- The words that a method takes whose descriptor is found. -/
def wordsOf (descriptor : Option Bytes) : Nat :=
  match descriptor.bind Descriptor.method? with
  | some type => type.argumentWords
  | none => 0

/-- The words that an instruction takes from the stack before it leaves others. -/
def Instruction.taken (pool : Pool) : Instruction Mark → Nat
  | .access op _ =>
    if op == Opcode.lstore || op == Opcode.dstore then 2 else if op.isStore then 1 else 0
  | .jump op _ =>
    if op == Opcode.goto then 0
    else if Opcode.isBetween Opcode.ifEq Opcode.ifLe op || op == Opcode.ifNull
      || op == Opcode.ifNonNull then 1
    else 2
  | .tableSwitch _ _ _ _ | .lookupSwitch _ _ | .newArray _ => 1
  | .field op index =>
    let size := match pool.fieldType index with
      | .ok type => type.size
      | .error _ => 0
    match op with
    | Opcode.getStatic => 0
    | Opcode.putStatic => size
    | Opcode.getField => 1
    | _ => size + 1
  | .invoke op index =>
    wordsOf ((pool.member index).map (·.descriptor)) + if op == Opcode.invokeStatic then 0 else 1
  | .invokeInterface index _ => wordsOf ((pool.member index).map (·.descriptor)) + 1
  | .invokeDynamic index => wordsOf ((pool.dynamic index).map (·.2))
  | .classOp op _ => if op == Opcode.newObject then 0 else 1
  | .newMultiArray _ dimensions => dimensions.toNat
  | _ => 0

/-- Of words that are put one below the other, given by their depths, those that did not stand
below each other before. -/
def joints : (above : Option Nat) → (depths : List Nat) → List Nat
  | _, [] => []
  | above, depth :: rest =>
    if above.map (· + 1) = some depth then joints (some depth) rest
    else depth :: joints (some depth) rest

/-- The depths of the words above which an effect takes words away or puts others. -/
def Effect.cuts : Effect → List Nat
  | .compute operands _ => [operands.sum]
  | .shuffle count depths => joints none (depths ++ [count])
  | .loadReference => [2]
  | .finish => []

/-- The depths of the words above which an instruction takes words away or puts others. -/
def Instruction.cuts (pool : Pool) : Instruction Mark → List Nat
  | .plain op => (op.effect?).elim [] Effect.cuts
  | instruction => [instruction.taken pool]

/-- Whether an instruction leaves the wide values on a stack together. -/
def Instruction.SparesHalves (pool : Pool) (instruction : Instruction Mark)
    (stack : List FrameType) : Prop :=
  ∀ depth ∈ instruction.cuts pool, ∀ type ∈ stack[depth]?, type.isWide = false

instance (pool : Pool) (instruction : Instruction Mark) (stack : List FrameType) :
    Decidable (instruction.SparesHalves pool stack) :=
  inferInstanceAs (Decidable (∀ depth ∈ instruction.cuts pool, ∀ type ∈ stack[depth]?,
    type.isWide = false))

namespace FrameType

variable {stack : List FrameType}

/-- Whether a word may stand below the one at a depth, or at the top. -/
def FitsBelow (stack : List FrameType) (above : Option Nat) (type : FrameType) : Prop :=
  match above with
  | none => type.isWide = false
  | some above => Supports (stack.getD above top) type

/-- A word fits below the one that it stood below before, and anywhere if it is not wide. -/
theorem fitsBelow_of_joints (h : stack.IsChain Supports) {above : Option Nat} {depth : Nat}
    {rest : List Nat} (hc : ∀ other ∈ joints above (depth :: rest),
      ∀ type ∈ stack[other]?, type.isWide = false) {type : FrameType}
    (ht : stack[depth]? = some type) : FitsBelow stack above type := by
  rw [joints] at hc
  cases above with
  | none => exact hc depth List.mem_cons_self type ht
  | some above =>
    by_cases hnext : above + 1 = depth
    · subst hnext
      obtain ⟨hbound, rfl⟩ := List.getElem?_eq_some_iff.mp ht
      rw [FitsBelow, List.getD_eq_getElem _ _ (Nat.lt_of_succ_lt hbound)]
      exact List.isChain_iff_getElem.mp h above hbound
    · rw [if_neg (by simpa using hnext)] at hc
      intro hw
      rw [hc depth List.mem_cons_self type ht] at hw
      nomatch hw

/-- The words at some depths, and those below them, where words that did not stand below each other
before are not wide. -/
theorem isChain_shuffle (h : stack.IsChain Supports) {count : Nat} (depths : List Nat)
    (above : Option Nat) (hc : ∀ depth ∈ joints above (depths ++ [count]),
      ∀ type ∈ stack[depth]?, type.isWide = false) :
    (∀ type ∈ (depths.map (stack.getD · top) ++ stack.drop count).head?,
      FitsBelow stack above type) ∧
    (depths.map (stack.getD · top) ++ stack.drop count).IsChain Supports := by
  induction depths generalizing above with
  | nil =>
    refine ⟨fun type ht => fitsBelow_of_joints h hc ?_, h.drop count⟩
    rwa [List.map_nil, List.nil_append, List.head?_drop] at ht
  | cons depth rest ih =>
    -- What has to be narrow for the rest is among what has to be narrow for all: the joint in front
    -- of it is left out if the two words stood below each other already.
    have hrest : ∀ other ∈ joints (some depth) (rest ++ [count]), ∀ type ∈ stack[other]?,
        type.isWide = false := by
      intro other ho
      refine hc other ?_
      rw [List.cons_append, joints]
      split_ifs
      · exact ho
      · exact List.mem_cons_of_mem _ ho
    obtain ⟨hhead, hchain⟩ := ih (some depth) hrest
    refine ⟨fun type ht => ?_, List.isChain_cons.mpr ⟨hhead, hchain⟩⟩
    obtain rfl : stack.getD depth top = type := by simpa using ht
    rw [List.getD_eq_getElem?_getD]
    cases hword : stack[depth]? with
    | some word => exact fitsBelow_of_joints h hc hword
    | none => cases above <;> first | rfl | exact nofun

theorem IsWhole.shuffle (h : IsWhole stack) {count : Nat} {depths : List Nat}
    (hc : ∀ depth ∈ joints none (depths ++ [count]), ∀ type ∈ stack[depth]?,
      type.isWide = false) :
    IsWhole (depths.map (stack.getD · top) ++ stack.drop count) :=
  have hshuffle := isChain_shuffle h.chain depths none hc
  ⟨hshuffle.1, hshuffle.2⟩

end FrameType

namespace Frame

open FrameType (IsWhole)

variable {frame frame' : Frame}

theorem isWhole_push (h : IsWhole frame.stack) (type : FrameType) :
    IsWhole (frame.push type).stack := by
  unfold push
  split_ifs with hw
  · exact h.cons_wide type
  · exact h.cons (by simpa using hw)

theorem isWhole_pushAll (h : IsWhole frame.stack) (type : Option FrameType) :
    IsWhole (frame.pushAll type).stack := by
  cases type with
  | none => exact h
  | some type => exact isWhole_push h type

theorem stack_of_drop {count : Nat} (h : frame.drop count = .ok frame') :
    frame'.stack = frame.stack.drop count := by
  obtain ⟨-, rfl⟩ := drop_eq_ok.mp h
  rfl

theorem stack_of_pop {word : FrameType} (h : frame.pop = .ok (word, frame')) :
    frame'.stack = frame.stack.drop 1 := by
  rw [(pop_eq_ok.mp h).1]
  rfl

theorem stack_of_dropEach {operands : List Nat} (h : frame.dropEach operands = .ok frame') :
    frame'.stack = frame.stack.drop operands.sum := by
  exact stack_of_drop (dropEach_eq_ok.mp h)

theorem stack_of_dropArguments {type : MethodType} (h : frame.dropArguments type = .ok frame') :
    frame'.stack = frame.stack.drop type.argumentWords := by
  rw [stack_of_dropEach h, List.map_reverse, List.sum_reverse, MethodType.argumentWords]

theorem isWhole_construct (h : IsWhole frame.stack) {receiver : FrameType}
    (hr : receiver.isReference = true) (name : Bytes) :
    IsWhole (frame.construct receiver name).stack := by
  refine h.congr ?_
  unfold construct
  rw [List.map_map]
  refine List.map_congr_left fun type _ => ?_
  rw [Function.comp_apply]
  split_ifs with he
  · subst he
    cases type <;> first | rfl | nomatch hr
  · rfl

/-- A value in place of some words, of which the last is not cut off from a wide value. -/
theorem isWhole_push_of_drop {count : Nat} {type : FrameType}
    (h : (do return (← frame.drop count).push type) = .ok frame') (hb : IsWhole frame.stack)
    (hc : ∀ word ∈ frame.stack[count]?, word.isWide = false) : IsWhole frame'.stack := by
  obtain ⟨dropped, hd, h⟩ := Except.bind_eq_ok.mp h
  obtain rfl := Except.pure_eq_ok.mp h
  refine isWhole_push ?_ type
  rw [stack_of_drop hd]
  exact hb.drop hc

end Frame

/-! ### Each kind of instruction -/

namespace Scene

open FrameType (IsWhole)

variable {scene : Scene} {step : Step} {before after : Frame}

theorem isWhole_apply {effect : Effect} (h : scene.apply before effect = .ok after)
    (hb : IsWhole before.stack)
    (hc : ∀ depth ∈ effect.cuts, ∀ type ∈ before.stack[depth]?, type.isWide = false) :
    IsWhole after.stack := by
  cases apply_eq_ok.mp h with
  | @compute operands value _ htaken =>
    refine Frame.isWhole_pushAll ?_ value
    rw [Frame.stack_of_dropEach htaken]
    exact hb.drop (hc _ List.mem_cons_self)
  | shuffle => exact hb.shuffle hc
  | @loadReference _ _ _ type hd hp _ =>
    refine Frame.isWhole_push ?_ type
    rw [Frame.stack_of_pop hp, Frame.stack_of_drop hd, List.drop_drop]
    exact hb.drop (hc 2 List.mem_cons_self)
  | finish => exact hb

theorem isWhole_call {hasReceiver : Bool} {index : UInt16}
    (h : scene.call before hasReceiver index = .ok after) (hb : IsWhole before.stack)
    (hc : ∀ type ∈ before.stack[wordsOf ((scene.pool.member index).map (·.descriptor)) +
      if hasReceiver then 1 else 0]?, type.isWide = false) : IsWhole after.stack := by
  obtain ⟨member, type, taken, hmember, htype, htaken, h⟩ := call_eq_ok.mp h
  have hwords : wordsOf ((scene.pool.member index).map (·.descriptor)) = type.argumentWords := by
    rw [hmember, wordsOf, Option.map_some, Option.bind_some, htype]
  rw [hwords] at hc
  have hstack := Frame.stack_of_dropArguments htaken
  -- The arguments are cut off in one piece; the receiver is a word of its own below them.
  cases hasReceiver with
  | false =>
    rw [← h]
    refine Frame.isWhole_pushAll ?_ _
    rw [hstack]
    exact hb.drop hc
  | true =>
    obtain ⟨receiver, rest, hpop, hreference, h⟩ := h
    have hrest : IsWhole rest.stack := by
      rw [Frame.stack_of_pop hpop, hstack, List.drop_drop]
      exact hb.drop hc
    split_ifs at h
    · obtain ⟨name, -, rfl⟩ := h
      exact Frame.isWhole_pushAll (Frame.isWhole_construct hrest hreference name) _
    · rw [← h]
      exact Frame.isWhole_pushAll hrest _

theorem taken_of_stores? {op : Opcode} {expected : Expected} {type : FrameType}
    (ho : op.stores? = some expected) (ht : Frame.isExpected expected type = true) (pool : Pool)
    (slot : UInt16) : (Instruction.access op slot).taken pool = type.size := by
  unfold Opcode.stores? at ho
  split at ho
  all_goals first | (obtain rfl := Option.some.inj ho) | nomatch ho
  case h_5 => exact (FrameType.size_of_isReference ht).symm
  all_goals
    obtain rfl := eq_of_beq ht
    rfl

theorem isWhole_access {op : Opcode} {slot : UInt16} (h : access before op slot = .ok after)
    (hb : IsWhole before.stack)
    (hc : ∀ type ∈ before.stack[(Instruction.access op slot).taken scene.pool]?,
      type.isWide = false) : IsWhole after.stack := by
  cases Frame.Accesses.of_access h with
  | @load _ type _ _ => exact Frame.isWhole_push hb type
  | store ho ht hd =>
    rw [taken_of_stores? ho ht] at hc
    exact Frame.stack_of_drop hd ▸ hb.drop hc

theorem isWhole_accessField {op : Opcode} {index : UInt16}
    (h : scene.accessField before op index = .ok after) (hb : IsWhole before.stack)
    (hc : ∀ type ∈ before.stack[(Instruction.field op index).taken scene.pool]?,
      type.isWide = false) : IsWhole after.stack := by
  obtain ⟨type, htype, h⟩ := Except.bind_eq_ok.mp h
  simp only [Instruction.taken, htype] at hc
  split at h
  · obtain rfl := Except.pure_eq_ok.mp h
    exact Frame.isWhole_push hb type
  · rw [Frame.stack_of_drop h]
    exact hb.drop hc
  · exact Frame.isWhole_push_of_drop h hb hc
  · -- any other opcode stores to the field of an object, which is a word below the value
    rename_i h₁ h₂ h₃
    obtain ⟨dropped, hd, h⟩ := Except.bind_eq_ok.mp h
    rw [Frame.stack_of_drop h, Frame.stack_of_drop hd, List.drop_drop]
    split at hc
    · exact absurd rfl h₁
    · exact absurd rfl h₂
    · exact absurd rfl h₃
    · exact hb.drop hc

theorem isWhole_jump {op : Opcode} {target : Mark} (h : jump before op = .ok after)
    (hb : IsWhole before.stack)
    (hc : ∀ type ∈ before.stack[(Instruction.jump op target).taken scene.pool]?,
      type.isWide = false) : IsWhole after.stack := by
  unfold jump at h
  simp only [Instruction.taken] at hc
  split_ifs at h with hjsr hgoto hone htwo
  · obtain rfl := Except.ok.inj h
    exact hb
  · rw [Frame.stack_of_drop h]
    rw [if_neg hgoto, if_pos hone] at hc
    exact hb.drop hc
  · rw [Frame.stack_of_drop h]
    rw [if_neg hgoto, if_neg hone] at hc
    exact hb.drop hc

theorem isWhole_classOp {mark : Mark} {op : Opcode} {index : UInt16}
    (h : scene.classOp before mark op index = .ok after) (hb : IsWhole before.stack)
    (hc : ∀ type ∈ before.stack[(Instruction.classOp op index).taken scene.pool]?,
      type.isWide = false) : IsWhole after.stack := by
  obtain ⟨name, -, h⟩ := Except.bind_eq_ok.mp h
  simp only [Instruction.taken] at hc
  have hdrop {type : FrameType} (h : (do return (← before.drop 1).push type) = .ok after)
      (hne : (op == Opcode.newObject) = false) : IsWhole after.stack := by
    rw [hne, if_neg Bool.false_ne_true] at hc
    exact Frame.isWhole_push_of_drop h hb hc
  split at h
  · obtain rfl := Except.pure_eq_ok.mp h
    exact Frame.isWhole_push hb _
  · exact hdrop h rfl
  · exact hdrop h rfl
  · rename_i hnew _ _
    exact hdrop h (beq_eq_false_iff_ne.mpr hnew)

theorem isWhole_callComputed {index : UInt16} (h : scene.callComputed before index = .ok after)
    (hb : IsWhole before.stack)
    (hc : ∀ type ∈ before.stack[(Instruction.invokeDynamic index).taken scene.pool]?,
      type.isWide = false) : IsWhole after.stack := by
  obtain ⟨site, type, taken, hsite, htype, htaken, rfl⟩ := callComputed_eq_ok.mp h
  simp only [Instruction.taken] at hc
  rw [hsite, wordsOf, Option.map_some, Option.bind_some, htype] at hc
  refine Frame.isWhole_pushAll ?_ _
  rw [Frame.stack_of_dropArguments htaken]
  exact hb.drop hc

theorem isWhole_invoke {op : Opcode} {index : UInt16}
    (h : scene.call before (op != Opcode.invokeStatic) index = .ok after)
    (hb : IsWhole before.stack)
    (hc : ∀ type ∈ before.stack[(Instruction.invoke op index).taken scene.pool]?,
      type.isWide = false) : IsWhole after.stack := by
  refine isWhole_call h hb fun type ht => hc type ?_
  simp only [Instruction.taken]
  by_cases hop : op = Opcode.invokeStatic
  · subst hop
    exact ht
  · rw [if_neg (by simpa using hop)]
    rw [if_pos (by simpa using hop)] at ht
    exact ht

theorem isWhole_newArray {element : UInt8} (h : newArray before element = .ok after)
    (hb : IsWhole before.stack) (hc : ∀ type ∈ before.stack[1]?, type.isWide = false) :
    IsWhole after.stack := by
  obtain ⟨array, dropped, -, hd, rfl⟩ := newArray_eq_ok.mp h
  exact Frame.isWhole_push (Frame.stack_of_drop hd ▸ hb.drop hc) _

theorem isWhole_newMultiArray {index : UInt16} {dimensions : UInt8}
    (h : scene.newMultiArray before index dimensions = .ok after) (hb : IsWhole before.stack)
    (hc : ∀ type ∈ before.stack[dimensions.toNat]?, type.isWide = false) :
    IsWhole after.stack := by
  obtain ⟨name, dropped, -, -, hd, rfl⟩ := newMultiArray_eq_ok.mp h
  exact Frame.isWhole_push (Frame.stack_of_drop hd ▸ hb.drop hc) _

/-- A whole stack stays so if the instruction that is executed spares the halves of wide values. -/
theorem isWhole_of_execute (h : scene.execute step before = .ok after)
    (hb : IsWhole before.stack)
    (hc : step.instruction.SparesHalves scene.pool before.stack) : IsWhole after.stack := by
  -- all but plain instructions only cut below the words that they take
  have htaken {instruction : Instruction Mark} (hi : step.instruction = instruction)
      (hp : ∀ op, instruction ≠ .plain op) :
      ∀ type ∈ before.stack[instruction.taken scene.pool]?, type.isWide = false := by
    intro type ht
    refine hc _ ?_ type ht
    rw [hi]
    cases instruction with
    | plain op => exact absurd rfl (hp op)
    | _ => exact List.mem_cons_self
  unfold execute at h
  split at h
  case h_1 op hi =>
    split at h
    · rename_i effect heffect
      refine isWhole_apply h hb fun depth hd => hc depth ?_
      rw [hi, Instruction.cuts, heffect]
      exact hd
    · nomatch h
  case h_2 | h_3 =>
    obtain rfl := Except.ok.inj h
    exact Frame.isWhole_push hb _
  case h_4 index hi =>
    obtain ⟨type, -, h⟩ := Except.bind_eq_ok.mp h
    obtain rfl := Except.pure_eq_ok.mp h
    exact Frame.isWhole_push hb type
  case h_5 op slot hi => exact isWhole_access h hb (htaken hi nofun)
  case h_6 slot amount hi =>
    obtain ⟨type, -, h⟩ := Except.bind_eq_ok.mp h
    obtain rfl := Except.pure_eq_ok.mp h
    exact hb
  case h_7 op target hi => exact isWhole_jump h hb (htaken hi nofun)
  case h_8 | h_9 =>
    rename_i hi
    rw [Frame.stack_of_drop h]
    exact hb.drop (htaken hi nofun)
  case h_10 op index hi => exact isWhole_accessField h hb (htaken hi nofun)
  case h_11 op index hi => exact isWhole_invoke h hb (htaken hi nofun)
  case h_12 index count hi => exact isWhole_call h hb (htaken hi nofun)
  case h_13 index hi => exact isWhole_callComputed h hb (htaken hi nofun)
  case h_14 op index hi => exact isWhole_classOp h hb (htaken hi nofun)
  case h_15 element hi => exact isWhole_newArray h hb (htaken hi nofun)
  case h_16 index dimensions hi => exact isWhole_newMultiArray h hb (htaken hi nofun)

end Scene

/-! ### Where frames flow -/

namespace Frame

open FrameType (IsWhole Paired kind)

variable {hierarchy : Hierarchy} {old new merged : Frame}

theorem kind_of_meet {a b u : FrameType} (h : hierarchy.meet a b = .ok u) :
    kind a = kind u ∧ kind b = kind u := by
  cases Hierarchy.meet_eq_ok.mp h with
  | same => exact ⟨rfl, rfl⟩
  | nullLeft => exact ⟨rfl, rfl⟩
  | nullRight => exact ⟨rfl, rfl⟩
  | objects => exact ⟨rfl, rfl⟩

theorem kinds_of_wordsMeetIn {first second words : List FrameType}
    (h : WordsMeetIn hierarchy first second words) :
    first.map kind = words.map kind ∧ second.map kind = words.map kind := by
  induction h with
  | nil => exact ⟨rfl, rfl⟩
  | cons hmeet _ ih =>
    simp only [List.map_cons, (kind_of_meet hmeet).1, (kind_of_meet hmeet).2, ih.1, ih.2, and_self]

/-- Merging changes no kinds of words. -/
theorem isAscent_kinds (hierarchy : Hierarchy) : IsAscent hierarchy fun lower upper =>
    lower.stack.map kind = upper.stack.map kind :=
  ⟨fun _ => rfl, fun h h' => h.trans h', fun h => kinds_of_wordsMeetIn (wordsMeetIn_of_merge h)⟩

theorem isAscent_paired (hierarchy : Hierarchy) : IsAscent hierarchy fun lower upper =>
    Paired lower.locals → Paired upper.locals :=
  ⟨fun _ => id, fun h h' => h' ∘ h, fun h => ⟨fun _ => paired_merge h, fun _ => paired_merge h⟩⟩

end Frame

namespace Body

open FrameType (IsWhole Paired kind)

variable {body : Body} {head : MethodHead} {pool : Pool} {hierarchy : Hierarchy}
  {analysis : Analysis} {entry : Frame} {course : Course}

/-- Wide values on the stack of a declared frame have both slots. -/
theorem isWhole_of_expandChanges {changes : List DeclaredFrame} {locals : List FrameType}
    {frames : List (Mark × Frame)} (h : expandChanges changes locals = .ok frames) :
    ∀ row ∈ frames, IsWhole row.2.stack := by
  intro row hrow
  obtain ⟨locals', stack, heq⟩ := exists_of_mem_expandChanges h hrow
  rw [heq, FrameType.isWhole_iff, List.reverse_reverse]
  exact FrameType.paired_expand stack

theorem HasCourse.isWhole_declared (h : body.HasCourse head pool hierarchy entry course)
    {index : Nat} {declared : Frame} (hd : course.declared[index]? = some declared) :
    IsWhole declared.stack := by
  obtain ⟨frames, hframes, heq⟩ := h.declared
  rw [heq] at hd
  obtain ⟨mark, hm, -⟩ := mem_of_getElem?_framesByIndex hd
  exact isWhole_of_expandChanges hframes (mark, declared) hm

theorem paired_entryFrame (h : head.entryFrame = .ok entry) : Paired entry.locals := by
  unfold MethodHead.entryFrame at h
  split at h
  · nomatch h
  · obtain rfl := Except.ok.inj h
    dsimp only
    split_ifs
    · exact FrameType.paired_expand _
    · refine FrameType.paired_cons ?_ (FrameType.paired_expand _)
      unfold MethodHead.receiver
      split_ifs <;> rfl

/-- The wide locals of every frame have both slots. -/
theorem paired_locals (h : body.analyze head pool hierarchy = .ok analysis) {index : Nat}
    {frame : Frame} (hf : analysis.frames[index]? = some (some frame)) : Paired frame.locals := by
  have hr := Frame.isAscent_paired hierarchy
  obtain ⟨entry, course, -, hcourse, -⟩ := settled_of_analyze hr h
  have hs := hcourse.isSound hr
  -- A declared frame is laid over what arrives, which is why that one has to be paired too.
  have harrived {target : Nat} {sent held : Frame} (hp : Paired sent.locals)
      (ha : Flow.Accounts (fun lower upper => Paired lower.locals → Paired upper.locals) course
        target sent held) : Paired held.locals := by
    unfold Flow.Accounts at ha
    split at ha
    · exact ha hp
    · rename_i declared hdeclared
      obtain ⟨fitted, hfit, ha⟩ := ha
      exact ha (Frame.paired_fit (hs.paired target declared hdeclared) hp hfit)
  refine frames_induction hr h hcourse (Q := fun _ frame => Paired frame.locals)
    (fun held _ ha => harrived (paired_entryFrame hcourse.starts) ha) ?_ hf
  intro index step before after target sent held _ _ hbefore hexecute hedge _ ha
  have hafter := Frame.paired_of_changes hbefore (Scene.changes_of_execute hexecute)
  refine harrived ?_ ha
  cases hedge with
  | jump => exact hafter
  | next => exact hafter
  | thrownBefore => exact hbefore
  | thrownAfter => exact hafter

/-- The wide values on all stacks have both slots, if no instruction from which control goes on
cuts one. -/
theorem isWhole_stack (h : body.analyze head pool hierarchy = .ok analysis)
    (hc : ∀ (index : Nat) (step : Step) (before : Frame), body.steps[index]? = some step →
      analysis.frames[index]? = some (some before) →
      step.instruction.fallsThrough = true ∨ step.instruction.targets ≠ [] →
      step.instruction.SparesHalves pool before.stack) {index : Nat} {frame : Frame}
    (hf : analysis.frames[index]? = some (some frame)) : IsWhole frame.stack := by
  have hr := Frame.isAscent_kinds hierarchy
  obtain ⟨entry, course, -, hcourse, -⟩ := settled_of_analyze hr h
  -- Which words are wide is the same in a stack that arrives, the declared one and the merged one.
  have harrived {target : Nat} {sent held : Frame} (hw : IsWhole sent.stack)
      (ha : Flow.Accounts (fun lower upper => lower.stack.map kind = upper.stack.map kind) course
        target sent held) : IsWhole held.stack := by
    unfold Flow.Accounts at ha
    split at ha
    · exact hw.congr ha
    · rename_i declared hdeclared
      obtain ⟨fitted, hfit, ha⟩ := ha
      obtain ⟨-, rfl⟩ := Frame.fit_eq_ok.mp hfit
      exact (hcourse.isWhole_declared hdeclared).congr ha
  have hthrown (name : Bytes) : IsWhole [.object name] := FrameType.isWhole_nil.cons rfl
  refine frames_induction hr h hcourse (Q := fun _ frame => IsWhole frame.stack) ?_ ?_ hf
  · intro held _ ha
    refine harrived ?_ ha
    rw [MethodHead.stack_entryFrame hcourse.starts]
    exact FrameType.isWhole_nil
  · intro index step before after target sent held hstep hbefore hw hexecute hedge _ ha
    rw [hcourse.scene, List.getElem?_toArray] at hstep
    have hafter (hgo : step.instruction.fallsThrough = true ∨ step.instruction.targets ≠ []) :
        IsWhole after.stack := by
      refine Scene.isWhole_of_execute hexecute hw ?_
      rw [hcourse.scene]
      exact hc index step before hstep hbefore hgo
    refine harrived ?_ ha
    cases hedge with
    | jump hm => exact hafter (.inr (List.ne_nil_of_mem hm))
    | next hf => exact hafter (.inl hf)
    | thrownBefore => exact hthrown _
    | thrownAfter => exact hthrown _

/-- In every frame that an analysis finds, each wide local has its second slot, and the locals that
a table lists stand for those of the frame, but for unusable ones at the end.  So it is on the stack
if no instruction from which control goes on parts a wide value from its second slot. -/
theorem wide_values_of_analyze (h : body.analyze head pool hierarchy = .ok analysis) :
    (∀ (index : Nat) (frame : Frame), analysis.frames[index]? = some (some frame) →
      Paired frame.locals ∧
      FrameType.expand frame.listedLocals = FrameType.trim frame.locals) ∧
    ((∀ (index : Nat) (step : Step) (before : Frame), body.steps[index]? = some step →
      analysis.frames[index]? = some (some before) →
      step.instruction.fallsThrough = true ∨ step.instruction.targets ≠ [] →
      step.instruction.SparesHalves pool before.stack) →
      ∀ (index : Nat) (frame : Frame), analysis.frames[index]? = some (some frame) →
        Paired frame.fromBottom ∧ FrameType.expand frame.listedStack = frame.fromBottom) := by
  refine ⟨fun index frame hf => ?_, fun hc index frame hf => ?_⟩
  · have hp := paired_locals h hf
    exact ⟨hp, FrameType.expand_collapse (FrameType.paired_trim hp)⟩
  · have hp := FrameType.isWhole_iff.mp (isWhole_stack h hc hf)
    exact ⟨hp, FrameType.expand_collapse hp⟩

end Body

/-! ### A long value that is taken off the stack -/

namespace Taken

def head : MethodHead := ⟨Bytes.ofAscii "C", Bytes.ofAscii "m", Bytes.ofAscii "()V", true⟩

/-- A long value is pushed, and an instruction takes words away before the method returns. -/
def body (op : Opcode) : Body :=
  { Body.new 0 with
    steps := [⟨⟨0⟩, .plain 0x09⟩, ⟨⟨1⟩, .plain op⟩, ⟨⟨2⟩, .plain Opcode.returnVoid⟩] }

/-- The frames that are found if a stack is left. -/
def frames (left : List FrameType) : Array (Option Frame) :=
  #[some ⟨[], []⟩, some ⟨[], [.top, .long]⟩, some ⟨[], left⟩]

variable (op : Opcode)

def course : Course := (body op).plainCourse head Pool.empty .unknown

theorem effect?_constant : Opcode.effect? 0x09 = some (.compute [] (some .long)) :=
  Opcode.effect?_of_row (k := 2) (i := 0) rfl rfl rfl

/-- The analysis of the code, by what its second instruction does. -/
theorem analyze_eq {left : List FrameType}
    (hfalls : (Instruction.plain op : Instruction Mark).fallsThrough = true)
    (hop : (course op).scene.execute ⟨⟨1⟩, .plain op⟩ ⟨[], [.top, .long]⟩ = .ok ⟨[], left⟩)
    (hleft : left.length ≤ 2) :
    (body op).analyze head Pool.empty .unknown = .ok ⟨frames left, 2, 0⟩ := by
  have hd := (body op).declared_plainCourse head Pool.empty .unknown
  have hsize : (course op).scene.steps.size = 3 := rfl
  -- The three visits: the constant is pushed, the instruction under test runs, the code returns.
  have push : Flow.visit (course op) 0 ⟨⟨0⟩, .plain 0x09⟩ ⟨[], []⟩
      ⟨#[some ⟨[], []⟩, none, none], [], #[false, false, false], 0⟩ =
      .ok ⟨#[some ⟨[], []⟩, some ⟨[], [.top, .long]⟩, none], [1], #[false, true, false], 2⟩ := by
    refine Flow.visit_eq_ok.mpr ⟨⟨[], [.top, .long]⟩, _, _, ?_, rfl, rfl, ?_⟩
    · exact Scene.execute_plain rfl effect?_constant
    · rw [if_pos (by decide)]
      exact ⟨by rw [hsize]; decide, Flow.send_of_unreached (hd 1) rfl⟩
  have take : Flow.visit (course op) 1 ⟨⟨1⟩, .plain op⟩ ⟨[], [.top, .long]⟩
      ⟨#[some ⟨[], []⟩, some ⟨[], [.top, .long]⟩, none], [], #[false, false, false], 2⟩ =
      .ok ⟨frames left, [2], #[false, false, true], 2⟩ := by
    refine Flow.visit_eq_ok.mpr ⟨⟨[], left⟩, _, _, hop, rfl, rfl, ?_⟩
    have hheight : max (max 2 2) left.length = 2 := max_eq_left hleft
    dsimp only [List.length_cons, List.length_nil, Nat.reduceAdd]
    rw [if_pos hfalls, hheight]
    exact ⟨by rw [hsize]; decide, Flow.send_of_unreached (hd 2) rfl⟩
  have finish : Flow.visit (course op) 2 ⟨⟨2⟩, .plain Opcode.returnVoid⟩ ⟨[], left⟩
      ⟨frames left, [], #[false, false, false], 2⟩ =
      .ok ⟨frames left, [], #[false, false, false], 2⟩ := by
    refine Flow.visit_eq_ok.mpr ⟨⟨[], left⟩, _, _, ?_, rfl, rfl, ?_⟩
    · exact Scene.execute_plain rfl Opcode.effect?_returnVoid
    · dsimp only
      rw [max_eq_left hleft, max_eq_left hleft]
      rfl
  have hsettle (fuel : Nat) : Flow.settle (course op) (fuel + 3)
      ⟨#[some ⟨[], []⟩, none, none], [0], #[true, false, false], 0⟩ =
        .ok ⟨frames left, [], #[false, false, false], 2⟩ := by
    refine (Flow.settle_of_visit push rfl rfl (by rfl)).trans ?_
    refine (Flow.settle_of_visit take rfl rfl (by rfl)).trans ?_
    refine (Flow.settle_of_visit finish rfl rfl (by rfl)).trans ?_
    exact Flow.settle_of_nil (frames left) #[false, false, false] 2 fuel
  have hsend : (Flow.start 3).send (course op) 0 0 ⟨[], []⟩ =
      .ok ⟨#[some ⟨[], []⟩, none, none], [0], #[true, false, false], 0⟩ :=
    Flow.send_of_unreached (hd 0) rfl
  have hentry : head.entryFrame = .ok ⟨[], []⟩ := by decide +kernel
  have hslots : (body op).localSlots ⟨[], []⟩ [] = 0 := rfl
  exact Body.analyze_of_settle rfl rfl (by simp [body]) hentry hsend hsettle
    (Flow.le_budget (Nat.le_succ 3)) (by simp) (by rw [hslots]; decide)

def pop : Opcode := 0x57

def pop2 : Opcode := 0x58

theorem effect?_pop : pop.effect? = some (.compute [1] none) :=
  Opcode.effect?_of_row (k := 7) (i := 0) rfl rfl rfl

theorem effect?_pop2 : pop2.effect? = some (.compute [2] none) :=
  Opcode.effect?_of_row (k := 7) (i := 1) rfl rfl rfl

theorem analyze_pop2 : (body pop2).analyze head Pool.empty .unknown = .ok ⟨frames [], 2, 0⟩ :=
  analyze_eq pop2 rfl (Scene.execute_plain rfl effect?_pop2) (by decide)

theorem analyze_pop :
    (body pop).analyze head Pool.empty .unknown = .ok ⟨frames [.long], 2, 0⟩ :=
  analyze_eq pop rfl (Scene.execute_plain rfl effect?_pop) (by decide)

theorem sparesHalves_pop2 (index : Nat) (step : Step) (before : Frame)
    (hs : (body pop2).steps[index]? = some step)
    (hb : (frames [])[index]? = some (some before)) :
    step.instruction.SparesHalves Pool.empty before.stack := by
  have hcuts {op : Opcode} {effect : Effect} {stack : List FrameType}
      (heffect : op.effect? = some effect)
      (h : ∀ depth ∈ effect.cuts, ∀ type ∈ stack[depth]?, type.isWide = false) :
      (Instruction.plain op).SparesHalves Pool.empty stack := by
    unfold Instruction.SparesHalves Instruction.cuts
    dsimp only
    rwa [heffect]
  match index with
  | 0 =>
    obtain rfl := Option.some.inj hs
    obtain rfl := Option.some.inj (Option.some.inj hb)
    exact hcuts effect?_constant (by decide)
  | 1 =>
    obtain rfl := Option.some.inj hs
    obtain rfl := Option.some.inj (Option.some.inj hb)
    exact hcuts effect?_pop2 (by decide)
  | 2 =>
    obtain rfl := Option.some.inj hs
    obtain rfl := Option.some.inj (Option.some.inj hb)
    exact hcuts Opcode.effect?_returnVoid (by decide)
  | _ + 3 => nomatch hs

/-- A long value that is taken as a whole. -/
theorem wide_values_of_analyze_pop2 :
    (body pop2).analyze head Pool.empty .unknown = .ok ⟨frames [], 2, 0⟩ ∧
      (∀ (index : Nat) (step : Step) (before : Frame), (body pop2).steps[index]? = some step →
        (frames [])[index]? = some (some before) →
        step.instruction.SparesHalves Pool.empty before.stack) ∧
      FrameType.expand (Frame.mk [] [.top, .long]).listedStack = [.long, .top] := by
  have hspares := sparesHalves_pop2
  obtain ⟨-, hstacks⟩ := Body.wide_values_of_analyze analyze_pop2
  have hwhole := hstacks (fun index step before hs hb _ => hspares index step before hs hb)
  exact ⟨analyze_pop2, hspares, (hwhole 1 ⟨[], [.top, .long]⟩ rfl).2⟩

/-- The first slot of a long value stays on the stack alone, and stands for both in a table. -/
theorem not_paired_pop :
    (body pop).analyze head Pool.empty .unknown = .ok ⟨frames [.long], 2, 0⟩ ∧
      ∃ frame, (frames [.long])[2]? = some (some frame) ∧ ¬FrameType.Paired frame.fromBottom ∧
        (FrameType.expand frame.listedStack).length ≠ frame.stack.length := by
  refine ⟨analyze_pop, ⟨[], [.long]⟩, rfl, fun h => ?_, by decide⟩
  nomatch h 0 .long rfl rfl

end Taken

end ClassGraft

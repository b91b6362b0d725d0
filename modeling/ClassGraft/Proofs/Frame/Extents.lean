import ClassGraft.Proofs.Frame.Ranks
import ClassGraft.Proofs.Text.Grammar

/-!
# How large frames get

An instruction leaves two words more on the stack at most, stores into slots that its operand can
name, and the classes it leaves are those that were there, their elements, and those that the
constants name (`Scene.within_execute`).  Merging frames and fitting them to declared ones adds
nothing but the classes that others have in common (`Frame.within_merge`, `Frame.within_fit`).
-/

namespace ClassGraft

/-! ### Names in descriptors -/

namespace Descriptor

variable {bytes name : Bytes}

theorem SpellsElement.length_le (h : SpellsElement bytes (.reference name)) :
    name.length ≤ bytes.length := by
  cases h with
  | primitive h => nomatch h
  | named _ _ =>
    rw [List.length_cons, List.length_append]
    omega

theorem SpellsResult.spellsField {type : ValueType} (h : SpellsResult bytes (some type)) :
    SpellsField bytes type := by
  cases h with
  | value h => exact h

/-- A name is no longer than the descriptor that spells it. -/
theorem SpellsField.length_le (h : SpellsField bytes (.reference name)) :
    name.length ≤ bytes.length := by
  cases h with
  | element h => exact h.length_le
  | array _ _ _ => exact Nat.le_refl _

theorem length_of_field? (h : field? bytes = some (.reference name)) :
    name.length ≤ bytes.length :=
  (field?_eq_some_iff.mp h).length_le

/-- The names in a method type are no longer than its descriptor. -/
theorem length_of_method? {type : MethodType} (h : method? bytes = some type) :
    (∀ name, .reference name ∈ type.arguments → name.length ≤ bytes.length) ∧
      ∀ name, type.result = some (.reference name) → name.length ≤ bytes.length := by
  obtain ⟨parts, rfl, harguments, hresult⟩ := method?_eq_some_iff.mp h
  have htext : parts.text.length = parts.arguments.flatten.length + parts.result.length + 2 := by
    rw [Parts.text, List.length_cons, List.length_append, List.length_cons]
    omega
  refine ⟨fun name hin => ?_, fun name hname => ?_⟩
  · obtain ⟨part, hpart, hspells⟩ := exists_of_mem_right harguments hin
    have hlength := hspells.length_le
    have hflat := (List.sublist_flatten_of_mem hpart).length_le
    omega
  · rw [hname] at hresult
    have hlength := hresult.spellsField.length_le
    omega

/-- The class or array type that a descriptor spells is the one of the elements it describes. -/
theorem className?_of_field? (h : field? bytes = some (.reference name)) :
    className? bytes = some name := by
  cases field?_eq_some_iff.mp h with
  | element h =>
    cases h with
    | primitive h => nomatch h
    | named _ _ =>
      rw [className?, if_neg (by decide), List.getLast?_concat, List.dropLast_concat]
      rfl
  | @array dimensions _ _ pos _ _ =>
    obtain ⟨count, rfl⟩ := Nat.exists_eq_succ_of_ne_zero pos.ne'
    rw [List.replicate_succ, List.cons_append, className?, if_pos rfl]

/-- What can be loaded from an array are its elements. -/
theorem elementName?_of_field? {array : Bytes}
    (h : (element? array).bind field? = some (.reference name)) :
    elementName? array = some name := by
  obtain ⟨element, he, hf⟩ := Option.bind_eq_some_iff.mp h
  rw [elementName?, he, Option.bind_some, className?_of_field? hf]

end Descriptor

open Descriptor

/-! ### Frames of a limited size -/

/-- Whether a type is one of those that arise from names with a number of dimensions. -/
def FrameType.Spans (hierarchy : Hierarchy) (limit : Nat) (type : FrameType) : Prop :=
  ∀ name, type = .object name → hierarchy.Spans limit name

/-- Whether a frame has no more locals and words than the given numbers, of types that arise from
names with a number of dimensions. -/
structure Frame.Within (hierarchy : Hierarchy) (limit slots words : Nat) (frame : Frame) : Prop where
  types : frame.Holds (FrameType.Spans hierarchy limit)
  slots : frame.locals.length ≤ slots
  words : frame.stack.length ≤ words

/-- Whether the names that instructions can refer to are shorter than a limit. -/
structure Scene.IsBrief (scene : Scene) (limit : Nat) : Prop where
  thisClass : scene.head.thisClass.length < limit
  texts : ∀ index bytes, scene.pool.utf8 index = some bytes → bytes.length < limit

namespace FrameType

variable {hierarchy : Hierarchy} {limit : Nat} {name : Bytes} {type : FrameType}

/-- Types that are not those of objects of a class. -/
theorem spans_of_ne (h : ∀ name, type ≠ .object name) : type.Spans hierarchy limit :=
  fun name he => absurd he (h name)

theorem spans_top : top.Spans hierarchy limit := spans_of_ne nofun

theorem spans_object (h : hierarchy.Spans limit name) :
    (object name).Spans hierarchy limit := by
  intro other he
  obtain rfl := FrameType.object.inj he
  exact h

theorem spans_of_length (h : name.length ≤ limit) : (object name).Spans hierarchy limit :=
  spans_object (.given ((dimensions_le_length name).trans h))

theorem spans_of_flat (h : elementName? name = none) : (object name).Spans hierarchy limit :=
  spans_object (.given (dimensions_of_none h ▸ Nat.zero_le _))

theorem spans_ofValue {value : ValueType}
    (h : ∀ name, value = .reference name → name.length ≤ limit) :
    (ofValue value).Spans hierarchy limit := by
  cases value with
  | reference name => exact spans_of_length (h name rfl)
  | _ => exact spans_of_ne nofun

end FrameType

/-- The locals after a store reach to the value that is stored at least. -/
theorem Frame.length_store (frame : Frame) (slot : UInt16) (type : FrameType) :
    (frame.store slot type).locals.length =
      max (slot.toNat + type.size) frame.locals.length := by
  have hfront : (frame.locals.take slot.toNat ++ List.replicate
      (slot.toNat - (frame.locals.take slot.toNat).length) FrameType.top).length =
        slot.toNat := by
    rw [List.length_append, List.length_replicate, List.length_take]
    omega
  have hvalue : (FrameType.expand [type]).length = type.size := by
    rw [FrameType.expand_cons, FrameType.size]
    split_ifs <;> rfl
  unfold store
  dsimp only
  rw [List.length_append, List.length_append, hvalue, List.length_drop]
  generalize frame.locals.take slot.toNat ++ List.replicate
    (slot.toNat - (frame.locals.take slot.toNat).length) FrameType.top = front at hfront
  -- a wide value that loses its second slot is replaced
  have hkept : ∀ last, front.getLast? = some last →
      (front.dropLast ++ [FrameType.top]).length = front.length := by
    intro last hlast
    have hpos : front.length ≠ 0 := fun hnil => by
      rw [List.length_eq_zero_iff.mp hnil] at hlast
      simp at hlast
    rw [List.length_append, List.length_dropLast, List.length_singleton]
    omega
  split
  · rename_i last hlast
    split_ifs
    · rw [hkept last hlast]
      omega
    · omega
  · omega

namespace Frame.Within

variable {hierarchy : Hierarchy} {limit slots words : Nat} {frame frame' : Frame} {type : FrameType}

theorem mono {words' : Nat} (h : frame.Within hierarchy limit slots words) (hw : words ≤ words') :
    frame.Within hierarchy limit slots words' :=
  ⟨h.types, h.slots, h.words.trans hw⟩

theorem push (h : frame.Within hierarchy limit slots words) (ht : type.Spans hierarchy limit) :
    (frame.push type).Within hierarchy limit slots (words + 2) := by
  have hwords := h.words
  unfold Frame.push
  split_ifs
  · refine ⟨⟨h.types.locals, ?_⟩, h.slots, ?_⟩
    · exact List.forall_mem_cons.mpr ⟨FrameType.spans_of_ne nofun,
        List.forall_mem_cons.mpr ⟨ht, h.types.stack⟩⟩
    · simp only [List.length_cons]
      omega
  · refine ⟨⟨h.types.locals, List.forall_mem_cons.mpr ⟨ht, h.types.stack⟩⟩, h.slots, ?_⟩
    simp only [List.length_cons]
    omega

theorem pushAll (h : frame.Within hierarchy limit slots words) {type : Option FrameType}
    (ht : ∀ value, type = some value → value.Spans hierarchy limit) :
    (frame.pushAll type).Within hierarchy limit slots (words + 2) := by
  cases type with
  | none => exact h.mono (Nat.le_add_right _ _)
  | some value => exact h.push (ht value rfl)

theorem pop (h : frame.Within hierarchy limit slots words) (hp : frame.pop = .ok (type, frame')) :
    type.Spans hierarchy limit ∧ frame'.Within hierarchy limit slots words := by
  obtain ⟨hs, hl⟩ := Frame.pop_eq_ok.mp hp
  have hstack := h.types.stack
  have hwords := h.words
  rw [hs] at hstack hwords
  obtain ⟨ht, hrest⟩ := List.forall_mem_cons.mp hstack
  exact ⟨ht, ⟨hl ▸ h.types.locals, hrest⟩, hl ▸ h.slots, Nat.le_of_succ_le hwords⟩

theorem drop (h : frame.Within hierarchy limit slots words) {count : Nat}
    (hd : frame.drop count = .ok frame') : frame'.Within hierarchy limit slots words := by
  obtain ⟨-, rfl⟩ := Frame.drop_eq_ok.mp hd
  exact ⟨⟨h.types.locals, fun type ht => h.types.stack type (List.mem_of_mem_drop ht)⟩, h.slots,
    (List.drop_sublist _ _).length_le.trans h.words⟩

theorem dropEach (h : frame.Within hierarchy limit slots words) {operands : List Nat}
    (hd : frame.dropEach operands = .ok frame') : frame'.Within hierarchy limit slots words := by
  exact h.drop (Frame.dropEach_eq_ok.mp hd)

/-- The slots that an operand of 16 bits can name are enough for every store. -/
theorem store (h : frame.Within hierarchy limit slots words) (hs : 65537 ≤ slots) (slot : UInt16)
    (ht : type.Spans hierarchy limit) :
    (frame.store slot type).Within hierarchy limit slots words := by
  refine ⟨⟨fun other ho => ?_, h.types.stack⟩, ?_, h.words⟩
  · rcases Frame.mem_store ho with ho | rfl | rfl
    · exact h.types.locals other ho
    · exact ht
    · exact FrameType.spans_of_ne nofun
  · have hlt := slot.toNat_lt
    have hslots := h.slots
    have hsize : type.size ≤ 2 := by
      unfold FrameType.size
      split_ifs <;> omega
    rw [Frame.length_store]
    omega

theorem construct (h : frame.Within hierarchy limit slots words) (value : FrameType) {name : Bytes}
    (hn : name.length ≤ limit) : (frame.construct value name).Within hierarchy limit slots words := by
  have hset : ∀ types : List FrameType, (∀ type ∈ types, type.Spans hierarchy limit) →
      ∀ type ∈ types.map fun type => if type = value then .object name else type,
        type.Spans hierarchy limit := by
    intro types htypes type ht
    obtain ⟨other, ho, rfl⟩ := List.mem_map.mp ht
    split_ifs
    · exact FrameType.spans_of_length hn
    · exact htypes other ho
  refine ⟨⟨hset _ h.types.locals, hset _ h.types.stack⟩, ?_, ?_⟩
  · exact (List.length_map _).trans_le h.slots
  · exact (List.length_map _).trans_le h.words

end Frame.Within

/-! ### Each kind of instruction -/

namespace Scene

variable {scene : Scene} {limit slots words : Nat} {before after : Frame} {index : UInt16}
  {type : FrameType}

theorem IsBrief.className (hb : scene.IsBrief limit) {name : Bytes}
    (h : scene.pool.className index = some name) : name.length < limit := by
  unfold Pool.className at h
  split at h
  · exact hb.texts _ _ h
  · simp at h

theorem IsBrief.requireClass (hb : scene.IsBrief limit) {name : Bytes}
    (h : scene.pool.requireClass index = .ok name) : name.length < limit := by
  unfold Pool.requireClass at h
  split at h
  · rename_i found hfound
    exact Except.ok.inj h ▸ hb.className hfound
  · simp at h

theorem IsBrief.nameAndType (hb : scene.IsBrief limit) {signature : Bytes × Bytes}
    (h : scene.pool.nameAndType index = some signature) : signature.2.length < limit := by
  unfold Pool.nameAndType at h
  split at h
  · obtain ⟨name, -, h⟩ := Option.bind_eq_some_iff.mp h
    obtain ⟨descriptor, hdescriptor, h⟩ := Option.bind_eq_some_iff.mp h
    exact Option.some.inj h ▸ hb.texts _ _ hdescriptor
  · simp at h

theorem IsBrief.member (hb : scene.IsBrief limit) {member : Pool.Member}
    (h : scene.pool.member index = some member) : member.descriptor.length < limit := by
  unfold Pool.member at h
  split at h
  · obtain ⟨owner, -, h⟩ := Option.bind_eq_some_iff.mp h
    obtain ⟨signature, hsignature, h⟩ := Option.bind_eq_some_iff.mp h
    exact Option.some.inj h ▸ hb.nameAndType hsignature
  · simp at h

theorem IsBrief.dynamic (hb : scene.IsBrief limit) {signature : Bytes × Bytes}
    (h : scene.pool.dynamic index = some signature) : signature.2.length < limit := by
  unfold Pool.dynamic at h
  split at h
  · exact hb.nameAndType h
  · simp at h

/-- A type that a text of the pool describes. -/
theorem spans_of_field? {descriptor : Bytes} (hl : descriptor.length < limit) {value : ValueType}
    (h : Descriptor.field? descriptor = some value) :
    (FrameType.ofValue value).Spans scene.hierarchy limit := by
  refine FrameType.spans_ofValue fun name hname => ?_
  exact (Descriptor.length_of_field? (hname ▸ h)).trans hl.le

theorem spans_result {descriptor : Bytes} (hl : descriptor.length < limit) {type : MethodType}
    (h : Descriptor.method? descriptor = some type) (value : FrameType)
    (hv : type.result.map FrameType.ofValue = some value) :
    value.Spans scene.hierarchy limit := by
  obtain ⟨result, hresult, rfl⟩ := Option.map_eq_some_iff.mp hv
  refine FrameType.spans_ofValue fun name hname => ?_
  exact ((Descriptor.length_of_method? h).2 name (hname ▸ hresult)).trans hl.le

theorem spans_fieldType (hb : scene.IsBrief limit) (h : scene.pool.fieldType index = .ok type) :
    type.Spans scene.hierarchy limit := by
  unfold Pool.fieldType at h
  split at h
  · simp at h
  · rename_i member hmember
    split at h
    · rename_i value hvalue
      exact Except.ok.inj h ▸ spans_of_field? (hb.member hmember) hvalue
    · simp at h

theorem spans_constantType (hb : scene.IsBrief limit)
    (h : scene.pool.constantType index = .ok type) : type.Spans scene.hierarchy limit := by
  have hclass : ∀ name : String,
      Descriptor.elementName? (Bytes.ofAscii ("java/lang/" ++ name)) = none →
      (Pool.constantClass name).Spans scene.hierarchy limit :=
    fun name hflat => FrameType.spans_of_flat hflat
  unfold Pool.constantType at h
  split at h
  case h_1 | h_2 | h_3 | h_4 =>
    obtain rfl := Except.ok.inj h
    exact FrameType.spans_of_ne nofun
  case h_5 | h_6 | h_7 | h_8 =>
    obtain rfl := Except.ok.inj h
    exact hclass _ (by decide)
  case h_9 =>
    split at h
    · simp at h
    · rename_i signature hsignature
      split at h
      · rename_i value hvalue
        exact Except.ok.inj h ▸ spans_of_field? (hb.dynamic hsignature) hvalue
      · simp at h
  case h_10 | h_11 => simp at h

theorem spans_elementOf {array : FrameType} (ha : array.Spans scene.hierarchy limit)
    (h : Frame.elementOf array = .ok type) : type.Spans scene.hierarchy limit := by
  unfold Frame.elementOf at h
  split at h
  · obtain rfl := Except.ok.inj h
    exact FrameType.spans_of_ne nofun
  · rename_i name
    split at h
    · rename_i element helement
      obtain rfl := Except.ok.inj h
      exact FrameType.spans_object
        (.element (ha name rfl) (Descriptor.elementName?_of_field? helement))
    · simp at h
  · simp at h

/-- Whether an effect leaves no more than two words more than it takes, and no objects. -/
def isNarrow : Option Effect → Bool
  | some (.compute _ (some (.object _))) => false
  | some (.shuffle count depths) => depths.length ≤ count + 2
  | _ => true

theorem isNarrow_effect? {op : Opcode} {effect : Effect} (h : op.effect? = some effect) :
    isNarrow (some effect) = true := by
  have hall : Effect.all.toList.all isNarrow = true := by decide +kernel
  have hm : some effect ∈ Effect.all.toList :=
    Array.mem_toList_iff.mpr (Array.mem_of_getElem? (Option.join_eq_some_iff.mp h))
  exact List.all_eq_true.mp hall _ hm

variable (hw : before.Within scene.hierarchy limit slots words)

include hw

theorem within_apply {effect : Effect} (hn : isNarrow (some effect) = true)
    (h : scene.apply before effect = .ok after) :
    after.Within scene.hierarchy limit slots (words + 2) := by
  cases apply_eq_ok.mp h with
  | @compute operands value _ htaken =>
    refine (hw.dropEach htaken).pushAll fun type ht => FrameType.spans_of_ne fun name hname => ?_
    -- no effect of the table leaves an object
    rw [ht, hname] at hn
    simp [isNarrow] at hn
  | @shuffle count depths hc =>
    have hnarrow : depths.length ≤ count + 2 := by simpa [isNarrow] using hn
    have hwords := hw.words
    refine ⟨⟨hw.types.locals, fun type ht => ?_⟩, hw.slots, ?_⟩
    · rcases List.mem_append.mp ht with ht | ht
      · obtain ⟨depth, -, rfl⟩ := List.mem_map.mp ht
        rw [List.getD_eq_getElem?_getD]
        cases hword : before.stack[depth]? with
        | none => exact FrameType.spans_top
        | some word => exact hw.types.stack word (List.mem_of_getElem? hword)
      · exact hw.types.stack type (List.mem_of_mem_drop ht)
    · simp only [List.length_append, List.length_map, List.length_drop]
      omega
  | loadReference hd hp ht =>
    obtain ⟨harray, hrest⟩ := (hw.drop hd).pop hp
    exact hrest.push (spans_elementOf harray ht)
  | finish => exact hw.mono (Nat.le_add_right _ _)

theorem within_call (hb : scene.IsBrief limit) {hasReceiver : Bool}
    (h : scene.call before hasReceiver index = .ok after) :
    after.Within scene.hierarchy limit slots (words + 2) := by
  obtain ⟨member, type, taken, hmember, htype, htaken, h⟩ := call_eq_ok.mp h
  have hresult := @spans_result scene limit _ (hb.member hmember) type htype
  have htakes := hw.dropEach htaken
  cases hasReceiver with
  | false => exact h ▸ htakes.pushAll hresult
  | true =>
    obtain ⟨receiver, rest, hpop, -, h⟩ := h
    obtain ⟨-, hrest⟩ := htakes.pop hpop
    split_ifs at h with hname
    · obtain ⟨name, hconstructed, rfl⟩ := h
      -- a constructed object has the name of the class, or of one that was made
      refine (hrest.construct receiver ?_).pushAll hresult
      unfold constructed at hconstructed
      split at hconstructed
      · exact Except.ok.inj hconstructed ▸ hb.thisClass.le
      · obtain ⟨index, -, hconstructed⟩ := Except.bind_eq_ok.mp hconstructed
        split at hconstructed
        · exact (hb.requireClass hconstructed).le
        · simp at hconstructed
      · simp at hconstructed
    · exact h ▸ hrest.pushAll hresult

theorem within_access (hs : 65537 ≤ slots) {op : Opcode} {slot : UInt16}
    (h : access before op slot = .ok after) :
    after.Within scene.hierarchy limit slots (words + 2) := by
  cases Frame.Accesses.of_access h with
  | load _ hl => exact hw.push (hw.types.locals _ (Frame.mem_of_load hl))
  | @store _ type _ _ _ hd hstack =>
    have htype : type.Spans scene.hierarchy limit := by
      by_cases hr : type.isReference = true
      · exact hw.types.stack type (hstack hr)
      · exact FrameType.spans_of_ne fun name hname => hr (hname ▸ rfl)
    exact ((hw.drop hd).store hs slot htype).mono (Nat.le_add_right _ _)

theorem within_classOp (hb : scene.IsBrief limit) {mark : Mark} {op : Opcode}
    (h : scene.classOp before mark op index = .ok after) :
    after.Within scene.hierarchy limit slots (words + 2) := by
  obtain ⟨name, hname, h⟩ := Except.bind_eq_ok.mp h
  have hlength := hb.requireClass hname
  split at h
  · obtain rfl := Except.pure_eq_ok.mp h
    exact hw.push (FrameType.spans_of_ne nofun)
  all_goals
    obtain ⟨dropped, hd, h⟩ := Except.bind_eq_ok.mp h
    obtain rfl := Except.pure_eq_ok.mp h
    refine (hw.drop hd).push ?_
  · refine FrameType.spans_object (.given ?_)
    rw [Descriptor.dimensions_arrayOf]
    exact (Nat.succ_le_succ (Descriptor.dimensions_le_length name)).trans hlength
  · exact FrameType.spans_of_length hlength.le
  · exact FrameType.spans_of_ne nofun

theorem within_accessField (hb : scene.IsBrief limit) {op : Opcode}
    (h : scene.accessField before op index = .ok after) :
    after.Within scene.hierarchy limit slots (words + 2) := by
  obtain ⟨type, htype, h⟩ := Except.bind_eq_ok.mp h
  have hvalue := spans_fieldType hb htype
  split at h
  · obtain rfl := Except.pure_eq_ok.mp h
    exact hw.push hvalue
  · exact (hw.drop h).mono (Nat.le_add_right _ _)
  · obtain ⟨dropped, hd, h⟩ := Except.bind_eq_ok.mp h
    obtain rfl := Except.pure_eq_ok.mp h
    exact (hw.drop hd).push hvalue
  · obtain ⟨dropped, hd, h⟩ := Except.bind_eq_ok.mp h
    exact ((hw.drop hd).drop h).mono (Nat.le_add_right _ _)

theorem within_jump {op : Opcode} (h : jump before op = .ok after) :
    after.Within scene.hierarchy limit slots (words + 2) := by
  unfold jump at h
  split_ifs at h
  · obtain rfl := Except.ok.inj h
    exact hw.mono (Nat.le_add_right _ _)
  · exact (hw.drop h).mono (Nat.le_add_right _ _)
  · exact (hw.drop h).mono (Nat.le_add_right _ _)

theorem within_callComputed (hb : scene.IsBrief limit)
    (h : scene.callComputed before index = .ok after) :
    after.Within scene.hierarchy limit slots (words + 2) := by
  obtain ⟨site, type, taken, hdynamic, htype, htaken, rfl⟩ := callComputed_eq_ok.mp h
  exact (hw.dropEach htaken).pushAll (spans_result (hb.dynamic hdynamic) htype)

theorem within_newArray {element : UInt8} (h : newArray before element = .ok after) :
    after.Within scene.hierarchy limit slots (words + 2) := by
  obtain ⟨array, dropped, harray, hd, rfl⟩ := newArray_eq_ok.mp h
  refine (hw.drop hd).push (FrameType.spans_of_flat ?_)
  obtain ⟨row, hrow, rfl⟩ := Option.map_eq_some_iff.mp harray
  have hall : ∀ row ∈ ElementType.table,
      Descriptor.elementName? (Bytes.ofAscii row.2.2) = none := by decide
  exact hall row (List.mem_of_find?_eq_some hrow)

/-- An instruction leaves a frame that is not much larger, of types that arise from names. -/
theorem within_execute (hb : scene.IsBrief limit) (hs : 65537 ≤ slots) {step : Step}
    (h : scene.execute step before = .ok after) :
    after.Within scene.hierarchy limit slots (words + 2) := by
  -- two words more are allowed for what is left, which most instructions do not use
  have hless : ∀ {frame : Frame}, frame.Within scene.hierarchy limit slots words →
      frame.Within scene.hierarchy limit slots (words + 2) := fun h => h.mono (Nat.le_add_right _ _)
  unfold execute at h
  split at h
  case h_1 op hi =>
    split at h
    · rename_i effect heffect
      exact within_apply hw (isNarrow_effect? heffect) h
    · simp at h
  case h_2 | h_3 =>
    obtain rfl := Except.ok.inj h
    exact hw.push (FrameType.spans_of_ne nofun)
  case h_4 index hi =>
    obtain ⟨type, ht, h⟩ := Except.bind_eq_ok.mp h
    obtain rfl := Except.pure_eq_ok.mp h
    exact hw.push (spans_constantType hb ht)
  case h_5 op slot hi => exact within_access hw hs h
  case h_6 slot amount hi =>
    obtain ⟨type, -, h⟩ := Except.bind_eq_ok.mp h
    obtain rfl := Except.pure_eq_ok.mp h
    exact hless hw
  case h_7 op target hi => exact within_jump hw h
  case h_8 | h_9 => exact hless (hw.drop h)
  case h_10 op index hi => exact within_accessField hw hb h
  case h_11 op index hi => exact within_call hw hb h
  case h_12 index count hi => exact within_call hw hb h
  case h_13 index hi => exact within_callComputed hw hb h
  case h_14 op index hi => exact within_classOp hw hb h
  case h_15 element hi => exact within_newArray hw h
  case h_16 index dimensions hi =>
    obtain ⟨name, dropped, hname, -, hd, rfl⟩ := newMultiArray_eq_ok.mp h
    exact (hw.drop hd).push (FrameType.spans_of_length (hb.requireClass hname).le)

end Scene

/-! ### Frames that arrive -/

namespace Frame

variable {hierarchy : Hierarchy} {limit slots words words' : Nat}
  {old new merged declared arriving held : Frame}

/-- Types that meet give one that is theirs, or that of a class they have in common. -/
theorem spans_meet {a b type : FrameType} (ha : a.Spans hierarchy limit)
    (hb : b.Spans hierarchy limit) (h : hierarchy.meet a b = .ok type) :
    type.Spans hierarchy limit := by
  unfold Hierarchy.meet at h
  split_ifs at h
  · exact Except.ok.inj h ▸ ha
  · split at h
    · exact Except.ok.inj h ▸ hb
    · exact Except.ok.inj h ▸ ha
    · rename_i x y _
      split at h
      · rename_i name hc
        obtain rfl := Except.ok.inj h
        exact FrameType.spans_object (.common (ha x rfl) (hb y rfl) hc)
      · simp at h
    · simp at h

theorem spans_meetLocal {a b : FrameType} (ha : a.Spans hierarchy limit)
    (hb : b.Spans hierarchy limit) : (hierarchy.meetLocal a b).Spans hierarchy limit := by
  unfold Hierarchy.meetLocal
  split
  · rename_i type h
    exact spans_meet ha hb h
  · exact FrameType.spans_of_ne nofun

theorem length_trim_le (locals : List FrameType) :
    (FrameType.trim locals).length ≤ locals.length := by
  obtain ⟨n, hn, -⟩ := FrameType.trim_spec locals
  have := congrArg List.length hn
  rw [List.length_append] at this
  omega

theorem length_dropHalves (locals : List FrameType) :
    (FrameType.dropHalves locals).length = locals.length := by
  induction locals with
  | nil => rfl
  | cons type rest ih => rw [FrameType.dropHalves, List.length_cons, ih, List.length_cons]

/-- What frames are merged to is no larger than the first of them. -/
theorem within_merge (ho : old.Within hierarchy limit slots words)
    (hn : new.Within hierarchy limit slots words') (h : merge hierarchy old new = .ok merged) :
    merged.Within hierarchy limit slots words := by
  obtain ⟨hl, met, hmet, rfl⟩ := merge_eq_ok.mp h
  refine ⟨⟨fun type ht => ?_, fun type ht => ?_⟩, ?_, ?_⟩
  · -- a local is one in which those of the two frames meet, or cannot be used
    obtain ⟨slot, hslot⟩ := List.mem_iff_getElem?.mp (FrameType.mem_of_mem_trim ht)
    rw [FrameType.getElem?_dropHalves] at hslot
    obtain ⟨met, hmet, rfl⟩ := Option.map_eq_some_iff.mp hslot
    obtain ⟨a, b, ha, hb, rfl⟩ := List.getElem?_zipWith_eq_some.mp hmet
    split_ifs
    · exact FrameType.spans_of_ne nofun
    · exact spans_meetLocal (ho.types.locals a (List.mem_of_getElem? ha))
        (hn.types.locals b (List.mem_of_getElem? hb))
  · -- a word is one in which two words of the same depth meet
    obtain ⟨⟨a, b⟩, hpair, hword⟩ := exists_of_mem_right hmet (List.mem_reverse.mp ht)
    obtain ⟨ha, hb⟩ := List.of_mem_zip hpair
    exact spans_meet (ho.types.stack a (List.mem_reverse.mp ha))
      (hn.types.stack b (List.mem_reverse.mp hb)) hword
  · refine (length_trim_le _).trans ?_
    rw [length_dropHalves, List.length_zipWith]
    exact (min_le_left _ _).trans ho.slots
  · have hlength := hmet.length_eq
    rw [List.length_zip, fromBottom, fromBottom, List.length_reverse, List.length_reverse] at hlength
    have hwords := ho.words
    simp only [List.length_reverse]
    omega

/-- What is made of an arriving frame is no larger than it and the declared one. -/
theorem within_fit (hd : declared.Within hierarchy limit slots words')
    (ha : arriving.Within hierarchy limit slots words)
    (h : fit hierarchy declared arriving = .ok held) :
    held.Within hierarchy limit slots words := by
  obtain ⟨hfits, rfl⟩ := fit_eq_ok.mp h
  have hheight := (fits_of_misfit?_eq_none hfits).stack.length_eq
  refine ⟨⟨fun type ht => ?_, hd.types.stack⟩, ?_, hheight ▸ ha.words⟩
  · rcases List.mem_append.mp (FrameType.mem_of_mem_trim ht) with ht | ht
    · exact hd.types.locals type ht
    · exact ha.types.locals type (List.mem_of_mem_drop ht)
  · have hdeclared := hd.slots
    have harriving := ha.slots
    refine (length_trim_le _).trans ?_
    rw [List.length_append, List.length_drop]
    omega

end Frame

end ClassGraft

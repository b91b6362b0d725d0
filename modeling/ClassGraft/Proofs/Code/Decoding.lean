import Mathlib.Tactic.SplitIfs
import ClassGraft.Code.Bytecode
import ClassGraft.Code.Layout
import ClassGraft.Proofs.Bytes.Reading

/-!
# Decoding instructions that were written

Each form in which an instruction is written is read back as the instruction, with the positions of
its targets in place of their marks.  Forms of different lengths are read as one instruction.
-/

namespace ClassGraft

open Reader

@[simp] theorem length_shortDistance (distance : Int) : (shortDistance distance).length = 2 :=
  Bytes.length_bigEndian 2 _

@[simp] theorem length_longDistance (distance : Int) : (longDistance distance).length = 4 :=
  Bytes.length_bigEndian 4 _

/-! ### Opcodes -/

namespace Opcode

/-- A fact about all opcodes is one about the 256 bytes. -/
theorem forall_of_fin {P : Opcode → Prop} (h : ∀ n : Fin 256, P (UInt8.ofNat n.val))
    (op : Opcode) : P op := by
  have hop := h ⟨op.toNat, op.toNat_lt⟩
  rwa [UInt8.ofNat_toNat] at hop

/-- Opcodes of loads, stores and returns from subroutines, with the local variable as operand. -/
def isAccess (op : Opcode) : Bool := op.isLoad || op.isStore || op == ret

/-- Opcodes of jumps whose distance has two bytes. -/
def isJump (op : Opcode) : Bool := op.isCondition || op == goto || op == jsr

def isField (op : Opcode) : Bool := isBetween getStatic putField op

def isInvoke (op : Opcode) : Bool := isBetween invokeVirtual invokeStatic op

/-- Opcodes of instructions that take a class other than for an array of arrays. -/
def isClassOp (op : Opcode) : Bool :=
  op == newObject || op == newObjectArray || op == checkCast || op == instanceOf

-- Whether an opcode is in a group is linear arithmetic once the groups and the numbers are known.
attribute [grind]
  nop dconst1 bipush sipush ldc ldcWide ldcDouble iload lload fload dload aload iload0 aload3
  iaload saload istore lstore fstore dstore astore istore0 astore3 iastore lxor iinc i2l dcmpg
  ifEq ifNe ifLt ifGe ifGt ifLe ifIntEq ifIntNe ifIntLt ifIntGe ifIntGt ifIntLe ifRefEq ifRefNe
  goto jsr ret tableSwitch lookupSwitch ireturn returnVoid getStatic putStatic getField putField
  invokeVirtual invokeSpecial invokeStatic invokeInterface invokeDynamic newObject newArray
  newObjectArray arrayLength athrow checkCast instanceOf monitorEnter monitorExit wide
  newMultiArray ifNull ifNonNull gotoWide jsrWide
  isBetween isPlain isLoad isStore isShortLoad isShortStore isCondition isAccess isJump isField
  isInvoke isClassOp

/-- A short form stands for a load with an operand. -/
theorem isLoad_of_isShortLoad {op : Opcode} (h : op.isShortLoad = true) :
    (expandShort iload0 iload op).1.isLoad = true := by
  grind [expandShort]

/-- A short form stands for a store with an operand. -/
theorem isStore_of_isShortStore {op : Opcode} (h : op.isShortStore = true) :
    (expandShort istore0 istore op).1.isStore = true := by
  grind [expandShort]

theorem isAccess_of_isShortLoad {op : Opcode} (h : op.isShortLoad = true) :
    (expandShort iload0 iload op).1.isAccess = true := by
  rw [isAccess, isLoad_of_isShortLoad h, Bool.true_or, Bool.true_or]

theorem isAccess_of_isShortStore {op : Opcode} (h : op.isShortStore = true) :
    (expandShort istore0 istore op).1.isAccess = true := by
  rw [isAccess, isStore_of_isShortStore h, Bool.or_true, Bool.true_or]

/-- Only jumps on a condition have an opposite, and both go on where they do not jump. -/
theorem isJump_of_inverse? {op inverse : Opcode} (h : op.inverse? = some inverse) :
    inverse.isJump = true ∧ inverse.isUnconditional = false ∧ op.isUnconditional = false := by
  have hop : ∀ op : Opcode, op.inverse?.all (fun inverse =>
      inverse.isJump && !inverse.isUnconditional && !op.isUnconditional) = true :=
    forall_of_fin (by decide +kernel)
  have hinverse := (Option.all_eq_true _ _).mp (hop op) inverse h
  simpa [and_assoc] using hinverse

end Opcode

/-- Whether execution may go on does not depend on targets. -/
theorem Instruction.fallsThrough_mapTargets {σ τ : Type} (f : σ → τ) (instruction : Instruction σ) :
    (instruction.mapTargets f).fallsThrough = instruction.fallsThrough := by
  cases instruction <;> rfl

/-- Whether the instruction is one that is read from bytes, as far as opcodes go. -/
def Instruction.isReadable {τ : Type} : Instruction τ → Bool
  | .plain op => op.isPlain
  | .access op _ => op.isAccess
  | .jump op _ => op.isJump
  | .field op _ => op.isField
  | .invoke op _ => op.isInvoke
  | .classOp op _ => op.isClassOp
  | _ => true

namespace Bytecode

variable {base origin offset : Nat}

theorem takes_instruction_of_isPlain {op : Opcode} (h : op.isPlain = true) :
    (instruction base origin).Takes offset [op] (.plain op) := by
  refine (takes_uint8 op offset).bind_nil ?_
  rw [if_pos h]
  exact takes_pure _ _

theorem takes_instruction {op : Opcode} (h : op.isPlain = false) {bytes : Bytes}
    {value : Instruction Nat} (ho : (operands base origin op).Takes (offset + 1) bytes value) :
    (instruction base origin).Takes offset (op :: bytes) value := by
  refine (takes_uint8 op offset).bind ?_
  rw [if_neg (by simp [h])]
  exact ho

/-! ### Which operands an opcode has -/

theorem operands_of_isAccess (base origin : Nat) {op : Opcode} (h : op.isAccess = true) :
    op.isPlain = false ∧
      operands base origin op = (do return .access op (← uint8).toUInt16) := by
  constructor
  · grind
  · unfold operands
    grind

theorem operands_of_isShortLoad (base origin : Nat) {op : Opcode} (h : op.isShortLoad = true) :
    op.isPlain = false ∧ operands base origin op = (do
      return .access (Opcode.expandShort Opcode.iload0 Opcode.iload op).1
        (Opcode.expandShort Opcode.iload0 Opcode.iload op).2) := by
  constructor
  · grind
  · unfold operands
    grind

theorem operands_of_isShortStore (base origin : Nat) {op : Opcode} (h : op.isShortStore = true) :
    op.isPlain = false ∧ operands base origin op = (do
      return .access (Opcode.expandShort Opcode.istore0 Opcode.istore op).1
        (Opcode.expandShort Opcode.istore0 Opcode.istore op).2) := by
  constructor
  · grind
  · unfold operands
    grind

theorem operands_of_isJump (base origin : Nat) {op : Opcode} (h : op.isJump = true) :
    op.isPlain = false ∧
      operands base origin op = (do return .jump op (← target origin (← int16).toInt32)) := by
  have hplain : op.isPlain = false := by grind
  have hrange : Opcode.ifEq ≤ op := by grind
  have hret : op ≠ Opcode.ret := by grind
  unfold Opcode.isJump at h
  have hconstant : (op == Opcode.bipush) = false ∧ (op == Opcode.sipush) = false ∧
      (op == Opcode.ldc) = false ∧ (op == Opcode.ldcWide || op == Opcode.ldcDouble) = false := by
    clear h
    grind
  have haccess : (op.isLoad || op.isStore || op == Opcode.ret) = false ∧
      op.isShortLoad = false ∧ op.isShortStore = false ∧ (op == Opcode.iinc) = false := by
    clear h
    grind
  refine ⟨hplain, ?_⟩
  simp only [operands, h, hconstant, haccess, Bool.false_eq_true, if_false, if_true]

theorem operands_of_isField (base origin : Nat) {op : Opcode} (h : op.isField = true) :
    op.isPlain = false ∧ operands base origin op = (do return .field op (← uint16)) := by
  have hop : op = Opcode.getStatic ∨ op = Opcode.putStatic ∨ op = Opcode.getField ∨
      op = Opcode.putField := by grind
  rcases hop with rfl | rfl | rfl | rfl
  all_goals exact ⟨rfl, rfl⟩

theorem operands_of_isInvoke (base origin : Nat) {op : Opcode} (h : op.isInvoke = true) :
    op.isPlain = false ∧ operands base origin op = (do return .invoke op (← uint16)) := by
  have hop : op = Opcode.invokeVirtual ∨ op = Opcode.invokeSpecial ∨ op = Opcode.invokeStatic := by
    grind
  rcases hop with rfl | rfl | rfl
  all_goals exact ⟨rfl, rfl⟩

theorem operands_of_isClassOp (base origin : Nat) {op : Opcode} (h : op.isClassOp = true) :
    op.isPlain = false ∧ operands base origin op = (do return .classOp op (← uint16)) := by
  have hop : op = Opcode.newObject ∨ op = Opcode.newObjectArray ∨ op = Opcode.checkCast ∨
      op = Opcode.instanceOf := by grind
  rcases hop with rfl | rfl | rfl | rfl
  all_goals exact ⟨rfl, rfl⟩

/-! ### What can be read -/

theorem gives_isReadable_tableSwitch :
    (tableSwitch base origin).Gives fun value => value.isReadable = true := by
  unfold tableSwitch
  refine gives_bind fun _ => gives_bind fun _ => gives_bind fun _ => gives_bind fun _ =>
    gives_bind fun _ => gives_ite (fun _ => gives_bind fun _ => ?_) fun _ => ?_
  · exact gives_bind fun _ => gives_pure rfl
  · exact gives_bind fun _ => gives_pure rfl

theorem gives_isReadable_lookupSwitch :
    (lookupSwitch base origin).Gives fun value => value.isReadable = true := by
  unfold lookupSwitch
  refine gives_bind fun _ => gives_bind fun _ => gives_bind fun _ => gives_bind fun _ =>
    gives_ite (fun _ => gives_bind fun _ => ?_) fun _ => ?_
  · exact gives_bind fun _ => gives_pure rfl
  · exact gives_bind fun _ => gives_pure rfl

theorem gives_isReadable_widened (op : Opcode) :
    (widened op).Gives fun value => value.isReadable = true := by
  unfold widened
  refine gives_ite (fun h => gives_bind fun _ => gives_pure h) fun _ => ?_
  refine gives_ite (fun _ => gives_bind fun _ => gives_bind fun _ => gives_pure rfl) fun _ => ?_
  exact gives_malformed _

theorem gives_isReadable_operands (op : Opcode) :
    (operands base origin op).Gives fun value => value.isReadable = true := by
  -- branch by branch; where the opcode is kept, its group is what the branch tested
  unfold operands
  refine gives_ite (fun _ => gives_bind fun _ => gives_pure rfl) fun _ => ?_
  refine gives_ite (fun _ => gives_bind fun _ => gives_pure rfl) fun _ => ?_
  refine gives_ite (fun _ => gives_bind fun _ => gives_pure rfl) fun _ => ?_
  refine gives_ite (fun _ => gives_bind fun _ => gives_pure rfl) fun _ => ?_
  refine gives_ite (fun h => gives_bind fun _ => gives_pure h) fun _ => ?_
  refine gives_ite (fun h => gives_pure (Opcode.isAccess_of_isShortLoad h)) fun _ => ?_
  refine gives_ite (fun h => gives_pure (Opcode.isAccess_of_isShortStore h)) fun _ => ?_
  refine gives_ite (fun _ => gives_bind fun _ => gives_bind fun _ => gives_pure rfl) fun _ => ?_
  refine gives_ite (fun h => gives_bind fun _ => gives_bind fun _ => gives_pure h) fun _ => ?_
  refine gives_ite (fun _ => gives_bind fun _ => gives_bind fun _ => gives_pure rfl) fun _ => ?_
  refine gives_ite (fun _ => gives_bind fun _ => gives_bind fun _ => gives_pure rfl) fun _ => ?_
  refine gives_ite (fun _ => gives_isReadable_tableSwitch) fun _ => ?_
  refine gives_ite (fun _ => gives_isReadable_lookupSwitch) fun _ => ?_
  refine gives_ite (fun h => gives_bind fun _ => gives_pure h) fun _ => ?_
  refine gives_ite (fun h => gives_bind fun _ => gives_pure h) fun _ => ?_
  refine gives_ite (fun _ => gives_bind fun _ => gives_bind fun _ => gives_bind fun _ =>
    gives_pure rfl) fun _ => ?_
  refine gives_ite (fun _ => gives_bind fun _ => gives_bind fun _ => gives_pure rfl) fun _ => ?_
  refine gives_ite (fun h => gives_bind fun _ => gives_pure h) fun _ => ?_
  refine gives_ite (fun _ => gives_bind fun _ => gives_pure rfl) fun _ => ?_
  refine gives_ite (fun _ => gives_bind fun op => gives_isReadable_widened op) fun _ => ?_
  refine gives_ite (fun _ => gives_bind fun _ => gives_bind fun _ => gives_pure rfl) fun _ => ?_
  exact gives_malformed _

/-- Every instruction that is read is readable; `Instruction.takes_form` is the converse. -/
theorem gives_isReadable :
    (instruction base origin).Gives fun value => value.isReadable = true := by
  unfold instruction
  refine gives_bind fun op => gives_ite (fun h => gives_pure h) fun _ => ?_
  exact gives_isReadable_operands op

/-! ### Instructions without targets -/

theorem takes_constantBytes (pool : Pool) (index : UInt16) :
    (instruction base origin).Takes offset (constantBytes pool index) (.constant index) := by
  unfold constantBytes
  split_ifs with hw hi
  · refine takes_instruction rfl ?_
    exact (takes_uint16 index (offset + 1)).map Instruction.constant
  · refine takes_instruction rfl ?_
    have h := (takes_uint8 index.toUInt8 (offset + 1)).map
      fun byte => (Instruction.constant byte.toUInt16 : Instruction Nat)
    rw [UInt16.toUInt16_toUInt8, UInt16.mod_eq_of_lt hi] at h
    exact h
  · refine takes_instruction rfl ?_
    exact (takes_uint16 index (offset + 1)).map Instruction.constant

/-- The short forms of loads and stores of the first four local variables. -/
theorem expandShort_load : ∀ op : Opcode, op.isLoad = true → ∀ slot : Fin 4,
    let short := Opcode.iload0 + (op - Opcode.iload) * 4 + (UInt8.ofNat slot.val)
    short.isShortLoad = true ∧
      Opcode.expandShort Opcode.iload0 Opcode.iload short = (op, UInt16.ofNat slot.val) :=
  Opcode.forall_of_fin (by decide +kernel)

theorem expandShort_store : ∀ op : Opcode, op.isStore = true → ∀ slot : Fin 4,
    let short := Opcode.istore0 + (op - Opcode.istore) * 4 + (UInt8.ofNat slot.val)
    short.isShortStore = true ∧
      Opcode.expandShort Opcode.istore0 Opcode.istore short = (op, UInt16.ofNat slot.val) :=
  Opcode.forall_of_fin (by decide +kernel)

theorem exists_fin_of_lt {slot : UInt16} (h : slot < 4) :
    ∃ n : Fin 4, slot.toUInt8 = UInt8.ofNat n.val ∧ slot = UInt16.ofNat n.val := by
  refine ⟨⟨slot.toNat, UInt16.lt_iff_toNat_lt.mp h⟩, ?_, ?_⟩
  · exact (UInt8.ofNat_uInt16ToNat slot).symm
  · exact UInt16.ofNat_toNat.symm

theorem takes_accessBytes {op : Opcode} (h : op.isAccess = true) (slot : UInt16) :
    (instruction base origin).Takes offset (accessBytes op slot) (.access op slot) := by
  unfold accessBytes
  -- Short forms for the first slots, one byte for the next, and a widened form for the rest.
  split_ifs with hload hstore hslot
  · simp only [Bool.and_eq_true, decide_eq_true_eq] at hload
    obtain ⟨n, hn, hs⟩ := exists_fin_of_lt hload.2
    obtain ⟨hshort, hexpand⟩ := expandShort_load op hload.1 n
    obtain ⟨hp, hop⟩ := operands_of_isShortLoad base origin hshort
    rw [hn]
    refine takes_instruction hp ?_
    rw [hop, hexpand, ← hs]
    exact takes_pure _ _
  · simp only [Bool.and_eq_true, decide_eq_true_eq] at hstore
    obtain ⟨n, hn, hs⟩ := exists_fin_of_lt hstore.2
    obtain ⟨hshort, hexpand⟩ := expandShort_store op hstore.1 n
    obtain ⟨hp, hop⟩ := operands_of_isShortStore base origin hshort
    rw [hn]
    refine takes_instruction hp ?_
    rw [hop, hexpand, ← hs]
    exact takes_pure _ _
  · obtain ⟨hp, hop⟩ := operands_of_isAccess base origin h
    refine takes_instruction hp ?_
    rw [hop]
    have hb := (takes_uint8 slot.toUInt8 (offset + 1)).map
      fun byte => (Instruction.access op byte.toUInt16 : Instruction Nat)
    rw [UInt16.toUInt16_toUInt8, UInt16.mod_eq_of_lt hslot] at hb
    exact hb
  · refine takes_instruction rfl ?_
    refine (takes_uint8 op (offset + 1)).bind ?_
    unfold widened
    unfold Opcode.isAccess at h
    rw [if_pos h]
    exact (takes_uint16 slot _).map (Instruction.access op)

theorem takes_incrementBytes (slot : UInt16) (delta : Int16) :
    (instruction base origin).Takes offset (incrementBytes slot delta)
      (.increment slot delta) := by
  unfold incrementBytes
  split_ifs with hsmall
  · simp only [Bool.and_eq_true, decide_eq_true_eq] at hsmall
    obtain ⟨⟨hslot, hlow⟩, hhigh⟩ := hsmall
    have hdelta : delta.toInt8.toInt16 = delta := by
      have hl := Int16.le_iff_toInt_le.mp hlow
      have hh := Int16.le_iff_toInt_le.mp hhigh
      refine Int16.toInt_inj.mp ?_
      rw [Int8.toInt_toInt16, Int16.toInt_toInt8]
      exact Int.bmod_eq_of_le hl (Int.lt_add_one_of_le hh)
    refine takes_instruction rfl ?_
    refine (takes_uint8 slot.toUInt8 (offset + 1)).bind ?_
    have hd := (takes_int8 delta.toInt8 (offset + 1 + 1)).map
      fun byte => (Instruction.increment slot.toUInt8.toUInt16 byte.toInt16 : Instruction Nat)
    rw [hdelta, UInt16.toUInt16_toUInt8, UInt16.mod_eq_of_lt hslot] at hd
    rw [UInt16.toUInt16_toUInt8, UInt16.mod_eq_of_lt hslot]
    exact hd
  · refine takes_instruction rfl ?_
    refine (takes_uint8 Opcode.iinc (offset + 1)).bind ?_
    refine (takes_uint16 slot _).bind ?_
    exact (takes_int16 delta _).map (Instruction.increment slot)

/-! ### Jumps -/

theorem takes_target {displacement : Int32} {position : Nat}
    (h : (origin : Int) + displacement.toInt = position) (hp : position ≤ 65535) (offset : Nat) :
    (target origin displacement).Takes offset [] position := by
  have hrange : 0 ≤ (origin : Int) + displacement.toInt ∧
      (origin : Int) + displacement.toInt ≤ 65535 := by omega
  unfold target
  rw [if_pos hrange, h]
  exact takes_pure position offset

theorem takes_shortJump {op : Opcode} (h : op.isJump = true) {position : Nat}
    (hp : position ≤ 65535) (hd : isShortDistance (distance origin position) = true)
    (offset : Nat) :
    (instruction base origin).Takes offset (op :: shortDistance (distance origin position))
      (.jump op position) := by
  obtain ⟨hplain, hop⟩ := operands_of_isJump base origin h
  refine takes_instruction hplain ?_
  rw [hop]
  simp only [isShortDistance, Bool.and_eq_true, decide_eq_true_eq] at hd
  have hback : (Int16.ofInt (distance origin position)).toInt32.toInt =
      distance origin position := by
    rw [Int16.toInt_toInt32]
    exact Int16.toInt_ofInt_of_le hd.1 (Int.lt_add_one_of_le hd.2)
  have horigin : (origin : Int) + (Int16.ofInt (distance origin position)).toInt32.toInt =
      position := by
    rw [hback]
    unfold distance
    omega
  refine (takes_int16 (Int16.ofInt (distance origin position)) (offset + 1)).bind_nil ?_
  exact (takes_target horigin hp _).map (Instruction.jump op)

/-- The distance to a position, in four bytes. -/
theorem takes_longDistance {position : Nat} (ho : origin ≤ 65535) (hp : position ≤ 65535)
    (offset : Nat) :
    Takes (do target origin (← int32)) offset (longDistance (distance origin position))
      position := by
  have hback : (Int32.ofInt (distance origin position)).toInt = distance origin position := by
    unfold distance
    exact Int32.toInt_ofInt_of_le (by omega) (by omega)
  have horigin : (origin : Int) + (Int32.ofInt (distance origin position)).toInt = position := by
    rw [hback]
    unfold distance
    omega
  refine (takes_int32 (Int32.ofInt (distance origin position)) offset).bind_nil ?_
  exact takes_target horigin hp _

theorem takes_longJump {short long : Opcode} {position : Nat} (ho : origin ≤ 65535)
    (hp : position ≤ 65535) (hl : long.isPlain = false)
    (hop : operands base origin long = (do return .jump short (← target origin (← int32))))
    (offset : Nat) :
    (instruction base origin).Takes offset (long :: longDistance (distance origin position))
      (.jump short position) := by
  refine takes_instruction hl ?_
  rw [hop]
  have h := (takes_longDistance ho hp (offset + 1)).map (Instruction.jump short)
  rwa [bind_assoc] at h

/-! ### Switches -/

/-- A switch is filled up with zeros to a multiple of four. -/
theorem takes_align (base origin : Nat) :
    (align base).Takes (base + origin + 1) (List.replicate (3 - origin % 4) 0) () := by
  have hlength : (4 - (base + origin + 1 - base) % 4) % 4 = 3 - origin % 4 := by omega
  intro rest
  unfold align
  rw [bind_of_eq_ok (x := Reader.offset) rfl, hlength]
  have h := (takes_take (List.replicate (3 - origin % 4) 0) (base + origin + 1)).map fun _ => ()
  rw [List.length_replicate] at h
  exact h rest

theorem takes_tableSwitch {otherwise : Nat} {low high : Int32} {targets : List Nat}
    (hb : ¬high < low) (hc : targets.length = (high.toInt - low.toInt + 1).toNat)
    (ho : origin ≤ 65535) (ht : ∀ position ∈ otherwise :: targets, position ≤ 65535) :
    (instruction base origin).Takes (base + origin)
      (Opcode.tableSwitch :: (List.replicate (3 - origin % 4) 0 ++
        (longDistance (distance origin otherwise) ++ (Bytes.ofInt32 low ++ (Bytes.ofInt32 high ++
          (targets.map fun target => longDistance (distance origin target)).flatten)))))
      (.tableSwitch otherwise low high targets) := by
  have hcases : List.Forall₂
      (fun bytes position => ∀ offset,
        Takes (do target origin (← int32)) offset bytes position)
      (targets.map fun target => longDistance (distance origin target)) targets := by
    refine List.forall₂_map_left_iff.mpr (List.forall₂_same.mpr fun position hm offset => ?_)
    exact takes_longDistance ho (ht position (List.mem_cons_of_mem _ hm)) offset
  refine takes_instruction rfl ?_
  refine (takes_align base origin).bind ?_
  have hotherwise := takes_longDistance ho (ht otherwise List.mem_cons_self)
  rw [← bind_assoc]
  refine (hotherwise _).bind ?_
  refine (takes_int32 low _).bind ?_
  refine (takes_int32 high _).bind ?_
  rw [if_neg hb, ← hc]
  exact (takes_repeated hcases _).map (Instruction.tableSwitch otherwise low high)

theorem takes_lookupSwitch {otherwise : Nat} {pairs : List (Int32 × Nat)}
    (hc : pairs.length ≤ 2147483647) (ho : origin ≤ 65535) (hd : otherwise ≤ 65535)
    (ht : ∀ pair ∈ pairs, pair.2 ≤ 65535) :
    (instruction base origin).Takes (base + origin)
      (Opcode.lookupSwitch :: (List.replicate (3 - origin % 4) 0 ++
        (longDistance (distance origin otherwise) ++ (Bytes.ofInt32 (Int32.ofNat pairs.length) ++
          (pairs.map fun pair =>
            Bytes.ofInt32 pair.1 ++ longDistance (distance origin pair.2)).flatten))))
      (.lookupSwitch otherwise pairs) := by
  have hpairs : List.Forall₂
      (fun bytes pair => ∀ offset, Takes (do
        let key ← int32
        return (key, ← target origin (← int32))) offset bytes pair)
      (pairs.map fun pair => Bytes.ofInt32 pair.1 ++ longDistance (distance origin pair.2))
      pairs := by
    refine List.forall₂_map_left_iff.mpr (List.forall₂_same.mpr fun pair hm offset => ?_)
    refine (takes_int32 pair.1 offset).bind ?_
    rw [← bind_assoc]
    exact (takes_longDistance ho (ht pair hm) _).map (Prod.mk pair.1)
  -- The number of pairs is written with a sign, and is not so large that it would have one.
  have hcount : (Int32.ofNat pairs.length).toInt = pairs.length := by
    rw [Int32.toInt_ofNat']
    exact Int.bmod_eq_of_le (by unfold Int32.size; omega) (by unfold Int32.size; omega)
  have hnonneg : ¬Int32.ofNat pairs.length < 0 := by
    rw [Int32.lt_iff_toInt_lt, hcount]
    have hzero : (0 : Int32).toInt = 0 := rfl
    omega
  refine takes_instruction rfl ?_
  refine (takes_align base origin).bind ?_
  rw [← bind_assoc]
  refine (takes_longDistance ho hd _).bind ?_
  refine (takes_int32 (Int32.ofNat pairs.length) _).bind ?_
  rw [if_neg hnonneg, hcount, Int.toNat_natCast]
  exact (takes_repeated hpairs _).map (Instruction.lookupSwitch otherwise)

end Bytecode

end ClassGraft

import ClassGraft.Code.Read
import ClassGraft.Proofs.Bytes.Rereading
import ClassGraft.Proofs.Pool.Growth

/-!
# Bodies that are read elsewhere

The bytes of a body are read as the same body wherever they stand, and with more constants
(`Body.follows_read`).  Only declared frames may differ: they name classes by their constants, and
an index that led nowhere may lead to a class later.
-/

namespace ClassGraft

open Reader

variable {base base' : Nat}

/-! ### Instructions -/

namespace Bytecode

theorem follows_align : Follows base base' Eq (align base) (align base') := by
  intro rest distance value next hread
  obtain ⟨offset, _, hoffset, hread⟩ := bind_eq_ok.mp hread
  obtain ⟨rfl, rfl⟩ := Prod.mk.inj (Except.ok.inj hoffset)
  rw [Nat.add_sub_cancel_left] at hread
  have hskip : Follows base base' Eq (do let _ ← take ((4 - distance % 4) % 4))
      (do let _ ← take ((4 - distance % 4) % 4)) :=
    (follows_take _).bind_eq fun _ => follows_pure rfl
  obtain ⟨value', length, hvalue, hnext, hother⟩ := hskip rest distance value next hread
  refine ⟨value', length, hvalue, hnext, ?_⟩
  unfold align
  rw [bind_of_eq_ok rfl, Nat.add_sub_cancel_left]
  exact hother

theorem follows_target (origin : Nat) (displacement : Int32) :
    Follows base base' Eq (target origin displacement) (target origin displacement) :=
  follows_ite (fun _ => follows_pure rfl) fun _ => follows_malformed

theorem follows_widened (op : Opcode) : Follows base base' Eq (widened op) (widened op) := by
  unfold widened
  refine follows_ite (fun _ => follows_uint16.bind_eq fun _ => follows_pure rfl) fun _ => ?_
  refine follows_ite (fun _ => ?_) fun _ => follows_malformed
  exact follows_uint16.bind_eq fun _ => follows_int16.bind_eq fun _ => follows_pure rfl

theorem follows_wordTarget (origin : Nat) :
    Follows base base' Eq (do target origin (← int32)) (do target origin (← int32)) :=
  follows_int32.bind_eq fun _ => follows_target origin _

variable (origin : Nat)

theorem follows_tableSwitch :
    Follows base base' Eq (tableSwitch base origin) (tableSwitch base' origin) := by
  unfold tableSwitch
  refine follows_align.bind_eq fun _ => follows_int32.bind_eq fun _ =>
    (follows_target origin _).bind_eq fun _ => follows_int32.bind_eq fun _ =>
      follows_int32.bind_eq fun _ => follows_guard ?_
  exact (follows_repeated (follows_wordTarget origin) _).eq_of_forall₂.bind_eq fun _ =>
    follows_pure rfl

theorem follows_lookupSwitch :
    Follows base base' Eq (lookupSwitch base origin) (lookupSwitch base' origin) := by
  have hpair : Follows base base' Eq
      (do let key ← int32; return (key, ← target origin (← int32)))
      (do let key ← int32; return (key, ← target origin (← int32))) :=
    follows_int32.bind_eq fun _ => follows_int32.bind_eq fun _ =>
      (follows_target origin _).bind_eq fun _ => follows_pure rfl
  unfold lookupSwitch
  refine follows_align.bind_eq fun _ => follows_int32.bind_eq fun _ =>
    (follows_target origin _).bind_eq fun _ => follows_int32.bind_eq fun _ => follows_guard ?_
  exact (follows_repeated hpair _).eq_of_forall₂.bind_eq fun _ => follows_pure rfl

theorem follows_operands (op : Opcode) :
    Follows base base' Eq (operands base origin op) (operands base' origin op) := by
  have hbyte : ∀ make : UInt8 → Instruction Nat,
      Follows base base' Eq (do return make (← uint8)) (do return make (← uint8)) :=
    fun _ => follows_uint8.bind_eq fun _ => follows_pure rfl
  have hindex : ∀ make : UInt16 → Instruction Nat,
      Follows base base' Eq (do return make (← uint16)) (do return make (← uint16)) :=
    fun _ => follows_uint16.bind_eq fun _ => follows_pure rfl
  have hlong : ∀ long : Opcode, Follows base base' Eq
      (do return Instruction.jump long (← target origin (← int32)))
      (do return Instruction.jump long (← target origin (← int32))) :=
    fun _ => follows_int32.bind_eq fun _ => (follows_target origin _).bind_eq fun _ =>
      follows_pure rfl
  -- One line for each form, in the order in which the reader tries them.
  unfold operands
  refine follows_ite (fun _ => follows_int8.bind_eq fun _ => follows_pure rfl) fun _ => ?_
  refine follows_ite (fun _ => follows_int16.bind_eq fun _ => follows_pure rfl) fun _ => ?_
  refine follows_ite (fun _ => hbyte _) fun _ => ?_
  refine follows_ite (fun _ => hindex _) fun _ => ?_
  refine follows_ite (fun _ => hbyte _) fun _ => ?_
  refine follows_ite (fun _ => follows_pure rfl) fun _ => ?_
  refine follows_ite (fun _ => follows_pure rfl) fun _ => ?_
  refine follows_ite (fun _ => follows_uint8.bind_eq fun _ => follows_int8.bind_eq fun _ =>
    follows_pure rfl) fun _ => ?_
  refine follows_ite (fun _ => follows_int16.bind_eq fun _ =>
    (follows_target origin _).bind_eq fun _ => follows_pure rfl) fun _ => ?_
  refine follows_ite (fun _ => hlong _) fun _ => ?_
  refine follows_ite (fun _ => hlong _) fun _ => ?_
  refine follows_ite (fun _ => follows_tableSwitch origin) fun _ => ?_
  refine follows_ite (fun _ => follows_lookupSwitch origin) fun _ => ?_
  refine follows_ite (fun _ => hindex _) fun _ => ?_
  refine follows_ite (fun _ => hindex _) fun _ => ?_
  refine follows_ite (fun _ => follows_uint16.bind_eq fun _ => follows_uint8.bind_eq fun _ =>
    follows_uint8.bind_eq fun _ => follows_pure rfl) fun _ => ?_
  refine follows_ite (fun _ => follows_uint16.bind_eq fun _ => follows_uint16.bind_eq fun _ =>
    follows_pure rfl) fun _ => ?_
  refine follows_ite (fun _ => hindex _) fun _ => ?_
  refine follows_ite (fun _ => hbyte _) fun _ => ?_
  refine follows_ite (fun _ => follows_uint8.bind_eq fun _ => follows_widened _) fun _ => ?_
  refine follows_ite (fun _ => follows_uint16.bind_eq fun _ => follows_uint8.bind_eq fun _ =>
    follows_pure rfl) fun _ => ?_
  exact follows_malformed

theorem follows_instruction :
    Follows base base' Eq (instruction base origin) (instruction base' origin) :=
  follows_uint8.bind_eq fun op =>
    follows_ite (fun _ => follows_pure rfl) fun _ => follows_operands origin op

theorem follows_allFrom (fuel : Nat) (found : List (Nat × Instruction Nat)) :
    Follows base base' Eq (allFrom base fuel found) (allFrom base' fuel found) := by
  induction fuel generalizing found with
  | zero =>
    intro rest distance value next hread
    obtain ⟨rfl, rfl⟩ := Prod.mk.inj (Except.ok.inj hread)
    exact ⟨_, 0, rfl, rfl, rfl⟩
  | succ fuel ih =>
    intro rest distance value next hread
    unfold allFrom at hread ⊢
    split_ifs at hread ⊢ with hempty
    · obtain ⟨rfl, rfl⟩ := Prod.mk.inj (Except.ok.inj hread)
      exact ⟨_, 0, rfl, rfl, rfl⟩
    · -- the instruction starts as far from the start of the code
      rw [Nat.add_sub_cancel_left] at hread ⊢
      dsimp only at hread ⊢
      split at hread
      · simp at hread
      · rename_i made between hmade
        obtain ⟨left, offset⟩ := between
        obtain ⟨_, length, rfl, rfl, hother⟩ :=
          follows_instruction distance rest distance made _ hmade
        obtain ⟨value', more, hvalue, hoffset, hrest⟩ :=
          ih _ left (distance + length) value next hread
        rw [Nat.add_assoc distance] at hoffset hrest
        rw [hother]
        exact ⟨value', length + more, hvalue, hoffset, hrest⟩

/-- Code is the same instructions wherever it stands. -/
theorem follows_all (base base' : Nat) : Follows base base' Eq all all := by
  intro rest distance value next hread
  obtain ⟨value', length, hvalue, hoffset, hother⟩ :=
    @follows_allFrom (base + distance) (base' + distance) rest.length [] rest 0 value next hread
  refine ⟨value', length, hvalue, ?_, ?_⟩
  · rw [hoffset, Nat.zero_add, Nat.add_assoc]
  · rw [← Nat.add_assoc]
    rw [Nat.zero_add] at hother
    exact hother

end Bytecode

/-! ### Tables -/

theorem Starts.follows_mark (starts : Starts) (offset : Nat) :
    Follows base base' Eq (starts.mark offset) (starts.mark offset) := by
  unfold Starts.mark
  cases starts.mark? offset with
  | some mark => exact follows_pure rfl
  | none => exact follows_malformed

theorem Starts.follows_place (starts : Starts) (offset : Nat) :
    Follows base base' Eq (starts.place offset) (starts.place offset) :=
  follows_ite (fun _ => follows_pure rfl) fun _ =>
    (starts.follows_mark offset).bind_eq fun _ => follows_pure rfl

/-- Whether two attributes of a body are the same, or two tables of frames. -/
inductive BodyAttribute.IsAlike : BodyAttribute → BodyAttribute → Prop
  | same (item : BodyAttribute) : IsAlike item item
  | frames (name : UInt16) (entries entries' : List DeclaredFrame) :
      IsAlike (.frames name entries) (.frames name entries')

namespace Body

variable {pool later : Pool}

theorem follows_readHandler (starts : Starts) :
    Follows base base' Eq (readHandler starts) (readHandler starts) :=
  follows_uint16.bind_eq fun _ => (starts.follows_mark _).bind_eq fun _ =>
    follows_uint16.bind_eq fun _ => (starts.follows_place _).bind_eq fun _ =>
      follows_uint16.bind_eq fun _ => (starts.follows_mark _).bind_eq fun _ =>
        follows_uint16.bind_eq fun _ => follows_pure rfl

theorem isAlike_attributeOf (starts : Starts) (pool later : Pool) (index : UInt16)
    (name info : Bytes) :
    (attributeOf starts pool index name info).IsAlike
      (attributeOf starts later index name info) := by
  unfold attributeOf
  dsimp only
  split_ifs
  · exact .same _
  · exact .same _
  · exact .same _
  · exact .frames _ _ _
  · exact .same _

theorem follows_readAttribute (hg : pool.Grows later) (starts : Starts) :
    Follows base base' BodyAttribute.IsAlike (readAttribute starts pool)
      (readAttribute starts later) := by
  refine follows_uint16.bind_eq fun index => follows_uint32.bind_eq fun length =>
    (follows_take _).bind_eq fun info => ?_
  cases hname : pool.utf8 index with
  | some name =>
    simp only [hg.utf8 hname]
    exact follows_pure (isAlike_attributeOf starts pool later index name info)
  | none => exact follows_malformed

/-! ### The body -/

/-- The bytes of a body are the same body wherever they stand, up to its declared frames. -/
theorem follows_read (hg : pool.Grows later) (name : UInt16) :
    Follows base base' (fun body body' => ∃ attributes,
        List.Forall₂ BodyAttribute.IsAlike body.attributes attributes ∧
        body' = { body with attributes := attributes })
      (read name pool) (read name later) := by
  refine follows_remaining.bind_eq fun encoded => follows_uint16.bind_eq fun maxStack =>
    follows_uint16.bind_eq fun maxLocals => follows_uint32.bind_eq fun length => follows_guard ?_
  refine (follows_within _ Bytecode.follows_all).bind_eq fun code => ?_
  refine Follows.bind_eq (follows_lift fun a ha => ⟨a, ha, rfl⟩) fun instructions => ?_
  refine (follows_list (follows_readHandler _)).eq_of_forall₂.bind_eq fun handlers => ?_
  refine (follows_list (follows_readAttribute hg _)).bind fun attributes attributes' halike => ?_
  exact follows_finished.bind_eq fun _ => follows_pure ⟨attributes', halike, rfl⟩

end Body

end ClassGraft

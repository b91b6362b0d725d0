import ClassGraft.Proofs.Bytes.Demanding
import ClassGraft.Proofs.Class.Restoring
import ClassGraft.Proofs.Pool.Rereading

/-!
# Where a class file ends

All parts of a class are read by readers that need what they take, so a class file that is cut off
anywhere is truncated, and what follows a class is refused
(`ClassFile.truncated_or_trailing_of_parse`).  A body is decoded from bytes that were taken as a
whole, so it does not see where the file ends.
-/

namespace ClassGraft

open Reader

variable {pool : Pool}

/-! ### Constants -/

namespace Pool

theorem Entry.demands_readBody (kind : Kind) : (readBody kind).Demands := by
  -- an entry of one index, and one of two
  have one : ∀ make : UInt16 → Entry,
      (uint16 >>= fun index => pure (make index) : Reader Entry).Demands :=
    fun make => demands_uint16.bind fun _ => demands_pure _
  have two : ∀ make : UInt16 → UInt16 → Entry,
      (uint16 >>= fun first => uint16 >>= fun second => pure (make first second) :
        Reader Entry).Demands :=
    fun make => demands_uint16.bind fun _ => demands_uint16.bind fun _ => demands_pure _
  cases kind with
  | utf8 => exact demands_uint16.bind fun _ => (demands_take _).bind fun _ => demands_pure _
  | integer => exact demands_int32.bind fun _ => demands_pure _
  | float => exact demands_uint32.bind fun _ => demands_pure _
  | long => exact demands_int64.bind fun _ => demands_pure _
  | double => exact demands_uint64.bind fun _ => demands_pure _
  | methodHandle => exact demands_uint8.bind fun _ => demands_uint16.bind fun _ => demands_pure _
  | classRef | string | methodType | moduleRef | packageRef => exact one _
  | field | method | interfaceMethod | nameAndType | dynamic | invokeDynamic => exact two _

theorem Entry.demands_read (index : Nat) : (Entry.read index).Demands := by
  refine demands_uint8.bind fun tag => ?_
  cases Kind.ofTag? tag with
  | none => exact demands_malformed _
  | some kind => exact demands_readBody kind

/-- The slots that an entry leaves are read after it, and it has to leave some number of them. -/
theorem readSlots_succ {slots : Nat} (hs : pool.slots.size + (slots + 1) < 65535) :
    readSlots (slots + 1) pool hs = Entry.read (pool.slots.size + 1) >>= fun entry =>
      if h : entry.width ≤ slots + 1 then
        readSlots (slots + 1 - entry.width) (pool.push entry (by omega)) (by
          rw [← Array.length_toList, slots_push, List.length_append, Array.length_toList,
            length_slotsOf]
          omega)
      else malformed (.wideAtEnd entry.kind (pool.slots.size + 1)) := by
  funext cursor
  cases hread : Entry.read (pool.slots.size + 1) cursor with
  | error fault =>
    have hbind : ∀ f : Entry → Reader Pool,
        (Entry.read (pool.slots.size + 1) >>= f) cursor = .error fault := by
      intro f
      show (Entry.read (pool.slots.size + 1) cursor >>= fun (entry, next) => f entry next) = _
      rw [hread]
      rfl
    rw [hbind]
    -- The reader has a case of its own for the last slot, which fails in the same way.
    cases slots with
    | zero =>
      unfold readSlots
      dsimp only
      rw [hread]
    | succ slots =>
      unfold readSlots
      rw [hread]
  | ok found =>
    obtain ⟨entry, next⟩ := found
    rw [bind_of_eq_ok hread]
    by_cases hle : entry.width ≤ slots + 1
    · rw [dif_pos hle]
      obtain ⟨hp, hr, h⟩ := @readSlots_of_read _ _ _ _ hs _ _ (Nat.sub_add_cancel hle) hread
      exact h
    · -- only a wide entry can take more than there is, and that in the last slot
      rw [dif_neg hle]
      have hwide : entry.isWide = true := by
        by_contra hnot
        exact hle (by simp [Entry.width, hnot])
      obtain rfl : slots = 0 := by
        simp only [Entry.width, hwide, if_true] at hle
        omega
      unfold readSlots
      dsimp only
      rw [hread]
      exact dif_pos hwide

theorem demands_readSlots (slots : Nat) (hs : pool.slots.size + slots < 65535) :
    (readSlots slots pool hs).Demands := by
  induction slots using Nat.strongRecOn generalizing pool with
  | ind slots ih =>
    cases slots with
    | zero =>
      have hpure : readSlots 0 pool hs = pure pool := by
        funext cursor
        unfold readSlots
        rfl
      rw [hpure]
      exact demands_pure pool
    | succ slots =>
      rw [readSlots_succ]
      refine (Entry.demands_read _).bind fun entry => ?_
      have hpos : 0 < entry.width := by
        unfold Entry.width
        split_ifs <;> decide
      split_ifs
      · exact ih _ (by omega) _
      · exact demands_malformed _

theorem demands_read : Pool.read.Demands := by
  refine demands_uint16.bind fun count => demands_guard ?_
  refine (demands_readSlots _ _).bind fun pool => ?_
  cases pool.fault? with
  | none => exact demands_pure _
  | some fault => exact demands_malformed _

theorem demands_readTextIndex (role : String) : (pool.readTextIndex role).Demands :=
  demands_uint16.bind fun _ => demands_ite (demands_pure _) (demands_malformed _)

theorem demands_readClassIndex (role : String) : (pool.readClassIndex role).Demands :=
  demands_uint16.bind fun _ => demands_ite (demands_pure _) (demands_malformed _)

end Pool

/-! ### Attributes and members -/

theorem RawAttribute.demands_read (pool : Pool) : (RawAttribute.read pool).Demands :=
  (Pool.demands_readTextIndex _).bind fun _ => demands_uint32.bind fun _ =>
    (demands_take _).bind fun _ => demands_pure _

theorem Field.demands_read (pool : Pool) : (Field.read pool).Demands :=
  demands_uint16.bind fun _ => (Pool.demands_readTextIndex _).bind fun _ =>
    (Pool.demands_readTextIndex _).bind fun _ =>
      (demands_list (RawAttribute.demands_read pool)).bind fun _ => demands_pure _

theorem MethodAttribute.demands_readFrom (method : UInt16) (count : Nat)
    (found : List MethodAttribute) : (readFrom pool method count found).Demands := by
  induction count generalizing found with
  | zero => exact demands_pure _
  | succ count ih =>
    refine (Pool.demands_readTextIndex _).bind fun name => demands_uint32.bind fun length => ?_
    refine demands_offset.bind fun start => (demands_take _).bind fun info => ?_
    -- the bytes of a body were taken before it is decoded
    refine demands_ite (demands_guard ?_) (ih _)
    exact (demands_lift _).bind fun _ => ih _

theorem Method.demands_read (pool : Pool) : (Method.read pool).Demands :=
  demands_uint16.bind fun _ => (Pool.demands_readTextIndex _).bind fun _ =>
    (Pool.demands_readTextIndex _).bind fun _ => demands_uint16.bind fun _ =>
      (MethodAttribute.demands_readFrom _ _ _).bind fun _ => demands_pure _

/-! ### Classes -/

namespace ClassFile

theorem closes_read : read.Closes .trailing := by
  refine demands_uint32.closes fun _ => closes_guard ?_
  refine demands_uint16.closes fun _ => demands_uint16.closes fun _ => closes_guard ?_
  refine Pool.demands_read.closes fun pool => demands_uint16.closes fun _ => ?_
  refine (Pool.demands_readClassIndex _).closes fun _ => ?_
  refine demands_uint16.closes fun _ => closes_guard ?_
  refine (demands_list (Pool.demands_readClassIndex _)).closes fun _ => ?_
  refine (demands_list (Field.demands_read pool)).closes fun _ => ?_
  refine (demands_list (Method.demands_read pool)).closes fun _ => ?_
  refine (demands_list (RawAttribute.demands_read pool)).closes fun _ => ?_
  exact closes_finished _

/-- Of the bytes of a class none may be missing at the end, and none may follow. -/
theorem truncated_or_trailing_of_parse {bytes : Bytes} {file : ClassFile}
    (h : parse bytes = .ok file) :
    (∀ part lost, part ++ lost = bytes → lost ≠ [] →
      ∃ offset needed available, parse part = .error (.truncated offset needed available)) ∧
    ∀ more, more ≠ [] → parse (bytes ++ more) = .error (.malformed (.trailing more.length)) := by
  obtain ⟨⟨found, next⟩, hread, rfl⟩ := Except.map_eq_ok.mp h
  obtain ⟨hcut, hlong⟩ := closes_read _ _ _ hread
  refine ⟨fun part lost hparts hlost => ?_, fun more hmore => ?_⟩
  · obtain ⟨offset, needed, available, hstop⟩ := hcut part lost hparts hlost
    refine ⟨offset, needed, available, ?_⟩
    rw [parse, hstop]
    rfl
  · rw [parse, hlong more hmore]
    rfl

/-- A class with a method that adds one to its argument. -/
def adding : Bytes :=
  [0xca, 0xfe, 0xba, 0xbe, 0, 0, 0, 52] ++
    [0, 6, 1, 0, 1, 0x43, 7, 0, 1, 1, 0, 1, 0x6d, 1, 0, 4, 0x28, 0x49, 0x29, 0x49,
      1, 0, 4, 0x43, 0x6f, 0x64, 0x65] ++
    [0, 1, 0, 2, 0, 0] ++ [0, 0] ++ [0, 0] ++
    [0, 1, 0, 8, 0, 3, 0, 4, 0, 1, 0, 5, 0, 0, 0, 17, 0, 1, 0, 1,
      0, 0, 0, 5, 0x84, 0, 1, 0x1a, 0xac, 0, 0, 0, 0] ++ [0, 0]

/-- The instructions of the method. -/
def addition : List Step :=
  [⟨⟨0⟩, .increment 0 1⟩, ⟨⟨1⟩, .access Opcode.iload 0⟩, ⟨⟨2⟩, .plain Opcode.ireturn⟩]

theorem exists_parse_adding : ∃ file, parse adding = .ok file ∧
    file.methods.filterMap (·.body?.map (·.steps)) = [addition] := by
  have hok : ((parse adding).toOption.any fun file =>
      file.methods.filterMap (·.body?.map (·.steps)) == [addition]) = true := by decide +kernel
  obtain ⟨file, h, hsteps⟩ := Except.exists_of_any hok
  exact ⟨file, h, eq_of_beq hsteps⟩

theorem truncated_or_trailing_of_parse_adding : ∃ file, parse adding = .ok file ∧
    file.methods.filterMap (·.body?.map (·.steps)) = [addition] ∧
    (∀ part lost, part ++ lost = adding → lost ≠ [] →
      ∃ offset needed available, parse part = .error (.truncated offset needed available)) ∧
    ∀ more, more ≠ [] →
      parse (adding ++ more) = .error (.malformed (.trailing more.length)) := by
  obtain ⟨file, h, hsteps⟩ := exists_parse_adding
  exact ⟨file, h, hsteps, truncated_or_trailing_of_parse h⟩

end ClassFile

end ClassGraft

import ClassGraft.Class.Write
import ClassGraft.Proofs.Pool.Restoring

/-!
# Classes that are written as they were read

A class that is read and not changed is written as the same bytes.  Nothing is normalized on the
way: attributes are kept as they are, and a body is written as the bytes that its instructions were
read from.
-/

namespace ClassGraft

open Reader

variable {cursor next : Cursor} {pool : Pool}

/-! ### Attributes -/

theorem Pool.rest_of_readTextIndex {role : String} {index : UInt16}
    (h : pool.readTextIndex role cursor = .ok (index, next)) :
    cursor.rest = Bytes.ofUInt16 index ++ next.rest := by
  obtain ⟨found, between, hfound, h⟩ := bind_eq_ok.mp h
  split_ifs at h
  · obtain ⟨rfl, rfl⟩ := pure_eq_ok.mp h
    exact rest_of_uint16 hfound
  · exact absurd h malformed_ne_ok

theorem Pool.rest_of_readClassIndex {role : String} {index : UInt16}
    (h : pool.readClassIndex role cursor = .ok (index, next)) :
    cursor.rest = Bytes.ofUInt16 index ++ next.rest := by
  obtain ⟨found, between, hfound, h⟩ := bind_eq_ok.mp h
  split_ifs at h
  · obtain ⟨rfl, rfl⟩ := pure_eq_ok.mp h
    exact rest_of_uint16 hfound
  · exact absurd h malformed_ne_ok

/-- Bytes that were read under their length can be written under it. -/
theorem RawAttribute.bytes_eq_ok {name : UInt16} {length : UInt32} {info : Bytes}
    (h : info.length = length.toNat) :
    RawAttribute.bytes ⟨name, info⟩ =
      .ok (Bytes.ofUInt16 name ++ (Bytes.ofUInt32 length ++ info)) := by
  have hlt := length.toNat_lt
  have hblock : Bytes.block info = .ok (Bytes.ofUInt32 length ++ info) := by
    unfold Bytes.block
    dsimp only
    rw [if_pos (by omega), h, UInt32.ofNat_toNat]
  unfold RawAttribute.bytes
  rw [hblock]
  rfl

theorem RawAttribute.restores_read (pool : Pool) :
    (RawAttribute.read pool).Restores RawAttribute.bytes := by
  intro cursor raw next h
  obtain ⟨name, between, hname, h⟩ := bind_eq_ok.mp h
  obtain ⟨length, between', hlength, h⟩ := bind_eq_ok.mp h
  obtain ⟨info, last, hinfo, h⟩ := bind_eq_ok.mp h
  obtain ⟨rfl, rfl⟩ := pure_eq_ok.mp h
  obtain ⟨hn, hrest⟩ := rest_of_take hinfo
  refine ⟨_, bytes_eq_ok hn, ?_⟩
  rw [Pool.rest_of_readTextIndex hname, rest_of_uint32 hlength, hrest]
  simp only [List.append_assoc]

/-! ### Members -/

theorem Field.restores_read (pool : Pool) : (Field.read pool).Restores Field.bytes := by
  intro cursor field next h
  obtain ⟨access, c₁, haccess, h⟩ := bind_eq_ok.mp h
  obtain ⟨name, c₂, hname, h⟩ := bind_eq_ok.mp h
  obtain ⟨descriptor, c₃, hdescriptor, h⟩ := bind_eq_ok.mp h
  obtain ⟨attributes, c₄, hattributes, h⟩ := bind_eq_ok.mp h
  obtain ⟨rfl, rfl⟩ := pure_eq_ok.mp h
  obtain ⟨bytes, hbytes, hrest⟩ :=
    restores_list (RawAttribute.restores_read pool) _ _ _ hattributes
  refine ⟨_, Except.bind_eq_ok.mpr ⟨bytes, hbytes, rfl⟩, ?_⟩
  rw [rest_of_uint16 haccess, Pool.rest_of_readTextIndex hname,
    Pool.rest_of_readTextIndex hdescriptor, hrest]
  simp only [List.append_assoc]

/-- What a body is read from: rows of offsets and instructions, which are brought to marks, and
tables that refer to the offsets. -/
theorem Body.of_read {name : UInt16} {body : Body}
    (h : Body.read name pool cursor = .ok (body, next)) :
    ∃ (length : Nat) (rows : List (Nat × Instruction Nat)) (instructions : List (Instruction Mark))
      (c₁ c₂ c₃ c₄ : Cursor), ¬(length = 0 ∨ 65535 < length) ∧
      Reader.within length Bytecode.all c₁ = .ok (rows, c₂) ∧
      (rows.mapM fun row =>
        (Starts.ofOffsets length (rows.map (·.1))).resolve row.2) = .ok instructions ∧
      Reader.list (readHandler (Starts.ofOffsets length (rows.map (·.1)))) c₂ =
        .ok (body.handlers, c₃) ∧
      Reader.list (readAttribute (Starts.ofOffsets length (rows.map (·.1))) pool) c₃ =
        .ok (body.attributes, c₄) ∧
      body = { body with
        name := name
        steps := instructions.zipIdx.map fun (instruction, i) => ⟨⟨i⟩, instruction⟩
        nextMark := instructions.length
        initialCount := instructions.length
        initialOffsets := (rows.map (·.1)).map UInt16.ofNat
        encoded := some cursor.rest
        modified := false } := by
  obtain ⟨encoded, _, hencoded, h⟩ := bind_eq_ok.mp h
  obtain ⟨rfl, -⟩ := Prod.mk.inj (Except.ok.inj hencoded)
  obtain ⟨maxStack, _, -, h⟩ := bind_eq_ok.mp h
  obtain ⟨maxLocals, _, -, h⟩ := bind_eq_ok.mp h
  obtain ⟨length, c₁, -, h⟩ := bind_eq_ok.mp h
  obtain ⟨hlength, h⟩ := guard_eq_ok.mp h
  obtain ⟨rows, c₂, hrows, h⟩ := bind_eq_ok.mp h
  obtain ⟨instructions, _, hlift, h⟩ := bind_eq_ok.mp h
  obtain ⟨hinstructions, rfl⟩ := lift_eq_ok.mp hlift
  obtain ⟨handlers, c₃, hhandlers, h⟩ := bind_eq_ok.mp h
  obtain ⟨attributes, c₄, hattributes, h⟩ := bind_eq_ok.mp h
  obtain ⟨-, _, -, h⟩ := bind_eq_ok.mp h
  obtain ⟨rfl, -⟩ := pure_eq_ok.mp h
  exact ⟨length.toNat, rows, instructions, c₁, c₂, c₃, c₄, hlength, hrows, hinstructions,
    hhandlers, hattributes, rfl⟩

/-- A body remembers its name and the bytes that it was read from. -/
theorem Body.encoded_of_read {name : UInt16} {body : Body}
    (h : Body.read name pool cursor = .ok (body, next)) :
    body.name = name ∧ body.encoded = some cursor.rest := by
  obtain ⟨length, rows, instructions, c₁, c₂, c₃, c₄, -, -, -, -, -, hbody⟩ := of_read h
  rw [hbody]
  exact ⟨rfl, rfl⟩

/-- The attributes of a method are restored, those of a body from the bytes that it remembers. -/
theorem MethodAttribute.rest_of_readFrom {method : UInt16} {count : Nat}
    {found attributes : List MethodAttribute} (signature : String)
    (h : readFrom pool method count found cursor = .ok (attributes, next)) :
    ∃ more parts, attributes = found.reverse ++ more ∧ more.length = count ∧
      more.mapM (MethodAttribute.bytes signature) = .ok parts ∧
      cursor.rest = parts.flatten ++ next.rest := by
  induction count generalizing found cursor with
  | zero =>
    obtain ⟨rfl, rfl⟩ := pure_eq_ok.mp h
    exact ⟨[], [], (List.append_nil _).symm, rfl, rfl, rfl⟩
  | succ count ih =>
    obtain ⟨name, c₁, hname, h⟩ := bind_eq_ok.mp h
    obtain ⟨length, c₂, hlength, h⟩ := bind_eq_ok.mp h
    obtain ⟨start, c₃, hstart, h⟩ := bind_eq_ok.mp h
    obtain ⟨-, rfl⟩ := Prod.mk.inj (Except.ok.inj hstart)
    obtain ⟨info, c₄, hinfo, h⟩ := bind_eq_ok.mp h
    obtain ⟨hn, hrest⟩ := rest_of_take hinfo
    -- whichever attribute it becomes, it is written as what was read
    have hone : ∃ item : MethodAttribute, item.bytes signature = RawAttribute.bytes ⟨name, info⟩ ∧
        readFrom pool method count (item :: found) c₄ = .ok (attributes, next) := by
      split_ifs at h with hcode hsecond
      · obtain ⟨_, _, hm, -⟩ := bind_eq_ok.mp h
        exact absurd hm malformed_ne_ok
      · obtain ⟨⟨body, last⟩, c₅, hlift, hmore⟩ := bind_eq_ok.mp h
        obtain ⟨hbody, rfl⟩ := lift_eq_ok.mp hlift
        obtain ⟨rfl, hencoded⟩ := Body.encoded_of_read hbody
        refine ⟨.code body, ?_, hmore⟩
        rw [MethodAttribute.bytes, hencoded]
      · exact ⟨.other ⟨name, info⟩, rfl, h⟩
    obtain ⟨item, hbytes, h⟩ := hone
    obtain ⟨more, parts, rfl, hcount, hparts, hrest'⟩ := ih h
    rw [RawAttribute.bytes_eq_ok hn] at hbytes
    refine ⟨item :: more, _ :: parts, ?_, ?_,
      Except.mapM_eq_ok.mpr (.cons hbytes (Except.mapM_eq_ok.mp hparts)), ?_⟩
    · rw [List.reverse_cons, List.append_assoc]
      rfl
    · rw [List.length_cons, hcount]
    · rw [Pool.rest_of_readTextIndex hname, rest_of_uint32 hlength, hrest, hrest']
      simp only [List.flatten_cons, List.append_assoc]

theorem Method.restores_read (pool : Pool) : (Method.read pool).Restores (Method.bytes pool) := by
  intro cursor method next h
  obtain ⟨access, c₁, haccess, h⟩ := bind_eq_ok.mp h
  obtain ⟨name, c₂, hname, h⟩ := bind_eq_ok.mp h
  obtain ⟨descriptor, c₃, hdescriptor, h⟩ := bind_eq_ok.mp h
  obtain ⟨count, c₄, hcount, h⟩ := bind_eq_ok.mp h
  obtain ⟨attributes, c₅, hattributes, h⟩ := bind_eq_ok.mp h
  obtain ⟨rfl, rfl⟩ := pure_eq_ok.mp h
  obtain ⟨more, parts, rfl, hlength, hparts, hrest⟩ :=
    MethodAttribute.rest_of_readFrom (pool.signatureText name descriptor) hattributes
  refine ⟨_, Except.bind_eq_ok.mpr ⟨_, listOf_eq_ok hlength hparts, rfl⟩, ?_⟩
  rw [rest_of_uint16 haccess, Pool.rest_of_readTextIndex hname,
    Pool.rest_of_readTextIndex hdescriptor, rest_of_uint16 hcount, hrest]
  simp only [List.append_assoc]

/-! ### The class -/

namespace ClassFile

/-- A class takes all bytes, and is written as them. -/
theorem serialize_of_read {file : ClassFile} (h : read cursor = .ok (file, next)) :
    file.serialize = .ok cursor.rest := by
  obtain ⟨found, c₁, hmagic, h⟩ := bind_eq_ok.mp h
  obtain ⟨hne, h⟩ := guard_eq_ok.mp h
  obtain ⟨minor, c₂, hminor, h⟩ := bind_eq_ok.mp h
  obtain ⟨major, c₃, hmajor, h⟩ := bind_eq_ok.mp h
  obtain ⟨-, h⟩ := guard_eq_ok.mp h
  obtain ⟨pool, c₄, hpool, h⟩ := bind_eq_ok.mp h
  obtain ⟨access, c₅, haccess, h⟩ := bind_eq_ok.mp h
  obtain ⟨thisClass, c₆, hthis, h⟩ := bind_eq_ok.mp h
  obtain ⟨superClass, c₇, hsuper, h⟩ := bind_eq_ok.mp h
  obtain ⟨-, h⟩ := guard_eq_ok.mp h
  obtain ⟨interfaces, c₈, hinterfaces, h⟩ := bind_eq_ok.mp h
  obtain ⟨fields, c₉, hfields, h⟩ := bind_eq_ok.mp h
  obtain ⟨methods, c₁₀, hmethods, h⟩ := bind_eq_ok.mp h
  obtain ⟨attributes, c₁₁, hattributes, h⟩ := bind_eq_ok.mp h
  obtain ⟨_, c₁₂, hend, h⟩ := bind_eq_ok.mp h
  obtain ⟨rfl, rfl⟩ := pure_eq_ok.mp h
  have hindex : (pool.readClassIndex "interface").Restores
      fun index => .ok ([index].flatMap Bytes.ofUInt16) := by
    intro cursor index next h
    refine ⟨_, rfl, ?_⟩
    rw [Pool.rest_of_readClassIndex h, List.flatMap_singleton]
  obtain ⟨poolBytes, hpoolBytes, hrest₁⟩ := Pool.restores_read _ _ _ hpool
  obtain ⟨interfaceBytes, hinterfaceBytes, hrest₂⟩ := restores_list hindex _ _ _ hinterfaces
  obtain ⟨fieldBytes, hfieldBytes, hrest₃⟩ :=
    restores_list (Field.restores_read pool) _ _ _ hfields
  obtain ⟨methodBytes, hmethodBytes, hrest₄⟩ :=
    restores_list (Method.restores_read pool) _ _ _ hmethods
  obtain ⟨attributeBytes, hattributeBytes, hrest₅⟩ :=
    restores_list (RawAttribute.restores_read pool) _ _ _ hattributes
  -- part by part, the bytes that were taken are those that are written
  have hfound : found = magic := by simpa using hne
  have hrest : cursor.rest = Bytes.ofUInt32 magic ++ Bytes.ofUInt16 minor ++ Bytes.ofUInt16 major
      ++ poolBytes ++ Bytes.ofUInt16 access ++ Bytes.ofUInt16 thisClass ++ Bytes.ofUInt16 superClass
      ++ interfaceBytes ++ fieldBytes ++ methodBytes ++ attributeBytes := by
    rw [rest_of_uint32 hmagic, hfound, rest_of_uint16 hminor, rest_of_uint16 hmajor, hrest₁,
      rest_of_uint16 haccess, Pool.rest_of_readClassIndex hthis, rest_of_uint16 hsuper, hrest₂,
      hrest₃, hrest₄, hrest₅, rest_of_finished hend]
    simp only [List.append_assoc, List.append_nil]
  rw [hrest]
  exact Except.bind_eq_ok.mpr ⟨poolBytes, hpoolBytes, Except.bind_eq_ok.mpr
    ⟨interfaceBytes, hinterfaceBytes, Except.bind_eq_ok.mpr ⟨fieldBytes, hfieldBytes,
      Except.bind_eq_ok.mpr ⟨methodBytes, hmethodBytes, Except.bind_eq_ok.mpr
        ⟨attributeBytes, hattributeBytes, rfl⟩⟩⟩⟩⟩

/-- A class that was read is written as the bytes that it was read from. -/
theorem serialize_of_parse {bytes : Bytes} {file : ClassFile} (h : parse bytes = .ok file) :
    file.serialize = .ok bytes := by
  obtain ⟨⟨found, next⟩, hread, rfl⟩ := Except.map_eq_ok.mp h
  exact serialize_of_read hread

/-- A class `A` whose name stands twice among the constants, with an attribute that nobody knows. -/
def repetitive : Bytes :=
  [0xca, 0xfe, 0xba, 0xbe, 0, 0, 0, 52] ++ [0, 4, 1, 0, 1, 0x41, 7, 0, 1, 1, 0, 1, 0x41] ++
    [0, 0x20, 0, 2, 0, 0] ++ [0, 0] ++ [0, 0] ++ [0, 0] ++ [0, 1, 0, 3, 0, 0, 0, 1, 0xff]

theorem exists_parse_repetitive : ∃ file, parse repetitive = .ok file := by
  have hok : (parse repetitive).toOption.any (fun _ => true) = true := by decide +kernel
  obtain ⟨file, h, -⟩ := Except.exists_of_any hok
  exact ⟨file, h⟩

theorem serialize_of_parse_repetitive :
    ∃ file, parse repetitive = .ok file ∧ file.serialize = .ok repetitive := by
  obtain ⟨file, h⟩ := exists_parse_repetitive
  exact ⟨file, h, serialize_of_parse h⟩

end ClassFile

end ClassGraft

import ClassGraft.Proofs.Class.Rereading

/-!
# Classes with bodies as bytes

A class file can be read without decoding any body: a method then has its body among its other
attributes, all of them as bytes, just as a field has (`ClassFile.readPacked`).  What is written for
a class is read in this way as that class (`ClassFile.IsPacked.ends_readPacked`), so two classes for
which the same is written differ at most in what bodies are decoded to
(`ClassFile.IsPacked.eq_of_serialize`).  This needs only names that are texts, and bodies that have
bytes, whatever these are (`ClassFile.IsPacked`).
-/

namespace ClassGraft

open Reader

/-- An attribute of a method as bytes. -/
def MethodAttribute.raw : MethodAttribute → RawAttribute
  | .code body => ⟨body.name, body.encoded.getD []⟩
  | .other raw => raw

/-- An attribute of a method that is no body. -/
def MethodAttribute.other? : MethodAttribute → Option RawAttribute
  | .code _ => none
  | .other raw => some raw

namespace Method

variable (method : Method)

/-- A method as a field that has its body among its attributes. -/
def packed : Field :=
  ⟨method.access, method.name, method.descriptor, method.attributes.map MethodAttribute.raw⟩

/-- What a method has besides a body. -/
def others : List RawAttribute := method.attributes.filterMap MethodAttribute.other?

end Method

/-- Whether an attribute of a method has a name that tells whether it is a body, and a body has its
bytes. -/
def MethodAttribute.IsPacked (pool : Pool) : MethodAttribute → Prop
  | .code body => pool.utf8Is body.name "Code" = true ∧ ∃ info, body.encoded = some info
  | .other raw => (pool.utf8 raw.name).isSome ∧ pool.utf8Is raw.name "Code" = false

/-- Whether a method has names that are texts, and its body is there as bytes. -/
structure Method.IsPacked (pool : Pool) (method : Method) : Prop where
  name : (pool.utf8 method.name).isSome
  descriptor : (pool.utf8 method.descriptor).isSome
  attributes : ∀ item ∈ method.attributes, item.IsPacked pool

/-- Whether a class has names that are texts, and its bodies are there as bytes. -/
structure ClassFile.IsPacked (file : ClassFile) : Prop extends file.IsNamed where
  sound : file.pool.IsSound
  methods : ∀ method ∈ file.methods, method.IsPacked file.pool

variable {pool later : Pool}

/-! ### Attributes -/

namespace MethodAttribute

variable {item : MethodAttribute} {items : List MethodAttribute}

theorem IsPacked.name (h : item.IsPacked pool) : (pool.utf8 item.raw.name).isSome := by
  cases item with
  | other raw => exact h.1
  | code body => exact Pool.isSome_of_utf8Is h.1

/-- A body is written like any other attribute. -/
theorem IsPacked.bytes_raw (h : item.IsPacked pool) (signature : String) :
    item.bytes signature = item.raw.bytes := by
  cases item with
  | other raw => rfl
  | code body =>
    obtain ⟨-, info, hinfo⟩ := h
    simp only [bytes, raw, hinfo, Option.getD_some]

/-- What is no body is what does not have the name of one. -/
theorem filterMap_other? (h : ∀ item ∈ items, item.IsPacked pool) :
    items.filterMap other? = (items.map raw).filter fun raw => !pool.utf8Is raw.name "Code" := by
  induction items with
  | nil => rfl
  | cons item rest ih =>
    obtain ⟨hitem, hrest⟩ := List.forall_mem_cons.mp h
    rw [List.map_cons]
    cases item with
    | code body =>
      rw [List.filterMap_cons_none rfl, List.filter_cons_of_neg (by simp [raw, hitem.1]), ih hrest]
    | other found =>
      have hother : other? (.other found) = some found := rfl
      rw [List.filterMap_cons_some hother, List.filter_cons_of_pos (by simp [raw, hitem.2]),
        ih hrest]
      rfl

end MethodAttribute

/-! ### Methods -/

namespace Method

variable {method : Method}

theorem IsPacked.isNamed (h : method.IsPacked pool) : method.packed.IsNamed pool := by
  refine ⟨h.name, h.descriptor, fun raw hraw => ?_⟩
  obtain ⟨item, hitem, rfl⟩ := List.mem_map.mp hraw
  exact (h.attributes item hitem).name

/-- A method is written like a field. -/
theorem IsPacked.bytes_packed (h : method.IsPacked pool) {bytes : Bytes}
    (hw : method.bytes pool = .ok bytes) : method.packed.bytes = .ok bytes := by
  obtain ⟨attributes, hattributes, hw⟩ := Except.bind_eq_ok.mp hw
  obtain ⟨hlength, parts, hparts, rfl⟩ := Bytes.listOf_eq_ok_iff.mp hattributes
  have hall := (List.forall₂_and_left _ _).mpr ⟨h.attributes, Except.mapM_eq_ok.mp hparts⟩
  have hraw : method.packed.attributes.mapM RawAttribute.bytes = .ok parts := by
    refine Except.mapM_eq_ok.mpr (List.forall₂_map_left_iff.mpr (hall.imp ?_))
    exact fun _ _ hboth => (hboth.1.bytes_raw _).symm.trans hboth.2
  have hcount : method.packed.attributes.length = method.attributes.length := List.length_map _
  refine Except.bind_eq_ok.mpr
    ⟨_, Bytes.listOf_eq_ok_iff.mpr ⟨hcount ▸ hlength, parts, hraw, rfl⟩, ?_⟩
  rw [hcount]
  exact hw

theorem IsPacked.others_eq (h : method.IsPacked pool) : method.others =
    method.packed.attributes.filter fun raw => !pool.utf8Is raw.name "Code" :=
  MethodAttribute.filterMap_other? h.attributes

/-- Methods that are packed alike have the same attributes besides a body. -/
theorem IsPacked.others_eq_of_packed {again : Method} (h : method.IsPacked pool)
    (h' : again.IsPacked later) (hg : pool.Grows later) (hp : again.packed = method.packed) :
    again.others = method.others := by
  rw [h'.others_eq, h.others_eq, hp]
  refine List.filter_congr fun raw hraw => ?_
  rw [hg.utf8Is_eq (h.isNamed.attributes raw hraw)]

end Method

/-! ### Classes -/

/-- What is written like fields is read as fields. -/
theorem Field.takes_listOf {α : Type} (view : α → Field) {write : α → Except ClassFault Bytes}
    {items : List α} {bytes : Bytes} (hw : Bytes.listOf write items = .ok bytes)
    (hg : pool.Grows later)
    (h : ∀ item ∈ items, ∀ part, write item = .ok part →
      (view item).bytes = .ok part ∧ (view item).IsNamed pool) (offset : Nat) :
    (list (Field.read later)).Takes offset bytes (items.map view) := by
  refine Reader.takes_listOf hw (List.forall₂_map_right_iff.mpr (List.forall₂_same.mpr ?_)) offset
  intro item hitem part hpart
  obtain ⟨hview, hnamed⟩ := h item hitem part hpart
  exact Field.takes_read hview (hnamed.grow hg)

namespace ClassFile

variable {file other : ClassFile}

/-- Reads a class without decoding bodies; its methods are read as fields. -/
def readPacked : Reader (ClassFile × List Field) := do
  let _ ← uint32
  let minor ← uint16
  let major ← uint16
  let pool ← Pool.read
  let access ← uint16
  let thisClass ← uint16
  let superClass ← uint16
  let interfaces ← list (pool.readClassIndex "interface")
  let fields ← list (Field.read pool)
  let methods ← list (Field.read pool)
  let attributes ← list (RawAttribute.read pool)
  return (⟨minor, major, pool, access, thisClass, superClass, interfaces, fields, [], attributes⟩,
    methods)

/-- What is written for a class is read as that class without its bodies. -/
theorem IsPacked.ends_readPacked (h : file.IsPacked) {written : Bytes}
    (hw : file.serialize = .ok written) : ∃ pool : Pool, pool.slots = file.pool.slots ∧
      readPacked.Ends 0 written
        ({ file with pool := pool, methods := [] }, file.methods.map Method.packed) := by
  obtain ⟨pool, interfaces, fields, methods, attributes, hpool, hinterfaces, hfields, hmethods,
    hattributes, rfl⟩ := serialize_eq_ok.mp hw
  obtain ⟨again, hslots, hagain⟩ := Pool.exists_takes_read h.sound hpool
    (0 + (Bytes.ofUInt32 magic).length + (Bytes.ofUInt16 file.minorVersion).length +
      (Bytes.ofUInt16 file.majorVersion).length)
  have hg : file.pool.Grows again := Pool.grows_of_slots_eq hslots
  refine ⟨again, hslots, ?_⟩
  -- The parts are read one after the other, in the order in which they were written.
  simp only [List.append_assoc]
  refine (takes_uint32 magic 0).bind_ends ?_
  refine (takes_uint16 file.minorVersion _).bind_ends ?_
  refine (takes_uint16 file.majorVersion _).bind_ends (hagain.bind_ends ?_)
  refine (takes_uint16 file.access _).bind_ends ?_
  refine (takes_uint16 file.thisClass _).bind_ends ?_
  refine (takes_uint16 file.superClass _).bind_ends ?_
  refine (h.takes_interfaces hg hinterfaces _).bind_ends ?_
  refine (Field.takes_listOf id hfields hg (fun field hfield part hpart =>
    ⟨hpart, h.fields field hfield⟩) _).bind_ends ?_
  refine (Field.takes_listOf Method.packed hmethods hg (fun method hmethod part hpart =>
    ⟨(h.methods method hmethod).bytes_packed hpart, (h.methods method hmethod).isNamed⟩)
      _).bind_ends ?_
  rw [← List.append_nil attributes]
  refine (RawAttribute.takes_listOf hattributes (fun raw hraw =>
    hg.isSome_utf8 (h.attributes raw hraw)) _).bind_ends ?_
  rw [List.map_id]
  exact ends_pure _ _ _

/-- Where the same is written for two classes, only bodies may be decoded differently. -/
theorem IsPacked.eq_of_serialize (h : file.IsPacked) (h' : other.IsPacked) {written : Bytes}
    (hw : file.serialize = .ok written) (hw' : other.serialize = .ok written) :
    other.pool.slots = file.pool.slots ∧
      other = { file with pool := other.pool, methods := other.methods } ∧
      other.methods.map Method.packed = file.methods.map Method.packed := by
  obtain ⟨pool, hslots, next, hread⟩ := h.ends_readPacked hw
  obtain ⟨pool', hslots', next', hread'⟩ := h'.ends_readPacked hw'
  obtain ⟨hboth, -⟩ := Prod.mk.inj (Except.ok.inj (hread.symm.trans hread'))
  obtain ⟨hfile, hmethods⟩ := Prod.mk.inj hboth
  obtain ⟨hminor, hmajor, hpool, haccess, hthis, hsuper, hinterfaces, hfields, -, hattributes⟩ :=
    ClassFile.mk.inj hfile
  refine ⟨?_, ?_, hmethods.symm⟩
  · rw [← hslots, ← hslots', hpool]
  · rw [hminor, hmajor, haccess, hthis, hsuper, hinterfaces, hfields, hattributes]

/-- A class that was read is packed. -/
theorem IsParsed.isPacked (h : file.IsParsed) : file.IsPacked := by
  refine ⟨h.toIsNamed, h.sound, fun method hmethod => ?_⟩
  obtain ⟨hname, hdescriptor, hattributes, -⟩ := h.methods method hmethod
  refine ⟨hname, hdescriptor, fun item hitem => ?_⟩
  have hparsed := hattributes item hitem
  cases item with
  | other raw => exact hparsed
  | code body =>
    obtain ⟨hcode, cursor, next, hread⟩ := hparsed
    exact ⟨hcode, _, (Body.encoded_of_read hread).2⟩

end ClassFile

end ClassGraft

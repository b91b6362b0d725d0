import ClassGraft.Proofs.Class.Parsed
import ClassGraft.Proofs.Class.Sizes
import ClassGraft.Proofs.Code.Shown
import ClassGraft.Proofs.Pool.Rereading

/-!
# Classes that are read back

A class that was written is read as a class with the same constants, fields and attributes, and with
methods that show its methods (`ClassFile.exists_parse_of_isLegible`), if it is legible: names are
texts, and the bytes of its bodies are read as bodies that show them (`ClassFile.IsLegible`).
-/

namespace ClassGraft

open Reader

variable {pool later : Pool}

/-! ### Attributes and fields -/

theorem Pool.takes_readTextIndex {index : UInt16} (h : (pool.utf8 index).isSome) (role : String)
    (offset : Nat) : (pool.readTextIndex role).Takes offset (Bytes.ofUInt16 index) index := by
  refine (takes_uint16 index offset).bind_nil ?_
  rw [if_pos h]
  exact takes_pure _ _

theorem Pool.takes_readClassIndex {index : UInt16} (h : pool.isClass index = true) (role : String)
    (offset : Nat) : (pool.readClassIndex role).Takes offset (Bytes.ofUInt16 index) index := by
  refine (takes_uint16 index offset).bind_nil ?_
  rw [if_pos h]
  exact takes_pure _ _

namespace RawAttribute

/-- What is written for an attribute is read as its name, its length, and its contents. -/
theorem takes_bind {raw : RawAttribute} {bytes : Bytes} (hw : raw.bytes = .ok bytes)
    (hn : (pool.utf8 raw.name).isSome) {α : Type} {f : UInt16 → Nat → Bytes → Reader α}
    {more : Bytes} {value : α} (offset : Nat)
    (h : (f raw.name (offset + (Bytes.ofUInt16 raw.name).length +
      (Bytes.ofUInt32 (UInt32.ofNat raw.info.length)).length) raw.info).Takes
        (offset + bytes.length) more value) :
    (do
      let name ← pool.readTextIndex "attribute name"
      let length ← uint32
      let start ← Reader.offset
      let info ← take length.toNat
      f name start info).Takes offset (bytes ++ more) value := by
  obtain ⟨hlt, rfl⟩ := bytes_eq_ok_iff.mp hw
  rw [List.length_append, List.length_append, ← Nat.add_assoc, ← Nat.add_assoc] at h
  rw [List.append_assoc, List.append_assoc]
  have hstart : ∀ offset, Reader.offset.Takes offset [] offset := fun _ _ => rfl
  refine (Pool.takes_readTextIndex hn _ offset).bind ((takes_uint32 _ _).bind ?_)
  rw [UInt32.toNat_ofNat_of_lt' hlt]
  exact (hstart _).nil_bind ((takes_take raw.info _).bind h)

theorem takes_read {raw : RawAttribute} {bytes : Bytes} (hw : raw.bytes = .ok bytes)
    (hn : (pool.utf8 raw.name).isSome) (offset : Nat) :
    (RawAttribute.read pool).Takes offset bytes raw := by
  obtain ⟨hlt, rfl⟩ := bytes_eq_ok_iff.mp hw
  refine (Pool.takes_readTextIndex hn _ offset).bind ((takes_uint32 _ _).bind ?_)
  rw [UInt32.toNat_ofNat_of_lt' hlt]
  exact (takes_take raw.info _).bind_nil (takes_pure _ _)

theorem takes_listOf {attributes : List RawAttribute} {bytes : Bytes}
    (hw : Bytes.listOf RawAttribute.bytes attributes = .ok bytes)
    (hn : ∀ raw ∈ attributes, (pool.utf8 raw.name).isSome) (offset : Nat) :
    (list (RawAttribute.read pool)).Takes offset bytes attributes :=
  Reader.takes_listOf hw
    (List.forall₂_same.mpr fun raw hraw _ hbytes => takes_read hbytes (hn raw hraw)) offset

end RawAttribute

theorem Field.IsNamed.grow {field : Field} (h : field.IsNamed pool) (hg : pool.Grows later) :
    field.IsNamed later :=
  ⟨hg.isSome_utf8 h.name, hg.isSome_utf8 h.descriptor, fun raw hraw =>
    hg.isSome_utf8 (h.attributes raw hraw)⟩

theorem Field.takes_read {field : Field} {bytes : Bytes} (hw : field.bytes = .ok bytes)
    (hn : field.IsNamed pool) (offset : Nat) : (Field.read pool).Takes offset bytes field := by
  obtain ⟨attributes, hattributes, hw⟩ := Except.bind_eq_ok.mp hw
  obtain rfl := Except.pure_eq_ok.mp hw
  rw [List.append_assoc, List.append_assoc]
  refine (takes_uint16 field.access offset).bind ?_
  refine (Pool.takes_readTextIndex hn.name _ _).bind ?_
  refine (Pool.takes_readTextIndex hn.descriptor _ _).bind ?_
  exact (RawAttribute.takes_listOf hattributes hn.attributes _).bind_nil (takes_pure _ _)

/-! ### Methods -/

/-- Whether the bytes of a body, if it has any, are read as a body that shows it, wherever they stand
and with more constants. -/
def Body.IsLegible (pool : Pool) (body : Body) : Prop :=
  ∀ info, body.encoded = some info → ∀ later, pool.Grows later → ∀ offset, ∃ number again last,
    Body.read body.name later ⟨info, offset⟩ = .ok (again, last) ∧ body.IsShownBy number again

/-- Whether an attribute of a method has a name by which it is read as what it is. -/
def MethodAttribute.IsLegible (pool : Pool) : MethodAttribute → Prop
  | .code body => pool.utf8Is body.name "Code" = true ∧ body.IsLegible pool
  | .other raw => (pool.utf8 raw.name).isSome ∧ pool.utf8Is raw.name "Code" = false

/-- Whether a method is read as one that shows it. -/
structure Method.IsLegible (pool : Pool) (method : Method) : Prop where
  name : (pool.utf8 method.name).isSome
  descriptor : (pool.utf8 method.descriptor).isSome
  one : (method.attributes.filter (·.body?.isSome)).length ≤ 1
  attributes : ∀ item ∈ method.attributes, item.IsLegible pool

/-- Whether an attribute of a method that was read is one that was written. -/
inductive MethodAttribute.IsShownBy : MethodAttribute → MethodAttribute → Prop
  | code {number : Mark → Mark} {body again : Body} (h : body.IsShownBy number again) :
      IsShownBy (.code body) (.code again)
  | other (raw : RawAttribute) : IsShownBy (.other raw) (.other raw)

/-- Whether a method that was read is one that was written. -/
structure Method.IsShownBy (method again : Method) : Prop where
  access : again.access = method.access
  name : again.name = method.name
  descriptor : again.descriptor = method.descriptor
  attributes : List.Forall₂ MethodAttribute.IsShownBy method.attributes again.attributes

/-- What is no body is read back as it was. -/
theorem MethodAttribute.takes_readFrom_other (hg : pool.Grows later) {raw : RawAttribute}
    {part bytes : Bytes} (hw : raw.bytes = .ok part)
    (h : (MethodAttribute.other raw).IsLegible pool) {method : UInt16} {count offset : Nat}
    {found values : List MethodAttribute}
    (hrest : (readFrom later method count (.other raw :: found)).Takes (offset + part.length) bytes
      values) :
    (readFrom later method (count + 1) found).Takes offset (part ++ bytes) values := by
  have hcode : later.utf8Is raw.name "Code" = false := by
    rw [hg.utf8Is_eq h.1]
    exact h.2
  refine RawAttribute.takes_bind hw (hg.isSome_utf8 h.1) offset ?_
  rw [if_neg (by simp [hcode])]
  exact hrest

/-- The first body is read back as one that shows it. -/
theorem MethodAttribute.exists_takes_readFrom_code (hg : pool.Grows later) {body : Body}
    {signature : String} {part bytes : Bytes}
    (hw : MethodAttribute.bytes signature (.code body) = .ok part)
    (h : (MethodAttribute.code body).IsLegible pool) {found : List MethodAttribute}
    (hnone : found.filter (·.body?.isSome) = []) (offset : Nat) :
    ∃ (number : Mark → Mark) (again : Body), body.IsShownBy number again ∧
      ∀ {method : UInt16} {count : Nat} {values : List MethodAttribute},
        (readFrom later method count (.code again :: found)).Takes (offset + part.length) bytes
          values →
        (readFrom later method (count + 1) found).Takes offset (part ++ bytes) values := by
  obtain ⟨hcode, hbody⟩ := h
  have hname := Pool.isSome_of_utf8Is hcode
  cases hencoded : body.encoded with
  | none =>
    rw [MethodAttribute.bytes, hencoded] at hw
    cases hw
  | some info =>
    have hraw : RawAttribute.bytes ⟨body.name, info⟩ = .ok part := by
      rwa [MethodAttribute.bytes, hencoded] at hw
    obtain ⟨number, again, last, hread, hshown⟩ := hbody info hencoded later hg
      (offset + (Bytes.ofUInt16 body.name).length +
        (Bytes.ofUInt32 (UInt32.ofNat info.length)).length)
    refine ⟨number, again, hshown, fun hrest => ?_⟩
    have hnot : ¬found.any (·.body?.isSome) = true := fun hany => by
      obtain ⟨item, hitem, hsome⟩ := List.any_eq_true.mp hany
      exact List.filter_eq_nil_iff.mp hnone item hitem hsome
    refine RawAttribute.takes_bind hraw (hg.isSome_utf8 hname) offset ?_
    rw [if_pos ((hg.utf8Is_eq hname _).trans hcode), if_neg hnot]
    exact (takes_lift hread _).nil_bind hrest

/-- The attributes of a method are read back in order, as long as there is only one body. -/
theorem MethodAttribute.exists_takes_readFrom (hg : pool.Grows later) {method : UInt16}
    {signature : String} {items : List MethodAttribute} {parts : List Bytes}
    (hw : items.mapM (MethodAttribute.bytes signature) = .ok parts)
    (h : ∀ item ∈ items, item.IsLegible pool) {found : List MethodAttribute}
    (hone : (found.filter (·.body?.isSome)).length +
      (items.filter (·.body?.isSome)).length ≤ 1) (offset : Nat) :
    ∃ values, List.Forall₂ IsShownBy items values ∧
      (readFrom later method items.length found).Takes offset parts.flatten
        (found.reverse ++ values) := by
  replace hw := Except.mapM_eq_ok.mp hw
  -- what was found so far is generalized: it has the body, or what is left may have it
  induction hw generalizing found offset with
  | nil =>
    refine ⟨[], .nil, ?_⟩
    rw [List.append_nil]
    exact takes_pure _ _
  | @cons item part items parts hpart _ ih =>
    obtain ⟨hitem, hrest⟩ := List.forall_mem_cons.mp h
    rw [List.flatten_cons]
    cases item with
    | other raw =>
      rw [List.filter_cons_of_neg (by simp [body?])] at hone
      have hfound : ((MethodAttribute.other raw :: found).filter (·.body?.isSome)).length +
          (items.filter (·.body?.isSome)).length ≤ 1 := by
        rwa [List.filter_cons_of_neg (by simp [body?])]
      obtain ⟨values, hvalues, htakes⟩ := ih hrest hfound (offset + part.length)
      refine ⟨.other raw :: values, .cons (.other raw) hvalues, ?_⟩
      rw [List.reverse_cons, List.append_assoc] at htakes
      exact takes_readFrom_other hg hpart hitem htakes
    | code body =>
      rw [List.filter_cons_of_pos (by rfl), List.length_cons] at hone
      -- no body was found before this one, and none follows
      have hnone : found.filter (·.body?.isSome) = [] := List.length_eq_zero_iff.mp (by omega)
      obtain ⟨number, again, hshown, htakes⟩ :=
        exists_takes_readFrom_code hg hpart hitem hnone offset
      have hfound : ((MethodAttribute.code again :: found).filter (·.body?.isSome)).length +
          (items.filter (·.body?.isSome)).length ≤ 1 := by
        rw [List.filter_cons_of_pos (by rfl), List.length_cons]
        omega
      obtain ⟨values, hvalues, hothers⟩ := ih hrest hfound (offset + part.length)
      refine ⟨.code again :: values, .cons (.code hshown) hvalues, ?_⟩
      rw [List.reverse_cons, List.append_assoc] at hothers
      exact htakes hothers

theorem Method.exists_takes_read (hg : pool.Grows later) {method : Method}
    (h : method.IsLegible pool) {bytes : Bytes} (hw : method.bytes pool = .ok bytes)
    (offset : Nat) :
    ∃ again, method.IsShownBy again ∧ (Method.read later).Takes offset bytes again := by
  obtain ⟨attributes, hattributes, hw⟩ := Except.bind_eq_ok.mp hw
  obtain rfl := Except.pure_eq_ok.mp hw
  obtain ⟨hlength, parts, hparts, rfl⟩ := Bytes.listOf_eq_ok_iff.mp hattributes
  have hone : (([] : List MethodAttribute).filter (·.body?.isSome)).length +
      (method.attributes.filter (·.body?.isSome)).length ≤ 1 := by
    simpa using h.one
  obtain ⟨values, hvalues, htakes⟩ := MethodAttribute.exists_takes_readFrom hg hparts h.attributes
    hone (offset + (Bytes.ofUInt16 method.access).length +
      (Bytes.ofUInt16 method.name).length + (Bytes.ofUInt16 method.descriptor).length +
      (Bytes.ofUInt16 (UInt16.ofNat method.attributes.length)).length)
  refine ⟨⟨method.access, method.name, method.descriptor, values⟩, ⟨rfl, rfl, rfl, hvalues⟩, ?_⟩
  rw [List.append_assoc, List.append_assoc]
  refine (takes_uint16 method.access offset).bind ?_
  refine (Pool.takes_readTextIndex (hg.isSome_utf8 h.name) _ _).bind ?_
  refine (Pool.takes_readTextIndex (hg.isSome_utf8 h.descriptor) _ _).bind ?_
  refine (takes_uint16 _ _).bind ?_
  rw [UInt16.toNat_ofNat_of_lt' hlength]
  exact htakes.bind_nil (takes_pure _ _)

/-! ### Classes -/

namespace ClassFile

/-- Whether a class is read as one that shows it. -/
structure IsLegible (file : ClassFile) : Prop extends file.IsNamed where
  sound : file.pool.IsSound
  methods : ∀ method ∈ file.methods, method.IsLegible file.pool

/-- Whether a class that was read is one that was written: it has the same constant at every index,
and the same fields and attributes, and its methods are those that were written. -/
structure IsShownBy (file again : ClassFile) : Prop where
  pool : again.pool.slots = file.pool.slots
  others : again = { file with pool := again.pool, methods := again.methods }
  methods : List.Forall₂ Method.IsShownBy file.methods again.methods

variable {file : ClassFile}

theorem IsNamed.takes_interfaces (h : file.IsNamed) (hg : file.pool.Grows later) {bytes : Bytes}
    (hw : Bytes.tableOf (fun index => [index]) file.interfaces = .ok bytes) (offset : Nat) :
    (list (later.readClassIndex "interface")).Takes offset bytes file.interfaces := by
  refine takes_listOf hw (List.forall₂_same.mpr fun index hindex part hpart offset => ?_) offset
  obtain rfl := Except.ok.inj hpart
  rw [List.flatMap_singleton]
  exact Pool.takes_readClassIndex (hg.isClass (h.interfaces index hindex)) _ offset

/-- A legible class is read back from what is written for it. -/
theorem exists_parse_of_isLegible (h : file.IsLegible) {written : Bytes}
    (hw : file.serialize = .ok written) :
    ∃ again, parse written = .ok again ∧ file.IsShownBy again := by
  obtain ⟨pool, interfaces, fields, methods, attributes, hpool, hinterfaces, hfields, hmethods,
    hattributes, rfl⟩ := serialize_eq_ok.mp hw
  obtain ⟨again, hslots, hagain⟩ := Pool.exists_takes_read h.sound hpool
    (0 + (Bytes.ofUInt32 magic).length + (Bytes.ofUInt16 file.minorVersion).length +
      (Bytes.ofUInt16 file.majorVersion).length)
  have hg : file.pool.Grows again := Pool.grows_of_slots_eq hslots
  have hfield : ∀ field ∈ file.fields, field.IsNamed again := fun field hfield =>
    (h.fields field hfield).grow hg
  obtain ⟨values, hvalues, htakes⟩ := exists_takes_listOf hmethods
    (fun method hmethod part hpart => Method.exists_takes_read hg (h.methods method hmethod) hpart)
    (0 + (Bytes.ofUInt32 magic).length + (Bytes.ofUInt16 file.minorVersion).length +
      (Bytes.ofUInt16 file.majorVersion).length + pool.length +
      (Bytes.ofUInt16 file.access).length + (Bytes.ofUInt16 file.thisClass).length +
      (Bytes.ofUInt16 file.superClass).length + interfaces.length + fields.length)
  have hsuper : ¬(file.superClass != 0 && (again.className file.superClass).isNone) = true := by
    rcases h.superClass with hzero | hsome
    · simp [hzero]
    · obtain ⟨name, hname⟩ := Option.isSome_iff_exists.mp hsome
      simp [hg.className hname]
  -- The checks between the parts pass, since a legible class has what they ask for.
  have hread : read.Ends 0 (Bytes.ofUInt32 magic ++ Bytes.ofUInt16 file.minorVersion ++
      Bytes.ofUInt16 file.majorVersion ++ pool ++ Bytes.ofUInt16 file.access ++
      Bytes.ofUInt16 file.thisClass ++ Bytes.ofUInt16 file.superClass ++ interfaces ++ fields ++
      methods ++ attributes) { file with pool := again, methods := values } := by
    simp only [List.append_assoc]
    refine (takes_uint32 magic 0).bind_ends ?_
    rw [if_neg (by simp)]
    refine (takes_uint16 file.minorVersion _).bind_ends ?_
    refine (takes_uint16 file.majorVersion _).bind_ends ?_
    rw [if_neg (by simp [h.version])]
    refine hagain.bind_ends ((takes_uint16 file.access _).bind_ends ?_)
    refine (Pool.takes_readClassIndex (hg.isClass h.thisClass) _ _).bind_ends ?_
    refine (takes_uint16 file.superClass _).bind_ends ?_
    rw [if_neg hsuper]
    refine (h.takes_interfaces hg hinterfaces _).bind_ends ?_
    refine (takes_listOf hfields (List.forall₂_same.mpr fun field hin part hpart =>
      Field.takes_read hpart (hfield field hin)) _).bind_ends ?_
    refine htakes.bind_ends ?_
    rw [← List.append_nil attributes]
    refine (RawAttribute.takes_listOf hattributes (fun raw hraw =>
      hg.isSome_utf8 (h.attributes raw hraw)) _).bind_ends ?_
    exact ends_finished (ends_pure _ _ _)
  obtain ⟨next, hread⟩ := hread
  exact ⟨_, Except.map_eq_ok.mpr ⟨_, hread, rfl⟩, hslots, rfl, hvalues⟩

end ClassFile

end ClassGraft

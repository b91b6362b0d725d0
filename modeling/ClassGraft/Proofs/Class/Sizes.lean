import ClassGraft.Patch.Validation
import ClassGraft.Proofs.Graft.Retention
import ClassGraft.Proofs.Pool.Numbering

/-!
# Classes that can be written

A class is written unless something in it is longer than the number in front of it can say
(`ClassFile.exists_serialize_iff`).  Of a class that was read, patched and refreshed, only what
patches can make longer has to be looked at (`ClassFile.exists_serialize_of_refresh`), and nothing of
that is looked at when the class is checked.
-/

namespace ClassGraft

/-! ### Lengths that can be stated -/

/-- A step that is made for each item of a list succeeds if it does for each. -/
theorem Except.exists_mapM_eq_ok {ε α β : Type} {f : α → Except ε β} {items : List α} :
    (∃ values, items.mapM f = .ok values) ↔ ∀ item ∈ items, ∃ value, f item = .ok value := by
  constructor
  · rintro ⟨values, h⟩ item hitem
    obtain ⟨value, -, hvalue⟩ := exists_of_mem_left (mapM_eq_ok.mp h) hitem
    exact ⟨value, hvalue⟩
  · intro h
    induction items with
    | nil => exact ⟨[], rfl⟩
    | cons item rest ih =>
      obtain ⟨⟨value, hvalue⟩, hrest⟩ := List.forall_mem_cons.mp h
      obtain ⟨values, hvalues⟩ := ih hrest
      exact ⟨value :: values, mapM_eq_ok.mpr (.cons hvalue (mapM_eq_ok.mp hvalues))⟩

theorem Bytes.exists_listOf {α : Type} {write : α → Except ClassFault Bytes} {items : List α} :
    (∃ bytes, listOf write items = .ok bytes) ↔
      items.length < 65536 ∧ ∀ item ∈ items, ∃ part, write item = .ok part := by
  simp only [listOf_eq_ok_iff, exists_and_left, exists_comm, exists_eq', and_true,
    ← Except.exists_mapM_eq_ok]

/-- What an attribute is written as, if it is short enough. -/
theorem RawAttribute.bytes_eq_ok_iff {raw : RawAttribute} {bytes : Bytes} :
    raw.bytes = .ok bytes ↔ raw.info.length < 4294967296 ∧
      Bytes.ofUInt16 raw.name ++ (Bytes.ofUInt32 (UInt32.ofNat raw.info.length) ++ raw.info) =
        bytes := by
  unfold RawAttribute.bytes Bytes.block
  dsimp only
  split_ifs with hlength
  · simp only [Except.bind_eq_ok, Except.ok.injEq, exists_eq_left', Except.pure_eq_ok, hlength,
      true_and]
  · simp only [Except.bind_eq_ok, reduceCtorEq, false_and, exists_false, hlength]

theorem RawAttribute.exists_bytes {raw : RawAttribute} :
    (∃ bytes, raw.bytes = .ok bytes) ↔ raw.info.length < 4294967296 := by
  simp only [bytes_eq_ok_iff, exists_and_left, exists_eq', and_true]

/-! ### Members -/

/-- Whether attributes are few and short enough to be written. -/
def RawAttribute.AreShort (attributes : List RawAttribute) : Prop :=
  attributes.length < 65536 ∧ ∀ raw ∈ attributes, raw.info.length < 4294967296

theorem RawAttribute.exists_listOf {attributes : List RawAttribute} :
    (∃ bytes, Bytes.listOf RawAttribute.bytes attributes = .ok bytes) ↔
      AreShort attributes := by
  rw [Bytes.exists_listOf]
  exact and_congr_right fun _ => forall₂_congr fun raw _ => exists_bytes

theorem Field.exists_bytes {field : Field} :
    (∃ bytes, field.bytes = .ok bytes) ↔ RawAttribute.AreShort field.attributes := by
  rw [← RawAttribute.exists_listOf]
  constructor
  · rintro ⟨bytes, h⟩
    obtain ⟨attributes, hattributes, -⟩ := Except.bind_eq_ok.mp h
    exact ⟨attributes, hattributes⟩
  · rintro ⟨attributes, hattributes⟩
    exact ⟨_, Except.bind_eq_ok.mpr ⟨attributes, hattributes, rfl⟩⟩

/-- Whether an attribute of a method can be written: a body needs bytes that are up to date. -/
def MethodAttribute.IsShort : MethodAttribute → Prop
  | .code body => ∃ info, body.encoded = some info ∧ info.length < 4294967296
  | .other raw => raw.info.length < 4294967296

theorem MethodAttribute.exists_bytes {method : String} {item : MethodAttribute} :
    (∃ bytes, item.bytes method = .ok bytes) ↔ item.IsShort := by
  cases item with
  | other raw => exact RawAttribute.exists_bytes
  | code body =>
    unfold MethodAttribute.bytes IsShort
    cases hencoded : body.encoded with
    | none => simp [hencoded]
    | some info =>
      simp only [hencoded, Option.some.injEq, exists_eq_left']
      exact RawAttribute.exists_bytes

theorem Method.exists_bytes {pool : Pool} {method : Method} :
    (∃ bytes, method.bytes pool = .ok bytes) ↔
      method.attributes.length < 65536 ∧ ∀ item ∈ method.attributes, item.IsShort := by
  have hlist : (∃ bytes, method.bytes pool = .ok bytes) ↔ ∃ attributes, Bytes.listOf
      (MethodAttribute.bytes (method.signature pool)) method.attributes = .ok attributes := by
    constructor
    · rintro ⟨bytes, h⟩
      obtain ⟨attributes, hattributes, -⟩ := Except.bind_eq_ok.mp h
      exact ⟨attributes, hattributes⟩
    · rintro ⟨attributes, hattributes⟩
      exact ⟨_, Except.bind_eq_ok.mpr ⟨attributes, hattributes, rfl⟩⟩
  rw [hlist, Bytes.exists_listOf]
  exact and_congr_right fun _ => forall₂_congr fun item _ => MethodAttribute.exists_bytes

/-! ### Constants -/

theorem Pool.mem_reduceOption {pool : Pool} {entry : Pool.Entry} :
    entry ∈ pool.slots.toList.reduceOption ↔ ∃ index, pool.get index = some entry := by
  rw [List.reduceOption_mem_iff]
  constructor
  · intro h
    obtain ⟨position, hat⟩ := List.mem_iff_getElem?.mp h
    have hlt := (List.getElem?_eq_some_iff.mp hat).1
    have hsize := pool.size_lt
    rw [Array.length_toList] at hlt
    rw [Array.getElem?_toList] at hat
    refine ⟨UInt16.ofNat (position + 1), ?_⟩
    rw [get_ofNat (by omega), hat]
    rfl
  · rintro ⟨index, h⟩
    obtain ⟨-, hat⟩ := get_eq_some.mp h
    rw [← Array.getElem?_toList] at hat
    exact List.mem_of_getElem? hat

/-- A pool is written unless a text is too long. -/
theorem Pool.exists_bytes {pool : Pool} : (∃ bytes, pool.bytes = .ok bytes) ↔
    ∀ index bytes, pool.utf8 index = some bytes → bytes.length < 65536 := by
  have hsizes : (∃ bytes, pool.bytes = .ok bytes) ↔
      pool.slots.toList.reduceOption.findSome? Entry.oversize? = none := by
    unfold Pool.bytes
    dsimp only
    cases pool.slots.toList.reduceOption.findSome? Entry.oversize? with
    | none => exact ⟨fun _ => rfl, fun _ => ⟨_, rfl⟩⟩
    | some length => simp
  rw [hsizes, List.findSome?_eq_none_iff]
  constructor
  · intro h index bytes hbytes
    have hentry := h _ (mem_reduceOption.mpr ⟨index, get_of_utf8 hbytes⟩)
    by_contra hlong
    simp [Entry.oversize?, hlong] at hentry
  · intro h entry hentry
    obtain ⟨index, hindex⟩ := mem_reduceOption.mp hentry
    cases entry with
    | utf8 bytes =>
      have hshort := h index bytes (by rw [utf8, hindex])
      simp [Entry.oversize?, hshort]
    | _ => rfl

/-! ### Classes -/

namespace ClassFile

/-- Whether the parts of a class can be written that patches leave alone. -/
structure IsShort (file : ClassFile) : Prop where
  interfaces : file.interfaces.length < 65536
  fields : ∀ field ∈ file.fields, RawAttribute.AreShort field.attributes
  others : ∀ method ∈ file.methods, ∀ raw, .other raw ∈ method.attributes →
    raw.info.length < 4294967296
  attributes : RawAttribute.AreShort file.attributes

/-- Whether nothing that patches can make longer is too long to be written: texts, lists of members
and of their attributes, and the bytes of bodies. -/
structure Fits (file : ClassFile) : Prop where
  texts : ∀ index bytes, file.pool.utf8 index = some bytes → bytes.length < 65536
  fields : file.fields.length < 65536
  methods : file.methods.length < 65536
  attributes : ∀ method ∈ file.methods, method.attributes.length < 65536
  bodies : ∀ method ∈ file.methods, ∀ body info, .code body ∈ method.attributes →
    body.encoded = some info → info.length < 4294967296

/-- Whether all bodies have bytes that are up to date. -/
def IsEncoded (file : ClassFile) : Prop :=
  ∀ method ∈ file.methods, ∀ body, .code body ∈ method.attributes →
    ∃ info, body.encoded = some info

variable {file : ClassFile}

/-- What is written for a class is what is written for its parts, one after the other. -/
theorem serialize_eq_ok {written : Bytes} : file.serialize = .ok written ↔
    ∃ pool interfaces fields methods attributes, file.pool.bytes = .ok pool ∧
      Bytes.tableOf (fun index => [index]) file.interfaces = .ok interfaces ∧
      Bytes.listOf Field.bytes file.fields = .ok fields ∧
      Bytes.listOf (Method.bytes file.pool) file.methods = .ok methods ∧
      Bytes.listOf RawAttribute.bytes file.attributes = .ok attributes ∧
      Bytes.ofUInt32 magic ++ Bytes.ofUInt16 file.minorVersion ++
        Bytes.ofUInt16 file.majorVersion ++ pool ++ Bytes.ofUInt16 file.access ++
        Bytes.ofUInt16 file.thisClass ++ Bytes.ofUInt16 file.superClass ++ interfaces ++ fields ++
        methods ++ attributes = written := by
  unfold serialize
  simp only [Except.bind_eq_ok, Except.pure_eq_ok, exists_and_left]

/-- A class can be written if and only if each of its parts can. -/
theorem exists_serialize_iff_parts : (∃ bytes, file.serialize = .ok bytes) ↔
    (∃ part, file.pool.bytes = .ok part) ∧
    (∃ part, Bytes.tableOf (fun index => [index]) file.interfaces = .ok part) ∧
    (∃ part, Bytes.listOf Field.bytes file.fields = .ok part) ∧
    (∃ part, Bytes.listOf (Method.bytes file.pool) file.methods = .ok part) ∧
    ∃ part, Bytes.listOf RawAttribute.bytes file.attributes = .ok part := by
  constructor
  · rintro ⟨bytes, h⟩
    obtain ⟨pool, interfaces, fields, methods, attributes, hpool, hinterfaces, hfields, hmethods,
      hattributes, -⟩ := serialize_eq_ok.mp h
    exact ⟨⟨pool, hpool⟩, ⟨interfaces, hinterfaces⟩, ⟨fields, hfields⟩, ⟨methods, hmethods⟩,
      ⟨attributes, hattributes⟩⟩
  · rintro ⟨⟨pool, hpool⟩, ⟨interfaces, hinterfaces⟩, ⟨fields, hfields⟩, ⟨methods, hmethods⟩,
      ⟨attributes, hattributes⟩⟩
    exact ⟨_, serialize_eq_ok.mpr ⟨pool, interfaces, fields, methods, attributes, hpool,
      hinterfaces, hfields, hmethods, hattributes, rfl⟩⟩

/-- A class can be written if and only if its parts are short and its bodies up to date. -/
theorem exists_serialize_iff :
    (∃ bytes, file.serialize = .ok bytes) ↔ file.IsShort ∧ file.Fits ∧ file.IsEncoded := by
  have hinterfaces : (∃ part, Bytes.tableOf (fun index => [index]) file.interfaces = .ok part) ↔
      file.interfaces.length < 65536 := by
    unfold Bytes.tableOf
    rw [Bytes.exists_listOf]
    exact and_iff_left fun index _ => ⟨_, rfl⟩
  rw [exists_serialize_iff_parts, Pool.exists_bytes, hinterfaces, Bytes.exists_listOf,
    Bytes.exists_listOf, RawAttribute.exists_listOf]
  -- What the parts ask for is regrouped: lengths, sizes and bodies are apart on the other side.
  constructor
  · rintro ⟨htexts, hlength, ⟨hfields, hfield⟩, ⟨hmethods, hmethod⟩, hattributes⟩
    have hall : ∀ method ∈ file.methods, ∀ item ∈ method.attributes, item.IsShort :=
      fun method hin => (Method.exists_bytes.mp (hmethod method hin)).2
    refine ⟨⟨hlength, fun field hin => Field.exists_bytes.mp (hfield field hin),
      fun method hin raw hraw => hall method hin _ hraw, hattributes⟩,
      ⟨htexts, hfields, hmethods, fun method hin => (Method.exists_bytes.mp (hmethod method hin)).1,
        fun method hin body info hb hinfo => ?_⟩, fun method hin body hb => ?_⟩
    · obtain ⟨found, hfound, hshort⟩ := hall method hin _ hb
      obtain rfl := Option.some.inj (hfound.symm.trans hinfo)
      exact hshort
    · obtain ⟨info, hinfo, -⟩ := hall method hin _ hb
      exact ⟨info, hinfo⟩
  · rintro ⟨hshort, hfits, hencoded⟩
    refine ⟨hfits.texts, hshort.interfaces,
      ⟨hfits.fields, fun field hin => Field.exists_bytes.mpr (hshort.fields field hin)⟩,
      ⟨hfits.methods, fun method hin => Method.exists_bytes.mpr
        ⟨hfits.attributes method hin, fun item hitem => ?_⟩⟩, hshort.attributes⟩
    cases item with
    | other raw => exact hshort.others method hin raw hitem
    | code body =>
      obtain ⟨info, hinfo⟩ := hencoded method hin body hitem
      exact ⟨info, hinfo, hfits.bodies method hin body info hitem hinfo⟩

/-- What is short in a class that was read stays so in what retains it. -/
theorem Retains.isShort {origin : ClassFile} (h : origin.Retains file) (ho : origin.IsShort) :
    file.IsShort := by
  have hinterfaces : file.interfaces = origin.interfaces := by rw [h.same]
  have hattributes : file.attributes = origin.attributes := by rw [h.same]
  refine ⟨hinterfaces ▸ ho.interfaces, fun field hin => ?_, fun method hin raw hraw => ?_,
    hattributes ▸ ho.attributes⟩
  · rcases (h.fields field hin).attributes with hnone | ⟨old, hold, hsame⟩
    · rw [hnone]
      exact ⟨by decide, by simp⟩
    · rw [hsame]
      exact ho.fields old hold
  · obtain ⟨old, hold, hold'⟩ := (h.methods method hin).others raw hraw
    exact ho.others old hold raw hold'

/-- A class that was read, patched and refreshed is written unless patches made some text, list or
body too long. -/
theorem exists_serialize_of_refresh {bytes : Bytes} {later : ClassFile} {hierarchy : Hierarchy}
    {count : Nat} (hp : parse bytes = .ok file) (patches : List Patch)
    (hr : refresh hierarchy (file.applyPatches patches).1 = (.ok count, later)) :
    (∃ written, later.serialize = .ok written) ↔ later.Fits := by
  have hgrafted : file.Grafted (fun _ => True) (file.applyPatches patches).1 :=
    file.grafted_applyPatches fun _ _ _ _ _ _ => trivial
  have hretains := hgrafted.retains (isParsed_of_parse hp)
  have hshort := (exists_serialize_iff.mp ⟨bytes, serialize_of_parse hp⟩).1
  rw [exists_serialize_iff]
  constructor
  · exact fun h => h.2.1
  · intro hfits
    exact ⟨(hretains.refresh hr).isShort hshort, hfits, encoded_of_refresh hretains hr⟩

end ClassFile

/-! ### A field with a long name -/

namespace Naming

/-- A field of any name. -/
def naming (name : String) : Patch := ⟨"naming", "A", none, 0, [.addField [] ⟨name, "I"⟩ false]⟩

/-- A name of a number of letters. -/
def letters (count : Nat) : String := String.ofList (List.replicate count 'x')

theorem length_encode_letters (count : Nat) :
    (ModifiedUtf8.encode (letters count)).length = count := by
  have hletter : ModifiedUtf8.encodeChar 'x' = [0x78] := by decide
  rw [ModifiedUtf8.encode, letters, String.toList_ofList, List.length_flatMap, List.map_replicate,
    hletter, List.sum_replicate_nat, List.length_singleton, Nat.mul_one]

/-- What is known of the class that is used here. -/
theorem exists_parse : ∃ file, ClassFile.parse ClassFile.repetitive = .ok file ∧
    file.fields = [] ∧ file.methods = [] ∧ file.interfaces = [] ∧ file.superClass = 0 ∧
    file.pool.slots.size = 3 ∧ file.pool.get file.thisClass = some (.named .classRef 1) ∧
    file.pool.utf8 1 = some [0x41] := by
  have hparts : ((ClassFile.parse ClassFile.repetitive).toOption.any fun file =>
      file.fields == [] && file.methods == [] && file.interfaces == [] && file.superClass == 0 &&
        file.pool.slots.size == 3 &&
        file.pool.get file.thisClass == some (.named .classRef 1) &&
        file.pool.utf8 1 == some [0x41]) = true := by decide +kernel
  obtain ⟨file, hparse, hfile⟩ := Except.exists_of_any hparts
  refine ⟨file, hparse, ?_⟩
  simpa [and_assoc] using hfile

/-- A class with one field, and a pool for its name and its descriptor. -/
def withField (file : ClassFile) (pool : Pool) (name descriptor : UInt16) : ClassFile :=
  { file with pool := pool, fields := [⟨0, name, descriptor, []⟩] }

theorem applyPatches_naming {file : ClassFile} (hfields : file.fields = []) {name : String}
    {nameIndex descriptorIndex : UInt16} {between pool : Pool}
    (hname : file.pool.add (.utf8 (ModifiedUtf8.encode name)) = (.ok nameIndex, between))
    (hdescriptor : between.add (.utf8 (ModifiedUtf8.encode "I")) = (.ok descriptorIndex, pool)) :
    (file.applyPatches [naming name]).1 = withField file pool nameIndex descriptorIndex := by
  let later := withField file pool nameIndex descriptorIndex
  have hadd : Grafting.addField (.addField [] ⟨name, "I"⟩ false) [] ⟨name, "I"⟩ false
      (Graft.start file) = (.ok (.applied (.done (.addField [] ⟨name, "I"⟩ false))),
        ⟨later, ∅⟩) := by
    refine ExceptT.bind_eq_ok.mpr ⟨_, _, ExceptT.get_eq_ok.mpr ⟨rfl, rfl⟩, ?_⟩
    have hnone : file.fieldIndex? name "I" = none := by
      rw [ClassFile.fieldIndex?, hfields]
      rfl
    simp only [Graft.start, hnone]
    refine ExceptT.bind_eq_ok.mpr ⟨0, _, Grafting.change_eq_ok.mpr ⟨later, ?_, rfl⟩, rfl⟩
    -- the name and the descriptor are interned one after the other
    refine ExceptT.bind_eq_ok.mpr ⟨nameIndex, _, Changing.intern_eq_ok.mpr ⟨_, hname, rfl⟩, ?_⟩
    refine ExceptT.bind_eq_ok.mpr
      ⟨descriptorIndex, _, Changing.intern_eq_ok.mpr ⟨_, hdescriptor, rfl⟩, ?_⟩
    refine ExceptT.bind_eq_ok.mpr ⟨_, _, ExceptT.get_eq_ok.mpr ⟨rfl, rfl⟩, ?_⟩
    simp only [hfields]
    rfl
  have hrun : ((naming name).edits.mapM (Grafting.apply (naming name))).run (Graft.start file) =
      (.ok [.applied (.done (.addField [] ⟨name, "I"⟩ false))], ⟨later, ∅⟩) :=
    ExceptT.bind_eq_ok.mpr ⟨_, _, hadd, rfl⟩
  show (Graft.applyPatch (Graft.start file) (naming name)).1.file = later
  rw [Graft.applyPatch, hrun]

/-- A class with a field and nothing else to look at is accepted if its names are there. -/
theorem verify_withField {file : ClassFile} (hmethods : file.methods = [])
    (hinterfaces : file.interfaces = []) (hsuper : file.superClass = 0) {pool : Pool}
    {name descriptor : UInt16} {thisClass text : Bytes}
    (hthis : pool.isClass file.thisClass = true)
    (hclass : pool.className file.thisClass = some thisClass)
    (hname : pool.utf8 name = some text)
    (hdescriptor : pool.utf8 descriptor = some (ModifiedUtf8.encode "I")) :
    (withField file pool name descriptor).verify .unknown = .ok () := by
  have hflaw : (withField file pool name descriptor).classFlaw? = none := by
    simp [ClassFile.classFlaw?, withField, hthis, hsuper, hinterfaces]
  have hfield : Field.referenceRefusal? pool ⟨0, name, descriptor, []⟩ = none := by
    have hvalid : (Descriptor.field? (ModifiedUtf8.encode "I")).isNone = false := by decide
    simp [Field.referenceRefusal?, hdescriptor, hname, hvalid]
  have hreference : (withField file pool name descriptor).referenceRefusal? = none := by
    unfold ClassFile.referenceRefusal?
    rw [hflaw]
    simp [withField, hfield, hmethods]
  have hduplicate : (withField file pool name descriptor).duplicateRefusal? = none := by
    simp [ClassFile.duplicateRefusal?, firstRepeated?, firstRepeated?.go, withField, hmethods]
  have hnamed : (withField file pool name descriptor).name? = some thisClass := hclass
  have hbodies : (withField file pool name descriptor).methods = [] := hmethods
  unfold ClassFile.verify ClassFile.refusal?
  simp only [hreference, hnamed, hbodies, hduplicate]
  rfl

/-- The class with a field added is refreshed and checked, whatever the name of the field is. -/
theorem exists_run (name : String) : ∃ file later,
    ClassFile.parse ClassFile.repetitive = .ok file ∧
    ClassFile.refresh .unknown (file.applyPatches [naming name]).1 = (.ok 0, later) ∧
    later.verify .unknown = .ok () ∧
    ∃ index, later.pool.utf8 index = some (ModifiedUtf8.encode name) := by
  obtain ⟨file, hparse, hfields, hmethods, hinterfaces, hsuper, hsize, hthis, htext⟩ := exists_parse
  have hwidth : ∀ bytes, (Pool.Entry.utf8 bytes).width = 1 := fun _ => rfl
  -- three slots are taken, so there is room for two more
  obtain ⟨nameIndex, between, hname, hbetween⟩ :=
    @Pool.exists_add file.pool (.utf8 (ModifiedUtf8.encode name)) (by rw [hsize, hwidth]; decide)
  rw [hsize, hwidth] at hbetween
  obtain ⟨descriptorIndex, pool, hdescriptor, -⟩ :=
    @Pool.exists_add between (.utf8 (ModifiedUtf8.encode "I")) (by rw [hwidth]; omega)
  obtain ⟨hx, hn⟩ := Interning.utf8Bytes_spec hname
  obtain ⟨hx', hd⟩ := Interning.utf8Bytes_spec hdescriptor
  have hg := hx.grows.trans hx'.grows
  have happly := applyPatches_naming hfields hname hdescriptor
  have hclass : pool.className file.thisClass = some [0x41] := by
    rw [Pool.className, hg _ _ hthis]
    exact hg.utf8 htext
  have hisClass : pool.isClass file.thisClass = true := by
    rw [Pool.isClass, hg _ _ hthis]
  refine ⟨file, withField file pool nameIndex descriptorIndex, hparse, ?_,
    verify_withField hmethods hinterfaces hsuper hisClass hclass (hx'.grows.utf8 hn) hd,
    nameIndex, hx'.grows.utf8 hn⟩
  rw [happly]
  unfold ClassFile.refresh
  refine ExceptT.bind_eq_ok.mpr ⟨withField file pool nameIndex descriptorIndex, _, rfl, ?_⟩
  have hnamed : (withField file pool nameIndex descriptorIndex).name? = some [0x41] := hclass
  have hnone : (withField file pool nameIndex descriptorIndex).methods = [] := hmethods
  simp only [hnamed, hnone]
  rfl

/-- A class with a field that has a short name is written if and only if it fits. -/
theorem exists_serialize_of_refresh_naming : ∃ file later,
    ClassFile.parse ClassFile.repetitive = .ok file ∧
    ClassFile.refresh .unknown (file.applyPatches [naming "x"]).1 = (.ok 0, later) ∧
    ((∃ written, later.serialize = .ok written) ↔ later.Fits) := by
  obtain ⟨file, later, hparse, hrefresh, -, -⟩ := exists_run "x"
  exact ⟨file, later, hparse, hrefresh,
    ClassFile.exists_serialize_of_refresh hparse [naming "x"] hrefresh⟩

theorem flaw?_naming (name : String) : (naming name).flaw? = none := by
  have hclass : ("A".isEmpty || "A".contains '.') = false := by simp
  have hfield : isFieldDescriptor "I" = true := by decide +kernel
  unfold Patch.flaw?
  rw [show (naming name).className = "A" from rfl, hclass]
  simp [naming, Patch.flawOf?, Edit.needsMethod, Edit.flaw?, hfield]

/-- A class that was checked need not be written. -/
theorem not_serialize_of_verify : ∃ file later,
    ClassFile.parse ClassFile.repetitive = .ok file ∧
    (naming (letters 65536)).flaw? = none ∧
    ClassFile.refresh .unknown (file.applyPatches [naming (letters 65536)]).1 = (.ok 0, later) ∧
    later.verify .unknown = .ok () ∧ ∀ written, later.serialize ≠ .ok written := by
  obtain ⟨file, later, hparse, hrefresh, hverify, index, hindex⟩ := exists_run (letters 65536)
  refine ⟨file, later, hparse, flaw?_naming _, hrefresh, hverify, fun written hwritten => ?_⟩
  have hfits := (ClassFile.exists_serialize_iff.mp ⟨written, hwritten⟩).2.1
  have hshort := hfits.texts index _ hindex
  rw [length_encode_letters] at hshort
  exact absurd hshort (by decide)

end Naming

end ClassGraft

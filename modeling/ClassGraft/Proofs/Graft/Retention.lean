import ClassGraft.Proofs.Class.Parsed
import ClassGraft.Proofs.Class.Refreshing
import ClassGraft.Proofs.Graft.Grafted

/-!
# What remains of a class that was read

Patches and refreshing leave most of a class as it was read (`ClassFile.Retains`): fields and
methods have names that are texts, what they have besides bodies was read with the class, and no
method has two bodies.  A class that was refreshed has the bytes of every body
(`ClassFile.encoded_of_refresh`).
-/

namespace ClassGraft

/-- Whether a method has a body at most. -/
def Method.HasOneBody (method : Method) : Prop :=
  (method.attributes.filter (·.body?.isSome)).length ≤ 1

/-- Whether a field has names that are texts, and no attributes but those of a field that was
read. -/
structure Field.Retains (origin : ClassFile) (pool : Pool) (field : Field) : Prop where
  name : (pool.utf8 field.name).isSome
  descriptor : (pool.utf8 field.descriptor).isSome
  attributes : field.attributes = [] ∨ ∃ old ∈ origin.fields, field.attributes = old.attributes

/-- Whether a method has names that are texts, and nothing but a body that was not read with one. -/
structure Method.Retains (origin : ClassFile) (pool : Pool) (method : Method) : Prop where
  name : (pool.utf8 method.name).isSome
  descriptor : (pool.utf8 method.descriptor).isSome
  one : method.HasOneBody
  others : ∀ raw, .other raw ∈ method.attributes →
    ∃ old ∈ origin.methods, .other raw ∈ old.attributes

/-- Whether a class is one that was read with more constants, and with other fields and methods that
were read with it or added. -/
structure ClassFile.Retains (origin file : ClassFile) : Prop where
  pool : origin.pool.Extends file.pool
  same : file = { origin with pool := file.pool, fields := file.fields, methods := file.methods }
  fields : ∀ field ∈ file.fields, field.Retains origin file.pool
  methods : ∀ method ∈ file.methods, method.Retains origin file.pool

variable {origin file : ClassFile} {used : Template → Prop}

/-! ### Methods -/

theorem Field.Retains.grow {pool later : Pool} {field : Field} (h : field.Retains origin pool)
    (hg : pool.Grows later) : field.Retains origin later :=
  ⟨hg.isSome_utf8 h.name, hg.isSome_utf8 h.descriptor, h.attributes⟩

namespace Method

variable {method : Method}

theorem Retains.grow {pool later : Pool} (h : method.Retains origin pool) (hg : pool.Grows later) :
    method.Retains origin later :=
  ⟨hg.isSome_utf8 h.name, hg.isSome_utf8 h.descriptor, h.one, h.others⟩

/-- A body that is set takes the place of the first, or is one more. -/
theorem length_filter_setBody (body : Body) (attributes : List MethodAttribute) :
    ((MethodAttribute.setBody body attributes).filter (·.body?.isSome)).length =
      max 1 (attributes.filter (·.body?.isSome)).length := by
  induction attributes using MethodAttribute.setBody.induct with
  | case1 => rfl
  | case2 other rest =>
    rw [MethodAttribute.setBody, List.filter_cons_of_pos (by rfl),
      List.filter_cons_of_pos (by rfl), List.length_cons, List.length_cons]
    omega
  | case3 raw rest ih =>
    rw [MethodAttribute.setBody, List.filter_cons_of_neg (by simp [MethodAttribute.body?]),
      List.filter_cons_of_neg (by simp [MethodAttribute.body?]), ih]

theorem hasOneBody_withBody (h : method.HasOneBody) (body : Body) :
    (method.withBody body).HasOneBody := by
  show ((MethodAttribute.setBody body method.attributes).filter (·.body?.isSome)).length ≤ 1
  rw [length_filter_setBody]
  exact Nat.max_le.mpr ⟨Nat.le_refl 1, h⟩

theorem hasOneBody_withoutBody : method.withoutBody.HasOneBody := by
  have hnone : method.withoutBody.attributes.filter (·.body?.isSome) = [] := by
    refine List.filter_eq_nil_iff.mpr fun item hitem => ?_
    have hbare := (List.mem_filter.mp hitem).2
    simp [Option.isNone_iff_eq_none.mp hbare]
  rw [HasOneBody, hnone]
  exact Nat.zero_le 1

theorem hasOneBody_overwritten (access : UInt16) (body : Option Body) :
    (method.overwritten access body).HasOneBody := by
  cases body with
  | none => exact method.hasOneBody_withoutBody
  | some made => exact hasOneBody_withBody method.hasOneBody_withoutBody made

/-- The body that a method has is the one that is found. -/
theorem body?_of_mem (h : method.HasOneBody) {body : Body} (hb : .code body ∈ method.attributes) :
    method.body? = some body := by
  obtain ⟨before, after, hsplit⟩ := List.append_of_mem hb
  unfold HasOneBody at h
  rw [hsplit, List.filter_append, List.filter_cons_of_pos (by rfl), List.length_append,
    List.length_cons] at h
  have hbefore : before.filter (·.body?.isSome) = [] := List.length_eq_zero_iff.mp (by omega)
  have hnone : before.findSome? MethodAttribute.body? = none := by
    refine List.findSome?_eq_none_iff.mpr fun item hitem => ?_
    simpa using List.filter_eq_nil_iff.mp hbefore item hitem
  rw [Method.body?, hsplit, List.findSome?_append, hnone]
  rfl

theorem Retains.withBody {pool : Pool} (h : method.Retains origin pool) (body : Body) :
    (method.withBody body).Retains origin pool := by
  refine ⟨h.name, h.descriptor, hasOneBody_withBody h.one body, fun raw hraw => ?_⟩
  rcases MethodAttribute.mem_setBody hraw with he | hraw
  · nomatch he
  · exact h.others raw hraw

theorem Retains.overwritten {pool : Pool} (h : method.Retains origin pool) (access : UInt16)
    (body : Option Body) : (method.overwritten access body).Retains origin pool := by
  obtain ⟨hname, hdescriptor⟩ := @Method.names_overwritten access body method
  refine ⟨hname ▸ h.name, hdescriptor ▸ h.descriptor, hasOneBody_overwritten access body,
    fun raw hraw => ?_⟩
  rcases mem_overwritten hraw with ⟨made, -, he⟩ | ⟨hraw, -⟩
  · nomatch he
  · exact h.others raw hraw

/-- What is no body still has a name that says so. -/
theorem Retains.name_of_other {pool : Pool} (h : method.Retains origin pool)
    (ho : origin.IsParsed) (hg : origin.pool.Grows pool) {raw : RawAttribute}
    (hraw : .other raw ∈ method.attributes) :
    (pool.utf8 raw.name).isSome ∧ pool.utf8Is raw.name "Code" = false := by
  obtain ⟨old, hold, hmem⟩ := h.others raw hraw
  obtain ⟨hsome, hnot⟩ := (ho.methods old hold).attributes _ hmem
  exact ⟨hg.isSome_utf8 hsome, (hg.utf8Is_eq hsome "Code").trans hnot⟩

end Method

namespace ClassFile

/-! ### Patches -/

/-- A class that was read retains itself. -/
theorem IsParsed.retains (h : origin.IsParsed) : origin.Retains origin :=
  ⟨.refl _, rfl,
    fun field hfield => ⟨(h.fields field hfield).name, (h.fields field hfield).descriptor,
      .inr ⟨field, hfield, rfl⟩⟩,
    fun method hmethod => ⟨(h.methods method hmethod).name, (h.methods method hmethod).descriptor,
      (h.methods method hmethod).one, fun _ hraw => ⟨method, hmethod, hraw⟩⟩⟩

/-- More constants do no harm. -/
theorem Retains.constants (h : origin.Retains file) {pool : Pool} (hp : file.pool.Extends pool) :
    origin.Retains { file with pool := pool } := by
  refine ⟨h.pool.trans hp, ?_, fun field hfield => (h.fields field hfield).grow hp.grows,
    fun method hmethod => (h.methods method hmethod).grow hp.grows⟩
  rw [h.same]

/-- Each method may be changed, if it retains what it has. -/
theorem Retains.modifyMethod (h : origin.Retains file) (index : Nat) {change : Method → Method}
    (hc : ∀ method : Method, method.Retains origin file.pool →
      (change method).Retains origin file.pool) : origin.Retains (file.modifyMethod index change) := by
  refine ⟨h.pool, ?_, h.fields, fun method hmethod => ?_⟩
  · rw [h.same]
    rfl
  · rcases exists_of_mem_modify hmethod with hin | ⟨old, hold, rfl⟩
    · exact h.methods method hin
    · exact hc old (h.methods old hold)

/-- Edits of a class that was read retain it. -/
theorem Grafted.retains (ho : origin.IsParsed) (h : origin.Grafted used file) :
    origin.Retains file := by
  induction h with
  | read => exact ho.retains
  | constants h hp ih => exact ih.constants hp
  | fieldAccess h position access ih =>
    refine ⟨ih.pool, ?_, fun field hfield => ?_, ih.methods⟩
    · rw [ih.same]
    · rcases exists_of_mem_modify hfield with hin | ⟨old, hold, rfl⟩
      · exact ih.fields field hin
      · exact ⟨(ih.fields old hold).name, (ih.fields old hold).descriptor,
          (ih.fields old hold).attributes⟩
  | field h hn hd access ih =>
    refine ⟨ih.pool, ?_, fun field hfield => ?_, ih.methods⟩
    · rw [ih.same]
    · rcases List.mem_append.mp hfield with hin | hin
      · exact ih.fields field hin
      · obtain rfl := List.mem_singleton.mp hin
        exact ⟨hn, hd, .inl rfl⟩
  | @method file name descriptor body h hn hd hb access ih =>
    refine ⟨ih.pool, ?_, ih.fields, fun method hmethod => ?_⟩
    · rw [ih.same]
    · rcases List.mem_append.mp hmethod with hin | hin
      · exact ih.methods method hin
      · obtain rfl := List.mem_singleton.mp hin
        refine ⟨hn, hd, ?_, fun raw hraw => ?_⟩
        · refine Nat.le_trans (List.length_filter_le _ _) ?_
          cases body <;> simp
        · obtain ⟨made, -, he⟩ := List.mem_map.mp hraw
          nomatch he
  | overwrite h hb index access ih =>
    exact ih.modifyMethod index fun method hm => hm.overwritten access _
  | access h index change ih =>
    exact ih.modifyMethod index fun method hm => ⟨hm.name, hm.descriptor, hm.one, hm.others⟩
  | body h hb index ih => exact ih.modifyMethod index fun method hm => hm.withBody _

/-! ### Refreshing -/

variable {file' : ClassFile} {hierarchy : Hierarchy}

/-- A method of a class that was refreshed is as it was, or has its body refreshed. -/
theorem IsRefreshed.mem {thisClass : Bytes}
    (h : file.IsRefreshed thisClass hierarchy (fun _ => True) file') {method' : Method}
    (hm : method' ∈ file'.methods) :
    method' ∈ file.methods ∧ method'.isStale = false ∨ ∃ method ∈ file.methods,
      method.IsRefreshed file.majorVersion thisClass hierarchy file.pool file'.pool method' := by
  obtain ⟨index, hindex⟩ := List.mem_iff_getElem?.mp hm
  by_cases hs : file.isStale index = true
  · obtain ⟨method, other, hmethod, hother, hrefreshed⟩ := h.stale index trivial hs
    obtain rfl := Option.some.inj (hindex.symm.trans hother)
    exact .inr ⟨method, List.mem_of_getElem? hmethod, hrefreshed⟩
  · have hsame := h.same index fun hn => hs hn.2
    rw [hindex] at hsame
    refine .inl ⟨List.mem_of_getElem? hsame.symm, ?_⟩
    unfold ClassFile.isStale at hs
    rw [← hsame] at hs
    exact Bool.not_eq_true _ ▸ hs

/-- A body of a class that was refreshed was there with its bytes, or is what one without bytes
became. -/
theorem IsRefreshed.mem_code {thisClass : Bytes}
    (h : file.IsRefreshed thisClass hierarchy (fun _ => True) file') {method' : Method}
    (hm : method' ∈ file'.methods) (ho : method'.HasOneBody) {body' : Body}
    (hb : .code body' ∈ method'.attributes) :
    (∃ info, body'.encoded = some info) ∧ (∃ method ∈ file.methods, .code body' ∈ method.attributes) ∨
      ∃ method ∈ file.methods, ∃ body head before after, .code body ∈ method.attributes ∧
        body.encoded = none ∧ file.pool.Grows before ∧ after.Grows file'.pool ∧
        body.IsRefreshed file.majorVersion head hierarchy before after body' := by
  have hbody := Method.body?_of_mem ho hb
  rcases h.mem hm with ⟨hin, hs⟩ | ⟨method, hin, body, head, made, before, after, hbefore, hafter,
    hold, hnone, -, hrefreshed, rfl⟩
  · rw [Method.isStale, hbody] at hs
    exact .inl ⟨Option.ne_none_iff_exists'.mp fun hnone => by simp [hnone] at hs, method', hin, hb⟩
  · rw [Method.body?_withBody] at hbody
    obtain rfl := Option.some.inj hbody
    exact .inr ⟨method, hin, body, head, before, after, Method.mem_of_body? hold, hnone, hbefore,
      hafter, hrefreshed⟩

/-- Refreshing retains what edits do. -/
theorem Retains.refresh (h : origin.Retains file) {count : Nat}
    (hr : ClassFile.refresh hierarchy file = (.ok count, file')) : origin.Retains file' := by
  obtain ⟨thisClass, -, hrefreshed⟩ := isRefreshed_refresh hr
  have hfields : file'.fields = file.fields := by rw [hrefreshed.others]
  refine ⟨h.pool.trans hrefreshed.grown, ?_, fun field hfield => ?_, fun method hmethod => ?_⟩
  · rw [hrefreshed.others, h.same]
  · rw [hfields] at hfield
    exact (h.fields field hfield).grow hrefreshed.grown.grows
  · rcases hrefreshed.mem hmethod with ⟨hin, -⟩ | ⟨old, hold, body, head, body', before, after, -,
      -, -, -, -, -, rfl⟩
    · exact (h.methods method hin).grow hrefreshed.grown.grows
    · exact ((h.methods old hold).grow hrefreshed.grown.grows).withBody body'

/-- After refreshing all bodies have bytes. -/
theorem encoded_of_refresh {count : Nat} (h : origin.Retains file)
    (hr : ClassFile.refresh hierarchy file = (.ok count, file')) :
    ∀ method ∈ file'.methods, ∀ body, .code body ∈ method.attributes →
      ∃ info, body.encoded = some info := by
  obtain ⟨thisClass, -, hrefreshed⟩ := isRefreshed_refresh hr
  intro method hmethod body hb
  rcases hrefreshed.mem_code hmethod ((h.refresh hr).methods method hmethod).one hb with
    ⟨hencoded, -⟩ | ⟨old, -, stale, head, before, after, -, -, -, -, hlive⟩
  · exact hencoded
  · obtain ⟨analysis, layout, table, encoded, -, -, -, -, rfl⟩ := hlive
    exact ⟨encoded, rfl⟩

end ClassFile

end ClassGraft

import ClassGraft.Proofs.Graft.Legibility
import ClassGraft.Proofs.Graft.Remainder

/-!
# What patches leave as it was

A class that was read, patched, refreshed and written is read again as one that agrees with it on
all that no edit is about (`ClassFile.agrees_of_refresh`).  Its constants stay at their indices and
its members at their places; a body that no edit is about was read with its bytes, so it is not
refreshed and they stay.  What was written decides what is read, but for what bodies are decoded to
(`ClassFile.IsPacked.eq_of_serialize`).
-/

namespace ClassGraft

/-- Whether a class agrees with another one on all that turns are not about: its version, its flags,
its names, its interfaces and its attributes are the same, new constants come after the old ones, and
each field and method is at its place with what remains of it.  A method that no turn is about has
all its attributes with the same bytes. -/
structure ClassFile.Agrees (origin : ClassFile) (turns : List Turn) (again : ClassFile) : Prop where
  others : again =
    { origin with pool := again.pool, fields := again.fields, methods := again.methods }
  pool : origin.pool.slots.toList <+: again.pool.slots.toList
  fields : ∀ (index : Nat) field, origin.fields[index]? = some field →
    ∃ field', again.fields[index]? = some field' ∧ field.Remains turns index field'
  methods : ∀ (index : Nat) method, origin.methods[index]? = some method →
    ∃ method', again.methods[index]? = some method' ∧ method.Remains turns index method' ∧
      ((∀ turn ∈ turns, turn.touches index = false) → method'.packed = method.packed)

variable {origin file later again : ClassFile} {used : Template → Prop} {hierarchy : Hierarchy}
  {turns : List Turn} {last : Graft} {index : Nat}

/-! ### Bodies after refreshing -/

/-- Bodies are attributes of the name that says so. -/
theorem Body.Grafted.utf8Is_name {pool : Pool} {body : Body} (h : body.Grafted origin used pool)
    (ho : origin.IsParsed) : pool.utf8Is body.name "Code" = true := by
  have hgrow : ∀ {pool later : Pool} {name : UInt16}, pool.utf8Is name "Code" = true →
      pool.Extends later → later.utf8Is name "Code" = true := fun hname hp =>
    (hp.grows.utf8Is_eq (Pool.isSome_of_utf8Is hname) "Code").trans hname
  induction h with
  | read hm hb => exact ((ho.methods _ hm).attributes _ hb).1
  | new hn => exact Pool.utf8Is_of_encode hn
  | constants h hp ih => exact hgrow ih hp
  | marks h hn ih => exact ih
  | settle h he ih => exact ih
  | replace h hc hs ih => exact hgrow ih (Template.steps_spec hs).1
  | insert h hc hs index ih => exact hgrow ih (Template.steps_spec hs).1
  | insertBefore h hc hs ha ih => exact hgrow ih (Template.steps_spec hs).1
  | redirect h hs ih => exact ih

theorem Body.IsRefreshed.name_eq {majorVersion : UInt16} {head : MethodHead} {pool pool' : Pool}
    {body body' : Body} (h : body.IsRefreshed majorVersion head hierarchy pool pool' body') :
    body'.name = body.name := by
  obtain ⟨analysis, layout, table, encoded, -, -, -, -, rfl⟩ := h
  exact (body.attributes_live analysis).2.1

/-- A body that was read has its bytes. -/
theorem Method.IsParsed.isStale_eq_false {pool : Pool} {method : Method}
    (h : method.IsParsed pool) : method.isStale = false := by
  refine (Option.any_eq_false _ _).mpr fun body hbody => ?_
  obtain ⟨-, cursor, next, hread⟩ := h.attributes _ (Method.mem_of_body? hbody)
  simp [(Body.encoded_of_read hread).2]

/-- A method that is packed like another one is read as what remains of that one. -/
theorem Method.Remains.of_packed {method between method' : Method}
    (h : method.Remains turns index between) (hp : method'.packed = between.packed)
    (ho : method'.others = between.others) : method.Remains turns index method' := by
  obtain ⟨haccess, hname, hdescriptor, -⟩ := Field.mk.inj hp
  exact ⟨hname.trans h.name, hdescriptor.trans h.descriptor, ho.trans h.others,
    haccess.symm ▸ h.access⟩

namespace ClassFile

/-- A class that was refreshed is packed. -/
theorem isPacked_of_refresh {count : Nat} (ho : origin.IsParsed) (h : origin.Grafted used file)
    (hr : refresh hierarchy file = (.ok count, later)) : later.IsPacked := by
  have hretains := (h.retains ho).refresh hr
  obtain ⟨thisClass, -, hrefreshed⟩ := isRefreshed_refresh hr
  refine ⟨hretains.isNamed ho, hretains.pool.sound ho.sound, fun method hmethod => ?_⟩
  have hretained := hretains.methods method hmethod
  refine ⟨hretained.name, hretained.descriptor, fun item hitem => ?_⟩
  cases item with
  | other raw => exact hretained.name_of_other ho hretains.pool.grows hitem
  | code body =>
    refine ⟨?_, encoded_of_refresh (h.retains ho) hr method hmethod body hitem⟩
    have hcode : file.pool.utf8Is body.name "Code" = true := by
      rcases hrefreshed.mem_code hmethod hretained.one hitem with
        ⟨-, old, hold, hin⟩ | ⟨old, hold, stale, head, before, after, hin, -, -, -, hbody⟩
      · exact (h.bodies old hold body hin).utf8Is_name ho
      · exact hbody.name_eq ▸ (h.bodies old hold stale hin).utf8Is_name ho
    exact (hrefreshed.grown.grows.utf8Is_eq (Pool.isSome_of_utf8Is hcode) "Code").trans hcode

/-- A method is refreshed where it is. -/
theorem IsRefreshed.exists_method {thisClass : Bytes} {method : Method}
    (h : file.IsRefreshed thisClass hierarchy (fun _ => True) later)
    (hm : file.methods[index]? = some method) : ∃ method', later.methods[index]? = some method' ∧
      (method' = method ∨ method.isStale = true ∧ ∃ body, method' = method.withBody body) := by
  by_cases hs : file.isStale index = true
  · obtain ⟨_, method', hmethod, hmethod', body, head, body', before, after, -, -, hbody, hnone, -, -,
      rfl⟩ := h.stale index trivial hs
    obtain rfl := Option.some.inj (hmethod.symm.trans hm)
    exact ⟨_, hmethod', .inr ⟨by simp [Method.isStale, hbody, hnone], body', rfl⟩⟩
  · exact ⟨method, (h.same index fun hn => hs hn.2).trans hm, .inl rfl⟩

/-- Only the body of a method that some turn is about is refreshed. -/
theorem exists_remains_of_isRefreshed {thisClass : Bytes} {method : Method} (ho : origin.IsParsed)
    (hl : (Graft.start origin).Leads turns last)
    (hr : last.file.IsRefreshed thisClass hierarchy (fun _ => True) later)
    (hm : origin.methods[index]? = some method) :
    ∃ method', later.methods[index]? = some method' ∧ method.Remains turns index method' ∧
      ((∀ turn ∈ turns, turn.touches index = false) → method' = method) := by
  obtain ⟨between, hbetween, hleft⟩ := hl.method hm
  obtain ⟨method', hmethod', hcase⟩ := hr.exists_method hbetween
  refine ⟨method', hmethod', ?_⟩
  rcases hcase with rfl | ⟨hstale, body, rfl⟩
  · exact ⟨hleft.toRemains, hleft.same⟩
  · refine ⟨hleft.toRemains.withBody body, fun hn => ?_⟩
    rw [hleft.same hn, (ho.methods method (List.mem_of_getElem? hm)).isStale_eq_false] at hstale
    exact absurd hstale Bool.false_ne_true

/-- What was read, patched, refreshed and written is read again as a class that agrees with the
first one. -/
theorem agrees_of_refresh {count : Nat} {written : Bytes} (ho : origin.IsParsed)
    (hl : (Graft.start origin).Leads turns last) (hg : origin.Grafted used last.file)
    (hr : refresh hierarchy last.file = (.ok count, later)) (hw : later.serialize = .ok written)
    (hp : parse written = .ok again) : origin.Agrees turns again := by
  have hretains := (hg.retains ho).refresh hr
  obtain ⟨thisClass, -, hrefreshed⟩ := isRefreshed_refresh hr
  have hpacked := isPacked_of_refresh ho hg hr
  have hagain := (isParsed_of_parse hp).isPacked
  obtain ⟨⟨_, next⟩, hread, rfl⟩ := Except.map_eq_ok.mp hp
  obtain ⟨hslots, hothers, hmethods⟩ := hpacked.eq_of_serialize hagain hw (serialize_of_read hread)
  refine ⟨?_, ?_, fun index field hfield => ?_, fun index method hmethod => ?_⟩
  · rw [hothers, hretains.same]
  · rw [hslots]
    exact ho.sound.prefix_of_grows hpacked.sound hretains.pool.grows
  · obtain ⟨field', hfield', hremains⟩ := hl.field hfield
    refine ⟨field', ?_, hremains⟩
    rw [hothers, hrefreshed.others]
    exact hfield'
  · obtain ⟨between, hbetween, hremains, hsame⟩ :=
      exists_remains_of_isRefreshed ho hl hrefreshed hmethod
    -- the methods that are read are packed like those that were written
    have hat := congrArg (·[index]?) hmethods
    simp only [List.getElem?_map, hbetween, Option.map_some] at hat
    obtain ⟨method', hmethod', hmatch⟩ := Option.map_eq_some_iff.mp hat
    have hrest := (hpacked.methods between (List.mem_of_getElem? hbetween)).others_eq_of_packed
      (hagain.methods method' (List.mem_of_getElem? hmethod')) (Pool.grows_of_slots_eq hslots) hmatch
    exact ⟨method', hmethod', hremains.of_packed hmatch hrest,
      fun hn => hmatch.trans (congrArg Method.packed (hsame hn))⟩

end ClassFile

end ClassGraft

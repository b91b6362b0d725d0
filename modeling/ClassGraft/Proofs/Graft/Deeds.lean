import ClassGraft.Graft.Edits
import ClassGraft.Proofs.Outcome

/-!
# What edits do

What each kind of edit did if it did not fail, said once by taking its steps apart: which constants
were added, what templates became, what is reported, and what the class is then.
-/

namespace ClassGraft

/-- The class with more constants. -/
def Graft.withPool (graft : Graft) (pool : Pool) : Graft :=
  { graft with file := { graft.file with pool := pool } }

/-- A method that an added one of the same name replaces. -/
def Method.overwritten (access : UInt16) (body : Option Body) (method : Method) : Method :=
  let bare := { method.withoutBody with access := access }
  body.elim bare bare.withBody

/-- The methods whose body no patch gave them. -/
def Graft.unreplaced (graft : Graft) : List Nat :=
  (List.range graft.file.methods.length).filter fun index =>
    (graft.history index).replacedBy.isNone

/-- What is reported where an added method takes the place of one that patches changed. -/
def Note.ofOverwriting (edit : Edit) : (changedBy : List String) → Note
  | [] => .applied (.overwroteMethod edit)
  | changedBy => .conflict (.overwrites edit changedBy)

/-- What is reported where a body takes the place of one that patches edited. -/
def Note.ofReplacing (edit : Edit) (method : Signature) : (editedBy : List String) → Note
  | [] => .applied (.replaced edit method)
  | editedBy => .conflict (.discards edit method editedBy)

theorem Graft.history_start (file : ClassFile) (index : Nat) :
    (Graft.start file).history index = .untouched := by
  rw [history, start, Std.HashMap.getD_empty]

/-! ### Steps of edits -/

theorem Changing.intern_eq_ok {α : Type} {step : Interning α} {file later : ClassFile} {a : α} :
    Changing.intern step file = (.ok a, later) ↔
      ∃ pool, step file.pool = (.ok a, pool) ∧ { file with pool := pool } = later := by
  obtain ⟨result, pool, h⟩ : ∃ result pool, step file.pool = (result, pool) := ⟨_, _, rfl⟩
  unfold Changing.intern
  rw [h]
  constructor
  · intro heq
    obtain ⟨rfl, rfl⟩ := Prod.mk.inj heq
    exact ⟨pool, rfl, rfl⟩
  · rintro ⟨other, heq, rfl⟩
    obtain ⟨rfl, rfl⟩ := Prod.mk.inj heq
    rfl

theorem Changing.addMethod_eq_ok {file later : ClassFile} {access : UInt16}
    {name descriptor : String} {body : Option Body} {index : Nat}
    (h : addMethod access name descriptor body file = (.ok index, later)) :
    index = file.methods.length ∧ ∃ nameIndex descriptorIndex between pool,
      Interning.utf8 name file.pool = (.ok nameIndex, between) ∧
      Interning.utf8 descriptor between = (.ok descriptorIndex, pool) ∧
      later = { file with
        pool := pool
        methods := file.methods ++
          [⟨access, nameIndex, descriptorIndex, body.toList.map .code⟩] } := by
  obtain ⟨nameIndex, _, hname, h⟩ := ExceptT.bind_eq_ok.mp h
  obtain ⟨between, hbetween, rfl⟩ := intern_eq_ok.mp hname
  obtain ⟨descriptorIndex, _, hdescriptor, h⟩ := ExceptT.bind_eq_ok.mp h
  obtain ⟨pool, hpool, rfl⟩ := intern_eq_ok.mp hdescriptor
  obtain ⟨_, _, hget, h⟩ := ExceptT.bind_eq_ok.mp h
  obtain ⟨rfl, rfl⟩ := ExceptT.get_eq_ok.mp hget
  obtain ⟨_, _, hset, h⟩ := ExceptT.bind_eq_ok.mp h
  obtain rfl := (Prod.mk.inj hset).2
  obtain ⟨rfl, rfl⟩ := ExceptT.pure_eq_ok.mp h
  exact ⟨rfl, nameIndex, descriptorIndex, between, pool, hbetween, hpool, rfl⟩

theorem Changing.addField_eq_ok {file later : ClassFile} {access : UInt16}
    {name descriptor : String} {index : Nat}
    (h : addField access name descriptor file = (.ok index, later)) :
    index = file.fields.length ∧ ∃ nameIndex descriptorIndex between pool,
      Interning.utf8 name file.pool = (.ok nameIndex, between) ∧
      Interning.utf8 descriptor between = (.ok descriptorIndex, pool) ∧
      later = { file with
        pool := pool
        fields := file.fields ++ [⟨access, nameIndex, descriptorIndex, []⟩] } := by
  obtain ⟨nameIndex, _, hname, h⟩ := ExceptT.bind_eq_ok.mp h
  obtain ⟨between, hbetween, rfl⟩ := intern_eq_ok.mp hname
  obtain ⟨descriptorIndex, _, hdescriptor, h⟩ := ExceptT.bind_eq_ok.mp h
  obtain ⟨pool, hpool, rfl⟩ := intern_eq_ok.mp hdescriptor
  obtain ⟨_, _, hget, h⟩ := ExceptT.bind_eq_ok.mp h
  obtain ⟨rfl, rfl⟩ := ExceptT.get_eq_ok.mp hget
  obtain ⟨_, _, hset, h⟩ := ExceptT.bind_eq_ok.mp h
  obtain rfl := (Prod.mk.inj hset).2
  obtain ⟨rfl, rfl⟩ := ExceptT.pure_eq_ok.mp h
  exact ⟨rfl, nameIndex, descriptorIndex, between, pool, hbetween, hpool, rfl⟩

namespace Grafting

variable {graft later : Graft} {patch : Patch} {edit : Edit} {note : Note} {index : Nat}

theorem change_eq_ok {α : Type} {step : Changing α} {a : α} :
    change step graft = (.ok a, later) ↔
      ∃ file, step graft.file = (.ok a, file) ∧ { graft with file := file } = later := by
  obtain ⟨result, file, h⟩ : ∃ result file, step graft.file = (result, file) := ⟨_, _, rfl⟩
  have hrun : change step graft = (result.mapError .file, { graft with file := file }) := by
    have hstep : (step.run graft.file) = (result, file) := h
    simp only [change, hstep]
  rw [hrun, h]
  constructor
  · intro heq
    obtain ⟨hresult, rfl⟩ := Prod.mk.inj heq
    obtain rfl := Except.mapError_eq_ok.mp hresult
    exact ⟨file, rfl, rfl⟩
  · rintro ⟨other, heq, rfl⟩
    obtain ⟨rfl, rfl⟩ := Prod.mk.inj heq
    rfl

theorem intern_eq_ok {α : Type} {step : Interning α} {a : α} :
    intern step graft = (.ok a, later) ↔
      ∃ pool, step graft.file.pool = (.ok a, pool) ∧ graft.withPool pool = later := by
  unfold intern
  rw [change_eq_ok]
  constructor
  · rintro ⟨file, hfile, rfl⟩
    obtain ⟨pool, hpool, rfl⟩ := Changing.intern_eq_ok.mp hfile
    exact ⟨pool, hpool, rfl⟩
  · rintro ⟨pool, hpool, rfl⟩
    exact ⟨_, Changing.intern_eq_ok.mpr ⟨pool, hpool, rfl⟩, rfl⟩

theorem useTemplate_eq_ok {template : Template} {body : Body} {steps : List Step} {body' : Body} :
    useTemplate template body graft = (.ok (steps, body'), later) ↔
      ∃ supply, template.steps ⟨body.nextMark, graft.file.pool⟩ = (.ok steps, supply) ∧
        { body with nextMark := supply.nextMark } = body' ∧ graft.withPool supply.pool = later := by
  obtain ⟨result, supply, h⟩ : ∃ result supply,
      template.steps ⟨body.nextMark, graft.file.pool⟩ = (result, supply) := ⟨_, _, rfl⟩
  have hrun : useTemplate template body graft =
      ((result.map (·, { body with nextMark := supply.nextMark })).mapError .ofTemplate,
        graft.withPool supply.pool) := by
    have hstep : template.steps.run ⟨body.nextMark, graft.file.pool⟩ = (result, supply) := h
    simp only [useTemplate, Template.stepsIn, hstep]
    rfl
  rw [hrun, h]
  constructor
  · intro heq
    obtain ⟨hresult, rfl⟩ := Prod.mk.inj heq
    obtain ⟨found, rfl, hpair⟩ := Except.map_eq_ok.mp (Except.mapError_eq_ok.mp hresult)
    obtain ⟨rfl, rfl⟩ := Prod.mk.inj hpair
    exact ⟨supply, rfl, rfl, rfl⟩
  · rintro ⟨other, heq, rfl, rfl⟩
    obtain ⟨rfl, rfl⟩ := Prod.mk.inj heq
    rfl

theorem setBody_eq_ok {body : Body} {result : Unit} :
    setBody index body graft = (.ok result, later) ↔
      { graft with file := graft.file.setBody index body } = later :=
  ExceptT.modify_eq_ok

theorem setHistory_eq_ok {history : MethodHistory} {result : Unit} :
    setHistory index history graft = (.ok result, later) ↔
      { graft with histories := graft.histories.insert index history } = later :=
  ExceptT.modify_eq_ok

/-- A patch that names a method is about the first one of that name. -/
theorem target_eq_ok {found : Nat × Signature} :
    target patch graft = (.ok found, later) ↔ patch.method = some found.2 ∧
      graft.file.methodIndex? found.2.name found.2.descriptor = some found.1 ∧ graft = later := by
  obtain ⟨number, method⟩ := found
  unfold target
  cases hmethod : patch.method with
  | none => simp [ExceptT.throw_ne_ok]
  | some signature =>
    rw [ExceptT.bind_eq_ok]
    simp only [ExceptT.get_eq_ok]
    constructor
    · rintro ⟨_, _, ⟨rfl, rfl⟩, h⟩
      cases hindex : graft.file.methodIndex? signature.name signature.descriptor with
      | none =>
        simp only [hindex] at h
        exact absurd h ExceptT.throw_ne_ok
      | some found =>
        simp only [hindex] at h
        obtain ⟨hpair, rfl⟩ := ExceptT.pure_eq_ok.mp h
        obtain ⟨rfl, rfl⟩ := Prod.mk.inj hpair
        exact ⟨rfl, hindex, rfl⟩
    · rintro ⟨hsome, hindex, rfl⟩
      obtain rfl := Option.some.inj hsome
      refine ⟨graft, graft, ⟨rfl, rfl⟩, ?_⟩
      simp only [hindex, ExceptT.pure_eq_ok, and_self]

theorem newBody_eq_ok {body : Body} (h : change Changing.newBody graft = (.ok body, later)) :
    ∃ name pool, Interning.utf8 "Code" graft.file.pool = (.ok name, pool) ∧
      body = Body.new name ∧ later = graft.withPool pool := by
  obtain ⟨file, hfile, rfl⟩ := change_eq_ok.mp h
  obtain ⟨name, between, hname, hpure⟩ := ExceptT.bind_eq_ok.mp hfile
  obtain ⟨rfl, rfl⟩ := ExceptT.pure_eq_ok.mp hpure
  obtain ⟨pool, hpool, rfl⟩ := Changing.intern_eq_ok.mp hname
  exact ⟨name, pool, hpool, rfl, rfl⟩

/-- The body of an added method has what its template makes. -/
theorem bodyOf_eq_ok {template : Template} {body : Body}
    (h : bodyOf template graft = (.ok body, later)) :
    ∃ name pool steps supply, Interning.utf8 "Code" graft.file.pool = (.ok name, pool) ∧
      template.steps ⟨0, pool⟩ = (.ok steps, supply) ∧
      body = ({ Body.new name with nextMark := supply.nextMark }.replace steps []).settle ∧
      later = graft.withPool supply.pool := by
  obtain ⟨new, between, hnew, h⟩ := ExceptT.bind_eq_ok.mp h
  obtain ⟨name, pool, hname, rfl, rfl⟩ := newBody_eq_ok hnew
  obtain ⟨⟨steps, body'⟩, between, huse, h⟩ := ExceptT.bind_eq_ok.mp h
  obtain ⟨supply, hsteps, rfl, rfl⟩ := useTemplate_eq_ok.mp huse
  obtain ⟨rfl, rfl⟩ := ExceptT.pure_eq_ok.mp h
  exact ⟨name, pool, steps, supply, hname, hsteps, rfl, rfl⟩

/-! ### Members -/

theorem changeAddMethod_eq_ok {access : UInt16} {name descriptor : String} {body : Option Body}
    {result : Nat}
    (h : change (Changing.addMethod access name descriptor body) graft = (.ok result, later)) :
    ∃ nameIndex descriptorIndex between pool,
      Interning.utf8 name graft.file.pool = (.ok nameIndex, between) ∧
      Interning.utf8 descriptor between = (.ok descriptorIndex, pool) ∧
      later = { graft with file := { graft.file with
        pool := pool
        methods := graft.file.methods ++
          [⟨access, nameIndex, descriptorIndex, body.toList.map .code⟩] } } := by
  obtain ⟨file, hfile, rfl⟩ := change_eq_ok.mp h
  obtain ⟨-, nameIndex, descriptorIndex, between, pool, hname, hdescriptor, rfl⟩ :=
    Changing.addMethod_eq_ok hfile
  exact ⟨nameIndex, descriptorIndex, between, pool, hname, hdescriptor, rfl⟩

theorem overwriteMethod_eq_ok {access : UInt16} {body : Option Body}
    (h : overwriteMethod patch edit other access body graft = (.ok note, later)) :
    note = .ofOverwriting edit (graft.history other).changedBy ∧
      later = ⟨graft.file.modifyMethod other (Method.overwritten access body),
        graft.histories.insert other (.replaced patch.id)⟩ := by
  obtain ⟨_, _, hget, h⟩ := ExceptT.bind_eq_ok.mp h
  obtain ⟨rfl, rfl⟩ := ExceptT.get_eq_ok.mp hget
  obtain ⟨_, between, hset, h⟩ := ExceptT.bind_eq_ok.mp h
  obtain rfl := (Prod.mk.inj hset).2
  obtain ⟨_, between, hhistory, h⟩ := ExceptT.bind_eq_ok.mp h
  obtain rfl := setHistory_eq_ok.mp hhistory
  -- the note that is given depends on what had been done to the method
  cases hchanged : (Graft.history graft other).changedBy with
  | nil =>
    simp only [hchanged] at h
    obtain ⟨rfl, rfl⟩ := ExceptT.pure_eq_ok.mp h
    cases body <;> exact ⟨rfl, rfl⟩
  | cons first rest =>
    simp only [hchanged] at h
    obtain ⟨rfl, rfl⟩ := ExceptT.pure_eq_ok.mp h
    cases body <;> exact ⟨rfl, rfl⟩

/-- What is done with the body of an added method, as far as that is allowed. -/
theorem placeMethod_eq_ok {access : List Modifier} {method : Signature} {overwrite : Bool}
    {body : Option Body} {between : Graft}
    (ha : ¬((graft.file.methodIndex? method.name method.descriptor).isSome && !overwrite) = true)
    (h : (match graft.file.methodIndex? method.name method.descriptor with
      | some index => overwriteMethod patch edit index (Modifier.flags access) body
      | none => do
        let _ ← change (Changing.addMethod (Modifier.flags access) method.name
          method.descriptor body)
        return .applied (.done edit) : Grafting Note) between = (.ok note, later)) :
    (∃ other, graft.file.methodIndex? method.name method.descriptor = some other ∧
        overwrite = true ∧
        overwriteMethod patch edit other (Modifier.flags access) body between =
          (.ok note, later)) ∨
      graft.file.methodIndex? method.name method.descriptor = none ∧
        note = .applied (.done edit) ∧
        ∃ result, change (Changing.addMethod (Modifier.flags access) method.name
          method.descriptor body) between = (.ok result, later) := by
  cases hindex : graft.file.methodIndex? method.name method.descriptor with
  | some other =>
    simp only [hindex] at h ha
    exact .inl ⟨other, rfl, by simpa using ha, h⟩
  | none =>
    simp only [hindex] at h
    obtain ⟨result, _, hchange, h⟩ := ExceptT.bind_eq_ok.mp h
    obtain ⟨rfl, rfl⟩ := ExceptT.pure_eq_ok.mp h
    exact .inr ⟨rfl, rfl, result, hchange⟩

/-- What adding a method does: it comes last, or in place of the one of that name. -/
theorem addMethod_eq_ok {access : List Modifier} {method : Signature} {code : Option Template}
    {overwrite : Bool}
    (h : addMethod patch edit access method code overwrite graft = (.ok note, later)) :
    ∃ body between,
      (code = none ∧ body = none ∧ between = graft ∨
        ∃ template made, code = some template ∧ body = some made ∧
          bodyOf template graft = (.ok made, between)) ∧
      ((∃ other, graft.file.methodIndex? method.name method.descriptor = some other ∧
          overwrite = true ∧
          overwriteMethod patch edit other (Modifier.flags access) body between =
            (.ok note, later)) ∨
        graft.file.methodIndex? method.name method.descriptor = none ∧
          note = .applied (.done edit) ∧
          ∃ result, change (Changing.addMethod (Modifier.flags access) method.name
            method.descriptor body) between = (.ok result, later)) := by
  unfold addMethod at h
  obtain ⟨_, _, hget, h⟩ := ExceptT.bind_eq_ok.mp h
  obtain ⟨rfl, rfl⟩ := ExceptT.get_eq_ok.mp hget
  obtain ⟨hallowed, h⟩ := ExceptT.guard_eq_ok.mp h
  cases code with
  | none => exact ⟨none, graft, .inl ⟨rfl, rfl, rfl⟩, placeMethod_eq_ok hallowed h⟩
  | some template =>
    obtain ⟨body, between, hbody, h⟩ := ExceptT.bind_eq_ok.mp h
    obtain ⟨made, _, hmade, hpure⟩ := ExceptT.bind_eq_ok.mp
      ((congrFun (map_eq_pure_bind some (bodyOf template)) graft).symm.trans hbody)
    obtain ⟨rfl, rfl⟩ := ExceptT.pure_eq_ok.mp hpure
    exact ⟨some made, _, .inr ⟨template, made, rfl, rfl, hmade⟩, placeMethod_eq_ok hallowed h⟩

theorem changeAddField_eq_ok {access : UInt16} {name descriptor : String} {result : Nat}
    (h : change (Changing.addField access name descriptor) graft = (.ok result, later)) :
    ∃ nameIndex descriptorIndex between pool,
      Interning.utf8 name graft.file.pool = (.ok nameIndex, between) ∧
      Interning.utf8 descriptor between = (.ok descriptorIndex, pool) ∧
      later = { graft with file := { graft.file with
        pool := pool
        fields := graft.file.fields ++ [⟨access, nameIndex, descriptorIndex, []⟩] } } := by
  obtain ⟨file, hfile, rfl⟩ := change_eq_ok.mp h
  obtain ⟨-, nameIndex, descriptorIndex, between, pool, hname, hdescriptor, rfl⟩ :=
    Changing.addField_eq_ok hfile
  exact ⟨nameIndex, descriptorIndex, between, pool, hname, hdescriptor, rfl⟩

/-- What adding a field does: the one of that name gets other flags, or a field comes last. -/
theorem addField_eq_ok {access : List Modifier} {field : Signature} {overwrite : Bool}
    (h : addField edit access field overwrite graft = (.ok note, later)) :
    (∃ deed, note = .applied deed) ∧
      ((∃ position, graft.file.fieldIndex? field.name field.descriptor = some position ∧
          overwrite = true ∧ later = { graft with file := { graft.file with
            fields := graft.file.fields.modify position fun field =>
              { field with access := Modifier.flags access } } }) ∨
        graft.file.fieldIndex? field.name field.descriptor = none ∧
          ∃ result, change (Changing.addField (Modifier.flags access) field.name
            field.descriptor) graft = (.ok result, later)) := by
  obtain ⟨_, _, hget, h⟩ := ExceptT.bind_eq_ok.mp h
  obtain ⟨rfl, rfl⟩ := ExceptT.get_eq_ok.mp hget
  cases hindex : graft.file.fieldIndex? field.name field.descriptor with
  | some position =>
    simp only [hindex] at h
    obtain ⟨hallowed, h⟩ := ExceptT.guard_eq_ok.mp h
    obtain ⟨_, _, hset, h⟩ := ExceptT.bind_eq_ok.mp h
    obtain rfl := (Prod.mk.inj hset).2
    obtain ⟨rfl, rfl⟩ := ExceptT.pure_eq_ok.mp h
    exact ⟨⟨_, rfl⟩, .inl ⟨position, rfl, by simpa using hallowed, rfl⟩⟩
  | none =>
    simp only [hindex] at h
    obtain ⟨result, _, hchange, h⟩ := ExceptT.bind_eq_ok.mp h
    obtain ⟨rfl, rfl⟩ := ExceptT.pure_eq_ok.mp h
    exact ⟨⟨_, rfl⟩, .inr ⟨rfl, result, hchange⟩⟩

/-! ### Bodies -/

/-- A method that gets its first body is no longer one without. -/
theorem bodyOrNew_eq_ok {body : Body} (h : bodyOrNew index graft = (.ok body, later)) :
    graft.body? index = some body ∧ later = graft ∨
      ∃ name pool, Interning.utf8 "Code" graft.file.pool = (.ok name, pool) ∧
        graft.body? index = none ∧ body = Body.new name ∧
        later = { graft with file := (graft.withPool pool).file.modifyMethod index fun method =>
          { method with access :=
            method.access &&& ~~~(Access.isAbstract ||| Access.isNative) } } := by
  obtain ⟨_, _, hget, h⟩ := ExceptT.bind_eq_ok.mp h
  obtain ⟨rfl, rfl⟩ := ExceptT.get_eq_ok.mp hget
  cases hbody : graft.body? index with
  | some found =>
    simp only [hbody] at h
    obtain ⟨rfl, rfl⟩ := ExceptT.pure_eq_ok.mp h
    exact .inl ⟨rfl, rfl⟩
  | none =>
    simp only [hbody] at h
    obtain ⟨new, _, hnew, h⟩ := ExceptT.bind_eq_ok.mp h
    obtain ⟨name, pool, hname, rfl, rfl⟩ := newBody_eq_ok hnew
    obtain ⟨_, _, hmodify, h⟩ := ExceptT.bind_eq_ok.mp h
    obtain rfl := ExceptT.modify_eq_ok.mp hmodify
    obtain ⟨rfl, rfl⟩ := ExceptT.pure_eq_ok.mp h
    exact .inr ⟨name, pool, hname, rfl, rfl, rfl⟩

/-- What replacing a body does, unless another patch did it before. -/
theorem replaceBody_eq_ok {code : Template}
    (h : replaceBody patch edit code graft = (.ok note, later)) :
    ∃ index method, patch.method = some method ∧
      graft.file.methodIndex? method.name method.descriptor = some index ∧
      ((∃ winner, (graft.history index).replacedBy = some winner ∧
          note = .conflict (.replacedBefore edit method winner) ∧ later = graft) ∨
        (graft.history index).replacedBy = none ∧
          note = .ofReplacing edit method (graft.history index).editedBy ∧
          ∃ body between steps supply,
            bodyOrNew index ⟨graft.file, graft.histories.insert index (.replaced patch.id)⟩ =
              (.ok body, between) ∧
            code.steps ⟨body.nextMark, between.file.pool⟩ = (.ok steps, supply) ∧
            later = ⟨(between.withPool supply.pool).file.setBody index
              ({ body with nextMark := supply.nextMark }.replace steps []),
              between.histories⟩) := by
  obtain ⟨⟨index, method⟩, _, htarget, h⟩ := ExceptT.bind_eq_ok.mp h
  obtain ⟨hmethod, hindex, rfl⟩ := target_eq_ok.mp htarget
  refine ⟨index, method, hmethod, hindex, ?_⟩
  obtain ⟨_, _, hget, h⟩ := ExceptT.bind_eq_ok.mp h
  obtain ⟨rfl, rfl⟩ := ExceptT.get_eq_ok.mp hget
  cases hwinner : (graft.history index).replacedBy with
  | some winner =>
    simp only [hwinner] at h
    obtain ⟨rfl, rfl⟩ := ExceptT.pure_eq_ok.mp h
    exact .inl ⟨winner, rfl, rfl, rfl⟩
  | none =>
    simp only [hwinner] at h
    obtain ⟨_, _, hset, h⟩ := ExceptT.bind_eq_ok.mp h
    obtain rfl := setHistory_eq_ok.mp hset
    obtain ⟨body, between, hbody, h⟩ := ExceptT.bind_eq_ok.mp h
    obtain ⟨⟨steps, body'⟩, _, huse, h⟩ := ExceptT.bind_eq_ok.mp h
    obtain ⟨supply, hsteps, rfl, rfl⟩ := useTemplate_eq_ok.mp huse
    obtain ⟨_, _, hset, h⟩ := ExceptT.bind_eq_ok.mp h
    obtain rfl := setBody_eq_ok.mp hset
    -- the note that is given depends on what had been done to the method
    have hnote : note = .ofReplacing edit method (graft.history index).editedBy ∧
        later = ⟨(between.withPool supply.pool).file.setBody index
          ({ body with nextMark := supply.nextMark }.replace steps []), between.histories⟩ := by
      cases hedited : (graft.history index).editedBy with
      | nil =>
        simp only [hedited] at h
        obtain ⟨rfl, rfl⟩ := ExceptT.pure_eq_ok.mp h
        exact ⟨rfl, rfl⟩
      | cons first rest =>
        simp only [hedited] at h
        obtain ⟨rfl, rfl⟩ := ExceptT.pure_eq_ok.mp h
        exact ⟨rfl, rfl⟩
    exact .inr ⟨rfl, hnote.1, body, between, steps, supply, hbody, hsteps, hnote.2⟩

/-- What inserting code does, unless another patch replaced the body before. -/
theorem insertAt_eq_ok {anchor : Anchor} {code : Template}
    (h : insertAt patch edit anchor code graft = (.ok note, later)) :
    ∃ index method, patch.method = some method ∧
      graft.file.methodIndex? method.name method.descriptor = some index ∧
      ((∃ winner, (graft.history index).replacedBy = some winner ∧
          note = .conflict (.dropped edit method winner) ∧ later = graft) ∨
        (graft.history index).replacedBy = none ∧ ∃ body body' history between,
          graft.body? index = some body ∧
          note = .applied
            (.inserted edit method (body.sites graft.file.pool anchor).length) ∧
          insertAtSites anchor code (body.sites graft.file.pool anchor) body
            (graft.history index) graft = (.ok (body', history), between) ∧
          later = ⟨between.file.setBody index body',
            between.histories.insert index (history.edited patch.id)⟩) := by
  obtain ⟨⟨index, method⟩, _, htarget, h⟩ := ExceptT.bind_eq_ok.mp h
  obtain ⟨hmethod, hindex, rfl⟩ := target_eq_ok.mp htarget
  refine ⟨index, method, hmethod, hindex, ?_⟩
  obtain ⟨_, _, hget, h⟩ := ExceptT.bind_eq_ok.mp h
  obtain ⟨rfl, rfl⟩ := ExceptT.get_eq_ok.mp hget
  cases hwinner : (graft.history index).replacedBy with
  | some winner =>
    simp only [hwinner] at h
    obtain ⟨rfl, rfl⟩ := ExceptT.pure_eq_ok.mp h
    exact .inl ⟨winner, rfl, rfl, rfl⟩
  | none =>
    simp only [hwinner] at h
    cases hbody : graft.body? index with
    | none =>
      simp only [hbody] at h
      exact absurd h ExceptT.throw_ne_ok
    | some body =>
      simp only [hbody] at h
      obtain ⟨-, h⟩ := ExceptT.guard_eq_ok.mp h
      obtain ⟨⟨body', history⟩, between, hsites, h⟩ := ExceptT.bind_eq_ok.mp h
      obtain ⟨_, _, hset, h⟩ := ExceptT.bind_eq_ok.mp h
      obtain rfl := setBody_eq_ok.mp hset
      obtain ⟨_, _, hset, h⟩ := ExceptT.bind_eq_ok.mp h
      obtain rfl := setHistory_eq_ok.mp hset
      obtain ⟨rfl, rfl⟩ := ExceptT.pure_eq_ok.mp h
      exact .inr ⟨rfl, body, body', history, between, rfl, rfl, hsites, rfl⟩

/-- What a use of the template at any site keeps, the insertions at all sites keep. -/
theorem insertAtSites_induction {anchor : Anchor} {code : Template} {sites : List Mark}
    {body body' : Body} {history history' : MethodHistory} {P : Body → MethodHistory → Graft → Prop}
    (hstep : ∀ site ∈ sites, ∀ body history before steps supply, P body history before →
      code.steps ⟨body.nextMark, before.file.pool⟩ = (.ok steps, supply) →
        P (insertSteps anchor site steps { body with nextMark := supply.nextMark } history).1
          (insertSteps anchor site steps { body with nextMark := supply.nextMark } history).2
          (before.withPool supply.pool))
    (hp : P body history graft)
    (h : insertAtSites anchor code sites body history graft = (.ok (body', history'), later)) :
    P body' history' later := by
  induction sites generalizing body history graft with
  | nil =>
    obtain ⟨hpair, rfl⟩ := ExceptT.pure_eq_ok.mp h
    obtain ⟨rfl, rfl⟩ := Prod.mk.inj hpair
    exact hp
  | cons site rest ih =>
    obtain ⟨⟨steps, _⟩, _, huse, h⟩ := ExceptT.bind_eq_ok.mp h
    obtain ⟨supply, hsteps, rfl, rfl⟩ := useTemplate_eq_ok.mp huse
    obtain ⟨hsite, hrest⟩ := List.forall_mem_cons.mp hstep
    exact ih hrest (hsite body history graft steps supply hp hsteps) h

/-- Code is inserted where an anchor applies, if the template can be used there. -/
theorem insertAt_of_insertAtSites {anchor : Anchor} {code : Template} {method : Signature}
    {body body' : Body} {history : MethodHistory} {between : Graft}
    (hmethod : patch.method = some method)
    (hindex : graft.file.methodIndex? method.name method.descriptor = some index)
    (hreplaced : (graft.history index).replacedBy = none) (hbody : graft.body? index = some body)
    (hsites : (body.sites graft.file.pool anchor).isEmpty = false)
    (h : insertAtSites anchor code (body.sites graft.file.pool anchor) body
      (graft.history index) graft = (.ok (body', history), between)) :
    insertAt patch edit anchor code graft =
      (.ok (.applied (.inserted edit method (body.sites graft.file.pool anchor).length)),
        ⟨between.file.setBody index body',
          between.histories.insert index (history.edited patch.id)⟩) := by
  refine ExceptT.bind_eq_ok.mpr
    ⟨(index, method), graft, target_eq_ok.mpr ⟨hmethod, hindex, rfl⟩, ?_⟩
  refine ExceptT.bind_eq_ok.mpr ⟨graft, graft, ExceptT.get_eq_ok.mpr ⟨rfl, rfl⟩, ?_⟩
  simp only [hreplaced, hbody, hsites]
  refine ExceptT.bind_eq_ok.mpr ⟨(body', history), between, h, ?_⟩
  refine ExceptT.bind_eq_ok.mpr ⟨(), _, setBody_eq_ok.mpr rfl, ?_⟩
  exact ExceptT.bind_eq_ok.mpr ⟨(), _, setHistory_eq_ok.mpr rfl, ExceptT.pure_eq_ok.mpr ⟨rfl, rfl⟩⟩

/-! ### Redirections -/

/-- What redirecting a step does: it is a call, the two methods move the same words, the replacement
is added to the constants and takes the place of the call. -/
theorem redirectStep_eq_ok {callee replacement : MemberName} {kind : Option CallKind}
    {position : Nat} {instruction instruction' : Instruction Mark}
    (h : redirectStep edit callee replacement kind position instruction graft =
      (.ok instruction', later)) :
    ∃ oldKind number pool, CallKind.ofOpcode? instruction.opcode = some oldKind ∧
      stackEffect? callee.descriptor oldKind =
        stackEffect? replacement.descriptor (kind.getD oldKind) ∧
      Interning.method replacement.owner replacement.name replacement.descriptor
        (match kind with
          | some kind => kind == .interface
          | none => isOfInterface graft.file.pool instruction) graft.file.pool =
            (.ok number, pool) ∧
      callInstruction (kind.getD oldKind).opcode number replacement.descriptor =
        .ok instruction' ∧ later = graft.withPool pool := by
  unfold redirectStep at h
  cases hold : CallKind.ofOpcode? instruction.opcode with
  | none =>
    simp only [hold] at h
    exact absurd h ExceptT.throw_ne_ok
  | some oldKind =>
    simp only [hold] at h
    obtain ⟨heffect, h⟩ := ExceptT.guard_eq_ok.mp h
    obtain ⟨_, _, hget, h⟩ := ExceptT.bind_eq_ok.mp h
    obtain ⟨rfl, rfl⟩ := ExceptT.get_eq_ok.mp hget
    obtain ⟨number, _, hintern, h⟩ := ExceptT.bind_eq_ok.mp h
    obtain ⟨pool, hpool, rfl⟩ := intern_eq_ok.mp hintern
    obtain ⟨hcall, rfl⟩ := ExceptT.lift_eq_ok.mp h
    exact ⟨oldKind, number, pool, rfl, not_not.mp heffect, hpool, Except.mapError_eq_ok.mp hcall,
      rfl⟩

theorem count_eq_zero_iff (body : Body) (pool : Pool) (callee : MemberName) :
    (body.steps.map fun step =>
      (step, body.isInitial step.mark && step.instruction.calls pool callee)).countP (·.2) = 0 ↔
      body.callsOf pool callee = [] := by
  rw [Body.callsOf, Body.initialSteps, List.filter_filter, List.map_eq_nil_iff,
    List.filter_eq_nil_iff, List.countP_map, List.countP_eq_zero]
  refine forall₂_congr fun step _ => not_congr ?_
  simp only [Function.comp_apply, Bool.and_eq_true, and_comm]

/-- Redirecting calls in the body of a method changes it if there are any. -/
theorem redirectIn_eq_ok {callee replacement : MemberName} {kind : Option CallKind} {count : Nat}
    (h : redirectIn patch edit callee replacement kind index graft = (.ok count, later)) :
    (∀ body, graft.body? index = some body → body.callsOf graft.file.pool callee = []) ∧
        later = graft ∨
      ∃ body steps between, graft.body? index = some body ∧
      body.callsOf graft.file.pool callee ≠ [] ∧
      redirectSteps edit callee replacement kind 0 [] (body.steps.map fun step => (step,
        body.isInitial step.mark && step.instruction.calls graft.file.pool callee)) graft =
          (.ok steps, between) ∧
      later = ⟨between.file.setBody index { body.touch with steps := steps },
        between.histories.insert index ((graft.history index).edited patch.id)⟩ := by
  obtain ⟨_, _, hget, h⟩ := ExceptT.bind_eq_ok.mp h
  obtain ⟨rfl, rfl⟩ := ExceptT.get_eq_ok.mp hget
  cases hbody : graft.body? index with
  | none =>
    simp only [hbody] at h
    exact .inl ⟨nofun, (ExceptT.pure_eq_ok.mp h).2.symm⟩
  | some body =>
    simp only [hbody, count_eq_zero_iff] at h
    split_ifs at h with hcount
    · refine .inl ⟨fun other hother => ?_, (ExceptT.pure_eq_ok.mp h).2.symm⟩
      exact Option.some.inj hother ▸ hcount
    · obtain ⟨steps, between, hsteps, h⟩ := ExceptT.bind_eq_ok.mp h
      obtain ⟨_, _, hset, h⟩ := ExceptT.bind_eq_ok.mp h
      obtain rfl := setBody_eq_ok.mp hset
      obtain ⟨_, _, hset, h⟩ := ExceptT.bind_eq_ok.mp h
      obtain rfl := setHistory_eq_ok.mp hset
      obtain ⟨-, rfl⟩ := ExceptT.pure_eq_ok.mp h
      exact .inr ⟨body, steps, between, rfl, hcount, hsteps, rfl⟩

/-- What redirecting calls in any method keeps, redirecting them in several methods keeps. -/
theorem redirectInAll_induction {callee replacement : MemberName} {kind : Option CallKind}
    {indices : List Nat} {count count' : Nat} {P : Graft → Prop}
    (hstep : ∀ index ∈ indices, ∀ before more after, P before →
      redirectIn patch edit callee replacement kind index before = (.ok more, after) → P after)
    (hp : P graft)
    (h : redirectInAll patch edit callee replacement kind indices count graft =
      (.ok count', later)) : P later := by
  induction indices generalizing count graft with
  | nil =>
    obtain ⟨-, rfl⟩ := ExceptT.pure_eq_ok.mp h
    exact hp
  | cons index rest ih =>
    obtain ⟨more, between, hfirst, h⟩ := ExceptT.bind_eq_ok.mp h
    obtain ⟨hindex, hrest⟩ := List.forall_mem_cons.mp hstep
    exact ih hrest (hindex graft more between hp hfirst) h

/-- Redirecting calls goes through the method of the patch, or through all methods. -/
theorem redirectCall_eq_ok {callee replacement : MemberName} {kind : Option CallKind}
    {required : Bool}
    (h : redirectCall patch edit callee replacement kind required graft = (.ok note, later)) :
    (∃ index method, patch.method = some method ∧
      graft.file.methodIndex? method.name method.descriptor = some index ∧
      ((∃ winner, (graft.history index).replacedBy = some winner ∧
          note = .conflict (.dropped edit method winner) ∧ later = graft) ∨
        (graft.history index).replacedBy = none ∧ ∃ count,
          note = .applied (.redirected edit (.method method) count) ∧
          redirectInAll patch edit callee replacement kind [index] 0 graft = (.ok count, later) ∧
          (required = true → count ≠ 0))) ∨
      patch.method = none ∧ ∃ count,
        note = .applied (.redirected edit (.wholeClass graft.file.nameText) count) ∧
        redirectInAll patch edit callee replacement kind graft.unreplaced 0 graft =
          (.ok count, later) ∧ (required = true → count ≠ 0) := by
  -- What is done with the methods is the same for one and for all.
  have hall : ∀ {indices : List Nat} {scope : Scope},
      ((do
        let count ← redirectInAll patch edit callee replacement kind indices 0
        if count = 0 && required then throw (.notFound (.call callee scope))
        return .applied (.redirected edit scope count)) : Grafting Note) graft = (.ok note, later) →
      ∃ count, note = .applied (.redirected edit scope count) ∧
        redirectInAll patch edit callee replacement kind indices 0 graft = (.ok count, later) ∧
        (required = true → count ≠ 0) := by
    intro indices scope hrun
    obtain ⟨count, _, hcount, hrun⟩ := ExceptT.bind_eq_ok.mp hrun
    obtain ⟨hfound, hrun⟩ := ExceptT.guard_eq_ok.mp hrun
    obtain ⟨rfl, rfl⟩ := ExceptT.pure_eq_ok.mp hrun
    exact ⟨count, rfl, hcount, fun hr hzero => hfound (by simp [hr, hzero])⟩
  unfold redirectCall at h
  cases hmethod : patch.method with
  | none =>
    simp only [hmethod] at h
    obtain ⟨_, _, hget, h⟩ := ExceptT.bind_eq_ok.mp h
    obtain ⟨rfl, rfl⟩ := ExceptT.get_eq_ok.mp hget
    exact .inr ⟨rfl, hall h⟩
  | some named =>
    simp only [hmethod] at h
    obtain ⟨⟨index, method⟩, _, htarget, h⟩ := ExceptT.bind_eq_ok.mp h
    obtain ⟨htargeted, hindex, rfl⟩ := target_eq_ok.mp htarget
    refine .inl ⟨index, method, hmethod.symm.trans htargeted, hindex, ?_⟩
    obtain ⟨_, _, hget, h⟩ := ExceptT.bind_eq_ok.mp h
    obtain ⟨rfl, rfl⟩ := ExceptT.get_eq_ok.mp hget
    cases hwinner : (Graft.history graft index).replacedBy with
    | some winner =>
      simp only [hwinner] at h
      obtain ⟨rfl, rfl⟩ := ExceptT.pure_eq_ok.mp h
      exact .inl ⟨winner, rfl, rfl, rfl⟩
    | none =>
      simp only [hwinner] at h
      exact .inr ⟨rfl, hall h⟩

/-- Redirecting calls leaves everything as it was, or goes through some methods. -/
theorem eq_or_of_redirectCall {callee replacement : MemberName} {kind : Option CallKind}
    {required : Bool}
    (h : redirectCall patch edit callee replacement kind required graft = (.ok note, later)) :
    later = graft ∨ ∃ indices count,
      redirectInAll patch edit callee replacement kind indices 0 graft = (.ok count, later) := by
  rcases redirectCall_eq_ok h with ⟨index, method, -, -, hrun⟩ | ⟨-, count, -, hall, -⟩
  · rcases hrun with ⟨-, -, -, hsame⟩ | ⟨-, count, -, hall, -⟩
    · exact .inl hsame
    · exact .inr ⟨[index], count, hall⟩
  · exact .inr ⟨graft.unreplaced, count, hall⟩

end Grafting

end ClassGraft

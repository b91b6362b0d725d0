import ClassGraft.Proofs.Graft.Sparing

/-!
# What classes become under edits

A class after edits is one that a chain of few kinds of changes leads to (`ClassFile.Grafted`), and
its bodies are those of the class from before or of templates, with more templates inserted and
calls redirected (`Body.Grafted`).  Every edit is such a chain (`Grafting.grafted_apply`), and so
are patches (`ClassFile.grafted_applyPatches`).  What all of these changes keep is true of every
class under patches, by induction on the chain.
-/

namespace ClassGraft

/-- The template that an edit uses. -/
def Edit.code? : Edit → Option Template
  | .addMethod _ _ code _ => code
  | .replaceBody code | .insertAt _ code => some code
  | .addField _ _ _ | .redirectCall _ _ _ _ => none

/-- How an instruction calls a method that the constants name. -/
def Instruction.callKind? {τ : Type} : Instruction τ → Option CallKind
  | invoke op _ => CallKind.ofOpcode? op
  | invokeInterface _ _ => some .interface
  | _ => none

theorem opcode_of_callInstruction {op : Opcode} {index : UInt16} {descriptor : String}
    {made : Instruction Mark} (h : callInstruction op index descriptor = .ok made) :
    made.opcode = op := by
  unfold callInstruction at h
  split_ifs at h with hop
  · obtain ⟨count, -, rfl⟩ := Except.map_eq_ok.mp h
    exact (eq_of_beq hop).symm
  · obtain rfl := Except.ok.inj h
    rfl

/-- Whether a step is the same as another, or a call in place of a call. -/
structure Step.IsRedirected (step step' : Step) : Prop where
  mark : step'.mark = step.mark
  instruction : step'.instruction = step.instruction ∨
    step.instruction.callKind?.isSome ∧ ∃ (kind : CallKind) (number : UInt16)
      (descriptor : String), callInstruction kind.opcode number descriptor = .ok step'.instruction

/-- The bodies that edits with some templates may make of those of a class, with the constants that
there are then. -/
inductive Body.Grafted (origin : ClassFile) (used : Template → Prop) : Pool → Body → Prop
  | read {method : Method} {body : Body} (hm : method ∈ origin.methods)
      (hb : .code body ∈ method.attributes) : Grafted origin used origin.pool body
  | new {pool : Pool} {name : UInt16} (hn : pool.utf8 name = some (ModifiedUtf8.encode "Code")) :
      Grafted origin used pool (Body.new name)
  | constants {pool later : Pool} {body : Body} (h : Grafted origin used pool body)
      (hp : pool.Extends later) : Grafted origin used later body
  | marks {pool : Pool} {body : Body} {number : Nat} (h : Grafted origin used pool body)
      (hn : body.nextMark ≤ number) : Grafted origin used pool { body with nextMark := number }
  | settle {pool : Pool} {body : Body} (h : Grafted origin used pool body)
      (he : body.encoded = none) : Grafted origin used pool body.settle
  | replace {pool : Pool} {body : Body} {code : Template} {steps : List Step} {supply : Supply}
      (h : Grafted origin used pool body) (hc : used code)
      (hs : code.steps ⟨body.nextMark, pool⟩ = (.ok steps, supply)) :
      Grafted origin used supply.pool
        ({ body with nextMark := supply.nextMark }.replace steps [])
  | insert {pool : Pool} {body : Body} {code : Template} {steps : List Step} {supply : Supply}
      (h : Grafted origin used pool body) (hc : used code)
      (hs : code.steps ⟨body.nextMark, pool⟩ = (.ok steps, supply)) (index : Nat) :
      Grafted origin used supply.pool
        ({ body with nextMark := supply.nextMark }.insertAt index steps)
  /-- What refers to the instruction that steps are inserted before refers to the first of them. -/
  | insertBefore {pool : Pool} {body : Body} {code : Template} {first : Step} {rest : List Step}
      {supply : Supply} {anchor : Mark} {index : Nat} (h : Grafted origin used pool body)
      (hc : used code) (hs : code.steps ⟨body.nextMark, pool⟩ = (.ok (first :: rest), supply))
      (ha : body.position? anchor = some index) :
      Grafted origin used supply.pool
        (({ body with nextMark := supply.nextMark }.retarget anchor first.mark).insertAt index
          (first :: rest))
  | redirect {pool : Pool} {body : Body} {steps : List Step} (h : Grafted origin used pool body)
      (hs : List.Forall₂ Step.IsRedirected body.steps steps) :
      Grafted origin used pool { body.touch with steps := steps }

/-- The classes that edits with some templates may make of a class. -/
inductive ClassFile.Grafted (origin : ClassFile) (used : Template → Prop) : ClassFile → Prop
  | read : Grafted origin used origin
  | constants {file : ClassFile} {pool : Pool} (h : Grafted origin used file)
      (hp : file.pool.Extends pool) : Grafted origin used { file with pool := pool }
  | fieldAccess {file : ClassFile} (h : Grafted origin used file) (position : Nat)
      (access : UInt16) : Grafted origin used { file with
        fields := file.fields.modify position fun field => { field with access := access } }
  | field {file : ClassFile} {name descriptor : UInt16} (h : Grafted origin used file)
      (hn : (file.pool.utf8 name).isSome) (hd : (file.pool.utf8 descriptor).isSome)
      (access : UInt16) : Grafted origin used { file with
        fields := file.fields ++ [⟨access, name, descriptor, []⟩] }
  | method {file : ClassFile} {name descriptor : UInt16} {body : Option Body}
      (h : Grafted origin used file) (hn : (file.pool.utf8 name).isSome)
      (hd : (file.pool.utf8 descriptor).isSome)
      (hb : ∀ made ∈ body, made.Grafted origin used file.pool) (access : UInt16) :
      Grafted origin used { file with
        methods := file.methods ++ [⟨access, name, descriptor, body.toList.map .code⟩] }
  | overwrite {file : ClassFile} {body : Option Body} (h : Grafted origin used file)
      (hb : ∀ made ∈ body, made.Grafted origin used file.pool) (index : Nat) (access : UInt16) :
      Grafted origin used (file.modifyMethod index (Method.overwritten access body))
  | access {file : ClassFile} (h : Grafted origin used file) (index : Nat)
      (change : UInt16 → UInt16) : Grafted origin used (file.modifyMethod index fun method =>
        { method with access := change method.access })
  | body {file : ClassFile} {body : Body} (h : Grafted origin used file)
      (hb : body.Grafted origin used file.pool) (index : Nat) :
      Grafted origin used (file.setBody index body)

variable {origin file : ClassFile} {used : Template → Prop}

/-! ### Bodies -/

theorem MethodAttribute.mem_setBody {body : Body} {attributes : List MethodAttribute}
    {item : MethodAttribute} (h : item ∈ setBody body attributes) :
    item = .code body ∨ item ∈ attributes := by
  induction attributes using setBody.induct with
  | case1 => exact .inl (List.mem_singleton.mp h)
  | case2 other rest =>
    rcases List.mem_cons.mp h with rfl | h
    · exact .inl rfl
    · exact .inr (List.mem_cons_of_mem _ h)
  | case3 raw rest ih =>
    rcases List.mem_cons.mp h with rfl | h
    · exact .inr List.mem_cons_self
    · exact (ih h).imp_right (List.mem_cons_of_mem _)

/-- What an overwritten method has is its new body, or no body and was there. -/
theorem Method.mem_overwritten {access : UInt16} {body : Option Body} {method : Method}
    {item : MethodAttribute} (h : item ∈ (method.overwritten access body).attributes) :
    (∃ made ∈ body, item = .code made) ∨ item ∈ method.attributes ∧ item.body? = none := by
  have hbare : ∀ other ∈ method.withoutBody.attributes,
      other ∈ method.attributes ∧ other.body? = none := by
    intro other hother
    obtain ⟨hmem, hnone⟩ := List.mem_filter.mp hother
    exact ⟨hmem, Option.isNone_iff_eq_none.mp hnone⟩
  cases body with
  | none => exact .inr (hbare item h)
  | some made =>
    rcases MethodAttribute.mem_setBody h with rfl | h
    · exact .inl ⟨made, rfl, rfl⟩
    · exact .inr (hbare item h)

theorem exists_of_mem_modify {α : Type} {change : α → α} {items : List α} {index : Nat} {value : α}
    (h : value ∈ items.modify index change) :
    value ∈ items ∨ ∃ item ∈ items, value = change item := by
  obtain ⟨i, hi⟩ := List.mem_iff_getElem?.mp h
  rw [List.getElem?_modify] at hi
  obtain ⟨item, hitem, rfl⟩ := Option.map_eq_some_iff.mp hi
  have hmem := List.mem_of_getElem? hitem
  split_ifs
  · exact .inr ⟨item, hmem, rfl⟩
  · exact .inl hmem

/-- The bodies of a class under edits are those that edits make. -/
theorem ClassFile.Grafted.bodies (h : origin.Grafted used file) :
    ∀ method ∈ file.methods, ∀ body, .code body ∈ method.attributes →
      body.Grafted origin used file.pool := by
  induction h with
  | read => exact fun method hm body hb => .read hm hb
  | constants h hp ih => exact fun method hm body hb => (ih method hm body hb).constants hp
  | fieldAccess h position access ih => exact ih
  | field h hn hd access ih => exact ih
  | method h hn hd hmade access ih =>
    intro method hm body hb
    rcases List.mem_append.mp hm with hm | hm
    · exact ih method hm body hb
    · obtain rfl := List.mem_singleton.mp hm
      obtain ⟨made, hin, he⟩ := List.mem_map.mp hb
      obtain rfl := MethodAttribute.code.inj he
      exact hmade made (Option.mem_toList.mp hin)
  | overwrite h hmade index access ih =>
    intro method hm body hb
    rcases exists_of_mem_modify hm with hm | ⟨old, hold, rfl⟩
    · exact ih method hm body hb
    · rcases Method.mem_overwritten hb with ⟨made, hin, he⟩ | ⟨hb, -⟩
      · obtain rfl := MethodAttribute.code.inj he
        exact hmade body hin
      · exact ih old hold body hb
  | access h index change ih =>
    intro method hm body hb
    rcases exists_of_mem_modify hm with hm | ⟨old, hold, rfl⟩
    · exact ih method hm body hb
    · exact ih old hold body hb
  | body h hmade index ih =>
    intro method hm body hb
    rcases exists_of_mem_modify hm with hm | ⟨old, hold, rfl⟩
    · exact ih method hm body hb
    · rcases MethodAttribute.mem_setBody hb with he | hb
      · obtain rfl := MethodAttribute.code.inj he
        exact hmade
      · exact ih old hold body hb

theorem Method.mem_of_body? {method : Method} {body : Body} (h : method.body? = some body) :
    .code body ∈ method.attributes := by
  obtain ⟨item, hmem, hitem⟩ := List.exists_of_findSome?_eq_some h
  cases item with
  | code found =>
    obtain rfl := Option.some.inj hitem
    exact hmem
  | other raw => nomatch hitem

theorem ClassFile.Grafted.body? {graft : Graft} (h : origin.Grafted used graft.file) {index : Nat}
    {body : Body} (hb : graft.body? index = some body) :
    body.Grafted origin used graft.file.pool := by
  obtain ⟨method, hmethod, hbody⟩ := Option.bind_eq_some_iff.mp hb
  exact h.bodies method (List.mem_of_getElem? hmethod) body (Method.mem_of_body? hbody)

/-! ### Insertions -/

namespace Body.Grafted

variable {pool : Pool} {body : Body} {code : Template} {steps : List Step} {supply : Supply}

/-- Where there is nothing to insert at, marks were given out all the same. -/
theorem unused (h : body.Grafted origin used pool)
    (hs : code.steps ⟨body.nextMark, pool⟩ = (.ok steps, supply)) :
    Body.Grafted origin used supply.pool { body with nextMark := supply.nextMark } := by
  obtain ⟨hpool, hmarks, -⟩ := Template.steps_spec hs
  exact (h.constants hpool).marks (Nat.le_trans (Nat.le_add_right _ _) hmarks)

theorem insertAfter (h : body.Grafted origin used pool) (hc : used code)
    (hs : code.steps ⟨body.nextMark, pool⟩ = (.ok steps, supply)) (anchor : Mark) :
    Body.Grafted origin used supply.pool
      ((Body.insertAfter { body with nextMark := supply.nextMark } anchor steps).getD
        { body with nextMark := supply.nextMark }) := by
  unfold Body.insertAfter
  cases Body.position? { body with nextMark := supply.nextMark } anchor with
  | none => exact h.unused hs
  | some index => exact h.insert hc hs (index + 1)

theorem insertBeforeOrNot (h : body.Grafted origin used pool) (hc : used code)
    (hs : code.steps ⟨body.nextMark, pool⟩ = (.ok steps, supply)) (anchor : Mark)
    (redirect : Bool) : Body.Grafted origin used supply.pool
      ((Body.insertBefore { body with nextMark := supply.nextMark } anchor steps redirect).getD
        { body with nextMark := supply.nextMark }) := by
  unfold Body.insertBefore
  cases hposition : Body.position? { body with nextMark := supply.nextMark } anchor with
  | none => exact h.unused hs
  | some index =>
    cases redirect with
    | false => exact h.insert hc hs index
    | true =>
      cases steps with
      | nil => exact h.insert hc hs index
      | cons first rest => exact h.insertBefore hc hs hposition

/-- Whatever an anchor is, what is inserted there is a template. -/
theorem insertSteps (h : body.Grafted origin used pool) (hc : used code)
    (hs : code.steps ⟨body.nextMark, pool⟩ = (.ok steps, supply)) (anchor : Anchor) (site : Mark)
    (history : MethodHistory) : Body.Grafted origin used supply.pool
      (Grafting.insertSteps anchor site steps { body with nextMark := supply.nextMark }
        history).1 := by
  cases anchor with
  | methodEntry =>
    unfold Grafting.insertSteps
    cases history.entryEnd with
    | some entryEnd => exact h.insertAfter hc hs entryEnd
    | none => exact h.insertBeforeOrNot hc hs site false
  | afterCall call => exact h.insertAfter hc hs _
  | beforeReturn | beforeCall call | offset place | index number =>
    exact h.insertBeforeOrNot hc hs site true

end Body.Grafted

namespace Grafting

variable {graft later : Graft} {patch : Patch} {edit : Edit} {note : Note} {index : Nat}

theorem grafted_insertAtSites {anchor : Anchor} {code : Template} {sites : List Mark}
    {body body' : Body} {history history' : MethodHistory} (hc : used code)
    (hb : body.Grafted origin used graft.file.pool)
    (h : insertAtSites anchor code sites body history graft = (.ok (body', history'), later)) :
    body'.Grafted origin used later.file.pool := by
  exact insertAtSites_induction (P := fun body _ last => body.Grafted origin used last.file.pool)
    (fun site _ body history before steps supply hbefore hsteps =>
      hbefore.insertSteps hc hsteps anchor site history) hb h

/-- Inserting code gives a method another body. -/
theorem grafted_insertAt {anchor : Anchor} {code : Template} (hc : used code)
    (hg : origin.Grafted used graft.file)
    (h : insertAt patch edit anchor code graft = (.ok note, later)) :
    origin.Grafted used later.file := by
  obtain ⟨index, method, -, -, h⟩ := insertAt_eq_ok h
  rcases h with ⟨-, -, -, rfl⟩ | ⟨-, body, body', history, between, hbody, -, hsites, rfl⟩
  · exact hg
  · have hbody' := grafted_insertAtSites hc (hg.body? hbody) hsites
    obtain ⟨pool, hpool, rfl⟩ := extends_insertAtSites hsites
    exact (hg.constants hpool).body hbody' index

/-! ### Members -/

theorem grafted_bodyOf {template : Template} {body : Body} (hc : used template)
    (h : bodyOf template graft = (.ok body, later)) :
    body.Grafted origin used later.file.pool := by
  obtain ⟨name, pool, steps, supply, hname, hsteps, rfl, rfl⟩ := bodyOf_eq_ok h
  have hnew : Body.Grafted origin used pool (Body.new name) :=
    .new (Interning.utf8Bytes_spec hname).2
  exact .settle (.replace hnew hc hsteps) rfl

/-- Adding a method appends it, or puts it in place of another. -/
theorem grafted_addMethod {access : List Modifier} {method : Signature} {code : Option Template}
    {overwrite : Bool} (hc : ∀ template ∈ code, used template)
    (hg : origin.Grafted used graft.file)
    (h : addMethod patch edit access method code overwrite graft = (.ok note, later)) :
    origin.Grafted used later.file := by
  obtain ⟨body, between, hbody, h⟩ := addMethod_eq_ok h
  have hbetween : origin.Grafted used between.file ∧
      ∀ made ∈ body, made.Grafted origin used between.file.pool := by
    rcases hbody with ⟨-, rfl, rfl⟩ | ⟨template, made, htemplate, rfl, hmade⟩
    · exact ⟨hg, by simp⟩
    · have hmade' : made.Grafted origin used between.file.pool :=
        grafted_bodyOf (hc template htemplate) hmade
      obtain ⟨pool, hextends, rfl⟩ := extends_bodyOf hmade
      refine ⟨hg.constants hextends, fun other hother => ?_⟩
      obtain rfl := Option.some.inj hother
      exact hmade'
  obtain ⟨hg', hmade⟩ := hbetween
  rcases h with ⟨other, -, -, hover⟩ | ⟨-, -, result, hadd⟩
  · rw [(overwriteMethod_eq_ok hover).2]
    exact hg'.overwrite hmade other _
  · obtain ⟨nameIndex, descriptorIndex, middle, pool, hname, hdescriptor, rfl⟩ :=
      changeAddMethod_eq_ok hadd
    obtain ⟨hx, hn⟩ := Interning.utf8Bytes_spec hname
    obtain ⟨hx', hd⟩ := Interning.utf8Bytes_spec hdescriptor
    have hpool := hx.trans hx'
    refine (hg'.constants hpool).method ?_ ?_ (fun made hin => (hmade made hin).constants hpool) _
    · exact Option.isSome_of_eq_some (hx'.grows.utf8 hn)
    · exact Option.isSome_of_eq_some hd

theorem grafted_addField {access : List Modifier} {field : Signature} {overwrite : Bool}
    (hg : origin.Grafted used graft.file)
    (h : addField edit access field overwrite graft = (.ok note, later)) :
    origin.Grafted used later.file := by
  rcases (addField_eq_ok h).2 with ⟨position, -, -, rfl⟩ | ⟨-, result, hadd⟩
  · exact hg.fieldAccess position _
  · obtain ⟨nameIndex, descriptorIndex, between, pool, hname, hdescriptor, rfl⟩ :=
      changeAddField_eq_ok hadd
    obtain ⟨hx, hn⟩ := Interning.utf8Bytes_spec hname
    obtain ⟨hx', hd⟩ := Interning.utf8Bytes_spec hdescriptor
    exact (hg.constants (hx.trans hx')).field (Option.isSome_of_eq_some (hx'.grows.utf8 hn))
      (Option.isSome_of_eq_some hd) _

/-! ### Bodies that are replaced -/

theorem grafted_bodyOrNew {body : Body} (hg : origin.Grafted used graft.file)
    (h : bodyOrNew index graft = (.ok body, later)) :
    origin.Grafted used later.file ∧ body.Grafted origin used later.file.pool := by
  rcases bodyOrNew_eq_ok h with ⟨hbody, rfl⟩ | ⟨name, pool, hname, -, rfl, rfl⟩
  · exact ⟨hg, hg.body? hbody⟩
  · obtain ⟨hx, hn⟩ := Interning.utf8Bytes_spec hname
    refine ⟨(hg.constants hx).access index fun access =>
      access &&& ~~~(Access.isAbstract ||| Access.isNative), .new hn⟩

/-- Replacing a body gives the method one of a template. -/
theorem grafted_replaceBody {code : Template} (hc : used code)
    (hg : origin.Grafted used graft.file)
    (h : replaceBody patch edit code graft = (.ok note, later)) :
    origin.Grafted used later.file := by
  obtain ⟨index, method, -, -, h⟩ := replaceBody_eq_ok h
  rcases h with ⟨-, -, -, rfl⟩ | ⟨-, -, body, between, steps, supply, hbody, hsteps, rfl⟩
  · exact hg
  · -- what is remembered of the method has changed, but not yet the class
    have hstart : origin.Grafted used
        (Graft.mk graft.file (graft.histories.insert index (.replaced patch.id))).file := hg
    obtain ⟨hbetween, hold⟩ := grafted_bodyOrNew hstart hbody
    exact (hbetween.constants (Template.steps_spec hsteps).1).body (hold.replace hc hsteps) index

/-! ### Calls that are redirected -/

/-- A step that calls a method, and has an opcode of a call, is a call. -/
theorem callKind?_eq {instruction : Instruction Mark} {pool : Pool} {callee : MemberName}
    {kind : CallKind} (h : instruction.calls pool callee = true)
    (hk : CallKind.ofOpcode? instruction.opcode = some kind) :
    instruction.callKind? = some kind := by
  cases instruction with
  | invoke op index => exact hk
  | invokeInterface index count => exact hk
  | _ => nomatch h

/-- Redirecting replaces calls by calls, and no other steps. -/
theorem isRedirected_redirectSteps {body : Body} {callee replacement : MemberName}
    {kind : Option CallKind} {position : Nat} {done steps : List Step}
    (h : redirectSteps edit callee replacement kind position done (body.steps.map fun step =>
      (step, body.isInitial step.mark && step.instruction.calls graft.file.pool callee)) graft =
        (.ok steps, later)) :
    ∃ made, steps = done.reverse ++ made ∧ List.Forall₂ Step.IsRedirected body.steps made := by
  obtain ⟨_, -, -, made, hmade, hall⟩ := redirectSteps_eq_ok h
  refine ⟨made, hmade, (List.forall₂_map_left_iff.mp hall).imp fun step step' hyields => ?_⟩
  unfold Yields at hyields
  split_ifs at hyields with hcall
  · obtain ⟨hmark, position, before, after, -, -, hstep⟩ := hyields
    obtain ⟨oldKind, number, pool, hkind, -, -, hmade, -⟩ := redirectStep_eq_ok hstep
    have hold := callKind?_eq ((Bool.and_eq_true _ _).mp hcall).2 hkind
    exact ⟨hmark, .inr ⟨Option.isSome_of_eq_some hold, _, number, _, hmade⟩⟩
  · rw [hyields]
    exact ⟨rfl, .inl rfl⟩

theorem grafted_redirectIn {callee replacement : MemberName} {kind : Option CallKind} {count : Nat}
    (hg : origin.Grafted used graft.file)
    (h : redirectIn patch edit callee replacement kind index graft = (.ok count, later)) :
    origin.Grafted used later.file := by
  rcases redirectIn_eq_ok h with ⟨-, rfl⟩ | ⟨body, steps, between, hbody, -, hsteps, rfl⟩
  · exact hg
  · obtain ⟨made, rfl, hmade⟩ := isRedirected_redirectSteps hsteps
    obtain ⟨pool, hpool, rfl⟩ := extends_redirectSteps hsteps
    exact (hg.constants hpool).body (((hg.body? hbody).constants hpool).redirect hmade) index

theorem grafted_redirectInAll {callee replacement : MemberName} {kind : Option CallKind}
    {indices : List Nat} {count count' : Nat} (hg : origin.Grafted used graft.file)
    (h : redirectInAll patch edit callee replacement kind indices count graft =
      (.ok count', later)) : origin.Grafted used later.file := by
  exact redirectInAll_induction (P := fun last => origin.Grafted used last.file)
    (fun index _ before more after hbefore hstep => grafted_redirectIn hbefore hstep) hg h

theorem grafted_redirectCall {callee replacement : MemberName} {kind : Option CallKind}
    {required : Bool} (hg : origin.Grafted used graft.file)
    (h : redirectCall patch edit callee replacement kind required graft = (.ok note, later)) :
    origin.Grafted used later.file := by
  rcases eq_or_of_redirectCall h with rfl | ⟨indices, count, hall⟩
  · exact hg
  · exact grafted_redirectInAll hg hall

/-! ### Patches -/

/-- An edit leaves a class that edits may make. -/
theorem grafted_apply (hc : ∀ code ∈ edit.code?, used code) (hg : origin.Grafted used graft.file)
    (h : apply patch edit graft = (.ok note, later)) : origin.Grafted used later.file := by
  cases edit with
  | addMethod access method code overwrite => exact grafted_addMethod hc hg h
  | addField access field overwrite => exact grafted_addField hg h
  | replaceBody code => exact grafted_replaceBody (hc code rfl) hg h
  | insertAt anchor code => exact grafted_insertAt (hc code rfl) hg h
  | redirectCall callee replacement kind required => exact grafted_redirectCall hg h

theorem grafted_mapM {edits : List Edit} (hc : ∀ edit ∈ edits, ∀ code ∈ edit.code?, used code)
    (hg : origin.Grafted used graft.file) {notes : List Note}
    (h : (edits.mapM (apply patch)) graft = (.ok notes, later)) :
    origin.Grafted used later.file := by
  induction edits generalizing graft notes with
  | nil =>
    obtain ⟨-, rfl⟩ := ExceptT.pure_eq_ok.mp h
    exact hg
  | cons edit rest ih =>
    rw [List.mapM_cons] at h
    obtain ⟨hfirst, hrest⟩ := List.forall_mem_cons.mp hc
    obtain ⟨note, between, hedit, h⟩ := ExceptT.bind_eq_ok.mp h
    obtain ⟨others, last, hothers, h⟩ := ExceptT.bind_eq_ok.mp h
    obtain ⟨-, rfl⟩ := ExceptT.pure_eq_ok.mp h
    exact ih hrest (grafted_apply hfirst hg hedit) hothers

end Grafting

namespace Graft

variable {graft : Graft}

theorem grafted_applyPatch {patch : Patch}
    (hc : ∀ edit ∈ patch.edits, ∀ code ∈ edit.code?, used code)
    (hg : origin.Grafted used graft.file) :
    origin.Grafted used (graft.applyPatch patch).1.file := by
  obtain ⟨result, later, hrun⟩ : ∃ result later,
      (patch.edits.mapM (Grafting.apply patch)).run graft = (result, later) := ⟨_, _, rfl⟩
  unfold applyPatch
  rw [hrun]
  cases result with
  | error fault => exact hg
  | ok notes => exact Grafting.grafted_mapM hc hg hrun

theorem grafted_applyPatches {patches : List Patch}
    (hc : ∀ patch ∈ patches, ∀ edit ∈ patch.edits, ∀ code ∈ edit.code?, used code)
    (hg : origin.Grafted used graft.file) :
    origin.Grafted used (graft.applyPatches patches).1.file := by
  induction patches generalizing graft with
  | nil => exact hg
  | cons patch rest ih =>
    obtain ⟨hfirst, hrest⟩ := List.forall_mem_cons.mp hc
    exact ih hrest (grafted_applyPatch hfirst hg)

end Graft

/-- Patches leave a class that edits with their templates may make. -/
theorem ClassFile.grafted_applyPatches (file : ClassFile) {patches : List Patch}
    (hc : ∀ patch ∈ patches, ∀ edit ∈ patch.edits, ∀ code ∈ edit.code?, used code) :
    file.Grafted used (file.applyPatches patches).1 := by
  have hstart : file.Grafted used (Graft.start file).file := .read
  exact Graft.grafted_applyPatches hc hstart

end ClassGraft

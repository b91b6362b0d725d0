import ClassGraft.Proofs.Class.Packed
import ClassGraft.Proofs.Graft.Precedence

/-!
# What edits leave of a member

A field or a method stays at its place whatever edits do, with its names and with all that it has
besides a body.  What a turn may make of it depends on the kind of edit (`Turn.leaves`): an added
member of the same name gives it other flags, and a method may get another body or its first one.
Turn by turn this says what is left of a member after a run (`Graft.Leads.field` and
`Graft.Leads.method`); where no turn overwrote the method, replaced its body or edited it, it is as
it was.
-/

namespace ClassGraft

/-- The flags of a member that is no longer abstract or native. -/
def Access.concrete (flags : UInt16) : UInt16 :=
  flags &&& ~~~(Access.isAbstract ||| Access.isNative)

namespace Turn

variable (turn : Turn)

/-- Whether an added field takes the place of the one at an index. -/
def overwritesField (index : Nat) : Bool :=
  match turn.edit with
  | .addField _ field true =>
    turn.before.file.fieldIndex? field.name field.descriptor == some index
  | _ => false

/-- Whether the turn is about the code of the method at an index: it gives the method another body,
or inserts or redirects something in it. -/
def touches (index : Nat) : Bool :=
  turn.overwrites index || turn.replaces index || turn.edits index

/-- What a turn may make of a field. -/
inductive LeavesField (index : Nat) (field : Field) : Field → Prop
  | same : LeavesField index field field
  | overwritten (h : turn.overwritesField index = true) (access : UInt16) :
      LeavesField index field { field with access := access }

/-- What a turn may make of a method. -/
inductive Leaves (index : Nat) (method : Method) : Method → Prop
  | same : Leaves index method method
  | body (hb : method.body?.isSome) (body : Body) : Leaves index method (method.withBody body)
  | firstBody (hb : method.body? = none) (h : turn.replaces index = true) (body : Body) :
      Leaves index method
        ({ method with access := Access.concrete method.access }.withBody body)
  | overwritten (h : turn.overwrites index = true) (access : UInt16) (body : Option Body) :
      Leaves index method (method.overwritten access body)

end Turn

/-- What is left of a field after turns: all but its flags, and these too unless it was
overwritten. -/
structure Field.Remains (turns : List Turn) (index : Nat) (field later : Field) : Prop where
  name : later.name = field.name
  descriptor : later.descriptor = field.descriptor
  attributes : later.attributes = field.attributes
  access : later.access = field.access ∨ ∃ turn ∈ turns, turn.overwritesField index = true

/-- What is left of a method after turns: all but its flags and its body.  The flags stay as well,
unless it was overwritten; if it had no body and was given one, it is no longer abstract or
native. -/
structure Method.Remains (turns : List Turn) (index : Nat) (method later : Method) : Prop where
  name : later.name = method.name
  descriptor : later.descriptor = method.descriptor
  others : later.others = method.others
  access : later.access = method.access ∨ (∃ turn ∈ turns, turn.overwrites index = true) ∨
    method.body? = none ∧ (∃ turn ∈ turns, turn.replaces index = true) ∧
      later.access = Access.concrete method.access

/-- What is left of a method after turns, with what that says of its body. -/
structure Method.IsLeft (turns : List Turn) (index : Nat) (method later : Method) : Prop
    extends Method.Remains turns index method later where
  body? : method.body?.isSome → later.body?.isSome ∨ ∃ turn ∈ turns, turn.overwrites index = true
  same : (∀ turn ∈ turns, turn.touches index = false) → later = method

/-! ### Methods -/

theorem Access.concrete_concrete (flags : UInt16) :
    Access.concrete (Access.concrete flags) = Access.concrete flags := by
  rw [concrete, concrete, UInt16.and_assoc, UInt16.and_self]

namespace MethodAttribute

theorem filterMap_other?_setBody (body : Body) (attributes : List MethodAttribute) :
    (setBody body attributes).filterMap other? = attributes.filterMap other? := by
  induction attributes using setBody.induct with
  | case1 => rfl
  | case2 old rest => rfl
  | case3 raw rest ih =>
    have hraw : other? (.other raw) = some raw := rfl
    rw [setBody, List.filterMap_cons_some hraw, List.filterMap_cons_some hraw, ih]

/-- The body that is there may be set again. -/
theorem setBody_of_findSome? {body : Body} {attributes : List MethodAttribute}
    (h : attributes.findSome? body? = some body) : setBody body attributes = attributes := by
  induction attributes using setBody.induct with
  | case1 => cases h
  | case2 old rest => rw [setBody, Option.some.inj h]
  | case3 raw rest ih => rw [setBody, ih h]

end MethodAttribute

namespace Method

variable (method : Method)

@[simp] theorem others_withBody (body : Body) : (method.withBody body).others = method.others :=
  MethodAttribute.filterMap_other?_setBody body method.attributes

@[simp] theorem others_withoutBody : method.withoutBody.others = method.others := by
  unfold others withoutBody
  rw [List.filterMap_filter]
  refine List.filterMap_congr fun item _ => ?_
  cases item with
  | code body => rfl
  | other raw => rfl

theorem others_overwritten (access : UInt16) (body : Option Body) :
    (method.overwritten access body).others = method.others := by
  cases body with
  | none => exact method.others_withoutBody
  | some made => exact (others_withBody _ made).trans method.others_withoutBody

variable {method}

theorem withBody_self {body : Body} (h : method.body? = some body) :
    method.withBody body = method := by
  unfold withBody
  rw [MethodAttribute.setBody_of_findSome? h]

end Method

theorem ClassFile.modifyMethod_modifyMethod (file : ClassFile) (index : Nat)
    (first second : Method → Method) :
    (file.modifyMethod index first).modifyMethod index second =
      file.modifyMethod index (second ∘ first) := by
  unfold modifyMethod
  rw [List.modify_modify_eq]

/-! ### Steps of edits -/

namespace Graft

variable {graft later last : Graft} {index other : Nat} {P P' : Field → Field → Prop}
  {Q Q' : Method → Method → Prop}

/-- Whether the field and the method at an index stay there as something that they may become. -/
structure Carries (index : Nat) (P : Field → Field → Prop) (Q : Method → Method → Prop)
    (graft later : Graft) : Prop where
  field : ∀ field, graft.file.fields[index]? = some field →
    ∃ field', later.file.fields[index]? = some field' ∧ P field field'
  method : ∀ method, graft.file.methods[index]? = some method →
    ∃ method', later.file.methods[index]? = some method' ∧ Q method method'

theorem Carries.refl (hP : ∀ field, P field field) (hQ : ∀ method, Q method method)
    (graft : Graft) : Carries index P Q graft graft :=
  ⟨fun field h => ⟨field, h, hP field⟩, fun method h => ⟨method, h, hQ method⟩⟩

theorem Carries.trans (hP : ∀ {a b c}, P a b → P b c → P a c)
    (hQ : ∀ {a b c}, Q a b → Q b c → Q a c) (h : Carries index P Q graft later)
    (h' : Carries index P Q later last) : Carries index P Q graft last := by
  refine ⟨fun field hfield => ?_, fun method hmethod => ?_⟩
  · obtain ⟨between, hbetween, hp⟩ := h.field field hfield
    obtain ⟨field', hfield', hp'⟩ := h'.field between hbetween
    exact ⟨field', hfield', hP hp hp'⟩
  · obtain ⟨between, hbetween, hq⟩ := h.method method hmethod
    obtain ⟨method', hmethod', hq'⟩ := h'.method between hbetween
    exact ⟨method', hmethod', hQ hq hq'⟩

theorem Carries.mono (h : Carries index P Q graft later)
    (hP : ∀ field field', P field field' → P' field field')
    (hQ : ∀ method method', Q method method' → Q' method method') :
    Carries index P' Q' graft later :=
  ⟨fun field hfield => (h.field field hfield).imp fun _ => And.imp_right (hP _ _),
    fun method hmethod => (h.method method hmethod).imp fun _ => And.imp_right (hQ _ _)⟩

/-- A change of a method, with more constants and with what is remembered of the method. -/
theorem carries_modify {change : Method → Method} {pool : Pool} {histories}
    (hP : ∀ field, P field field) (hQ : ∀ method, Q method method)
    (h : other = index → ∀ method, graft.file.methods[index]? = some method →
      Q method (change method)) :
    Carries index P Q graft
      ⟨(graft.withPool pool).file.modifyMethod other change, histories⟩ := by
  refine ⟨fun field hfield => ⟨field, hfield, hP field⟩, fun method hmethod => ?_⟩
  have hlater : (graft.file.methods.modify other change)[index]? =
      some (if other = index then change method else method) := by
    rw [List.getElem?_modify, hmethod]
    split_ifs <;> rfl
  refine ⟨_, hlater, ?_⟩
  split_ifs with hi
  · exact h hi method hmethod
  · exact hQ method

theorem body?_of_getElem? {method : Method} (h : graft.file.methods[index]? = some method) :
    graft.body? index = method.body? := by
  rw [body?, h, Option.bind_some]

end Graft

/-- Whether a method is another one, but for a body that both have. -/
def Method.HasOtherBody (method later : Method) : Prop :=
  later = method ∨ method.body?.isSome ∧ ∃ body, later = method.withBody body

theorem Method.HasOtherBody.trans {method later last : Method} (h : method.HasOtherBody later)
    (h' : later.HasOtherBody last) : method.HasOtherBody last := by
  rcases h with rfl | ⟨hsome, body, rfl⟩
  · exact h'
  · rcases h' with rfl | ⟨-, body', rfl⟩
    · exact .inr ⟨hsome, body, rfl⟩
    · exact .inr ⟨hsome, body', Method.withBody_withBody ..⟩

namespace Grafting

variable {graft later : Graft} {patch : Patch} {edit : Edit} {note : Note} {index : Nat}

theorem carries_redirectInAll {callee replacement : MemberName} {kind : Option CallKind}
    {indices : List Nat} {count count' : Nat}
    (h : redirectInAll patch edit callee replacement kind indices count graft =
      (.ok count', later)) :
    Graft.Carries index Eq Method.HasOtherBody graft later := by
  refine redirectInAll_induction
    (P := fun last => Graft.Carries index Eq Method.HasOtherBody graft last)
    (fun other _ before more after hbefore hstep => ?_)
    (.refl (fun _ => rfl) (fun _ => .inl rfl) _) h
  refine Graft.Carries.trans Eq.trans Method.HasOtherBody.trans hbefore ?_
  rcases redirectIn_eq_ok hstep with ⟨-, rfl⟩ | ⟨body, steps, _, hbody, -, hsteps, rfl⟩
  · exact .refl (fun _ => rfl) (fun _ => .inl rfl) _
  · obtain ⟨pool, -, rfl⟩ := extends_redirectSteps hsteps
    refine Graft.carries_modify (fun _ => rfl) (fun _ => .inl rfl) ?_
    rintro rfl method hmethod
    rw [Graft.body?_of_getElem? hmethod] at hbody
    exact .inr ⟨Option.isSome_of_eq_some hbody, _, rfl⟩

end Grafting

/-! ### One turn -/

namespace Turn

variable {turn : Turn} {index : Nat}

/-- Whether the members at an index become what the turn may make of them. -/
abbrev LeavesMembers (turn : Turn) (index : Nat) : Prop :=
  Graft.Carries index (turn.LeavesField index) (turn.Leaves index) turn.before turn.after

theorem leaves_of_same (h : turn.after = turn.before) : turn.LeavesMembers index := by
  rw [LeavesMembers, h]
  exact .refl (fun _ => .same) (fun _ => .same) _

theorem leaves_of_modify {other : Nat} {change : Method → Method} {pool : Pool} {histories}
    (ha : turn.after = ⟨(turn.before.withPool pool).file.modifyMethod other change, histories⟩)
    (h : other = index → ∀ method, turn.before.file.methods[index]? = some method →
      turn.Leaves index method (change method)) : turn.LeavesMembers index := by
  rw [LeavesMembers, ha]
  exact Graft.carries_modify (fun _ => .same) (fun _ => .same) h

/-- A method that has a body may get another one. -/
theorem leaves_of_setBody {other : Nat} {body body' : Body} {pool : Pool} {histories}
    (hb : turn.before.body? other = some body)
    (ha : turn.after = ⟨(turn.before.withPool pool).file.setBody other body', histories⟩) :
    turn.LeavesMembers index := by
  refine leaves_of_modify ha ?_
  rintro rfl method hmethod
  rw [Graft.body?_of_getElem? hmethod] at hb
  exact .body (Option.isSome_of_eq_some hb) body'

theorem leaves_addMethod (h : turn.IsValid) {access : List Modifier} {method : Signature}
    {code : Option Template} {overwrite : Bool}
    (he : turn.edit = .addMethod access method code overwrite) : turn.LeavesMembers index := by
  unfold IsValid at h
  rw [he] at h
  obtain ⟨body, between, hbody, hlast⟩ := Grafting.addMethod_eq_ok h
  have hbetween : ∃ pool, between = turn.before.withPool pool := by
    rcases hbody with ⟨-, -, rfl⟩ | ⟨template, made, -, -, hmade⟩
    · exact ⟨_, rfl⟩
    · obtain ⟨pool, -, hpool⟩ := Grafting.extends_bodyOf hmade
      exact ⟨pool, hpool⟩
  obtain ⟨pool, rfl⟩ := hbetween
  rcases hlast with ⟨other, hother, rfl, hover⟩ | ⟨-, -, result, hadd⟩
  · refine leaves_of_modify (Grafting.overwriteMethod_eq_ok hover).2 fun hindex old _ => ?_
    refine .overwritten ?_ _ body
    rw [overwrites, he]
    exact beq_iff_eq.mpr (hindex ▸ hother)
  · obtain ⟨nameIndex, descriptorIndex, _, later, -, -, hafter⟩ :=
      Grafting.changeAddMethod_eq_ok hadd
    rw [LeavesMembers, hafter]
    refine ⟨fun field hfield => ⟨field, hfield, .same⟩, fun old hold => ⟨old, ?_, .same⟩⟩
    exact (List.getElem?_append_left (List.getElem?_eq_some_iff.mp hold).1).trans hold

theorem leaves_addField (h : turn.IsValid) {access : List Modifier} {field : Signature}
    {overwrite : Bool} (he : turn.edit = .addField access field overwrite) :
    turn.LeavesMembers index := by
  unfold IsValid at h
  rw [he] at h
  rcases (Grafting.addField_eq_ok h).2 with ⟨position, hposition, rfl, hafter⟩ | ⟨-, result, hadd⟩
  · rw [LeavesMembers, hafter]
    refine ⟨fun old hold => ?_, fun old hold => ⟨old, hold, .same⟩⟩
    by_cases hindex : position = index
    · subst hindex
      refine ⟨{ old with access := Modifier.flags access }, ?_, .overwritten ?_ _⟩
      · show (turn.before.file.fields.modify position _)[position]? = _
        rw [List.getElem?_modify_eq, hold]
        rfl
      · rw [overwritesField, he]
        exact beq_iff_eq.mpr hposition
    · refine ⟨old, ?_, .same⟩
      show (turn.before.file.fields.modify position _)[index]? = _
      rw [List.getElem?_modify_ne _ _ hindex, hold]
  · obtain ⟨nameIndex, descriptorIndex, between, pool, -, -, hafter⟩ :=
      Grafting.changeAddField_eq_ok hadd
    rw [LeavesMembers, hafter]
    refine ⟨fun old hold => ⟨old, ?_, .same⟩, fun old hold => ⟨old, hold, .same⟩⟩
    exact (List.getElem?_append_left (List.getElem?_eq_some_iff.mp hold).1).trans hold

theorem leaves_replaceBody (h : turn.IsValid) {code : Template}
    (he : turn.edit = .replaceBody code) : turn.LeavesMembers index := by
  unfold IsValid at h
  rw [he] at h
  obtain ⟨other, method, hmethod, hother, hrun⟩ := Grafting.replaceBody_eq_ok h
  rcases hrun with ⟨winner, -, -, hsame⟩ | ⟨-, -, body, between, steps, supply, hbody, -, hafter⟩
  · exact leaves_of_same hsame
  rcases Grafting.bodyOrNew_eq_ok hbody with ⟨hold, rfl⟩ | ⟨name, pool, -, hnone, -, rfl⟩
  · exact leaves_of_setBody hold hafter
  · -- the flags change first, and then the body
    change turn.after = ⟨((turn.before.withPool supply.pool).file.modifyMethod other fun method =>
      { method with access := Access.concrete method.access }).modifyMethod other
        fun method => method.withBody _, _⟩ at hafter
    rw [ClassFile.modifyMethod_modifyMethod] at hafter
    refine leaves_of_modify hafter ?_
    rintro rfl old hindex
    have hold : turn.before.body? other = none := hnone
    rw [Graft.body?_of_getElem? hindex] at hold
    refine .firstBody hold ?_ _
    rw [replaces, he]
    exact beq_iff_eq.mpr (target?_eq_some hmethod hother)

theorem leaves_insertAt (h : turn.IsValid) {anchor : Anchor} {code : Template}
    (he : turn.edit = .insertAt anchor code) : turn.LeavesMembers index := by
  unfold IsValid at h
  rw [he] at h
  obtain ⟨other, method, -, -, hrun⟩ := Grafting.insertAt_eq_ok h
  rcases hrun with ⟨winner, -, -, hsame⟩ |
    ⟨-, body, body', history, between, hbody, -, hsites, hafter⟩
  · exact leaves_of_same hsame
  · obtain ⟨pool, -, rfl⟩ := Grafting.extends_insertAtSites hsites
    exact leaves_of_setBody hbody hafter

theorem leaves_redirectCall (h : turn.IsValid) {callee replacement : MemberName}
    {kind : Option CallKind} {required : Bool}
    (he : turn.edit = .redirectCall callee replacement kind required) :
    turn.LeavesMembers index := by
  unfold IsValid at h
  rw [he] at h
  rcases Grafting.eq_or_of_redirectCall h with hsame | ⟨indices, count, hall⟩
  · exact leaves_of_same hsame
  · refine (Grafting.carries_redirectInAll hall).mono (fun _ _ heq => heq ▸ .same) ?_
    rintro method method' (rfl | ⟨hsome, body, rfl⟩)
    · exact .same
    · exact .body hsome body

/-- Members stay where they are, and become what the kind of edit makes of them. -/
theorem leaves (h : turn.IsValid) (index : Nat) : turn.LeavesMembers index := by
  cases he : turn.edit with
  | addMethod access method code overwrite => exact leaves_addMethod h he
  | addField access field overwrite => exact leaves_addField h he
  | replaceBody code => exact leaves_replaceBody h he
  | insertAt anchor code => exact leaves_insertAt h he
  | redirectCall callee replacement kind required => exact leaves_redirectCall h he

/-- A method that a turn is not about is as it was. -/
theorem Leaves.eq_of_not_touches {method method' : Method} (hk : turn.Leaves index method method')
    (h : turn.IsValid) (hm : turn.before.file.methods[index]? = some method)
    (hm' : turn.after.file.methods[index]? = some method') (hn : turn.touches index = false) :
    method' = method := by
  simp only [touches, Bool.or_eq_false_iff, and_assoc] at hn
  obtain ⟨hover, hreplaces, hedits⟩ := hn
  have hbody : turn.after = turn.before ∨ turn.after.body? index = turn.before.body? index := by
    cases turn.acts h index with
    | overwriting hyes => exact absurd (hover.symm.trans hyes) Bool.false_ne_true
    | replacing _ hyes => exact absurd (hreplaces.symm.trans hyes) Bool.false_ne_true
    | dropping _ _ _ _ _ same => exact .inl same
    | editing _ _ hyes => exact absurd (hedits.symm.trans hyes) Bool.false_ne_true
    | sparing _ _ _ _ spares => exact .inr (spares.body? (List.getElem?_eq_some_iff.mp hm).1)
  have hsame : method'.body? = method.body? := by
    rw [← Graft.body?_of_getElem? hm, ← Graft.body?_of_getElem? hm']
    exact hbody.elim (congrArg (Graft.body? · index)) id
  cases hk with
  | same => rfl
  | body hb made =>
    rw [Method.body?_withBody] at hsame
    exact Method.withBody_self hsame.symm
  | firstBody _ hyes => exact absurd (hreplaces.symm.trans hyes) Bool.false_ne_true
  | overwritten hyes => exact absurd (hover.symm.trans hyes) Bool.false_ne_true

end Turn

/-! ### Runs of turns -/

variable {turns : List Turn} {turn : Turn} {index : Nat}

theorem exists_append_of_exists {p : Turn → Prop} (h : ∃ other ∈ turns, p other) :
    ∃ other ∈ turns ++ [turn], p other :=
  h.imp fun _ => And.imp_left (List.mem_append_left _)

theorem Field.Remains.step {field field' field'' : Field} (h : field.Remains turns index field')
    (hk : turn.LeavesField index field' field'') :
    field.Remains (turns ++ [turn]) index field'' := by
  cases hk with
  | same => exact { h with access := h.access.imp_right exists_append_of_exists }
  | overwritten hover access =>
    exact ⟨h.name, h.descriptor, h.attributes, .inr ⟨turn, List.mem_concat_self, hover⟩⟩

theorem Method.Remains.append {method method' : Method} (h : method.Remains turns index method')
    (turn : Turn) : method.Remains (turns ++ [turn]) index method' :=
  { h with
    access := h.access.imp_right (.imp exists_append_of_exists
      (And.imp_right (And.imp_left exists_append_of_exists))) }

/-- Whatever body is set, the rest of the method remains. -/
theorem Method.Remains.withBody {method method' : Method} (h : method.Remains turns index method')
    (body : Body) : method.Remains turns index (method'.withBody body) :=
  ⟨h.name, h.descriptor, (method'.others_withBody body).trans h.others, h.access⟩

/-- A method without a body had none at the start either, unless it was overwritten, and has the flags
that it had, up to those of a method without a body. -/
theorem Method.IsLeft.access_of_body?_eq_none {method method' : Method}
    (h : method.IsLeft turns index method') (hb : method'.body? = none) :
    (∃ turn ∈ turns, turn.overwrites index = true) ∨
      method.body? = none ∧ Access.concrete method'.access = Access.concrete method.access := by
  cases hstart : method.body? with
  | some body => exact .inl ((h.body? (Option.isSome_of_eq_some hstart)).resolve_left (by simp [hb]))
  | none =>
    rcases h.access with hsame | hover | ⟨-, -, hconcrete⟩
    · exact .inr ⟨rfl, congrArg Access.concrete hsame⟩
    · exact .inl hover
    · exact .inr ⟨rfl, hconcrete ▸ Access.concrete_concrete method.access⟩

/-- What is left of a method after one more turn. -/
theorem Method.IsLeft.step {method method' method'' : Method} (h : method.IsLeft turns index method')
    (hk : turn.Leaves index method' method'')
    (hsame : turn.touches index = false → method'' = method') :
    method.IsLeft (turns ++ [turn]) index method'' := by
  have hall : (∀ other ∈ turns ++ [turn], other.touches index = false) → method'' = method := by
    intro hn
    obtain ⟨hbefore, hlast⟩ := List.forall_mem_append.mp hn
    exact (hsame (hlast turn (List.mem_singleton_self turn))).trans (h.same hbefore)
  have hmore := h.toRemains.append turn
  have hbody : method.body?.isSome → method'.body?.isSome ∨
      ∃ other ∈ turns ++ [turn], other.overwrites index = true :=
    fun hsome => (h.body? hsome).imp_right exists_append_of_exists
  cases hk with
  | same => exact ⟨hmore, hbody, hall⟩
  | body hb made =>
    exact ⟨hmore.withBody made, fun _ => .inl (by simp), hall⟩
  | firstBody hb hr made =>
    refine ⟨⟨hmore.name, hmore.descriptor, (others_withBody _ made).trans hmore.others, ?_⟩,
      fun _ => .inl (by simp), hall⟩
    have hreplaces : ∃ other ∈ turns ++ [turn], other.replaces index = true :=
      ⟨turn, List.mem_concat_self, hr⟩
    exact (h.access_of_body?_eq_none hb).elim
      (fun hover => .inr (.inl (exists_append_of_exists hover)))
      fun hnone => .inr (.inr ⟨hnone.1, hreplaces, hnone.2⟩)
  | overwritten hover access made =>
    have hyes : ∃ other ∈ turns ++ [turn], other.overwrites index = true :=
      ⟨turn, List.mem_concat_self, hover⟩
    obtain ⟨hname, hdescriptor⟩ := @names_overwritten access made method'
    exact ⟨⟨hname.trans hmore.name, hdescriptor.trans hmore.descriptor,
      (method'.others_overwritten access made).trans hmore.others, .inr (.inl hyes)⟩,
      fun _ => .inr hyes, hall⟩

namespace Graft.Leads

variable {file : ClassFile} {last : Graft}

/-- What is left of the fields after turns. -/
theorem field (h : (Graft.start file).Leads turns last) {field : Field}
    (hf : file.fields[index]? = some field) :
    ∃ field', last.file.fields[index]? = some field' ∧ field.Remains turns index field' := by
  induction h with
  | refl => exact ⟨field, hf, rfl, rfl, rfl, .inl rfl⟩
  | step _ valid ih =>
    obtain ⟨between, hbetween, hremains⟩ := ih
    obtain ⟨field', hfield', hk⟩ := (Turn.leaves valid index).field between hbetween
    exact ⟨field', hfield', hremains.step hk⟩

/-- What is left of the methods after turns. -/
theorem method (h : (Graft.start file).Leads turns last) {method : Method}
    (hm : file.methods[index]? = some method) :
    ∃ method', last.file.methods[index]? = some method' ∧ method.IsLeft turns index method' := by
  induction h with
  | refl => exact ⟨method, hm, ⟨rfl, rfl, rfl, .inl rfl⟩, fun hsome => .inl hsome, fun _ => rfl⟩
  | step _ valid ih =>
    obtain ⟨between, hbetween, hleft⟩ := ih
    obtain ⟨method', hmethod', hk⟩ := (Turn.leaves valid index).method between hbetween
    exact ⟨method', hmethod', hleft.step hk (hk.eq_of_not_touches valid hbetween hmethod')⟩

end Graft.Leads

end ClassGraft

import ClassGraft.Graft.Edits
import ClassGraft.Proofs.Graft.Inserting

/-!
# What edits leave alone

Edits only add constants and methods (`Graft.Grows`), and one that is not about a method leaves its
body and what is remembered of it as they were (`Graft.Spares`).  What an edit that did not fail did
is said once for each kind of edit, by taking its steps apart.
-/

namespace ClassGraft

/-! ### Classes that grow -/

/-- The names and descriptors of the methods, in order. -/
def ClassFile.members (file : ClassFile) : List (UInt16 × UInt16) :=
  file.methods.map fun method => (method.name, method.descriptor)

/-- What a change of one item leaves as it is stays the same for all items. -/
theorem map_modify_of_eq {α β : Type} {f : α → β} {change : α → α}
    (hc : ∀ item, f (change item) = f item) (items : List α) (index : Nat) :
    (items.modify index change).map f = items.map f := by
  refine List.ext_getElem? fun i => ?_
  rw [List.getElem?_map, List.getElem?_map, List.getElem?_modify]
  cases items[i]? with
  | none => rfl
  | some item => by_cases hi : index = i <;> simp [hi, hc item]

/-- A change of one method that keeps its name. -/
theorem ClassFile.members_modifyMethod (file : ClassFile) (index : Nat)
    {change : Method → Method} (hc : ∀ method, (change method).name = method.name ∧
      (change method).descriptor = method.descriptor) :
    (file.modifyMethod index change).members = file.members :=
  map_modify_of_eq (fun method => Prod.mk.injEq .. ▸ hc method) file.methods index

theorem Method.names_overwritten {access : UInt16} {body : Option Body} (method : Method) :
    (method.overwritten access body).name = method.name ∧
      (method.overwritten access body).descriptor = method.descriptor := by
  cases body <;> exact ⟨rfl, rfl⟩

namespace Graft

/-- Whether constants and methods were only added. -/
structure Grows (graft later : Graft) : Prop where
  pool : graft.file.pool.Extends later.file.pool
  members : graft.file.members <+: later.file.members

theorem Grows.refl (graft : Graft) : Grows graft graft := ⟨.refl _, List.prefix_rfl⟩

variable {graft later last : Graft} {index : Nat}

theorem Grows.trans (h : Grows graft later) (h' : Grows later last) : Grows graft last :=
  ⟨h.pool.trans h'.pool, h.members.trans h'.members⟩

theorem Grows.length_le (h : Grows graft later) :
    graft.file.methods.length ≤ later.file.methods.length := by
  simpa only [ClassFile.members, List.length_map] using h.members.length_le

/-- Whether in addition a method kept its body, if it has one, and what is remembered of it. -/
structure Spares (index : Nat) (graft later : Graft) : Prop extends Grows graft later where
  body? : index < graft.file.methods.length → later.body? index = graft.body? index
  history : later.history index = graft.history index

theorem Spares.refl (index : Nat) (graft : Graft) : Spares index graft graft :=
  ⟨.refl graft, fun _ => rfl, rfl⟩

theorem Spares.trans (h : Spares index graft later) (h' : Spares index later last) :
    Spares index graft last :=
  ⟨h.toGrows.trans h'.toGrows,
    fun hlt => (h'.body? (Nat.lt_of_lt_of_le hlt h.length_le)).trans (h.body? hlt),
    h'.history.trans h.history⟩

theorem lt_length_of_body? {body : Body} (h : graft.body? index = some body) :
    index < graft.file.methods.length := by
  obtain ⟨method, hmethod, -⟩ := Option.bind_eq_some_iff.mp h
  exact (List.getElem?_eq_some_iff.mp hmethod).1

theorem Spares.body (h : Spares index graft later) (body : Body)
    (hb : graft.body? index = some body) : later.body? index = some body :=
  (h.body? (lt_length_of_body? hb)).trans hb

theorem spares_withPool {pool : Pool} (h : graft.file.pool.Extends pool) :
    Spares index graft (graft.withPool pool) :=
  ⟨⟨h, List.prefix_rfl⟩, fun _ => rfl, rfl⟩

/-- A change of one method that keeps its name, with what is remembered of it. -/
theorem grows_modify {other : Nat} {change : Method → Method} {histories}
    (hc : ∀ method, (change method).name = method.name ∧
      (change method).descriptor = method.descriptor) :
    Grows graft ⟨graft.file.modifyMethod other change, histories⟩ :=
  ⟨.refl _, graft.file.members_modifyMethod other hc ▸ List.prefix_rfl⟩

theorem body?_modify_of_ne {other : Nat} (hne : other ≠ index) {change : Method → Method}
    {histories} :
    body? ⟨graft.file.modifyMethod other change, histories⟩ index = graft.body? index := by
  show ((graft.file.methods.modify other change)[index]?).bind Method.body? = _
  rw [List.getElem?_modify]
  simp only [if_neg hne, id_map']
  rfl

/-- A change of another method. -/
theorem spares_modify {other : Nat} (hne : other ≠ index) {change : Method → Method}
    (hc : ∀ method, (change method).name = method.name ∧
      (change method).descriptor = method.descriptor) :
    Spares index graft { graft with file := graft.file.modifyMethod other change } :=
  ⟨grows_modify hc, fun _ => body?_modify_of_ne hne, rfl⟩

theorem spares_setHistory {other : Nat} (hne : other ≠ index) (history : MethodHistory) :
    Spares index graft { graft with histories := graft.histories.insert other history } := by
  refine ⟨⟨.refl _, List.prefix_rfl⟩, fun _ => rfl, ?_⟩
  show (graft.histories.insert other history).getD index .untouched = _
  rw [Std.HashMap.getD_insert, if_neg (mt beq_iff_eq.mp hne)]
  rfl

/-- The body that is set is there, if the method is. -/
theorem body?_setBody_of_lt {file : ClassFile} (h : index < file.methods.length) (body : Body)
    {histories} : body? ⟨file.setBody index body, histories⟩ index = some body := by
  show ((file.methods.modify index _)[index]?).bind Method.body? = _
  rw [List.getElem?_modify_eq, List.getElem?_eq_getElem h]
  exact Method.body?_withBody _ body

theorem body?_setBody {body : Body} (h : graft.body? index = some body) (other : Body)
    {histories} : body? ⟨graft.file.setBody index other, histories⟩ index = some other :=
  body?_setBody_of_lt (lt_length_of_body? h) other

theorem history_insert_self (file : ClassFile) (histories : Std.HashMap Nat MethodHistory)
    (history : MethodHistory) :
    Graft.history ⟨file, histories.insert index history⟩ index = history :=
  Std.HashMap.getD_insert_self

end Graft

namespace Grafting

variable {graft later : Graft} {patch : Patch} {edit : Edit} {note : Note} {index other : Nat}

/-! ### Steps of edits -/

theorem spares_setBody (hne : other ≠ index) (body : Body) :
    Graft.Spares index graft { graft with file := graft.file.setBody other body } :=
  Graft.spares_modify hne fun _ => ⟨rfl, rfl⟩

theorem extends_bodyOf {template : Template} {body : Body}
    (h : bodyOf template graft = (.ok body, later)) :
    ∃ pool, graft.file.pool.Extends pool ∧ later = graft.withPool pool := by
  obtain ⟨name, pool, steps, supply, hname, hsteps, -, rfl⟩ := bodyOf_eq_ok h
  exact ⟨_, (Interning.onlyAdds_utf8 _ _ _ _ hname).trans (Template.steps_spec hsteps).1, rfl⟩

/-! ### Members -/

/-- A method that is added comes after those that are there. -/
theorem spares_changeAddMethod {access : UInt16} {name descriptor : String} {body : Option Body}
    {result : Nat}
    (h : change (Changing.addMethod access name descriptor body) graft = (.ok result, later)) :
    Graft.Spares index graft later := by
  obtain ⟨nameIndex, descriptorIndex, between, pool, hname, hdescriptor, rfl⟩ :=
    changeAddMethod_eq_ok h
  refine ⟨⟨(Interning.onlyAdds_utf8 _ _ _ _ hname).trans
    (Interning.onlyAdds_utf8 _ _ _ _ hdescriptor), ?_⟩, fun hlt => ?_, rfl⟩
  · unfold ClassFile.members
    rw [List.map_append]
    exact List.prefix_append _ _
  · unfold Graft.body?
    rw [List.getElem?_append_left hlt]

/-- Adding a method spares all others. -/
theorem spares_addMethod {access : List Modifier} {method : Signature} {code : Option Template}
    {overwrite : Bool} (hne : graft.file.methodIndex? method.name method.descriptor ≠ some index)
    (h : addMethod patch edit access method code overwrite graft = (.ok note, later)) :
    Graft.Spares index graft later := by
  obtain ⟨body, between, hbody, h⟩ := addMethod_eq_ok h
  have hbetween : Graft.Spares index graft between := by
    rcases hbody with ⟨-, -, rfl⟩ | ⟨template, made, -, -, hmade⟩
    · exact .refl index _
    · obtain ⟨pool, hextends, rfl⟩ := extends_bodyOf hmade
      exact Graft.spares_withPool hextends
  refine hbetween.trans ?_
  rcases h with ⟨other, hother, -, hover⟩ | ⟨-, -, result, hadd⟩
  · have hindex : other ≠ index := fun he => hne (he ▸ hother)
    rw [(overwriteMethod_eq_ok hover).2]
    exact (Graft.spares_modify hindex Method.names_overwritten).trans
      (Graft.spares_setHistory hindex _)
  · exact spares_changeAddMethod hadd

theorem spares_addField {access : List Modifier} {field : Signature} {overwrite : Bool}
    (h : addField edit access field overwrite graft = (.ok note, later)) :
    Graft.Spares index graft later := by
  rcases (addField_eq_ok h).2 with ⟨position, -, -, rfl⟩ | ⟨-, result, hadd⟩
  · exact ⟨⟨.refl _, List.prefix_rfl⟩, fun _ => rfl, rfl⟩
  · obtain ⟨nameIndex, descriptorIndex, between, pool, hname, hdescriptor, rfl⟩ :=
      changeAddField_eq_ok hadd
    exact ⟨⟨(Interning.onlyAdds_utf8 _ _ _ _ hname).trans
      (Interning.onlyAdds_utf8 _ _ _ _ hdescriptor), List.prefix_rfl⟩, fun _ => rfl, rfl⟩

/-! ### Bodies -/

theorem spares_bodyOrNew {body : Body} (hne : other ≠ index)
    (h : bodyOrNew other graft = (.ok body, later)) : Graft.Spares index graft later := by
  rcases bodyOrNew_eq_ok h with ⟨-, rfl⟩ | ⟨name, pool, hname, -, -, rfl⟩
  · exact .refl index _
  · exact (Graft.spares_withPool (Interning.onlyAdds_utf8 _ _ _ _ hname)).trans
      (Graft.spares_modify hne fun _ => ⟨rfl, rfl⟩)

/-- What a patch names is at one index only. -/
theorem methodIndex?_ne {method : Signature} {other : Nat} (hmethod : patch.method = some method)
    (hother : graft.file.methodIndex? method.name method.descriptor = some other)
    (hne : other ≠ index) (named : Signature) (hnamed : patch.method = some named) :
    graft.file.methodIndex? named.name named.descriptor ≠ some index := by
  obtain rfl := Option.some.inj (hmethod.symm.trans hnamed)
  exact fun hindex => hne (Option.some.inj (hother.symm.trans hindex))

/-- Replacing the body of a method spares all others. -/
theorem spares_replaceBody {code : Template}
    (hne : ∀ method, patch.method = some method →
      graft.file.methodIndex? method.name method.descriptor ≠ some index)
    (h : replaceBody patch edit code graft = (.ok note, later)) :
    Graft.Spares index graft later := by
  obtain ⟨other, method, hmethod, hother, h⟩ := replaceBody_eq_ok h
  have hindex : other ≠ index := fun he => hne method hmethod (he ▸ hother)
  rcases h with ⟨-, -, -, rfl⟩ | ⟨-, -, body, between, steps, supply, hbody, hsteps, rfl⟩
  · exact .refl index _
  · exact (Graft.spares_setHistory hindex _).trans <| (spares_bodyOrNew hindex hbody).trans <|
      (Graft.spares_withPool (Template.steps_spec hsteps).1).trans (spares_setBody hindex _)

/-- Inserting code in a method spares all others. -/
theorem spares_insertAt {anchor : Anchor} {code : Template}
    (hne : ∀ method, patch.method = some method →
      graft.file.methodIndex? method.name method.descriptor ≠ some index)
    (h : insertAt patch edit anchor code graft = (.ok note, later)) :
    Graft.Spares index graft later := by
  obtain ⟨other, method, hmethod, hother, h⟩ := insertAt_eq_ok h
  have hindex : other ≠ index := fun he => hne method hmethod (he ▸ hother)
  rcases h with ⟨-, -, -, rfl⟩ | ⟨-, body, body', history, between, -, -, hsites, rfl⟩
  · exact .refl index _
  · obtain ⟨pool, hpool, rfl⟩ := extends_insertAtSites hsites
    exact (Graft.spares_withPool hpool).trans <| (spares_setBody hindex _).trans
      (Graft.spares_setHistory hindex _)

/-! ### Redirections -/

theorem extends_redirectStep {callee replacement : MemberName} {kind : Option CallKind}
    {position : Nat} {instruction instruction' : Instruction Mark}
    (h : redirectStep edit callee replacement kind position instruction graft =
      (.ok instruction', later)) :
    ∃ pool, graft.file.pool.Extends pool ∧ later = graft.withPool pool := by
  obtain ⟨oldKind, number, pool, -, -, hpool, -, rfl⟩ := redirectStep_eq_ok h
  exact ⟨pool, Interning.onlyAdds_method _ _ _ _ _ _ _ hpool, rfl⟩

/-- Whether a row yields a step: a call is redirected, with constants from the first ones to the
last, and any other step stays. -/
def Yields (edit : Edit) (callee replacement : MemberName) (kind : Option CallKind) (graft : Graft)
    (last : Pool) (row : Step × Bool) (step' : Step) : Prop :=
  if row.2 = true then
    step'.mark = row.1.mark ∧ ∃ position before after, graft.file.pool.Extends before ∧
      after.Extends last ∧
      redirectStep edit callee replacement kind position row.1.instruction
        (graft.withPool before) = (.ok step'.instruction, graft.withPool after)
  else step' = row.1

theorem Yields.of_extends {callee replacement : MemberName} {kind : Option CallKind}
    {pool last : Pool} {row : Step × Bool} {step' : Step}
    (h : Yields edit callee replacement kind (graft.withPool pool) last row step')
    (hp : graft.file.pool.Extends pool) :
    Yields edit callee replacement kind graft last row step' := by
  unfold Yields at h ⊢
  split_ifs at h ⊢
  · obtain ⟨hmark, position, before, after, hbefore, hafter, hstep⟩ := h
    exact ⟨hmark, position, before, after, hp.trans hbefore, hafter, hstep⟩
  · exact h

/-- Redirecting goes along the rows: constants are added, and each row yields a step. -/
theorem redirectSteps_eq_ok {callee replacement : MemberName} {kind : Option CallKind}
    {position : Nat} {done steps : List Step} {marked : List (Step × Bool)}
    (h : redirectSteps edit callee replacement kind position done marked graft =
      (.ok steps, later)) :
    ∃ pool, graft.file.pool.Extends pool ∧ later = graft.withPool pool ∧
      ∃ made, steps = done.reverse ++ made ∧
        List.Forall₂ (Yields edit callee replacement kind graft pool) marked made := by
  induction marked generalizing position done graft with
  | nil =>
    obtain ⟨rfl, rfl⟩ := ExceptT.pure_eq_ok.mp h
    exact ⟨_, .refl _, rfl, [], (List.append_nil _).symm, .nil⟩
  | cons row rest ih =>
    obtain ⟨step, isCall⟩ := row
    cases isCall with
    | false =>
      obtain ⟨pool, hpool, hlater, made, rfl, hmade⟩ := ih h
      refine ⟨pool, hpool, hlater, step :: made, ?_, .cons rfl hmade⟩
      rw [List.reverse_cons, List.append_assoc]
      rfl
    | true =>
      obtain ⟨instruction, _, hstep, h⟩ := ExceptT.bind_eq_ok.mp h
      obtain ⟨between, hbetween, rfl⟩ := extends_redirectStep hstep
      obtain ⟨pool, hpool, hlater, made, rfl, hmade⟩ := ih h
      refine ⟨pool, hbetween.trans hpool, hlater, ⟨step.mark, instruction⟩ :: made, ?_, .cons ?_ ?_⟩
      · rw [List.reverse_cons, List.append_assoc]
        rfl
      · exact ⟨rfl, position, graft.file.pool, between, .refl _, hpool, hstep⟩
      · exact hmade.imp fun _ _ hyields => hyields.of_extends hbetween

theorem extends_redirectSteps {callee replacement : MemberName} {kind : Option CallKind}
    {position : Nat} {done steps : List Step} {marked : List (Step × Bool)}
    (h : redirectSteps edit callee replacement kind position done marked graft =
      (.ok steps, later)) :
    ∃ pool, graft.file.pool.Extends pool ∧ later = graft.withPool pool := by
  obtain ⟨pool, hpool, hlater, -⟩ := redirectSteps_eq_ok h
  exact ⟨pool, hpool, hlater⟩

/-- Redirecting calls in one method spares all others. -/
theorem spares_redirectIn {callee replacement : MemberName} {kind : Option CallKind} {count : Nat}
    (hne : other ≠ index)
    (h : redirectIn patch edit callee replacement kind other graft = (.ok count, later)) :
    Graft.Spares index graft later := by
  rcases redirectIn_eq_ok h with ⟨-, rfl⟩ | ⟨body, steps, between, -, -, hsteps, rfl⟩
  · exact .refl index _
  · obtain ⟨pool, hpool, rfl⟩ := extends_redirectSteps hsteps
    exact (Graft.spares_withPool hpool).trans <| (spares_setBody hne _).trans
      (Graft.spares_setHistory hne _)

/-- Redirecting calls in some methods spares all others. -/
theorem spares_redirectInAll {callee replacement : MemberName} {kind : Option CallKind}
    {indices : List Nat} {count count' : Nat} (hnot : index ∉ indices)
    (h : redirectInAll patch edit callee replacement kind indices count graft =
      (.ok count', later)) : Graft.Spares index graft later := by
  refine redirectInAll_induction (P := fun last => Graft.Spares index graft last)
    (fun other hother before more after hbefore hstep => ?_) (.refl index _) h
  have hne : other ≠ index := fun he => hnot (he ▸ hother)
  exact hbefore.trans (spares_redirectIn hne hstep)

/-- A method without the calls is spared as well. -/
theorem eq_of_redirectIn {callee replacement : MemberName} {kind : Option CallKind} {count : Nat}
    {body : Body} (hbody : graft.body? index = some body)
    (hcalls : body.callsOf graft.file.pool callee = [])
    (h : redirectIn patch edit callee replacement kind index graft = (.ok count, later)) :
    later = graft := by
  rcases redirectIn_eq_ok h with ⟨-, rfl⟩ | ⟨found, steps, between, hfound, hfew, -⟩
  · rfl
  · obtain rfl := Option.some.inj (hbody.symm.trans hfound)
    exact absurd hcalls hfew

end Grafting

end ClassGraft

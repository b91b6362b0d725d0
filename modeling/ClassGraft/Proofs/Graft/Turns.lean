import ClassGraft.Proofs.Graft.Inserting
import ClassGraft.Proofs.Graft.Sparing

/-!
# Edits one after another

What a run of edits does to one method, said edit by edit: an edit is a turn, with the class before
and after it and what is reported of it.  `Turn.acts` says all that a turn can do to a method: it
gives the method another body, edits the one that is there, is dropped since another patch gave the
method its body, or leaves the method alone.
-/

namespace ClassGraft

/-- Whether a body has what a template makes, and nothing else. -/
structure Template.Fills (template : Template) (number : Nat) (pool later : Pool) (body : Body) :
    Prop where
  steps : template.Makes number pool later body.steps
  handlers : body.handlers = []
  tables : ∀ table ∈ body.attributes, ∃ name, table = .frames name []

/-- Whether the body of a method has a call of another one that was there from the start. -/
def Graft.hasCall (graft : Graft) (index : Nat) (callee : MemberName) : Bool :=
  (graft.body? index).any fun body => !(body.callsOf graft.file.pool callee).isEmpty

/-- An edit of a patch, with the class before and after it and what is reported of it. -/
structure Turn where
  patch : Patch
  edit : Edit
  before : Graft
  note : Note
  after : Graft

namespace Turn

variable (turn : Turn)

/-- Whether the edit did that. -/
def IsValid : Prop :=
  Grafting.apply turn.patch turn.edit turn.before = (.ok turn.note, turn.after)

/-- What the report says of the edit. -/
def entry : ReportEntry := ⟨some turn.patch.id, turn.note.event⟩

/-- The method that the patch names. -/
def target? : Option Nat :=
  turn.patch.method.bind fun method =>
    turn.before.file.methodIndex? method.name method.descriptor

/-- Whether an added method takes the place of the one at an index. -/
def overwrites (index : Nat) : Bool :=
  match turn.edit with
  | .addMethod _ method _ true =>
    turn.before.file.methodIndex? method.name method.descriptor == some index
  | _ => false

/-- Whether the body of the method at an index is to be replaced. -/
def replaces (index : Nat) : Bool :=
  match turn.edit with
  | .replaceBody _ => turn.target? == some index
  | _ => false

/-- Whether the edit is one of the code of the method that the patch names, the one at an index. -/
def isAbout (index : Nat) : Bool :=
  match turn.edit with
  | .replaceBody _ | .insertAt _ _ | .redirectCall _ _ _ _ => turn.target? == some index
  | _ => false

/-- The methods whose calls are redirected, in order. -/
def visited : List Nat :=
  match turn.patch.method with
  | some _ => turn.target?.toList
  | none => turn.before.unreplaced

/-- Whether code is inserted into the method at an index, or there are calls in it that are
redirected when it is visited. -/
def edits (index : Nat) : Bool :=
  match turn.edit with
  | .insertAt _ _ => turn.target? == some index
  | .redirectCall callee replacement kind _ =>
    let earlier := Grafting.redirectInAll turn.patch turn.edit callee replacement kind
      (turn.visited.takeWhile (· ≠ index)) 0
    turn.visited.contains index && (earlier turn.before).2.hasCall index callee
  | _ => false

/-- The code that the edit gives a method. -/
def code? : Option Template :=
  match turn.edit with
  | .addMethod _ _ code _ => code
  | .replaceBody code => some code
  | _ => none

/-- A number that is below those of the marks in the code that the edit gives a method. -/
def firstMark (index : Nat) : Nat :=
  match turn.edit with
  | .replaceBody _ => (turn.before.body? index).elim 0 (·.nextMark)
  | _ => 0

/-- Whether a method has the body that the edit gives it. -/
def Gives (index : Nat) (graft : Graft) : Prop :=
  match turn.code? with
  | none => graft.body? index = none
  | some template => ∃ body, graft.body? index = some body ∧
      template.Fills (turn.firstMark index) turn.before.file.pool graft.file.pool body

/-- What a turn does to a method. -/
inductive Acts (index : Nat) : Prop
  /-- An added method takes its place. -/
  | overwriting (h : turn.overwrites index = true)
      (note : turn.note = .ofOverwriting turn.edit (turn.before.history index).changedBy)
      (history : turn.after.history index = .replaced turn.patch.id)
      (exists_lt : index < turn.after.file.methods.length) (gives : turn.Gives index turn.after)
  /-- Its body is replaced. -/
  | replacing (ho : turn.overwrites index = false) (h : turn.replaces index = true)
      (free : (turn.before.history index).replacedBy = none)
      (note : ∃ method, turn.patch.method = some method ∧
        turn.note = .ofReplacing turn.edit method (turn.before.history index).editedBy)
      (history : turn.after.history index = .replaced turn.patch.id)
      (exists_lt : index < turn.after.file.methods.length) (gives : turn.Gives index turn.after)
  /-- A patch gave it its body, so nothing is done to it. -/
  | dropping (ho : turn.overwrites index = false) (h : turn.isAbout index = true)
      (winner : String) (replaced : (turn.before.history index).replacedBy = some winner)
      (note : ∃ method, turn.patch.method = some method ∧
        (turn.note = .conflict (.replacedBefore turn.edit method winner) ∨
          turn.note = .conflict (.dropped turn.edit method winner)))
      (same : turn.after = turn.before)
  /-- Its body is edited. -/
  | editing (ho : turn.overwrites index = false) (hr : turn.replaces index = false)
      (h : turn.edits index = true) (free : (turn.before.history index).replacedBy = none)
      (replacedBy : (turn.after.history index).replacedBy = none)
      (editedBy : (turn.after.history index).editedBy =
        (turn.before.history index).editedBy ++ [turn.patch.id])
  /-- It is left alone. -/
  | sparing (ho : turn.overwrites index = false)
      (free : turn.isAbout index = true → (turn.before.history index).replacedBy = none)
      (hr : turn.replaces index = false) (h : turn.edits index = false)
      (spares : Graft.Spares index turn.before turn.after)

end Turn

/-! ### Bodies that are given -/

/-- A body in place of another one has nothing else. -/
theorem Template.fills_replace {template : Template} {number : Nat} {pool later : Pool} {body : Body}
    {steps : List Step} (h : template.Makes number pool later steps) :
    template.Fills number pool later (body.replace steps []) := by
  refine ⟨h, rfl, fun table htable => ?_⟩
  obtain ⟨old, -, hold⟩ := List.mem_filterMap.mp htable
  cases old with
  | frames name entries => exact ⟨name, (Option.some.inj hold).symm⟩
  | _ => nomatch hold

theorem Template.Fills.mono {template : Template} {number : Nat} {pool later last : Pool}
    {body : Body} (h : template.Fills number pool later body) (hl : later.Extends last) :
    template.Fills number pool last body :=
  { h with steps := h.steps.mono (.refl pool) hl }

theorem MethodAttribute.findSome?_withoutBody (attributes : List MethodAttribute) :
    (attributes.filter (·.body?.isNone)).findSome? body? = none :=
  List.findSome?_eq_none_iff.mpr fun _ h => Option.isNone_iff_eq_none.mp (List.mem_filter.mp h).2

theorem Method.body?_overwritten {access : UInt16} {body : Option Body} (method : Method) :
    (method.overwritten access body).body? = body := by
  cases body with
  | none => exact MethodAttribute.findSome?_withoutBody method.attributes
  | some body => exact Method.body?_withBody _ body

theorem ClassFile.lt_length_of_methodIndex? {file : ClassFile} {name descriptor : String}
    {index : Nat} (h : file.methodIndex? name descriptor = some index) :
    index < file.methods.length :=
  (List.findIdx?_eq_some_iff_getElem.mp h).1

/-- The body of an added method has what its template makes. -/
theorem Grafting.fills_bodyOf {template : Template} {graft later : Graft} {made : Body}
    (h : bodyOf template graft = (.ok made, later)) :
    template.Fills 0 graft.file.pool later.file.pool made := by
  obtain ⟨name, pool, steps, supply, hname, hsteps, rfl, rfl⟩ := bodyOf_eq_ok h
  have hmakes : template.Makes 0 graft.file.pool supply.pool steps :=
    ⟨⟨0, pool⟩, supply, hsteps, Nat.le_refl 0, Interning.onlyAdds_utf8 _ _ _ _ hname, .refl _⟩
  have hfills : template.Fills 0 graft.file.pool supply.pool
      ({ Body.new name with nextMark := supply.nextMark }.replace steps []) :=
    Template.fills_replace hmakes
  exact ⟨hfills.steps, hfills.handlers, hfills.tables⟩

/-- The body that is to be replaced is the one that is there, if there is one. -/
theorem Grafting.bodyOrNew_spec {graft later : Graft} {index : Nat} {body : Body}
    (h : bodyOrNew index graft = (.ok body, later)) :
    later.histories = graft.histories ∧
      later.file.methods.length = graft.file.methods.length ∧
      graft.file.pool.Extends later.file.pool ∧
      (graft.body? index).elim 0 (·.nextMark) ≤ body.nextMark := by
  rcases bodyOrNew_eq_ok h with ⟨hold, rfl⟩ | ⟨name, pool, hname, hnone, rfl, rfl⟩
  · exact ⟨rfl, rfl, .refl _, by rw [hold]; exact Nat.le_refl _⟩
  · refine ⟨rfl, List.length_modify .., Interning.onlyAdds_utf8 _ _ _ _ hname, ?_⟩
    rw [hnone]
    exact Nat.le_refl 0

/-- Where code was inserted is no part of who changed a method. -/
theorem Grafting.changedBy_insertAtSites {anchor : Anchor} {code : Template} {sites : List Mark}
    {graft later : Graft} {body body' : Body} {history history' : MethodHistory}
    (h : insertAtSites anchor code sites body history graft = (.ok (body', history'), later)) :
    history'.replacedBy = history.replacedBy ∧ history'.editedBy = history.editedBy := by
  refine insertAtSites_induction (P := fun _ last _ =>
    last.replacedBy = history.replacedBy ∧ last.editedBy = history.editedBy)
    (fun site _ body middle before steps supply hbefore _ => ?_) ⟨rfl, rfl⟩ h
  cases anchor <;> exact hbefore

/-- Where calls are redirected in several methods, each of them is visited once: the methods before
it leave it alone, and so do those after it. -/
theorem Grafting.redirectInAll_visit {patch : Patch} {edit : Edit} {callee replacement : MemberName}
    {kind : Option CallKind} {indices : List Nat} {index count count' : Nat} {graft later : Graft}
    (hin : index ∈ indices) (hnodup : indices.Nodup)
    (h : redirectInAll patch edit callee replacement kind indices count graft =
      (.ok count', later)) :
    ∃ earlier before more after,
      redirectInAll patch edit callee replacement kind (indices.takeWhile (· ≠ index)) count
        graft = (.ok earlier, before) ∧
      Graft.Spares index graft before ∧
      redirectIn patch edit callee replacement kind index before = (.ok more, after) ∧
      Graft.Spares index after later := by
  induction indices generalizing count graft with
  | nil => nomatch hin
  | cons other rest ih =>
    obtain ⟨hnot, hrest⟩ := List.nodup_cons.mp hnodup
    obtain ⟨more, between, hstep, h⟩ := ExceptT.bind_eq_ok.mp h
    by_cases hne : other = index
    · subst hne
      refine ⟨count, graft, more, between, ?_, .refl other graft, hstep,
        spares_redirectInAll hnot h⟩
      rw [List.takeWhile_cons_of_neg (by simp)]
      exact ExceptT.pure_eq_ok.mpr ⟨rfl, rfl⟩
    · have hin' : index ∈ rest := (List.mem_cons.mp hin).resolve_left (Ne.symm hne)
      obtain ⟨earlier, before, more', after, hearlier, hspares, hvisit, hlater⟩ := ih hin' hrest h
      refine ⟨earlier, before, more', after, ?_, (spares_redirectIn hne hstep).trans hspares,
        hvisit, hlater⟩
      rw [List.takeWhile_cons_of_pos (by simpa using hne)]
      exact ExceptT.bind_eq_ok.mpr ⟨more, between, hstep, hearlier⟩

/-! ### Turns by kind -/

namespace Turn

variable {turn : Turn} {index : Nat}

theorem target?_eq_some {method : Signature} (hmethod : turn.patch.method = some method)
    (hindex : turn.before.file.methodIndex? method.name method.descriptor = some index) :
    turn.target? = some index := by
  rw [target?, hmethod, Option.bind_some, hindex]

theorem target?_of_ne {method : Signature} {other : Nat}
    (hmethod : turn.patch.method = some method)
    (hother : turn.before.file.methodIndex? method.name method.descriptor = some other)
    (hne : other ≠ index) :
    (turn.target? == some index) = false ∧ ∀ named, turn.patch.method = some named →
      turn.before.file.methodIndex? named.name named.descriptor ≠ some index := by
  refine ⟨?_, Grafting.methodIndex?_ne hmethod hother hne⟩
  rw [target?_eq_some hmethod hother]
  exact beq_eq_false_iff_ne.mpr fun heq => hne (Option.some.inj heq)

/-- A body that is given stays given where the method is left alone. -/
theorem Gives.of_spares {graft later : Graft} (h : turn.Gives index graft)
    (hlt : index < graft.file.methods.length) (hs : Graft.Spares index graft later) :
    turn.Gives index later := by
  unfold Gives at h ⊢
  cases hcode : turn.code? with
  | none =>
    simp only [hcode] at h ⊢
    rw [hs.body? hlt, h]
  | some template =>
    simp only [hcode] at h ⊢
    obtain ⟨body, hbody, hfills⟩ := h
    exact ⟨body, hs.body body hbody, hfills.mono hs.pool⟩

theorem acts_addMethod (h : turn.IsValid) {access : List Modifier} {method : Signature}
    {code : Option Template} {overwrite : Bool}
    (he : turn.edit = .addMethod access method code overwrite) : turn.Acts index := by
  unfold IsValid at h
  rw [he] at h
  by_cases hindex : turn.before.file.methodIndex? method.name method.descriptor = some index
  · obtain ⟨body, between, hbody, hlast⟩ := Grafting.addMethod_eq_ok h
    rcases hlast with ⟨other, hother, rfl, hover⟩ | ⟨hnone, -⟩
    · obtain rfl := Option.some.inj (hother.symm.trans hindex)
      have hlt := ClassFile.lt_length_of_methodIndex? hindex
      obtain ⟨hnote, hafter⟩ := Grafting.overwriteMethod_eq_ok hover
      have hbetween : ∃ pool, turn.before.file.pool.Extends pool ∧
          between = turn.before.withPool pool := by
        rcases hbody with ⟨-, -, rfl⟩ | ⟨template, made, -, -, hmade⟩
        · exact ⟨_, .refl _, rfl⟩
        · exact Grafting.extends_bodyOf hmade
      have hpool' : turn.after.file.pool = between.file.pool := by
        rw [hafter]
        rfl
      obtain ⟨pool, hpool, rfl⟩ := hbetween
      -- The body of the overwritten method is just the one that was made.
      have hgiven : turn.after.body? other = body := by
        rw [hafter]
        show ((turn.before.file.methods.modify other _)[other]?).bind Method.body? = body
        rw [List.getElem?_modify_eq, List.getElem?_eq_getElem hlt]
        exact Method.body?_overwritten _
      refine .overwriting ?_ (he ▸ hnote) ?_ ?_ ?_
      · rw [overwrites, he]
        exact beq_iff_eq.mpr hindex
      · rw [hafter, Graft.history_insert_self]
      · rw [hafter]
        simpa [ClassFile.modifyMethod, Graft.withPool] using hlt
      · unfold Gives
        rw [code?, he]
        rcases hbody with ⟨rfl, rfl, -⟩ | ⟨template, made, rfl, rfl, hmade⟩
        · exact hgiven
        · have hmark : turn.firstMark other = 0 := by rw [firstMark, he]
          rw [hmark, hpool']
          exact ⟨made, hgiven, Grafting.fills_bodyOf hmade⟩
    · nomatch hnone.symm.trans hindex
  · refine .sparing ?_ ?_ ?_ ?_ (Grafting.spares_addMethod hindex h)
    · rw [overwrites, he]
      cases overwrite with
      | false => rfl
      | true => exact beq_eq_false_iff_ne.mpr hindex
    · rw [isAbout, he]
      nofun
    · rw [replaces, he]
    · rw [edits, he]

/-- An added method leaves alone each method that it does not take the place of. -/
theorem spares_of_addMethod (h : turn.IsValid) {access : List Modifier} {method : Signature}
    {code : Option Template} {overwrite : Bool}
    (he : turn.edit = .addMethod access method code overwrite)
    (ho : turn.overwrites index = false) : Graft.Spares index turn.before turn.after := by
  unfold IsValid at h
  rw [he] at h
  by_cases hindex : turn.before.file.methodIndex? method.name method.descriptor = some index
  · obtain ⟨made, between, -, hlast⟩ := Grafting.addMethod_eq_ok h
    rcases hlast with ⟨other, -, rfl, -⟩ | ⟨hnone, -⟩
    · rw [overwrites, he] at ho
      exact absurd (beq_iff_eq.mpr hindex) (Bool.eq_false_iff.mp ho)
    · cases hnone.symm.trans hindex
  · exact Grafting.spares_addMethod hindex h

theorem acts_addField (h : turn.IsValid) {access : List Modifier} {field : Signature}
    {overwrite : Bool} (he : turn.edit = .addField access field overwrite) : turn.Acts index := by
  unfold IsValid at h
  rw [he] at h
  refine .sparing ?_ ?_ ?_ ?_ (Grafting.spares_addField h)
  · rw [overwrites, he]
  · rw [isAbout, he]
    nofun
  · rw [replaces, he]
  · rw [edits, he]

theorem acts_replaceBody (h : turn.IsValid) {code : Template} (he : turn.edit = .replaceBody code) :
    turn.Acts index := by
  unfold IsValid at h
  rw [he] at h
  obtain ⟨other, method, hmethod, hother, hrun⟩ := Grafting.replaceBody_eq_ok h
  have htarget := target?_eq_some hmethod hother
  have hover : turn.overwrites index = false := by rw [overwrites, he]
  by_cases hindex : other = index
  · subst hindex
    -- An earlier replacement wins; without one the body is replaced, whatever was inserted in it.
    rcases hrun with ⟨winner, hwinner, hnote, hsame⟩ |
      ⟨hfree, hnote, body, between, steps, supply, hbody, hsteps, hafter⟩
    · refine .dropping hover ?_ winner hwinner ⟨method, hmethod, .inl (he ▸ hnote)⟩ hsame
      rw [isAbout, he]
      exact beq_iff_eq.mpr htarget
    · have hlt := ClassFile.lt_length_of_methodIndex? hother
      obtain ⟨hhistories, hlength, hpool, hmark⟩ := Grafting.bodyOrNew_spec hbody
      have hlt' : other < (between.withPool supply.pool).file.methods.length := hlength.symm ▸ hlt
      refine .replacing hover ?_ hfree ⟨method, hmethod, he ▸ hnote⟩ ?_ ?_ ?_
      · rw [replaces, he]
        exact beq_iff_eq.mpr htarget
      · rw [hafter, hhistories, Graft.history_insert_self]
      · rw [hafter]
        simpa [ClassFile.setBody, ClassFile.modifyMethod] using hlt'
      · have hgiven : turn.after.body? other =
            some ({ body with nextMark := supply.nextMark }.replace steps []) := by
          rw [hafter]
          exact Graft.body?_setBody_of_lt hlt' _
        have hmakes : code.Makes (turn.firstMark other) turn.before.file.pool
            turn.after.file.pool steps := by
          refine ⟨_, supply, hsteps, ?_, hpool, ?_⟩
          · rw [firstMark, he]
            exact hmark
          · rw [hafter]
            exact .refl _
        unfold Gives
        rw [code?, he]
        exact ⟨_, hgiven, Template.fills_replace hmakes⟩
  · obtain ⟨hnot, hne⟩ := target?_of_ne hmethod hother hindex
    refine .sparing hover ?_ ?_ ?_ (Grafting.spares_replaceBody hne h)
    · rw [isAbout, he]
      exact fun habout => absurd habout (Bool.eq_false_iff.mp hnot)
    · rw [replaces, he]
      exact hnot
    · rw [edits, he]

theorem acts_insertAt (h : turn.IsValid) {anchor : Anchor} {code : Template}
    (he : turn.edit = .insertAt anchor code) : turn.Acts index := by
  unfold IsValid at h
  rw [he] at h
  obtain ⟨other, method, hmethod, hother, hrun⟩ := Grafting.insertAt_eq_ok h
  have htarget := target?_eq_some hmethod hother
  have hover : turn.overwrites index = false := by rw [overwrites, he]
  have hreplaces : turn.replaces index = false := by rw [replaces, he]
  by_cases hindex : other = index
  · subst hindex
    have habout : (turn.target? == some other) = true := beq_iff_eq.mpr htarget
    rcases hrun with ⟨winner, hwinner, hnote, hsame⟩ |
      ⟨hfree, body, body', history, between, -, -, hsites, hafter⟩
    · refine .dropping hover ?_ winner hwinner ⟨method, hmethod, .inr (he ▸ hnote)⟩ hsame
      rw [isAbout, he]
      exact habout
    · obtain ⟨hreplacedBy, heditedBy⟩ := Grafting.changedBy_insertAtSites hsites
      have hhistory : turn.after.history other = history.edited turn.patch.id := by
        rw [hafter, Graft.history_insert_self]
      refine .editing hover hreplaces ?_ hfree ?_ ?_
      · rw [edits, he]
        exact habout
      · rw [hhistory, MethodHistory.edited, hreplacedBy, hfree]
      · rw [hhistory, MethodHistory.edited, heditedBy]
  · obtain ⟨hnot, hne⟩ := target?_of_ne hmethod hother hindex
    refine .sparing hover ?_ hreplaces ?_ (Grafting.spares_insertAt hne h)
    · rw [isAbout, he]
      exact fun habout => absurd habout (Bool.eq_false_iff.mp hnot)
    · rw [edits, he]
      exact hnot

/-- What redirecting calls does to a method: those that it has are redirected, if it is visited. -/
theorem acts_redirectInAll {callee replacement : MemberName} {kind : Option CallKind}
    {required : Bool} {count : Nat} (he : turn.edit = .redirectCall callee replacement kind required)
    (habout : turn.isAbout index = true → (turn.before.history index).replacedBy = none)
    (hnodup : turn.visited.Nodup)
    (hfree : index ∈ turn.visited → (turn.before.history index).replacedBy = none)
    (h : Grafting.redirectInAll turn.patch turn.edit callee replacement kind turn.visited 0
      turn.before = (.ok count, turn.after)) : turn.Acts index := by
  have hover : turn.overwrites index = false := by rw [overwrites, he]
  have hreplaces : turn.replaces index = false := by rw [replaces, he]
  by_cases hin : index ∈ turn.visited
  · obtain ⟨earlier, before, more, after, hearlier, hbefore, hvisit, hafter⟩ :=
      Grafting.redirectInAll_visit hin hnodup h
    -- Whether the turn edits the body is told by the calls that it has when it is visited.
    have hedits : turn.edits index = before.hasCall index callee := by
      rw [he] at hearlier
      simp only [edits, he, hearlier, List.contains_iff_mem.mpr hin, Bool.true_and]
    rcases Grafting.redirectIn_eq_ok hvisit with
      ⟨hnone, rfl⟩ | ⟨body, steps, between, hbody, hcalls, hsteps, rfl⟩
    · refine .sparing hover habout hreplaces ?_ (hbefore.trans hafter)
      rw [hedits, Graft.hasCall, Option.any_eq_false]
      intro body hbody
      rw [hnone body hbody]
      rfl
    · have hhistory : turn.after.history index =
          (turn.before.history index).edited turn.patch.id := by
        rw [hafter.history, Graft.history_insert_self, hbefore.history]
      refine .editing hover hreplaces ?_ (hfree hin) ?_ ?_
      · rw [hedits, Graft.hasCall, hbody]
        simpa using hcalls
      · rw [hhistory]
        exact hfree hin
      · rw [hhistory]
        rfl
  · have hedits : turn.edits index = false := by
      have hcontains : turn.visited.contains index = false :=
        Bool.eq_false_iff.mpr (mt List.contains_iff_mem.mp hin)
      simp only [edits, he, hcontains, Bool.false_and]
    exact .sparing hover habout hreplaces hedits (Grafting.spares_redirectInAll hin h)

theorem acts_redirectCall (h : turn.IsValid) {callee replacement : MemberName}
    {kind : Option CallKind} {required : Bool}
    (he : turn.edit = .redirectCall callee replacement kind required) : turn.Acts index := by
  have hrun := h
  unfold IsValid at hrun
  rw [he] at hrun
  rcases Grafting.redirectCall_eq_ok hrun with ⟨other, method, hmethod, hother, hrun⟩ |
    ⟨hmethod, count, -, hall, -⟩
  · have htarget := target?_eq_some hmethod hother
    have hvisited : turn.visited = [other] := by
      rw [visited, hmethod, htarget, Option.toList_some]
    have habout : turn.isAbout index = true ↔ other = index := by
      rw [isAbout, he, htarget]
      exact beq_iff_eq.trans Option.some_inj
    rcases hrun with ⟨winner, hwinner, hnote, hsame⟩ | ⟨hfree, count, -, hall, -⟩
    · by_cases hindex : other = index
      · subst hindex
        exact .dropping (by rw [overwrites, he]) (habout.mpr rfl) winner hwinner
          ⟨method, hmethod, .inr (he ▸ hnote)⟩ hsame
      · refine .sparing ?_ (fun h => absurd (habout.mp h) hindex) ?_ ?_ (hsame ▸ .refl index _)
        · rw [overwrites, he]
        · rw [replaces, he]
        · simp [edits, he, hvisited, Ne.symm hindex]
    · refine acts_redirectInAll he (fun h => habout.mp h ▸ hfree) ?_ (fun hin => ?_)
        (hvisited ▸ he ▸ hall)
      · rw [hvisited]
        exact List.nodup_singleton other
      · rw [hvisited] at hin
        exact List.mem_singleton.mp hin ▸ hfree
  · have hvisited : turn.visited = turn.before.unreplaced := by rw [visited, hmethod]
    refine acts_redirectInAll he (fun habout => ?_) ?_ (fun hin => ?_) (hvisited ▸ he ▸ hall)
    · have htarget : turn.target? = none := by rw [target?, hmethod, Option.bind_none]
      rw [isAbout, he, htarget] at habout
      nomatch habout
    · rw [hvisited]
      exact List.nodup_range.filter _
    · rw [hvisited] at hin
      exact Option.isNone_iff_eq_none.mp (List.mem_filter.mp hin).2

/-- What a turn does to a method. -/
theorem acts (h : turn.IsValid) (index : Nat) : turn.Acts index := by
  cases he : turn.edit with
  | addMethod access method code overwrite => exact acts_addMethod h he
  | addField access field overwrite => exact acts_addField h he
  | replaceBody code => exact acts_replaceBody h he
  | insertAt anchor code => exact acts_insertAt h he
  | redirectCall callee replacement kind required => exact acts_redirectCall h he

end Turn

end ClassGraft

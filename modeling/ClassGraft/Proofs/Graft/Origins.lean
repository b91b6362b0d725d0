import ClassGraft.Proofs.Graft.Lifetimes

/-!
# Instructions from the start

A method has its first body from when the class was read or the method was added
(`ClassFile.firstBody?`).  Whatever edits do to the method after that, the instructions that count
as there from the start are those of that body that are left (`ClassFile.isInitial_iff`): what is
inserted, or takes the place of the body, has marks that were given out later.
-/

namespace ClassGraft

/-! ### First bodies -/

/-- Whether an added method takes an index: that of the one in whose place it is put, or the next
one. -/
def Turn.adds (turn : Turn) (index : Nat) : Bool :=
  match turn.edit with
  | .addMethod _ method _ _ =>
    (turn.before.file.methodIndex? method.name method.descriptor).getD
      turn.before.file.methods.length == index
  | _ => false

/-- The body that a method had when the class was read or, after turns, when the last of them that
added it was over. -/
def ClassFile.firstBody? (file : ClassFile) (index : Nat) (turns : List Turn) : Option Body :=
  match (turns.filter (·.adds index)).getLast? with
  | some turn => turn.after.body? index
  | none => (Graft.start file).body? index

/-- The marks of the instructions of a body, if there is one. -/
def Body.marksOf (body : Option Body) : List Mark :=
  body.elim [] fun body => body.steps.map (·.mark)

/-- Whether the instructions of a body that count as there from the start are those of a first body
that are left. -/
structure Body.StemsFrom (first : Option Body) (body : Body) : Prop where
  nextMark : body.initialCount ≤ body.nextMark
  below : ∀ mark ∈ marksOf first, mark.number < body.initialCount
  steps : ∀ step ∈ body.steps, body.isInitial step.mark = true → step.mark ∈ marksOf first

variable {file : ClassFile} {graft later : Graft} {body body' : Body} {first : Option Body}
  {index : Nat} {past : List Turn} {turn : Turn}

namespace Body.StemsFrom

theorem isInitial_iff (h : body.StemsFrom first) {step : Step} (hs : step ∈ body.steps) :
    body.isInitial step.mark = true ↔ step.mark ∈ marksOf first :=
  ⟨h.steps step hs, fun hmark => decide_eq_true (h.below step.mark hmark)⟩

/-- A first body stems from itself. -/
theorem self (hn : body.initialCount ≤ body.nextMark)
    (hi : ∀ step ∈ body.steps, step.mark.number < body.initialCount) :
    body.StemsFrom (some body) where
  nextMark := hn
  below := fun mark hmark => by
    obtain ⟨step, hstep, rfl⟩ := List.mem_map.mp hmark
    exact hi step hstep
  steps := fun _ hstep _ => List.mem_map_of_mem hstep

/-- New instructions have marks that were not given out yet. -/
theorem of_becomes {used : Template → Prop} (h : body.StemsFrom first)
    (hb : body.Becomes used body') (hc : body'.initialCount = body.initialCount) :
    body'.StemsFrom first := by
  obtain ⟨uses, -, hlives⟩ := hb
  refine ⟨hc ▸ Nat.le_trans h.nextMark hlives.bounds.1, hc ▸ h.below, fun step' hstep' hi => ?_⟩
  have hlt : step'.mark.number < body.initialCount := hc ▸ of_decide_eq_true hi
  rcases hlives.mem_or_le (List.mem_map_of_mem hstep') with hold | hnew
  · obtain ⟨step, hstep, hmark⟩ := List.mem_map.mp hold
    rw [← hmark]
    exact h.steps step hstep (decide_eq_true (hmark ▸ hlt))
  · have hnext := h.nextMark
    omega

end Body.StemsFrom

/-! ### What counts as there from the start -/

namespace Grafting

variable {patch : Patch} {edit : Edit} {note : Note}

theorem initialCount_insertSteps (anchor : Anchor) (site : Mark) (steps : List Step) (body : Body)
    (history : MethodHistory) :
    (insertSteps anchor site steps body history).1.initialCount = body.initialCount := by
  have hafter : ∀ mark, ((body.insertAfter mark steps).getD body).initialCount =
      body.initialCount := by
    intro mark
    unfold Body.insertAfter
    cases body.position? mark <;> rfl
  have hbefore : ∀ redirect, ((body.insertBefore site steps redirect).getD body).initialCount =
      body.initialCount := by
    intro redirect
    unfold Body.insertBefore
    cases body.position? site with
    | none => rfl
    | some index => cases redirect <;> cases steps <;> rfl
  cases anchor with
  | methodEntry =>
    unfold insertSteps
    cases history.entryEnd with
    | none => exact hbefore false
    | some entryEnd => exact hafter entryEnd
  | afterCall call => exact hafter _
  | _ => exact hbefore true

theorem initialCount_insertAtSites {anchor : Anchor} {code : Template} {sites : List Mark}
    {history history' : MethodHistory}
    (h : insertAtSites anchor code sites body history graft = (.ok (body', history'), later)) :
    body'.initialCount = body.initialCount := by
  exact insertAtSites_induction (P := fun last _ _ => last.initialCount = body.initialCount)
    (fun site _ middle history before steps supply hbefore _ =>
      (initialCount_insertSteps anchor site steps _ history).trans hbefore) rfl h

theorem initialCount_redirectInAll {callee replacement : MemberName} {kind : Option CallKind}
    {indices : List Nat} {count count' : Nat} (hb : graft.body? index = some body)
    (h : redirectInAll patch edit callee replacement kind indices count graft =
      (.ok count', later)) (hb' : later.body? index = some body') :
    body'.initialCount = body.initialCount := by
  have hkept : ∃ last, later.body? index = some last ∧ last.initialCount = body.initialCount := by
    refine redirectInAll_induction (P := fun after => ∃ last, after.body? index = some last ∧
      last.initialCount = body.initialCount)
      (fun other _ before more after hbefore hstep => ?_) ⟨body, hb, rfl⟩ h
    obtain ⟨old, hold, hcount⟩ := hbefore
    by_cases hindex : other = index
    · subst hindex
      rcases redirectIn_eq_ok hstep with ⟨-, rfl⟩ | ⟨found, steps, middle, hfound, -, hsteps, rfl⟩
      · exact ⟨old, hold, hcount⟩
      · obtain rfl := Option.some.inj (hold.symm.trans hfound)
        obtain ⟨pool, -, rfl⟩ := extends_redirectSteps hsteps
        have hpool : (before.withPool pool).body? other = some old := hold
        exact ⟨_, Graft.body?_setBody hpool { old.touch with steps := steps }, hcount⟩
    · exact ⟨old, (spares_redirectIn hindex hstep).body old hold, hcount⟩
  obtain ⟨last, hlast, hcount⟩ := hkept
  rw [Option.some.inj (hb'.symm.trans hlast), hcount]

/-- An edit of another method leaves the body as it is. -/
theorem eq_of_spares (hs : Graft.Spares index graft later) (hb : graft.body? index = some body)
    (hb' : later.body? index = some body') : body' = body :=
  Option.some.inj (hb'.symm.trans (hs.body body hb))

/-- A body that takes the place of another counts as much as there from the start. -/
theorem initialCount_replaceBody_of_body? {code : Template} (hb : graft.body? index = some body)
    (h : replaceBody patch edit code graft = (.ok note, later))
    (hb' : later.body? index = some body') : body'.initialCount = body.initialCount := by
  obtain ⟨other, method, hmethod, hother, hrun⟩ := replaceBody_eq_ok h
  by_cases hindex : other = index
  · subst hindex
    rcases hrun with ⟨-, -, -, rfl⟩ | ⟨-, -, found, between, steps, supply, hfound, -, rfl⟩
    · rw [Option.some.inj (hb'.symm.trans hb)]
    · rcases bodyOrNew_eq_ok hfound with ⟨hold, rfl⟩ | ⟨-, -, -, hnone, -⟩
      · obtain rfl := Option.some.inj (hb.symm.trans hold)
        have hpool : (graft.withPool supply.pool).body? other = some body := hb
        rw [← Option.some.inj ((Graft.body?_setBody hpool _).symm.trans hb')]
        rfl
      · cases hb.symm.trans hnone
  · rw [eq_of_spares (spares_replaceBody (methodIndex?_ne hmethod hother hindex) h) hb hb']

theorem initialCount_insertAt {anchor : Anchor} {code : Template} (hb : graft.body? index = some body)
    (h : insertAt patch edit anchor code graft = (.ok note, later))
    (hb' : later.body? index = some body') : body'.initialCount = body.initialCount := by
  obtain ⟨other, method, hmethod, hother, hrun⟩ := insertAt_eq_ok h
  by_cases hindex : other = index
  · subst hindex
    rcases hrun with ⟨-, -, -, rfl⟩ | ⟨-, found, made, history, between, hfound, -, hsites, rfl⟩
    · rw [Option.some.inj (hb'.symm.trans hb)]
    · obtain rfl := Option.some.inj (hb.symm.trans hfound)
      obtain ⟨pool, -, rfl⟩ := extends_insertAtSites hsites
      have hpool : (graft.withPool pool).body? other = some body := hb
      rw [← Option.some.inj ((Graft.body?_setBody hpool made).symm.trans hb')]
      exact initialCount_insertAtSites hsites
  · rw [eq_of_spares (spares_insertAt (methodIndex?_ne hmethod hother hindex) h) hb hb']

theorem initialCount_redirectCall {callee replacement : MemberName} {kind : Option CallKind}
    {required : Bool} (hb : graft.body? index = some body)
    (h : redirectCall patch edit callee replacement kind required graft = (.ok note, later))
    (hb' : later.body? index = some body') : body'.initialCount = body.initialCount := by
  rcases eq_or_of_redirectCall h with rfl | ⟨indices, count, hall⟩
  · rw [Option.some.inj (hb'.symm.trans hb)]
  · exact initialCount_redirectInAll hb hall hb'

/-! ### Methods without a body -/

/-- An added method has the body of its template, and all others have the bodies that they had. -/
theorem body?_addMethod {access : List Modifier} {method : Signature} {code : Option Template}
    {overwrite : Bool} (index : Nat)
    (h : addMethod patch edit access method code overwrite graft = (.ok note, later)) :
    ∃ made, (∀ body ∈ made, ∃ template between, bodyOf template graft = (.ok body, between)) ∧
      later.body? index =
        if (graft.file.methodIndex? method.name method.descriptor).getD graft.file.methods.length =
          index then made else graft.body? index := by
  obtain ⟨made, between, hmade, hlast⟩ := addMethod_eq_ok h
  refine ⟨made, fun body hbody => ?_, ?_⟩
  · rcases hmade with ⟨-, rfl, -⟩ | ⟨template, other, -, rfl, hother⟩
    · nomatch hbody
    · obtain rfl := Option.some.inj hbody
      exact ⟨template, between, hother⟩
  · have hbetween : ∃ pool, between = graft.withPool pool := by
      rcases hmade with ⟨-, -, rfl⟩ | ⟨template, other, -, -, hother⟩
      · exact ⟨_, rfl⟩
      · obtain ⟨pool, -, rfl⟩ := extends_bodyOf hother
        exact ⟨pool, rfl⟩
    obtain ⟨pool, rfl⟩ := hbetween
    -- The method is there, and its body is overwritten, or it is appended to the others.
    rcases hlast with ⟨other, hother, -, hover⟩ | ⟨hnone, -, result, hadd⟩
    · rw [hother, Option.getD_some, (overwriteMethod_eq_ok hover).2]
      split_ifs with hindex
      · subst hindex
        show ((graft.file.methods.modify other _)[other]?).bind Method.body? = made
        rw [List.getElem?_modify_eq,
          List.getElem?_eq_getElem (ClassFile.lt_length_of_methodIndex? hother)]
        exact Method.body?_overwritten _
      · exact (Graft.body?_modify_of_ne hindex).trans rfl
    · obtain ⟨nameIndex, descriptorIndex, middle, pool', -, -, rfl⟩ := changeAddMethod_eq_ok hadd
      rw [hnone, Option.getD_none]
      show ((graft.file.methods ++ [_])[index]?).bind Method.body? = _
      split_ifs with hindex
      · subst hindex
        rw [List.getElem?_concat_length]
        cases made <;> rfl
      · rcases Nat.lt_or_gt_of_ne hindex with hgt | hlt
        · rw [List.getElem?_eq_none (by rw [List.length_append]; exact hgt)]
          unfold Graft.body?
          rw [List.getElem?_eq_none (Nat.le_of_lt hgt)]
        · rw [List.getElem?_append_left hlt]
          rfl

/-- A method without a body is given one with nothing from the start. -/
theorem initialCount_replaceBody {code : Template} (hb : graft.body? index = none)
    (h : replaceBody patch edit code graft = (.ok note, later))
    (hb' : later.body? index = some body') : body'.initialCount = 0 := by
  obtain ⟨other, method, -, hother, hrun⟩ := replaceBody_eq_ok h
  rcases hrun with ⟨-, -, -, rfl⟩ | ⟨-, -, found, between, steps, supply, hfound, -, rfl⟩
  · cases hb.symm.trans hb'
  · by_cases hindex : other = index
    · subst hindex
      obtain ⟨-, hlength, -⟩ := bodyOrNew_spec hfound
      have hlt : other < (between.withPool supply.pool).file.methods.length :=
        Nat.lt_of_lt_of_eq (ClassFile.lt_length_of_methodIndex? hother) hlength.symm
      have hset := (Graft.body?_setBody_of_lt hlt _).symm.trans hb'
      rcases bodyOrNew_eq_ok hfound with ⟨hold, -⟩ | ⟨name, pool, -, -, rfl, -⟩
      · cases hb.symm.trans hold
      · rw [← Option.some.inj hset]
        rfl
    · have hbetween : between.body? index = graft.body? index := by
        rcases bodyOrNew_eq_ok hfound with ⟨-, rfl⟩ | ⟨name, pool, -, -, -, rfl⟩
        · rfl
        · exact Graft.body?_modify_of_ne hindex
      have hnone : (between.withPool supply.pool).body? index = none := hbetween.trans hb
      have hafter := (Graft.body?_modify_of_ne hindex).symm.trans hb'
      cases hnone.symm.trans hafter

theorem body?_addField {access : List Modifier} {field : Signature} {overwrite : Bool} (index : Nat)
    (h : addField edit access field overwrite graft = (.ok note, later)) :
    later.body? index = graft.body? index := by
  rcases (addField_eq_ok h).2 with ⟨position, -, -, rfl⟩ | ⟨-, result, hadd⟩
  · rfl
  · obtain ⟨nameIndex, descriptorIndex, between, pool, -, -, rfl⟩ := changeAddField_eq_ok hadd
    rfl

/-- Nothing is inserted in a method without a body. -/
theorem body?_insertAt {anchor : Anchor} {code : Template} (hb : graft.body? index = none)
    (h : insertAt patch edit anchor code graft = (.ok note, later)) : later.body? index = none := by
  obtain ⟨other, method, -, -, hrun⟩ := insertAt_eq_ok h
  rcases hrun with ⟨-, -, -, rfl⟩ | ⟨-, found, made, history, between, hfound, -, hsites, rfl⟩
  · exact hb
  · have hne : other ≠ index := by
      rintro rfl
      cases hb.symm.trans hfound
    obtain ⟨pool, -, rfl⟩ := extends_insertAtSites hsites
    exact (Graft.body?_modify_of_ne hne).trans hb

/-- Redirecting calls gives no body to a method without one. -/
theorem body?_redirectInAll {callee replacement : MemberName} {kind : Option CallKind}
    {indices : List Nat} {count count' : Nat} (hb : graft.body? index = none)
    (h : redirectInAll patch edit callee replacement kind indices count graft =
      (.ok count', later)) : later.body? index = none := by
  refine redirectInAll_induction (P := fun after => after.body? index = none)
    (fun other _ before more after hbefore hstep => ?_) hb h
  rcases redirectIn_eq_ok hstep with ⟨-, rfl⟩ | ⟨found, steps, middle, hfound, -, hsteps, rfl⟩
  · exact hbefore
  · have hne : other ≠ index := by
      rintro rfl
      cases hbefore.symm.trans hfound
    obtain ⟨pool, -, rfl⟩ := extends_redirectSteps hsteps
    exact (Graft.body?_modify_of_ne hne).trans hbefore

theorem body?_redirectCall {callee replacement : MemberName} {kind : Option CallKind}
    {required : Bool} (hb : graft.body? index = none)
    (h : redirectCall patch edit callee replacement kind required graft = (.ok note, later)) :
    later.body? index = none := by
  rcases eq_or_of_redirectCall h with rfl | ⟨indices, count, hall⟩
  · exact hb
  · exact body?_redirectInAll hb hall

end Grafting

namespace Turn

/-- A method that is put in place of another is added. -/
theorem overwrites_of_adds (ha : turn.adds index = false) : turn.overwrites index = false := by
  unfold adds at ha
  unfold overwrites
  split
  · next access method code hedit =>
    simp only [hedit, beq_eq_false_iff_ne] at ha
    refine beq_eq_false_iff_ne.mpr fun hindex => ha ?_
    rw [hindex, Option.getD_some]
  · rfl

/-- Unless a method is put in place of another, what counts as there from the start does not
change. -/
theorem initialCount_eq (h : turn.IsValid) (ho : turn.overwrites index = false)
    (hb : turn.before.body? index = some body) (hb' : turn.after.body? index = some body') :
    body'.initialCount = body.initialCount := by
  have hvalid := h
  unfold IsValid at h
  cases he : turn.edit with
  | addMethod access method code overwrite =>
    rw [Grafting.eq_of_spares (spares_of_addMethod hvalid he ho) hb hb']
  | addField access field overwrite =>
    rw [he] at h
    rw [Grafting.eq_of_spares (Grafting.spares_addField h) hb hb']
  | replaceBody code =>
    rw [he] at h
    exact Grafting.initialCount_replaceBody_of_body? hb h hb'
  | insertAt anchor code =>
    rw [he] at h
    exact Grafting.initialCount_insertAt hb h hb'
  | redirectCall callee replacement kind required =>
    rw [he] at h
    exact Grafting.initialCount_redirectCall hb h hb'

/-- A method that a turn adds has a body all of which counts as there from the start. -/
theorem stemsFrom_of_adds (h : turn.IsValid) (ha : turn.adds index = true)
    (hb' : turn.after.body? index = some body') : body'.StemsFrom (some body') := by
  unfold IsValid at h
  unfold adds at ha
  cases he : turn.edit with
  | addMethod access method code overwrite =>
    rw [he] at h
    simp only [he, beq_iff_eq] at ha
    obtain ⟨made, hmade, hafter⟩ := Grafting.body?_addMethod index h
    rw [if_pos ha] at hafter
    obtain ⟨template, between, hbody⟩ := hmade body' (hafter.symm.trans hb')
    obtain ⟨name, pool, steps, supply, -, hsteps, rfl, -⟩ := Grafting.bodyOf_eq_ok hbody
    obtain ⟨-, hlength, hmarked, -⟩ := Template.steps_spec hsteps
    exact .self (Nat.le_refl _) fun step hstep =>
      Nat.lt_of_lt_of_le (hmarked.bounds hstep).2 hlength
  | _ =>
    simp only [he, Bool.false_eq_true] at ha

/-- A body that a turn gives a method without one, and does not add with it, has nothing that counts
as there from the start. -/
theorem initialCount_eq_zero (h : turn.IsValid) (ha : turn.adds index = false)
    (hb : turn.before.body? index = none) (hb' : turn.after.body? index = some body') :
    body'.initialCount = 0 := by
  unfold IsValid at h
  unfold adds at ha
  cases he : turn.edit with
  | addMethod access method code overwrite =>
    rw [he] at h
    simp only [he, beq_eq_false_iff_ne] at ha
    obtain ⟨made, -, hafter⟩ := Grafting.body?_addMethod index h
    rw [if_neg ha, hb] at hafter
    cases hafter.symm.trans hb'
  | addField access field overwrite =>
    rw [he] at h
    cases hb'.symm.trans ((Grafting.body?_addField index h).trans hb)
  | replaceBody code =>
    rw [he] at h
    exact Grafting.initialCount_replaceBody hb h hb'
  | insertAt anchor code =>
    rw [he] at h
    cases (Grafting.body?_insertAt hb h).symm.trans hb'
  | redirectCall callee replacement kind required =>
    rw [he] at h
    cases (Grafting.body?_redirectCall hb h).symm.trans hb'

end Turn

/-! ### Runs of edits -/

namespace ClassFile

theorem firstBody?_of_adds (ha : turn.adds index = true) :
    file.firstBody? index (past ++ [turn]) = turn.after.body? index := by
  rw [firstBody?, Turn.filter_append_turn, if_pos ha, List.getLast?_concat]

theorem firstBody?_append (ha : turn.adds index = false) :
    file.firstBody? index (past ++ [turn]) = file.firstBody? index past := by
  rw [firstBody?, Turn.filter_append_turn, if_neg (by simp [ha]), List.append_nil]
  rfl

/-- After any turns a method without a body never had one, and one with a body has what is left of
the first one. -/
theorem stemsFrom_of_leads (hp : file.IsParsed) (hl : (Graft.start file).Leads past graft)
    (index : Nat) :
    (graft.body? index = none → file.firstBody? index past = none) ∧
      ∀ body, graft.body? index = some body → body.StemsFrom (file.firstBody? index past) := by
  induction hl with
  | refl =>
    refine ⟨id, fun body hbody => ?_⟩
    obtain ⟨method, hmethod, hthere⟩ := Option.bind_eq_some_iff.mp hbody
    have hinitial := (hp.holds hmethod hthere).initial
    have hfirst : file.firstBody? index [] = some body := hbody
    rw [hfirst]
    exact .self hinitial.nextMark hinitial.initial
  | @step past turn _ valid ih =>
    obtain ⟨hnone, hsome⟩ := ih
    -- A turn that adds the body starts anew, and what was before it does not matter.
    cases ha : turn.adds index with
    | true =>
      rw [firstBody?_of_adds ha]
      refine ⟨id, fun body hbody => ?_⟩
      rw [hbody]
      exact Turn.stemsFrom_of_adds valid ha hbody
    | false =>
      rw [firstBody?_append ha]
      have ho : turn.overwrites index = false := Turn.overwrites_of_adds ha
      cases hbefore : turn.before.body? index with
      | none =>
        refine ⟨fun _ => hnone hbefore, fun body hbody => ?_⟩
        have hzero := Turn.initialCount_eq_zero valid ha hbefore hbody
        rw [hnone hbefore]
        refine ⟨hzero ▸ Nat.zero_le _, List.forall_mem_nil _, fun step _ hi => ?_⟩
        have hlt : step.mark.number < body.initialCount := of_decide_eq_true hi
        omega
      | some old =>
        obtain ⟨body', hbody', hbecomes⟩ :=
          @Turn.becomes (fun _ => True) turn index old valid (fun _ _ => trivial) ho hbefore
        refine ⟨fun hafter => ?_, fun body hbody => ?_⟩
        · cases hafter.symm.trans hbody'
        · obtain rfl := Option.some.inj (hbody.symm.trans hbody')
          exact (hsome old hbefore).of_becomes hbecomes
            (Turn.initialCount_eq valid ho hbefore hbody)

/-- An instruction counts as there from the start if it was there when the class was read or its
method was added. -/
theorem isInitial_iff {bytes : Bytes} (h : parse bytes = .ok file)
    (hl : (Graft.start file).Leads past graft) (hb : graft.body? index = some body) {step : Step}
    (hs : step ∈ body.steps) : body.isInitial step.mark = true ↔
      ∃ first, file.firstBody? index past = some first ∧ step.mark ∈ first.steps.map (·.mark) := by
  rw [((stemsFrom_of_leads (isParsed_of_parse h) hl index).2 body hb).isInitial_iff hs]
  unfold Body.marksOf
  cases file.firstBody? index past with
  | none => simp
  | some first => simp

end ClassFile

end ClassGraft

import ClassGraft.Proofs.Class.Parsed
import ClassGraft.Proofs.Graft.Sparing

/-!
# The arrangement of inserted code

However many patches insert code into a method that was read, and in whatever order, the body is
that of one plan, which has for each edit, in the order in which they were applied, a use of its
template at each place that its anchor applies to in the body as it was read
(`Graft.Arranged.applyPatches`).  The methods of a class keep their indices under patches, so each
patch is about the same method as before (`methodIndex?_iff`).
-/

namespace ClassGraft

variable {file : ClassFile} {index : Nat} {body : Body} {plan : List Insertion}
  {graft later : Graft} {patch : Patch} {edit : Edit}

/-! ### Methods by name -/

/-- Whether the names and descriptors of all methods are texts. -/
def ClassFile.HasNames (file : ClassFile) : Prop :=
  ∀ member ∈ file.members, (file.pool.utf8 member.1).isSome ∧ (file.pool.utf8 member.2).isSome

theorem ClassFile.methodIndex?_eq_findIdx? (file : ClassFile) (name descriptor : String) :
    file.methodIndex? name descriptor = file.members.findIdx? fun member =>
      file.pool.isMember member.1 member.2 name descriptor := by
  rw [members, List.findIdx?_map]
  rfl

/-- A name leads to the same one of the methods that were there from the start. -/
theorem ClassFile.methodIndex?_iff (hn : file.HasNames) (hg : Graft.Grows (.start file) graft)
    (hi : index < file.methods.length) (name descriptor : String) :
    graft.file.methodIndex? name descriptor = some index ↔
      file.methodIndex? name descriptor = some index := by
  obtain ⟨added, hadded⟩ := hg.members
  have hpool : file.pool.Grows graft.file.pool := hg.pool.grows
  have hsame : file.members.findIdx? (fun member =>
      graft.file.pool.isMember member.1 member.2 name descriptor) =
        file.methodIndex? name descriptor := by
    have hid : ∀ p : UInt16 × UInt16 → Bool,
        file.members.findIdx? p = (file.members.map p).findIdx? id := fun p => by
      rw [List.findIdx?_map, Function.id_comp]
    rw [file.methodIndex?_eq_findIdx?, hid, hid]
    refine congrArg (List.findIdx? id) (List.map_congr_left fun member hm => ?_)
    obtain ⟨hname, hdescriptor⟩ := hn member hm
    rw [Pool.isMember, hpool.utf8Is_eq hname, hpool.utf8Is_eq hdescriptor,
      Pool.isMember]
  have hadded' : file.members ++ added = graft.file.members := hadded
  have hlength : file.members.length = file.methods.length := List.length_map _
  rw [graft.file.methodIndex?_eq_findIdx?, ← hadded', List.findIdx?_append, hsame, hlength]
  cases file.methodIndex? name descriptor with
  | some found => rfl
  | none =>
    refine iff_of_false (fun h => ?_) (by simp)
    obtain ⟨position, -, rfl⟩ := Option.map_eq_some_iff.mp h
    omega

/-! ### What patches ask for -/

/-- The insertions that an edit asks for in a body as it was read: its template at each place that
its anchor applies to. -/
def Edit.insertions (body : Body) (pool : Pool) : Edit → List (Spot × Template)
  | insertAt anchor code => (body.spots pool anchor).map fun spot => (spot, code)
  | _ => []

namespace Patch

/-- Whether the method that the patch names is the one at an index. -/
def IsFor (patch : Patch) (file : ClassFile) (index : Nat) : Prop :=
  (patch.method.bind fun method => file.methodIndex? method.name method.descriptor) = some index

instance (patch : Patch) (file : ClassFile) (index : Nat) : Decidable (patch.IsFor file index) :=
  inferInstanceAs (Decidable (_ = _))

/-- The insertions that a patch asks for in the body of a method. -/
def insertions (patch : Patch) (file : ClassFile) (index : Nat) (body : Body) :
    List (Spot × Template) :=
  if patch.IsFor file index then patch.edits.flatMap (Edit.insertions body file.pool) else []

/-- Whether all that an edit of a patch does to a method is to insert code: it does not overwrite the
method or replace its body, and there are no calls in it that it redirects. -/
def OnlyInserts (patch : Patch) (file : ClassFile) (index : Nat) (body : Body) (edit : Edit) :
    Prop :=
  match edit with
  | .addMethod _ method _ _ => file.methodIndex? method.name method.descriptor ≠ some index
  | .addField _ _ _ => True
  | .replaceBody _ => ¬patch.IsFor file index
  | .insertAt _ code => code ≠ []
  | .redirectCall callee _ _ _ =>
    patch.method = none ∨ patch.IsFor file index → body.callsOf file.pool callee = []

end Patch

/-! ### Runs of edits -/

/-- Whether a body is there in a class that was read, as it was before any patch. -/
structure ClassFile.Holds (file : ClassFile) (index : Nat) (body : Body) : Prop where
  there : (Graft.start file).body? index = some body
  initial : body.IsInitial
  nonempty : body.steps ≠ []
  names : file.HasNames
  sound : file.pool.IsSound

/-- Whether an insertion is the one that was asked for, with marks from a number on and constants
that were added to one pool on the way to another. -/
def Insertion.Answers (number : Nat) (pool later : Pool) (asked : Spot × Template)
    (insertion : Insertion) : Prop :=
  insertion.spot = asked.1 ∧ asked.2.Makes number pool later insertion.steps

/-- Whether the body of a method is as it was read, but for insertions that follow a plan. -/
structure Graft.Arranged (file : ClassFile) (index : Nat) (body : Body) (plan : List Insertion)
    (graft : Graft) : Prop where
  grows : Graft.Grows (.start file) graft
  woven : ∃ woven, graft.body? index = some woven ∧ IsWoven body plan woven
  history : (graft.history index).IsOf plan

/-- Whether the plan grew by what was asked for, from one class under patches to another. -/
def Graft.Answered (file : ClassFile) (index : Nat) (body : Body) (plan : List Insertion)
    (asked : List (Spot × Template)) (graft later : Graft) : Prop :=
  graft.file.pool.Extends later.file.pool ∧
    ∃ added, later.Arranged file index body (plan ++ added) ∧
      List.Forall₂ (Insertion.Answers body.initialCount graft.file.pool later.file.pool) asked added

theorem Graft.Answered.trans {asked more : List (Spot × Template)} {between : Graft}
    (h : Answered file index body plan asked graft between)
    (h' : ∀ plan, between.Arranged file index body plan →
      Answered file index body plan more between later) :
    Answered file index body plan (asked ++ more) graft later := by
  obtain ⟨hpool, added, harranged, hanswers⟩ := h
  obtain ⟨hpool', added', harranged', hanswers'⟩ := h' _ harranged
  refine ⟨hpool.trans hpool', added ++ added', by rwa [← List.append_assoc], ?_⟩
  refine List.rel_append (hanswers.imp fun _ _ hmade => ?_) (hanswers'.imp fun _ _ hmade => ?_)
  · exact ⟨hmade.1, hmade.2.mono (.refl _) hpool'⟩
  · exact ⟨hmade.1, hmade.2.mono hpool (.refl _)⟩

namespace Graft.Arranged

theorem start (h : file.Holds index body) : (Graft.start file).Arranged file index body [] where
  grows := .refl _
  woven := ⟨body, h.there, h.initial.isWoven⟩
  history := by
    rw [history_start]
    exact MethodHistory.isOf_untouched

theorem of_spares (ha : graft.Arranged file index body plan) (hs : Spares index graft later) :
    later.Arranged file index body plan := by
  obtain ⟨woven, hwoven, hw⟩ := ha.woven
  exact ⟨ha.grows.trans hs.toGrows, ⟨woven, hs.body woven hwoven, hw⟩, hs.history ▸ ha.history⟩

theorem methodIndex?_iff (ha : graft.Arranged file index body plan) (h : file.Holds index body)
    (name descriptor : String) : graft.file.methodIndex? name descriptor = some index ↔
      file.methodIndex? name descriptor = some index := by
  obtain ⟨method, hmethod, -⟩ := Option.bind_eq_some_iff.mp h.there
  exact ClassFile.methodIndex?_iff h.names ha.grows (List.getElem?_eq_some_iff.mp hmethod).1
    name descriptor

/-- A patch is about the method if it finds it under the name that it gives. -/
theorem isFor_iff (ha : graft.Arranged file index body plan) (h : file.Holds index body) :
    patch.IsFor file index ↔ ∃ method, patch.method = some method ∧
      graft.file.methodIndex? method.name method.descriptor = some index := by
  rw [Patch.IsFor, Option.bind_eq_some_iff]
  exact exists_congr fun method => and_congr_right fun _ => (ha.methodIndex?_iff h _ _).symm

/-- Inserting code adds to the plan what was asked for. -/
theorem insertAt (ha : graft.Arranged file index body plan) (h : file.Holds index body)
    (hc : body.HasCallees file.pool) (hfor : patch.IsFor file index) {anchor : Anchor}
    {code : Template} (hne : code ≠ []) {note : Note}
    (hrun : Grafting.insertAt patch edit anchor code graft = (.ok note, later)) :
    Answered file index body plan ((Edit.insertAt anchor code).insertions body file.pool) graft
      later := by
  obtain ⟨other, method, hmethod, hother, hrun⟩ := Grafting.insertAt_eq_ok hrun
  obtain ⟨named, hnamed, hindex⟩ := (ha.isFor_iff h).mp hfor
  obtain rfl := Option.some.inj (hmethod.symm.trans hnamed)
  obtain rfl := Option.some.inj (hother.symm.trans hindex)
  obtain ⟨woven, hwoven, hw⟩ := ha.woven
  rcases hrun with
    ⟨winner, hwinner, -⟩ | ⟨-, body', after, history, between, hbody, -, hsites, rfl⟩
  · exact nomatch ha.history.replacedBy.symm.trans hwinner
  · obtain rfl := Option.some.inj (hwoven.symm.trans hbody)
    obtain ⟨pool, hpool, rfl⟩ := Grafting.extends_insertAtSites hsites
    have hspots := hw.spots h.initial h.nonempty h.sound ha.grows.pool.grows hc anchor
    -- Away from the entry, sites are instructions of the body as it was read; at the entry it is
    -- the first instruction of the body as it is now, which may be one that was inserted.
    have hother : anchor ≠ .methodEntry → ∀ site ∈ woven.sites graft.file.pool anchor,
        ∃ step ∈ body.steps, step.mark = site := by
      intro hentry site hsite
      rw [hw.sites h.initial h.sound ha.grows.pool.grows hc hentry] at hsite
      exact Body.exists_of_mem_sites hsite
    have hentry : anchor = .methodEntry → woven.sites graft.file.pool anchor = [] ∨
        woven.sites graft.file.pool anchor = (woven.steps.head?.map (·.mark)).toList := by
      rintro rfl
      exact .inr rfl
    obtain ⟨added, hw', hh', hall⟩ :=
      Grafting.insertAtSites_spec h.initial hne hw ha.history hentry hother hsites
    refine ⟨hpool, added, ⟨?_, ⟨after, ?_, hw'⟩, ?_⟩, ?_⟩
    · exact ha.grows.trans <| (spares_withPool hpool : Spares other graft _).toGrows.trans <|
        grows_modify fun _ => ⟨rfl, rfl⟩
    · exact body?_setBody ((spares_withPool hpool).body woven hwoven) after
    · rw [history_insert_self]
      exact ⟨hh'.replacedBy, hh'.entryEnd, hh'.afterCall⟩
    · rw [Edit.insertions, ← hspots, Body.spots, List.map_map, List.forall₂_map_left_iff]
      exact hall

/-- Redirecting calls of a method that there are none of spares the method. -/
theorem redirectInAll (ha : graft.Arranged file index body plan) (h : file.Holds index body)
    (hc : body.HasCallees file.pool) {callee replacement : MemberName} {kind : Option CallKind}
    {indices : List Nat} {count count' : Nat}
    (hcalls : index ∈ indices → body.callsOf file.pool callee = [])
    (hrun : Grafting.redirectInAll patch edit callee replacement kind indices count graft =
      (.ok count', later)) : Spares index graft later := by
  refine Grafting.redirectInAll_induction (P := fun last => Spares index graft last)
    (fun other hother before more after hbefore hstep => ?_) (.refl index _) hrun
  refine hbefore.trans ?_
  by_cases hne : other = index
  · subst hne
    have hb := ha.of_spares hbefore
    obtain ⟨woven, hwoven, hw⟩ := hb.woven
    have hnone : woven.callsOf before.file.pool callee = [] :=
      (hw.callsOf h.initial h.sound hb.grows.pool.grows hc callee).trans (hcalls hother)
    rw [Grafting.eq_of_redirectIn hwoven hnone hstep]
    exact .refl other _
  · exact Grafting.spares_redirectIn hne hstep

/-- An edit adds to the plan what was asked for. -/
theorem apply (ha : graft.Arranged file index body plan) (h : file.Holds index body)
    (hc : body.HasCallees file.pool) (he : patch.OnlyInserts file index body edit) {note : Note}
    (hrun : Grafting.apply patch edit graft = (.ok note, later)) :
    Answered file index body plan
      (if patch.IsFor file index then edit.insertions body file.pool else []) graft later := by
  -- An edit that spares the method, and asks for nothing there, leaves the plan.
  have hnone : (patch.IsFor file index → edit.insertions body file.pool = []) →
      Spares index graft later → Answered file index body plan
        (if patch.IsFor file index then edit.insertions body file.pool else []) graft later := by
    intro hempty hspares
    refine ⟨hspares.pool, [], by rw [List.append_nil]; exact ha.of_spares hspares, ?_⟩
    split_ifs with hfor
    · rw [hempty hfor]
      exact .nil
    · exact .nil
  have hne : ¬patch.IsFor file index → ∀ method, patch.method = some method →
      graft.file.methodIndex? method.name method.descriptor ≠ some index :=
    fun hfor method hmethod hindex => hfor ((ha.isFor_iff h).mpr ⟨method, hmethod, hindex⟩)
  cases edit with
  | addMethod access method code overwrite =>
    exact hnone (fun _ => rfl)
      (Grafting.spares_addMethod (mt (ha.methodIndex?_iff h _ _).mp he) hrun)
  | addField access field overwrite => exact hnone (fun _ => rfl) (Grafting.spares_addField hrun)
  | replaceBody code => exact hnone (fun _ => rfl) (Grafting.spares_replaceBody (hne he) hrun)
  | insertAt anchor code =>
    by_cases hfor : patch.IsFor file index
    · rw [if_pos hfor]
      exact ha.insertAt h hc hfor he hrun
    · exact hnone (fun hin => absurd hin hfor) (Grafting.spares_insertAt (hne hfor) hrun)
  | redirectCall callee replacement kind required =>
    refine hnone (fun _ => rfl) ?_
    rcases Grafting.redirectCall_eq_ok hrun with
      ⟨other, method, hmethod, hother, ⟨-, -, -, rfl⟩ | ⟨-, count, -, hall, -⟩⟩ |
        ⟨hmethod, count, -, hall, -⟩
    · exact .refl index _
    · refine ha.redirectInAll h hc (fun hin => he (.inr ?_)) hall
      obtain rfl := List.mem_singleton.mp hin
      exact (ha.isFor_iff h).mpr ⟨method, hmethod, hother⟩
    · exact ha.redirectInAll h hc (fun _ => he (.inl hmethod)) hall

/-- Edits that are applied one after the other add to the plan what was asked for, in order. -/
theorem mapM (ha : graft.Arranged file index body plan) (h : file.Holds index body)
    (hc : body.HasCallees file.pool) {edits : List Edit}
    (he : ∀ edit ∈ edits, patch.OnlyInserts file index body edit) {notes : List Note}
    (hrun : edits.mapM (Grafting.apply patch) graft = (.ok notes, later)) :
    Answered file index body plan
      (if patch.IsFor file index then edits.flatMap (Edit.insertions body file.pool) else [])
      graft later := by
  induction edits generalizing graft plan notes with
  | nil =>
    obtain ⟨-, rfl⟩ := ExceptT.pure_eq_ok.mp hrun
    refine ⟨.refl _, [], by rwa [List.append_nil], ?_⟩
    split_ifs <;> exact .nil
  | cons edit rest ih =>
    rw [List.mapM_cons] at hrun
    obtain ⟨note, between, hstep, hrun⟩ := ExceptT.bind_eq_ok.mp hrun
    obtain ⟨others, _, hrest, hrun⟩ := ExceptT.bind_eq_ok.mp hrun
    obtain ⟨-, rfl⟩ := ExceptT.pure_eq_ok.mp hrun
    obtain ⟨hfirst, hothers⟩ := List.forall_mem_cons.mp he
    have hall := (ha.apply h hc hfirst hstep).trans fun plan ha' => ih ha' hothers hrest
    by_cases hfor : patch.IsFor file index
    · simpa only [if_pos hfor, List.flatMap_cons] using hall
    · simpa only [if_neg hfor, List.append_nil] using hall

end Graft.Arranged

/-! ### Runs of patches -/

namespace Graft

/-- The patches that are applied, which are those that are not skipped. -/
def applied : Graft → List Patch → List Patch
  | _, [] => []
  | graft, patch :: rest =>
    match (patch.edits.mapM (Grafting.apply patch)).run graft with
    | (.ok _, later) => patch :: later.applied rest
    | (.error _, _) => graft.applied rest

theorem mem_of_mem_applied {patches : List Patch} (h : patch ∈ graft.applied patches) :
    patch ∈ patches := by
  induction patches generalizing graft with
  | nil => exact h
  | cons first rest ih =>
    unfold applied at h
    split at h
    · rcases List.mem_cons.mp h with rfl | h
      · exact List.mem_cons_self
      · exact List.mem_cons_of_mem _ (ih h)
    · exact List.mem_cons_of_mem _ (ih h)

/-- Patches that are applied one after the other add to the plan what was asked for, in order. -/
theorem Arranged.applyPatches (h : file.Holds index body) (hc : body.HasCallees file.pool)
    {patches : List Patch} (ha : graft.Arranged file index body plan)
    (ho : ∀ patch ∈ graft.applied patches, ∀ edit ∈ patch.edits,
      patch.OnlyInserts file index body edit) :
    Answered file index body plan
      ((graft.applied patches).flatMap fun patch => patch.insertions file index body) graft
      (graft.applyPatches patches).1 := by
  induction patches generalizing graft plan with
  | nil => exact ⟨.refl _, [], by rwa [List.append_nil], .nil⟩
  | cons patch rest ih =>
    obtain ⟨result, later, hrun⟩ : ∃ result later,
        (patch.edits.mapM (Grafting.apply patch)).run graft = (result, later) := ⟨_, _, rfl⟩
    cases result with
    | error fault =>
      have happlied : graft.applied (patch :: rest) = graft.applied rest := by
        rw [applied, hrun]
      have happly : (graft.applyPatches (patch :: rest)).1 = (graft.applyPatches rest).1 := by
        simp only [Graft.applyPatches, applyPatch, hrun]
      rw [happlied] at ho ⊢
      rw [happly]
      exact ih ha ho
    | ok notes =>
      have happlied : graft.applied (patch :: rest) = patch :: later.applied rest := by
        rw [applied, hrun]
      have happly : (graft.applyPatches (patch :: rest)).1 = (later.applyPatches rest).1 := by
        simp only [Graft.applyPatches, applyPatch, hrun]
      rw [happlied] at ho ⊢
      rw [happly, List.flatMap_cons]
      obtain ⟨hfirst, hothers⟩ := List.forall_mem_cons.mp ho
      exact (ha.mapM h hc hfirst hrun).trans fun plan ha' => ih ha' hothers

end Graft

section Sites

variable {anchor : Anchor} {code : Template} {method : Signature} {site : Mark} {steps : List Step}
  {supply : Supply} {made : Body} {history history' : MethodHistory}

/-- What an insertion of code in one place leaves. -/
theorem Grafting.insertAt_of_site (hmethod : patch.method = some method)
    (hindex : graft.file.methodIndex? method.name method.descriptor = some index)
    (hhistory : graft.history index = history) (hreplaced : history.replacedBy = none)
    (hbody : graft.body? index = some body)
    (hsites : body.sites graft.file.pool anchor = [site])
    (hsteps : code.steps ⟨body.nextMark, graft.file.pool⟩ = (.ok steps, supply))
    (hmade : insertSteps anchor site steps { body with nextMark := supply.nextMark } history =
      (made, history')) :
    insertAt patch edit anchor code graft = (.ok (.applied (.inserted edit method 1)),
      ⟨(graft.withPool supply.pool).file.setBody index made,
        graft.histories.insert index (history'.edited patch.id)⟩) := by
  have hsome : (body.sites graft.file.pool anchor).isEmpty = false := by
    rw [hsites]
    rfl
  have hall : insertAtSites anchor code (body.sites graft.file.pool anchor) body
      (graft.history index) graft = (.ok (made, history'), graft.withPool supply.pool) := by
    rw [hsites, hhistory]
    refine ExceptT.bind_eq_ok.mpr
      ⟨_, _, useTemplate_eq_ok.mpr ⟨supply, hsteps, rfl, rfl⟩, ?_⟩
    dsimp only
    rw [hmade]
    rfl
  have hrun : insertAt patch edit anchor code graft = (.ok _, _) :=
    insertAt_of_insertAtSites hmethod hindex (hhistory ▸ hreplaced) hbody hsome hall
  rw [hsites] at hrun
  exact hrun

/-- What a patch leaves that inserts code in one place, and what is told of it. -/
theorem Graft.applyPatch_of_site (hedits : patch.edits = [.insertAt anchor code])
    (hmethod : patch.method = some method)
    (hindex : graft.file.methodIndex? method.name method.descriptor = some index)
    (hhistory : graft.history index = history) (hreplaced : history.replacedBy = none)
    (hbody : graft.body? index = some body)
    (hsites : body.sites graft.file.pool anchor = [site])
    (hsteps : code.steps ⟨body.nextMark, graft.file.pool⟩ = (.ok steps, supply))
    (hmade : Grafting.insertSteps anchor site steps { body with nextMark := supply.nextMark }
      history = (made, history')) :
    graft.applyPatch patch = (⟨(graft.withPool supply.pool).file.setBody index made,
      graft.histories.insert index (history'.edited patch.id)⟩,
      [⟨some patch.id, .applied (.inserted (.insertAt anchor code) method 1)⟩]) := by
  have hrun : Grafting.apply patch (.insertAt anchor code) graft = (.ok _, _) :=
    Grafting.insertAt_of_site hmethod hindex hhistory hreplaced hbody hsites hsteps hmade
  have hmapM : (patch.edits.mapM (Grafting.apply patch)).run graft =
      (.ok [.applied (.inserted (.insertAt anchor code) method 1)],
        ⟨(graft.withPool supply.pool).file.setBody index made,
          graft.histories.insert index (history'.edited patch.id)⟩) := by
    rw [hedits]
    exact ExceptT.bind_eq_ok.mpr ⟨_, _, hrun, rfl⟩
  rw [Graft.applyPatch, hmapM]
  rfl

end Sites

/-! ### Classes that were read -/

/-- The body of a method of a class that was read is there as it was before any patch. -/
theorem ClassFile.IsParsed.holds (hp : file.IsParsed) {method : Method}
    (hm : file.methods[index]? = some method) (hb : method.body? = some body) :
    file.Holds index body := by
  have hmethod := hp.methods method (List.mem_of_getElem? hm)
  obtain ⟨item, hitem, hbody⟩ := List.exists_of_findSome?_eq_some hb
  have hparsed := hmethod.attributes item hitem
  cases item with
  | other raw => nomatch hbody
  | code found =>
    obtain rfl := Option.some.inj hbody
    obtain ⟨-, cursor, next, hread⟩ := hparsed
    obtain ⟨hinitial, hnonempty⟩ := Body.isInitial_of_read hread
    refine ⟨?_, hinitial, hnonempty, fun member hmember => ?_, hp.sound⟩
    · show (file.methods[index]?).bind Method.body? = some _
      rw [hm, Option.bind_some, hb]
    · obtain ⟨other, hother, rfl⟩ := List.mem_map.mp hmember
      exact ⟨(hp.methods other hother).name, (hp.methods other hother).descriptor⟩

/-- Where patches only insert code into a method that was read, the method is left with the code
that the insertions of the applied patches arrange: those at the start, then each instruction
between those before it and those after it, in the order in which they were applied.  Each is a use
of a template at a place where the anchor applies to the code as it was read. -/
theorem ClassFile.exists_plan_of_applyPatches {bytes : Bytes} (h : ClassFile.parse bytes = .ok file)
    {method : Method} (hm : file.methods[index]? = some method) (hb : method.body? = some body)
    (hc : body.HasCallees file.pool) {patches : List Patch}
    (ho : ∀ patch ∈ (Graft.start file).applied patches, ∀ edit ∈ patch.edits,
      patch.OnlyInserts file index body edit) :
    ∃ plan woven method', (file.applyPatches patches).1.methods[index]? = some method' ∧
      method'.body? = some woven ∧
      List.Forall₂
        (Insertion.Answers body.initialCount file.pool (file.applyPatches patches).1.pool)
        (((Graft.start file).applied patches).flatMap fun patch =>
          patch.insertions file index body) plan ∧
      woven.steps = weave plan body.steps ∧
      woven.handlers.map (·.entry) = body.handlers.map (·.entry) ∧
      (woven.steps.map (·.mark)).Nodup := by
  have hholds := (ClassFile.isParsed_of_parse h).holds hm hb
  obtain ⟨-, plan, harranged, hanswers⟩ :=
    (Graft.Arranged.start hholds).applyPatches hholds hc ho
  obtain ⟨woven, hwoven, hw⟩ := harranged.woven
  obtain ⟨method', hmethod', hbody'⟩ := Option.bind_eq_some_iff.mp hwoven
  exact ⟨plan, woven, method', hmethod', hbody', hanswers, hw.steps, hw.entries, hw.nodup⟩

/-! ### Calls without a constant -/

namespace Dangling

/-- The constants of a class `C` with names for a method `X.y`, but without the method itself. -/
def constants : Bytes :=
  [1, 0, 1, 0x43] ++ [7, 0, 1] ++ [1, 0, 1, 0x6d] ++ [1, 0, 1, 0x6e] ++ [1, 0, 3, 0x28, 0x29, 0x56] ++
    [1, 0, 4, 0x43, 0x6f, 0x64, 0x65] ++ [1, 0, 1, 0x58] ++ [7, 0, 7] ++ [1, 0, 1, 0x79] ++
    [12, 0, 9, 0, 5]

/-- A static method with the given name and code. -/
def methodBytes (name : UInt8) (code : Bytes) : Bytes :=
  [0, 8, 0, name, 0, 5, 0, 1] ++ [0, 6, 0, 0, 0, UInt8.ofNat (code.length + 12)] ++
    [0, 0, 0, 0, 0, 0, 0, UInt8.ofNat code.length] ++ code ++ [0, 0, 0, 0]

/-- The class; its method `m` calls the method at index 11, and its method `n` only returns. -/
def classBytes (count : UInt8) (more : Bytes) : Bytes :=
  [0xca, 0xfe, 0xba, 0xbe, 0, 0, 0, 52, 0, count] ++ constants ++ more ++
    [0, 1, 0, 2, 0, 0, 0, 0, 0, 0, 0, 2] ++ methodBytes 3 [0xb8, 0, 11, 0xb1] ++
    methodBytes 4 [0xb1] ++ [0, 0]

/-- The class without a constant at index 11. -/
def dangling : Bytes := classBytes 11 []

/-- The class with the method `X.y` at index 11. -/
def complete : Bytes := classBytes 12 [10, 0, 8, 0, 10]

def callee : MemberName := ⟨"X", "y", "()V"⟩

/-- Has a call of `X.y` inserted into the other method. -/
def calling : Patch :=
  ⟨"a", "C", some ⟨"n", "()V"⟩, 0, [.insertAt .methodEntry [.invoke 0xb8 callee false]]⟩

/-- Has code inserted before the calls of `X.y`. -/
def preceding : Patch :=
  ⟨"b", "C", some ⟨"m", "()V"⟩, 0, [.insertAt (.beforeCall ⟨callee, none⟩) [.plain 0]]⟩

/-- The class that is read from bytes. -/
@[irreducible]
def classOf (bytes : Bytes) : ClassFile :=
  match ClassFile.parse bytes with
  | .ok file => file
  | .error _ => ⟨0, 0, .empty, 0, 0, 0, [], [], [], []⟩

theorem parse_classOf {bytes : Bytes} (h : (ClassFile.parse bytes).isOk = true) :
    ClassFile.parse bytes = .ok (classOf bytes) := by
  unfold classOf
  cases hparse : ClassFile.parse bytes with
  | ok file => rfl
  | error fault =>
    rw [hparse] at h
    simp [Except.isOk, Except.toBool] at h

/-- A method of the class, by its index. -/
def methodOf (bytes : Bytes) (index : Nat) : Method :=
  (classOf bytes).methods[index]?.getD ⟨0, 0, 0, []⟩

/-- The body of a method of the class, by its index. -/
def bodyOf (bytes : Bytes) (index : Nat) : Body :=
  (methodOf bytes index).body?.getD (Body.new 0)

/-- The method `m` of the complete class. -/
def invoking : Method := ⟨8, 3, 5, [.code { Body.new 6 with
  steps := [⟨⟨0⟩, .invoke 0xb8 11⟩, ⟨⟨1⟩, .plain Opcode.returnVoid⟩]
  nextMark := 2
  initialCount := 2
  initialOffsets := [0, 3]
  encoded := some [0, 0, 0, 0, 0, 0, 0, 4, 0xb8, 0, 11, 0xb1, 0, 0, 0, 0]
  modified := false }]⟩

/-- The body of `n`, which only returns. -/
def returning : Body := { Body.new 6 with
  steps := [⟨⟨0⟩, .plain Opcode.returnVoid⟩]
  nextMark := 1
  initialCount := 1
  initialOffsets := [0]
  encoded := some [0, 0, 0, 0, 0, 0, 0, 1, 0xb1, 0, 0, 0, 0]
  modified := false }

/-- The constants of the complete class. -/
def completed : List (Option Pool.Entry) :=
  [some (.utf8 [0x43]), some (.named .classRef 1), some (.utf8 [0x6d]), some (.utf8 [0x6e]),
    some (.utf8 [0x28, 0x29, 0x56]), some (.utf8 [0x43, 0x6f, 0x64, 0x65]), some (.utf8 [0x58]),
    some (.named .classRef 7), some (.utf8 [0x79]), some (.nameAndType 9 5),
    some (.member .method 8 10)]

/-- What is read from the complete class. -/
theorem complete_spec : ClassFile.parse complete = .ok (classOf complete) ∧
    (classOf complete).pool.slots.toList = completed ∧
    (classOf complete).methods = [invoking, ⟨8, 4, 5, [.code returning]⟩] ∧
    (classOf complete).methodIndex? "n" "()V" = some 1 ∧
    (classOf complete).majorVersion = 52 ∧ (classOf complete).thisClass = 2 :=
  ⟨parse_classOf (by decide +kernel), by decide +kernel⟩

theorem get_complete (index : UInt16) : (classOf complete).pool.get index =
    if index = 0 then none else (completed[index.toNat - 1]?).join := by
  unfold Pool.get
  rw [← Array.getElem?_toList, complete_spec.2.1]

/-- A constant of the complete class is found where it is. -/
theorem entry_complete {entry : Pool.Entry} {position : Nat}
    (h : completed.findIdx? (· == some entry) = some position) :
    Interning.entry entry (classOf complete).pool =
      (.ok (UInt16.ofNat (position + 1)), (classOf complete).pool) :=
  Pool.add_of_findIdx?_eq_some (complete_spec.2.1 ▸ h)

/-- The constants that the first patch leaves. -/
def grown : Pool := (classOf dangling).pool.push (.member .method 8 10) (by decide +kernel)

/-- The first patch adds the method to the constants, at the index of the dangling call. -/
theorem method_eq : Interning.method callee.owner callee.name callee.descriptor false
    (classOf dangling).pool = (.ok 11, grown) := by
  -- All parts of the method are among the constants; only the method itself is pushed.
  have hfound : ∀ entry position,
      (classOf dangling).pool.slots.toList.findIdx? (· == some entry) = some position →
        Interning.entry entry (classOf dangling).pool =
          (.ok (UInt16.ofNat (position + 1)), (classOf dangling).pool) :=
    fun _ _ => Pool.add_of_findIdx?_eq_some
  have hx : Interning.utf8 "X" (classOf dangling).pool = (.ok 7, (classOf dangling).pool) :=
    hfound _ 6 (by decide +kernel)
  have hclass : Interning.entry (.named .classRef 7) (classOf dangling).pool =
    (.ok 8, (classOf dangling).pool) := hfound _ 7 (by decide +kernel)
  have hy : Interning.utf8 "y" (classOf dangling).pool = (.ok 9, (classOf dangling).pool) :=
    hfound _ 8 (by decide +kernel)
  have htype : Interning.utf8 "()V" (classOf dangling).pool =
    (.ok 5, (classOf dangling).pool) := hfound _ 4 (by decide +kernel)
  have hpair : Interning.entry (.nameAndType 9 5) (classOf dangling).pool =
    (.ok 10, (classOf dangling).pool) := hfound _ 9 (by decide +kernel)
  have hmember : Interning.entry (.member .method 8 10) (classOf dangling).pool =
      (.ok 11, grown) := by
    have hadd := Pool.add_of_findIdx?_eq_none
      (show (classOf dangling).pool.slots.toList.findIdx?
        (· == some (.member .method 8 10)) = none by decide +kernel) (by decide +kernel)
    have hsize : (classOf dangling).pool.slots.size = 10 := by decide +kernel
    rw [hsize] at hadd
    exact hadd
  have howner : Interning.classRef "X" (classOf dangling).pool =
    (.ok 8, (classOf dangling).pool) := ExceptT.bind_eq_ok.mpr ⟨7, _, hx, hclass⟩
  have hsignature : Interning.nameAndType "y" "()V" (classOf dangling).pool =
      (.ok 10, (classOf dangling).pool) :=
    ExceptT.bind_eq_ok.mpr ⟨9, _, hy, ExceptT.bind_eq_ok.mpr ⟨5, _, htype, hpair⟩⟩
  show Interning.member .method "X" "y" "()V" _ = _
  exact ExceptT.bind_eq_ok.mpr
    ⟨8, _, howner, ExceptT.bind_eq_ok.mpr ⟨10, _, hsignature, hmember⟩⟩

theorem steps_eq : Template.steps [.invoke 0xb8 callee false] ⟨1, (classOf dangling).pool⟩ =
    (.ok [⟨⟨1⟩, .invoke 0xb8 11⟩], ⟨2, grown⟩) := by
  have hline : Template.instruction ∅ (.invoke 0xb8 callee false) ⟨2, (classOf dangling).pool⟩ =
      (.ok (some (.invoke 0xb8 11), ∅), ⟨2, grown⟩) :=
    ExceptT.bind_eq_ok.mpr ⟨11, _, Supplied.intern_eq_ok.mpr ⟨_, method_eq, rfl⟩, rfl⟩
  have hfrom : Template.stepsFrom 1 ∅ [] [.invoke 0xb8 callee false]
      ⟨2, (classOf dangling).pool⟩ = (.ok [⟨⟨1⟩, .invoke 0xb8 11⟩], ⟨2, grown⟩) :=
    ExceptT.bind_eq_ok.mpr ⟨_, _, hline, rfl⟩
  exact hfrom

/-- The body of `n` after the first patch. -/
def called : Body := { bodyOf dangling 1 with
  nextMark := 2
  steps := ⟨⟨1⟩, .invoke 0xb8 11⟩ :: (bodyOf dangling 1).steps
  encoded := none
  modified := true }

/-- The class after the first patch. -/
def between : Graft :=
  ⟨((Graft.start (classOf dangling)).withPool grown).file.setBody 1 called,
    (Graft.start (classOf dangling)).histories.insert 1 ⟨none, ["a"], some ⟨1⟩, ∅⟩⟩

theorem applyPatch_calling : ((Graft.start (classOf dangling)).applyPatch calling).1 = between := by
  have hmethod : calling.method = some ⟨"n", "()V"⟩ := rfl
  have hindex : (Graft.start (classOf dangling)).file.methodIndex? "n" "()V" = some 1 := by
    decide +kernel
  have hhistory := Graft.history_start (classOf dangling) 1
  have hbody : (Graft.start (classOf dangling)).body? 1 = some (bodyOf dangling 1) := by
    decide +kernel
  have hsites : (bodyOf dangling 1).sites (Graft.start (classOf dangling)).file.pool
      .methodEntry = [⟨0⟩] := by decide +kernel
  have hsteps : Template.steps [.invoke 0xb8 callee false]
      ⟨(bodyOf dangling 1).nextMark, (Graft.start (classOf dangling)).file.pool⟩ =
        (.ok [⟨⟨1⟩, .invoke 0xb8 11⟩], ⟨2, grown⟩) := by
    have hmark : (bodyOf dangling 1).nextMark = 1 := by decide +kernel
    rw [hmark]
    exact steps_eq
  have hmade : (Grafting.insertSteps .methodEntry ⟨0⟩ [⟨⟨1⟩, .invoke 0xb8 11⟩]
      { bodyOf dangling 1 with nextMark := 2 } .untouched).1 = called := by decide +kernel
  have hpair : Grafting.insertSteps .methodEntry ⟨0⟩ [⟨⟨1⟩, .invoke 0xb8 11⟩]
      { bodyOf dangling 1 with nextMark := 2 } .untouched = (called, ⟨none, [], some ⟨1⟩, ∅⟩) :=
    Prod.ext hmade rfl
  rw [Graft.applyPatch_of_site rfl hmethod hindex hhistory rfl hbody hsites hsteps hpair]
  rfl

/-- The second patch then finds a call that was none before. -/
theorem steps_applyPatch_preceding :
    ((between.applyPatch preceding).1.body? 0).map (·.steps.length) = some 3 := by
  have hmethod : preceding.method = some ⟨"m", "()V"⟩ := rfl
  have hindex : between.file.methodIndex? "m" "()V" = some 0 := by decide +kernel
  have hhistory : between.history 0 = .untouched := by
    rw [← Graft.history_start (classOf dangling) 0]
    exact (Graft.spares_setHistory (by decide) _).history
  have hbody : between.body? 0 = some (bodyOf dangling 0) := by decide +kernel
  have hsites : (bodyOf dangling 0).sites between.file.pool (.beforeCall ⟨callee, none⟩) =
      [⟨0⟩] := by decide +kernel
  have hmark : (bodyOf dangling 0).nextMark = 2 := by decide +kernel
  have hsteps : Template.steps [.plain 0] ⟨(bodyOf dangling 0).nextMark, between.file.pool⟩ =
      (.ok [⟨⟨2⟩, .plain 0⟩], ⟨3, between.file.pool⟩) := by
    rw [hmark]
    rfl
  rw [Graft.applyPatch_of_site rfl hmethod hindex hhistory rfl hbody hsites hsteps rfl]
  decide +kernel

theorem insertions_eq_nil {patch : Patch} (h : patch ∈ [calling, preceding]) :
    patch.insertions (classOf dangling) 0 (bodyOf dangling 0) = [] := by
  rcases List.mem_pair.mp h with rfl | rfl
  · decide +kernel
  · decide +kernel

/-- Where a call refers to no constant, a patch that adds one can make it a call that anchors of
later patches apply to. -/
theorem not_exists_plan_of_applyPatches :
    ¬∀ (bytes : Bytes) (file : ClassFile) (index : Nat) (method : Method) (body : Body)
      (patches : List Patch), ClassFile.parse bytes = .ok file →
      file.methods[index]? = some method → method.body? = some body →
      (∀ patch ∈ (Graft.start file).applied patches, ∀ edit ∈ patch.edits,
        patch.OnlyInserts file index body edit) →
      ∃ plan woven method', (file.applyPatches patches).1.methods[index]? = some method' ∧
        method'.body? = some woven ∧
        List.Forall₂
          (Insertion.Answers body.initialCount file.pool (file.applyPatches patches).1.pool)
          (((Graft.start file).applied patches).flatMap fun patch =>
            patch.insertions file index body) plan ∧
        woven.steps = weave plan body.steps ∧
        woven.handlers.map (·.entry) = body.handlers.map (·.entry) ∧
        (woven.steps.map (·.mark)).Nodup := by
  intro hclaim
  obtain ⟨plan, woven, method', hmethod', hbody', hplan, hsteps, -⟩ :=
    hclaim dangling (classOf dangling) 0 (methodOf dangling 0) (bodyOf dangling 0)
      [calling, preceding] (parse_classOf (by decide +kernel)) (by decide +kernel)
      (by decide +kernel) (fun patch hpatch edit hedit => by
        rcases List.mem_pair.mp (Graft.mem_of_mem_applied hpatch) with rfl | rfl
        · obtain rfl := List.mem_singleton.mp hedit
          exact List.cons_ne_nil _ _
        · obtain rfl := List.mem_singleton.mp hedit
          exact List.cons_ne_nil _ _)
  -- nothing was asked for in this method, but something was inserted
  have hnone : ((Graft.start (classOf dangling)).applied [calling, preceding]).flatMap
      (fun patch => patch.insertions (classOf dangling) 0 (bodyOf dangling 0)) = [] :=
    List.flatMap_eq_nil_iff.mpr fun patch hpatch =>
      insertions_eq_nil (Graft.mem_of_mem_applied hpatch)
  rw [hnone, List.forall₂_nil_left_iff] at hplan
  subst hplan
  rw [weave_nil] at hsteps
  have hlength : (bodyOf dangling 0).steps.length = 2 := by decide +kernel
  have hfinal : ((Graft.start (classOf dangling)).applyPatches [calling, preceding]).1 =
      (between.applyPatch preceding).1 := by
    rw [← applyPatch_calling]
    rfl
  have hbody : ((between.applyPatch preceding).1.body? 0).map (·.steps.length) =
      some woven.steps.length := by
    rw [← hfinal]
    exact Option.map_eq_some_iff.mpr ⟨woven, Option.bind_eq_some_iff.mpr ⟨_, hmethod', hbody'⟩, rfl⟩
  rw [steps_applyPatch_preceding, hsteps, hlength] at hbody
  exact absurd hbody (by decide)

/-- With the constant in the class, code is inserted before the call. -/
theorem exists_plan_of_applyPatches_complete :
    ClassFile.parse complete = .ok (classOf complete) ∧
      (bodyOf complete 0).HasCallees (classOf complete).pool ∧
      ∃ plan woven method',
        ((classOf complete).applyPatches [preceding]).1.methods[0]? = some method' ∧
        method'.body? = some woven ∧
        List.Forall₂
          (Insertion.Answers (bodyOf complete 0).initialCount (classOf complete).pool
            ((classOf complete).applyPatches [preceding]).1.pool)
          (((Graft.start (classOf complete)).applied [preceding]).flatMap fun patch =>
            patch.insertions (classOf complete) 0 (bodyOf complete 0)) plan ∧
        woven.steps = weave plan (bodyOf complete 0).steps ∧
        woven.handlers.map (·.entry) = (bodyOf complete 0).handlers.map (·.entry) ∧
        (woven.steps.map (·.mark)).Nodup := by
  obtain ⟨hparse, -, hmethods, -⟩ := complete_spec
  have hmethod : (classOf complete).methods[0]? = some invoking := by rw [hmethods]; rfl
  have hbody : methodOf complete 0 = invoking := by rw [methodOf, hmethod]; rfl
  have hsteps : (bodyOf complete 0).steps = [⟨⟨0⟩, .invoke 0xb8 11⟩, ⟨⟨1⟩, .plain 0xb1⟩] := by
    rw [bodyOf, hbody]
    rfl
  have hconstant : ((classOf complete).pool.get 11).isSome := by
    rw [get_complete]
    rfl
  have hcallees : (bodyOf complete 0).HasCallees (classOf complete).pool := by
    intro step hstep index hindex
    rw [hsteps] at hstep
    rcases List.mem_pair.mp hstep with rfl | rfl
    · obtain rfl := Option.some.inj hindex
      exact hconstant
    · nomatch hindex
  refine ⟨hparse, hcallees, ClassFile.exists_plan_of_applyPatches hparse
    (hmethod.trans (congrArg some hbody.symm))
    (show (methodOf complete 0).body? = some (bodyOf complete 0) by rw [bodyOf, hbody]; rfl)
    hcallees ?_⟩
  intro patch hpatch edit hedit
  obtain rfl := List.mem_singleton.mp (Graft.mem_of_mem_applied hpatch)
  obtain rfl := List.mem_singleton.mp hedit
  exact List.cons_ne_nil _ _

end Dangling

end ClassGraft

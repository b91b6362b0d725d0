import ClassGraft.Proofs.Graft.Reporting
import ClassGraft.Proofs.Graft.Turns

/-!
# Which patch has its way with a method

Where patches meet in a method, the last one that puts an added method in its place wins, and if
there is none, the first one that replaces its body (`Turn.winner?`).  The method is left with the
code of the winner.  What other patches would do to the method after it was given a body is dropped,
and what they did before is discarded; either is reported with the patches that it is about
(`ClassFile.exists_isRun`).

All this is about the edits that were made, whatever the class remembers of them.  What it remembers
of a method is what follows from the edits so far (`Turn.Remembers`), turn by turn.
-/

/-!
## Patches that are skipped

A patch that is skipped leaves no trace: without the skipped patches all methods, constants and
instructions become the same, what is remembered of each method is the same, and the report says
the same of all other patches (`ClassFile.applyPatches_unskipped`).
-/

namespace ClassGraft

/-- Whether a whole patch was left out. -/
def ReportEntry.isSkipped (entry : ReportEntry) : Bool :=
  match entry.event with
  | .skipped _ => true
  | _ => false

namespace Graft

variable {graft : Graft} {patch : Patch}

/-- The patches in order, each with what the report says of it. -/
def account : Graft → List Patch → List (Patch × List ReportEntry)
  | _, [] => []
  | graft, patch :: rest =>
    (patch, (graft.applyPatch patch).2) :: (graft.applyPatch patch).1.account rest

/-- The patches of an account of which the report does not say that they were skipped. -/
def unskipped (account : List (Patch × List ReportEntry)) : List Patch :=
  (account.filter fun answer => !answer.2.any (·.isSkipped)).map (·.1)

/-! ### One patch -/

/-- A patch that is skipped leaves the class and what is remembered of its methods as they were;
of one that is not, nothing in the report says that it was. -/
theorem applyPatch_cases (graft : Graft) (patch : Patch) :
    (∃ fault, graft.applyPatch patch = (graft, [⟨some patch.id, .skipped fault⟩])) ∨
      ∀ entry ∈ (graft.applyPatch patch).2, entry.isSkipped = false := by
  obtain ⟨result, later, hrun⟩ : ∃ result later,
      (patch.edits.mapM (Grafting.apply patch)).run graft = (result, later) := ⟨_, _, rfl⟩
  cases result with
  | error fault => exact .inl ⟨fault, by rw [applyPatch, hrun]⟩
  | ok notes =>
    refine .inr fun entry hentry => ?_
    rw [applyPatch, hrun] at hentry
    obtain ⟨note, -, rfl⟩ := List.mem_map.mp hentry
    cases note <;> rfl

/-- An edit that fails takes back its whole patch, and the report says why. -/
theorem applyPatch_of_error {start : Graft} {edit : Edit}
    {done rest : List Edit} {notes : List Note} {fault : PatchFault}
    (he : patch.edits = done ++ edit :: rest)
    (hd : done.mapM (Grafting.apply patch) start = (.ok notes, graft))
    (hf : (Grafting.apply patch edit graft).1 = .error fault) :
    start.applyPatch patch = (start, [⟨some patch.id, .skipped fault⟩]) := by
  have hedit : Grafting.apply patch edit graft =
      (.error fault, (Grafting.apply patch edit graft).2) :=
    Prod.ext hf rfl
  have hrest : (edit :: rest).mapM (Grafting.apply patch) graft =
      (.error fault, (Grafting.apply patch edit graft).2) := by
    rw [List.mapM_cons]
    exact ExceptT.bind_of_error hedit
  have hrun : patch.edits.mapM (Grafting.apply patch) start =
      (.error fault, (Grafting.apply patch edit graft).2) := by
    rw [he, List.mapM_append, ExceptT.bind_of_ok hd]
    exact ExceptT.bind_of_error hrest
  rw [applyPatch, show (patch.edits.mapM (Grafting.apply patch)).run start = _ from hrun]

theorem applyPatches_cons (graft : Graft) (patch : Patch) (rest : List Patch) :
    graft.applyPatches (patch :: rest) =
      (((graft.applyPatch patch).1.applyPatches rest).1,
        (graft.applyPatch patch).2 ++ ((graft.applyPatch patch).1.applyPatches rest).2) :=
  rfl

theorem applyPatches_append (graft : Graft) (before after : List Patch) :
    graft.applyPatches (before ++ after) =
      (((graft.applyPatches before).1.applyPatches after).1,
        (graft.applyPatches before).2 ++ ((graft.applyPatches before).1.applyPatches after).2) := by
  induction before generalizing graft with
  | nil => rfl
  | cons patch rest ih =>
    rw [List.cons_append, applyPatches_cons, ih, applyPatches_cons, List.append_assoc]

/-! ### Runs of patches -/

theorem map_account (graft : Graft) (patches : List Patch) :
    (graft.account patches).map (·.1) = patches := by
  induction patches generalizing graft with
  | nil => rfl
  | cons patch rest ih => rw [account, List.map_cons, ih]

theorem flatMap_account (graft : Graft) (patches : List Patch) :
    (graft.account patches).flatMap (·.2) = (graft.applyPatches patches).2 := by
  induction patches generalizing graft with
  | nil => rfl
  | cons patch rest ih => rw [account, List.flatMap_cons, ih, applyPatches_cons]

/-- From whatever earlier patches left, the patches that are not skipped do the same alone. -/
theorem applyPatches_of_account (graft : Graft) (patches : List Patch) :
    graft.applyPatches (unskipped (graft.account patches)) =
      ((graft.applyPatches patches).1,
        (graft.applyPatches patches).2.filter fun entry => !entry.isSkipped) := by
  induction patches generalizing graft with
  | nil => rfl
  | cons patch rest ih =>
    rw [account, applyPatches_cons, List.filter_append]
    rcases graft.applyPatch_cases patch with ⟨fault, hskipped⟩ | hkept
    · -- the rest starts from the class that the skipped patch found
      have hrest : unskipped ((patch, (graft.applyPatch patch).2) ::
          (graft.applyPatch patch).1.account rest) = unskipped (graft.account rest) := by
        rw [hskipped]
        rfl
      rw [hrest, ih, hskipped]
      rfl
    · have hfirst : unskipped ((patch, (graft.applyPatch patch).2) ::
          (graft.applyPatch patch).1.account rest) =
          patch :: unskipped ((graft.applyPatch patch).1.account rest) := by
        have hany : (graft.applyPatch patch).2.any (·.isSkipped) = false :=
          List.any_eq_false.mpr fun entry hentry => by simp [hkept entry hentry]
        simp only [unskipped, List.filter_cons, hany, Bool.not_false, if_true, List.map_cons]
      have hfilter : (graft.applyPatch patch).2.filter (fun entry => !entry.isSkipped) =
          (graft.applyPatch patch).2 :=
        List.filter_eq_self.mpr fun entry hentry => by simp [hkept entry hentry]
      rw [hfirst, applyPatches_cons, ih, hfilter]

/-- Of the patches that are not skipped none is skipped alone. -/
theorem not_isSkipped_of_unskipped (graft : Graft) (patches : List Patch) :
    ∀ entry ∈ (graft.applyPatches (unskipped (graft.account patches))).2,
      entry.isSkipped = false := by
  rw [applyPatches_of_account]
  intro entry hentry
  simpa using (List.mem_filter.mp hentry).2

end Graft

/-- Without the patches that the report says are skipped, the class becomes the same, and the report
is the same but for what it says of those patches. -/
theorem ClassFile.applyPatches_unskipped (file : ClassFile) (patches : List Patch) :
    ((Graft.start file).account patches).map (·.1) = patches ∧
      ((Graft.start file).account patches).flatMap (·.2) = (file.applyPatches patches).2 ∧
      file.applyPatches (Graft.unskipped ((Graft.start file).account patches)) =
        ((file.applyPatches patches).1,
          (file.applyPatches patches).2.filter fun entry => !entry.isSkipped) := by
  refine ⟨Graft.map_account _ patches, Graft.flatMap_account _ patches, ?_⟩
  show (((Graft.start file).applyPatches _).1.file, ((Graft.start file).applyPatches _).2) = _
  rw [Graft.applyPatches_of_account]
  rfl

end ClassGraft

/-! ## The order of patches -/

namespace ClassGraft

/-- Whether turns lead from one class to another. -/
inductive Graft.Leads (graft : Graft) : List Turn → Graft → Prop
  | refl : Leads graft [] graft
  | step {past : List Turn} {turn : Turn} (h : Leads graft past turn.before)
      (valid : turn.IsValid) : Leads graft (past ++ [turn]) turn.after

namespace Turn

/-- The turn that a method has its body from: the last one that overwrites it, or else the first one
that replaces its body. -/
def winner? (index : Nat) (turns : List Turn) : Option Turn :=
  ((turns.filter (·.overwrites index)).getLast?).or (turns.filter (·.replaces index)).head?

/-- The patches that edited the body of a method, once for each edit. -/
def editors (index : Nat) (turns : List Turn) : List String :=
  (turns.filter (·.edits index)).map (·.patch.id)

/-- The patches that had a part in the body that a method has after turns. -/
def changers (index : Nat) (turns : List Turn) : List String :=
  match winner? index turns with
  | some winner => [winner.patch.id]
  | none => editors index turns

/-- Whether the class remembers of a method what turns did to it, and the method has the body that it
was given, if it was given one. -/
structure Remembers (index : Nat) (turns : List Turn) (graft : Graft) : Prop where
  replacedBy : (graft.history index).replacedBy = (winner? index turns).map (·.patch.id)
  editedBy : (graft.history index).editedBy =
    if (winner? index turns).isSome then [] else editors index turns
  exists_lt : (winner? index turns).isSome → index < graft.file.methods.length
  gives : ∀ winner, winner? index turns = some winner → winner.Gives index graft

/-- Whether a turn has regard for what turns before it did to a method. -/
structure Heeds (index : Nat) (past : List Turn) (turn : Turn) : Prop where
  /-- Once the method was given a body, other edits of its code are dropped. -/
  drops : ∀ winner, winner? index past = some winner → turn.isAbout index = true →
    turn.after = turn.before ∧ ∃ method, turn.patch.method = some method ∧
      (turn.note = .conflict (.replacedBefore turn.edit method winner.patch.id) ∨
        turn.note = .conflict (.dropped turn.edit method winner.patch.id))
  /-- And so the body stays, whatever is redirected in the whole class. -/
  spares : (winner? index past).isSome → turn.overwrites index = false →
    turn.after.body? index = turn.before.body? index
  /-- The first replacement of the body names the patches whose edits it discards. -/
  discards : winner? index past = none → turn.replaces index = true →
    ∃ method, turn.patch.method = some method ∧
      turn.note = .ofReplacing turn.edit method (editors index past)
  /-- An overwriting method names the patches that changed the one in whose place it is put. -/
  overwrites : turn.overwrites index = true →
    turn.note = .ofOverwriting turn.edit (changers index past)

variable {index : Nat} {past : List Turn} {turn : Turn} {graft : Graft}

/-! ### The winner so far -/

theorem filter_append_turn (p : Turn → Bool) (past : List Turn) (turn : Turn) :
    (past ++ [turn]).filter p = past.filter p ++ if p turn then [turn] else [] := by
  rw [List.filter_append, List.filter_cons, List.filter_nil]

theorem winner?_nil : winner? index [] = none := rfl

theorem winner?_of_overwrites (h : turn.overwrites index = true) :
    winner? index (past ++ [turn]) = some turn := by
  rw [winner?, filter_append_turn, if_pos h, List.getLast?_concat, Option.some_or]

/-- A turn that does not overwrite a method comes after the winner so far. -/
theorem winner?_append (ho : turn.overwrites index = false) :
    winner? index (past ++ [turn]) =
      (winner? index past).or (if turn.replaces index then some turn else none) := by
  rw [winner?, filter_append_turn, filter_append_turn, if_neg (by simp [ho]), List.append_nil,
    List.head?_append, winner?, Option.or_assoc]
  split_ifs <;> rfl

theorem editors_append (hr : turn.edits index = true) :
    editors index (past ++ [turn]) = editors index past ++ [turn.patch.id] := by
  rw [editors, filter_append_turn, if_pos hr, List.map_append]
  rfl

theorem editors_append_of_not (hr : turn.edits index = false) :
    editors index (past ++ [turn]) = editors index past := by
  rw [editors, filter_append_turn, if_neg (by simp [hr]), List.append_nil]
  rfl

/-- An edit that overwrites a method is not one of its code. -/
theorem isAbout_of_overwrites (h : turn.overwrites index = true) : turn.isAbout index = false := by
  unfold overwrites at h
  split at h
  · rename_i access method code hedit
    rw [isAbout, hedit]
  · exact absurd h Bool.false_ne_true

theorem replaces_of_overwrites (h : turn.overwrites index = true) :
    turn.replaces index = false := by
  unfold overwrites at h
  split at h
  · rename_i access method code hedit
    rw [replaces, hedit]
  · exact absurd h Bool.false_ne_true

/-! ### Turn by turn -/

namespace Remembers

theorem start (file : ClassFile) : Remembers index [] (.start file) := by
  refine ⟨?_, ?_, by simp [winner?_nil], by simp [winner?_nil]⟩
  · rw [Graft.history_start]
    rfl
  · rw [Graft.history_start]
    rfl

theorem changedBy (hm : Remembers index past graft) :
    (graft.history index).changedBy = changers index past := by
  rw [MethodHistory.changedBy, hm.replacedBy, hm.editedBy, changers]
  cases winner? index past with
  | none => rfl
  | some winner => rfl

/-- The turn that gave a method its body is the winner so far. -/
theorem of_given (hw : winner? index (past ++ [turn]) = some turn)
    (hh : turn.after.history index = .replaced turn.patch.id)
    (hlt : index < turn.after.file.methods.length) (hg : turn.Gives index turn.after) :
    Remembers index (past ++ [turn]) turn.after := by
  refine ⟨by rw [hh, hw]; rfl, by rw [hh, hw]; rfl, fun _ => hlt, fun winner hwinner => ?_⟩
  exact Option.some.inj (hw.symm.trans hwinner) ▸ hg

/-- No patch is remembered as the one that gave the body exactly if there is no winner. -/
theorem free_iff (hm : Remembers index past graft) :
    (graft.history index).replacedBy = none ↔ winner? index past = none := by
  rw [hm.replacedBy, Option.map_eq_none_iff]

/-- What is remembered follows from the turns so far. -/
theorem next (hm : Remembers index past turn.before) (h : turn.IsValid) :
    Remembers index (past ++ [turn]) turn.after := by
  cases turn.acts h index with
  | overwriting ho _ history exists_lt gives =>
    exact .of_given (winner?_of_overwrites ho) history exists_lt gives
  | replacing ho hr free _ history exists_lt gives =>
    have hwinner : winner? index (past ++ [turn]) = some turn := by
      rw [winner?_append ho, hm.free_iff.mp free, if_pos hr, Option.none_or]
    exact .of_given hwinner history exists_lt gives
  | dropping ho _ winner replaced _ same =>
    obtain ⟨first, hfirst, -⟩ := Option.map_eq_some_iff.mp (hm.replacedBy.symm.trans replaced)
    have hwinner : winner? index (past ++ [turn]) = winner? index past := by
      rw [winner?_append ho, hfirst, Option.some_or]
    refine ⟨?_, ?_, ?_, ?_⟩
    · rw [same, hwinner, hm.replacedBy]
    · rw [same, hwinner, hm.editedBy, hfirst]
      rfl
    · rw [same, hwinner]
      exact hm.exists_lt
    · rw [same, hwinner]
      exact hm.gives
  | editing ho hr hedits free replacedBy editedBy =>
    have hnone := hm.free_iff.mp free
    have hwinner : winner? index (past ++ [turn]) = none := by
      rw [winner?_append ho, hnone, if_neg (by simp [hr]), Option.none_or]
    refine ⟨?_, ?_, by simp [hwinner], by simp [hwinner]⟩
    · rw [hwinner, replacedBy]
      rfl
    · rw [hwinner, editedBy, hm.editedBy, hnone, editors_append hedits]
      rfl
  | sparing ho _ hr hedits spares =>
    have hwinner : winner? index (past ++ [turn]) = winner? index past := by
      rw [winner?_append ho, if_neg (by simp [hr]), Option.or_none]
    refine ⟨?_, ?_, ?_, ?_⟩
    · rw [spares.history, hwinner, hm.replacedBy]
    · rw [spares.history, hwinner, hm.editedBy, editors_append_of_not hedits]
    · rw [hwinner]
      exact fun hsome => Nat.lt_of_lt_of_le (hm.exists_lt hsome) spares.length_le
    · rw [hwinner]
      intro winner hsome
      exact (hm.gives winner hsome).of_spares
        (hm.exists_lt (Option.isSome_iff_exists.mpr ⟨winner, hsome⟩)) spares

/-- Each turn has regard for what is remembered. -/
theorem heeds (hm : Remembers index past turn.before) (h : turn.IsValid) :
    Heeds index past turn := by
  cases turn.acts h index with
  | overwriting ho note _ _ _ =>
    exact {
      drops := fun _ _ habout => absurd (habout.symm.trans (isAbout_of_overwrites ho)) (by decide)
      spares := fun _ hnot => absurd (ho.symm.trans hnot) (by decide)
      discards := fun _ hr => absurd (hr.symm.trans (replaces_of_overwrites ho)) (by decide)
      overwrites := fun _ => hm.changedBy ▸ note }
  | replacing ho _ free note _ _ _ =>
    have hnone := hm.free_iff.mp free
    have heditors : (turn.before.history index).editedBy = editors index past := by
      rw [hm.editedBy, hnone]
      rfl
    exact {
      drops := fun _ hsome => nomatch hnone.symm.trans hsome
      spares := fun hsome => by simp [hnone] at hsome
      discards := fun _ _ => heditors ▸ note
      overwrites := fun hyes => absurd (ho.symm.trans hyes) (by decide) }
  | dropping ho _ winner replaced note same =>
    obtain ⟨first, hfirst, rfl⟩ := Option.map_eq_some_iff.mp (hm.replacedBy.symm.trans replaced)
    exact {
      drops := fun other hother _ =>
        Option.some.inj (hfirst.symm.trans hother) ▸ ⟨same, note⟩
      spares := fun _ _ => by rw [same]
      discards := fun hnone => nomatch hnone.symm.trans hfirst
      overwrites := fun hyes => absurd (ho.symm.trans hyes) (by decide) }
  | editing ho hr _ free _ _ =>
    have hnone := hm.free_iff.mp free
    exact {
      drops := fun _ hsome => nomatch hnone.symm.trans hsome
      spares := fun hsome => by simp [hnone] at hsome
      discards := fun _ hyes => absurd (hr.symm.trans hyes) (by decide)
      overwrites := fun hyes => absurd (ho.symm.trans hyes) (by decide) }
  | sparing ho free hr _ spares =>
    exact {
      drops := fun winner hsome habout =>
        nomatch (hm.free_iff.mp (free habout)).symm.trans hsome
      spares := fun hsome _ => spares.body? (hm.exists_lt hsome)
      discards := fun _ hyes => absurd (hr.symm.trans hyes) (by decide)
      overwrites := fun hyes => absurd (ho.symm.trans hyes) (by decide) }

end Remembers

/-- Whether a method is left with the code of the winner, and all turns had regard for those before
them. -/
structure HavePrecedence (index : Nat) (turns : List Turn) (last : Graft) : Prop where
  gives : ∀ winner, winner? index turns = some winner → winner.Gives index last
  heeds : ∀ past turn rest, turns = past ++ turn :: rest → Heeds index past turn

/-- What is remembered follows from all turns, each of which had regard for those before it. -/
theorem remembers_of_leads {file : ClassFile} {turns : List Turn} {last : Graft}
    (h : (Graft.start file).Leads turns last) (index : Nat) :
    Remembers index turns last ∧ HavePrecedence index turns last := by
  induction h with
  | refl => exact ⟨.start file, by simp [winner?_nil], fun past turn rest h => by simp at h⟩
  | @step past turn _ valid ih =>
    obtain ⟨hm, hp⟩ := ih
    refine ⟨hm.next valid, (hm.next valid).gives, fun before later rest hsplit => ?_⟩
    -- the last turn is the new one, and the others are those that came before
    rcases List.eq_nil_or_concat rest with rfl | ⟨front, final, rfl⟩
    · obtain ⟨rfl, hlast⟩ := List.append_inj' hsplit rfl
      obtain rfl := List.singleton_inj.mp hlast
      exact hm.heeds valid
    · rw [List.concat_eq_append, ← List.cons_append, ← List.append_assoc] at hsplit
      obtain ⟨hpast, -⟩ := List.append_inj' hsplit rfl
      exact hp.heeds before later front hpast

end Turn

/-! ### Runs of patches -/

namespace Graft

variable {graft later last : Graft} {turns past : List Turn} {patch : Patch}

/-- The edits of a patch that is applied are turns, one for each. -/
theorem exists_turns_of_mapM {edits : List Edit} {notes : List Note} (hl : graft.Leads past later)
    (h : (edits.mapM (Grafting.apply patch)) later = (.ok notes, last)) :
    ∃ turns, graft.Leads (past ++ turns) last ∧
      turns.map (fun turn => (turn.patch, turn.edit)) = edits.map (patch, ·) ∧
      turns.map Turn.entry = notes.map fun note => ⟨some patch.id, note.event⟩ := by
  induction edits generalizing past later notes with
  | nil =>
    obtain ⟨rfl, rfl⟩ := ExceptT.pure_eq_ok.mp h
    exact ⟨[], by rwa [List.append_nil], rfl, rfl⟩
  | cons edit rest ih =>
    rw [List.mapM_cons] at h
    obtain ⟨note, between, hedit, h⟩ := ExceptT.bind_eq_ok.mp h
    obtain ⟨others, _, hrest, h⟩ := ExceptT.bind_eq_ok.mp h
    obtain ⟨rfl, rfl⟩ := ExceptT.pure_eq_ok.mp h
    have hturn : graft.Leads (past ++ [⟨patch, edit, later, note, between⟩]) between :=
      .step hl hedit
    obtain ⟨turns, hleads, hedits, hentries⟩ := ih hturn hrest
    refine ⟨⟨patch, edit, later, note, between⟩ :: turns, ?_, ?_, ?_⟩
    · rwa [List.append_cons]
    · rw [List.map_cons, List.map_cons, hedits]
    · rw [List.map_cons, List.map_cons, hentries]
      rfl

/-- The edits of patches none of which is skipped are turns, one for each. -/
theorem exists_turns {patches : List Patch} (hl : graft.Leads past later)
    (h : ∀ entry ∈ (later.applyPatches patches).2, entry.isSkipped = false) :
    ∃ turns, graft.Leads (past ++ turns) (later.applyPatches patches).1 ∧
      turns.map (fun turn => (turn.patch, turn.edit)) =
        patches.flatMap (fun patch => patch.edits.map (patch, ·)) ∧
      turns.map Turn.entry = (later.applyPatches patches).2 := by
  induction patches generalizing past later with
  | nil => exact ⟨[], by rwa [List.append_nil], rfl, rfl⟩
  | cons patch rest ih =>
    rw [applyPatches_cons] at h ⊢
    obtain ⟨hfirst, hothers⟩ := List.forall_mem_append.mp h
    obtain ⟨result, between, hrun⟩ : ∃ result between,
        (patch.edits.mapM (Grafting.apply patch)).run later = (result, between) := ⟨_, _, rfl⟩
    cases result with
    | error fault =>
      rw [applyPatch, hrun] at hfirst
      exact absurd rfl (Bool.eq_false_iff.mp (hfirst _ List.mem_cons_self))
    | ok notes =>
      have hpatch : later.applyPatch patch =
          (between, notes.map fun note => ⟨some patch.id, note.event⟩) := by
        rw [applyPatch, hrun]
      obtain ⟨turns, hleads, hedits, hentries⟩ := exists_turns_of_mapM hl hrun
      rw [hpatch] at hothers ⊢
      obtain ⟨turns', hleads', hedits', hentries'⟩ := ih hleads hothers
      refine ⟨turns ++ turns', ?_, ?_, ?_⟩
      · rwa [← List.append_assoc]
      · rw [List.map_append, List.flatMap_cons, hedits, hedits']
      · rw [List.map_append, hentries, hentries']

end Graft

/-- Whether turns are the edits of patches that were all applied to a class, one for each edit. -/
structure ClassFile.IsRun (file : ClassFile) (patches : List Patch) (turns : List Turn)
    (last : Graft) : Prop where
  leads : (Graft.start file).Leads turns last
  edits : turns.map (fun turn => (turn.patch, turn.edit)) =
    patches.flatMap fun patch => patch.edits.map (patch, ·)
  entries : turns.map Turn.entry = (file.applyPatches patches).2
  file : last.file = (file.applyPatches patches).1

/-- The edits of the patches that are not skipped are turns, which lead to the class that all patches
leave. -/
theorem ClassFile.exists_isRun_unskipped (file : ClassFile) (patches : List Patch) :
    ∃ turns last, file.IsRun (Graft.unskipped ((Graft.start file).account patches)) turns last ∧
      last.file = (file.applyPatches patches).1 := by
  obtain ⟨turns, hleads, hedits, hentries⟩ :=
    Graft.exists_turns .refl ((Graft.start file).not_isSkipped_of_unskipped patches)
  refine ⟨turns, _, ⟨hleads, hedits, hentries, rfl⟩, ?_⟩
  rw [Graft.applyPatches_of_account]
  rfl

/-- Where no patch is skipped, each method is left with the code of the edit that has precedence, and
what is dropped or discarded for it is reported. -/
theorem ClassFile.exists_isRun {file : ClassFile} {patches : List Patch}
    (h : ∀ entry ∈ (file.applyPatches patches).2, entry.isSkipped = false) :
    ∃ turns last, file.IsRun patches turns last ∧
      ∀ index, Turn.HavePrecedence index turns last := by
  obtain ⟨turns, hleads, hedits, hentries⟩ := Graft.exists_turns .refl h
  exact ⟨turns, _, ⟨hleads, hedits, hentries, rfl⟩,
    fun index => (Turn.remembers_of_leads hleads index).2⟩

/-- Patches one of which replaces what the other inserted. -/
theorem Discarding.exists_isRun_replacing :
    (∀ entry ∈ (file.applyPatches [patchOf "a" [inserting], patchOf "b" [replacing, inserting]]).2,
      entry.isSkipped = false) ∧
    ∃ turns last,
      file.IsRun [patchOf "a" [inserting], patchOf "b" [replacing, inserting]] turns last ∧
      ∀ index, Turn.HavePrecedence index turns last :=
  have h : ∀ entry ∈
      (file.applyPatches [patchOf "a" [inserting], patchOf "b" [replacing, inserting]]).2,
      entry.isSkipped = false := by decide +kernel
  ⟨h, ClassFile.exists_isRun h⟩

end ClassGraft

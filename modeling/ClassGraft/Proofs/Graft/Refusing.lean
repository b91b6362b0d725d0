import ClassGraft.Proofs.Graft.Declaring

/-!
# Members that are there already

An edit that declares a member and does not overwrite is refused where the class has the member, and
nowhere else (`Grafting.duplicates_iff`).  When the edit is due, the class has the members that it
had at the start, those that patches before declared, and those that its own patch declared so far;
what a patch declared that was skipped is gone (`Moment.gathers`).
-/

namespace ClassGraft

namespace Grafting

variable {α β : Type} {graft : Graft} {patch : Patch} {edit : Edit} {name : String}
  {member : Signature}

/-! ### Steps that are not refused -/

/-- Whether a step is never refused for a member that is there already. -/
def Admits (step : Grafting α) : Prop :=
  ∀ graft name member, (step graft).1 ≠ .error (.duplicateMember name member)

theorem admits_of_ok {step : Grafting α} (h : ∀ graft, ∃ a later, step graft = (.ok a, later)) :
    Admits step := by
  intro graft name member hrefused
  obtain ⟨a, later, hok⟩ := h graft
  rw [hok] at hrefused
  nomatch hrefused

theorem admits_pure (a : α) : Admits (pure a) := admits_of_ok fun graft => ⟨a, graft, rfl⟩

theorem Admits.bind {step : Grafting α} {next : α → Grafting β} (h : Admits step)
    (hnext : ∀ a, Admits (next a)) : Admits (step >>= next) := by
  intro graft name member hrefused
  obtain ⟨result, between, hstep⟩ : ∃ result between, step graft = (result, between) := ⟨_, _, rfl⟩
  cases result with
  | error fault =>
    rw [ExceptT.bind_of_error hstep] at hrefused
    refine h graft name member ?_
    rw [hstep, Except.error.inj hrefused]
  | ok a =>
    rw [ExceptT.bind_of_ok hstep] at hrefused
    exact hnext a between name member hrefused

theorem admits_change (step : Changing α) : Admits (change step) := by
  intro graft name member hrefused
  obtain ⟨fault, -, hfault⟩ := Except.mapError_eq_error.mp hrefused
  nomatch hfault

theorem admits_useTemplate (template : Template) (body : Body) :
    Admits (useTemplate template body) := by
  intro graft name member hrefused
  obtain ⟨fault, -, hfault⟩ := Except.mapError_eq_error.mp hrefused
  cases fault <;> nomatch hfault

theorem admits_bodyOf (template : Template) : Admits (bodyOf template) :=
  (admits_change _).bind fun body => (admits_useTemplate template body).bind fun _ => admits_pure _

theorem admits_overwriteMethod (patch : Patch) (edit : Edit) (index : Nat) (access : UInt16)
    (body : Option Body) : Admits (overwriteMethod patch edit index access body) := by
  refine (admits_of_ok fun graft => ⟨graft, graft, rfl⟩).bind fun graft => ?_
  refine (admits_of_ok fun _ => ⟨_, _, rfl⟩).bind fun _ => ?_
  refine (admits_of_ok fun _ => ⟨_, _, rfl⟩).bind fun _ => ?_
  split
  · exact admits_pure _
  · exact admits_pure _

/-- Making the body of an added method is never refused. -/
theorem admits_withCode {code : Option Template} {place : Option Body → Grafting Note}
    (hplace : ∀ body, Admits (place body)) :
    Admits (match code with
      | some template => do
        let body ← some <$> bodyOf template
        place body
      | none => do
        let body ← pure none
        place body) := by
  cases code with
  | none => exact (admits_pure none).bind hplace
  | some template =>
    refine Admits.bind ?_ hplace
    rw [map_eq_pure_bind]
    exact (admits_bodyOf template).bind fun body => admits_pure (some body)

/-! ### Refusals -/

/-- A check that comes first refuses with its own fault. -/
theorem throw_eq_duplicate_iff {className : String} {signature : Signature}
    {next : PUnit → Grafting Note} :
    ((throw (.duplicateMember className signature) >>= next) graft).1 =
        .error (.duplicateMember name member) ↔ name = className ∧ member = signature := by
  rw [ExceptT.bind_of_error (show (throw _ : Grafting PUnit) graft = (.error _, graft) from rfl),
    Except.error.injEq, PatchFault.duplicateMember.injEq, eq_comm, @eq_comm _ signature]

theorem duplicates_addMethod_iff {access : List Modifier} {method : Signature}
    {code : Option Template} {overwrite : Bool} :
    (addMethod patch edit access method code overwrite graft).1 =
        .error (.duplicateMember name member) ↔
      (overwrite = false ∧ graft.file.HasMember .method method) ∧
        name = graft.file.nameText ∧ member = method := by
  unfold addMethod
  rw [ExceptT.bind_of_ok (show (get : Grafting Graft) graft = (.ok graft, graft) from rfl),
    ← ClassFile.isSome_memberIndex?, ClassFile.memberIndex?]
  cases hexisting : graft.file.methodIndex? method.name method.descriptor with
  | none =>
    dsimp only
    rw [if_neg (by simp)]
    refine iff_of_false (admits_withCode (fun body => ?_) graft name member) (by simp)
    exact (admits_change _).bind fun _ => admits_pure _
  | some index =>
    cases overwrite with
    | false =>
      dsimp only
      rw [if_pos (by simp), throw_eq_duplicate_iff]
      simp
    | true =>
      dsimp only
      rw [if_neg (by simp)]
      exact iff_of_false (admits_withCode (fun body => admits_overwriteMethod _ _ _ _ body)
        graft name member) (by simp)

theorem duplicates_addField_iff {access : List Modifier} {field : Signature} {overwrite : Bool} :
    (addField edit access field overwrite graft).1 = .error (.duplicateMember name member) ↔
      (overwrite = false ∧ graft.file.HasMember .field field) ∧
        name = graft.file.nameText ∧ member = field := by
  unfold addField
  rw [ExceptT.bind_of_ok (show (get : Grafting Graft) graft = (.ok graft, graft) from rfl),
    ← ClassFile.isSome_memberIndex?, ClassFile.memberIndex?]
  cases hexisting : graft.file.fieldIndex? field.name field.descriptor with
  | none =>
    have hadmits := (admits_change (Changing.addField (Modifier.flags access) field.name
      field.descriptor)).bind fun _ => admits_pure (Note.applied (.done edit))
    exact iff_of_false (hadmits graft name member) (by simp)
  | some index =>
    cases overwrite with
    | false =>
      dsimp only
      rw [if_pos (by simp), throw_eq_duplicate_iff]
      simp
    | true =>
      dsimp only
      rw [if_neg (by simp)]
      exact iff_of_false (fun herror => by cases herror) (by simp)

/-- An edit that declares a member is refused for it where the class has the member and the edit
does not overwrite, and nowhere else. -/
theorem duplicates_iff {sort : MemberSort} {signature : Signature}
    (hd : edit.declared? = some (sort, signature)) :
    (apply patch edit graft).1 = .error (.duplicateMember name member) ↔
      (edit.overwrites = false ∧ graft.file.HasMember sort signature) ∧
        name = graft.file.nameText ∧ member = signature := by
  cases edit with
  | addMethod access method code overwrite =>
    obtain ⟨rfl, rfl⟩ := Prod.mk.inj (Option.some.inj hd)
    exact duplicates_addMethod_iff
  | addField access field overwrite =>
    obtain ⟨rfl, rfl⟩ := Prod.mk.inj (Option.some.inj hd)
    exact duplicates_addField_iff
  | replaceBody code => nomatch hd
  | insertAt anchor code => nomatch hd
  | redirectCall callee replacement kind required => nomatch hd

end Grafting

/-! ### Moments -/

/-- A moment while patches are applied: an edit of one of them is due, after some others of its
edits, and the class is as it was left by these and by the patches before. -/
structure Moment where
  before : List Patch
  patch : Patch
  done : List Edit
  edit : Edit
  graft : Graft

namespace Moment

variable {moment : Moment} {file : ClassFile} {patches : List Patch}

/-- The class that the patch of a moment found. -/
def start (moment : Moment) (file : ClassFile) : Graft :=
  ((Graft.start file).applyPatches moment.before).1

/-- Whether the moment comes while the patches are applied to the class. -/
structure IsOf (moment : Moment) (file : ClassFile) (patches : List Patch) : Prop where
  patches : ∃ after, patches = moment.before ++ moment.patch :: after
  edits : ∃ rest, moment.patch.edits = moment.done ++ moment.edit :: rest
  made : ∃ notes, moment.done.mapM (Grafting.apply moment.patch) (moment.start file) =
    (.ok notes, moment.graft)

/-- The edits that were made before the moment and not taken back: those of the patches before that
were not skipped, and those of its own patch. -/
def past (moment : Moment) (file : ClassFile) : List Edit :=
  (Graft.unskipped ((Graft.start file).account moment.before)).flatMap (·.edits) ++ moment.done

/-- At any moment a class has the members that it had at the start, and those that the edits
declared that were made before. -/
theorem gathers (hn : file.NamesMembers) (h : moment.IsOf file patches) :
    file.Gathers ((moment.past file).filterMap Edit.declared?) moment.graft.file := by
  obtain ⟨notes, hmade⟩ := h.made
  obtain ⟨turns, hleads, hturns, -⟩ :=
    Graft.exists_turns .refl ((Graft.start file).not_isSkipped_of_unskipped moment.before)
  rw [Graft.applyPatches_of_account] at hleads
  obtain ⟨turns', hleads', hturns', -⟩ := Graft.exists_turns_of_mapM hleads hmade
  have hpast : ([] ++ turns ++ turns').map Turn.edit = moment.past file := by
    have hedit : Turn.edit = Prod.snd ∘ fun turn : Turn => (turn.patch, turn.edit) := rfl
    rw [List.nil_append, List.map_append, hedit, ← List.map_map, ← List.map_map, hturns, hturns',
      List.map_flatMap]
    simp [past, List.map_map, Function.comp_def]
  have hgathers := ClassFile.gathers_of_leads hn hleads'
  rwa [show (fun turn : Turn => turn.edit.declared?) = Edit.declared? ∘ Turn.edit from rfl,
    ← List.filterMap_map, hpast] at hgathers

/-- A patch that is taken back at a moment is reported with the fault. -/
theorem IsOf.skips {fault : PatchFault} (h : moment.IsOf file patches)
    (hf : (Grafting.apply moment.patch moment.edit moment.graft).1 = .error fault) :
    (moment.start file).applyPatch moment.patch =
        (moment.start file, [⟨some moment.patch.id, .skipped fault⟩]) ∧
      ⟨some moment.patch.id, .skipped fault⟩ ∈ (file.applyPatches patches).2 := by
  obtain ⟨after, rfl⟩ := h.patches
  obtain ⟨rest, hrest⟩ := h.edits
  obtain ⟨notes, hmade⟩ := h.made
  have hpatch := Graft.applyPatch_of_error hrest hmade hf
  refine ⟨hpatch, ?_⟩
  show _ ∈ ((Graft.start file).applyPatches (moment.before ++ moment.patch :: after)).2
  rw [Graft.applyPatches_append, Graft.applyPatches_cons,
    show ((Graft.start file).applyPatches moment.before).1.applyPatch moment.patch = _ from hpatch]
  exact List.mem_append_right _ List.mem_cons_self

end Moment

namespace ClassFile

variable {file : ClassFile}

/-- No two members of a class are alike after patches if none were before. -/
theorem IsDistinct.applyPatches (hd : file.IsDistinct) (hn : file.NamesMembers)
    (patches : List Patch) : (file.applyPatches patches).1.IsDistinct ∧
      (file.applyPatches patches).1.NamesMembers := by
  obtain ⟨turns, last, hrun, hlast⟩ := file.exists_isRun_unskipped patches
  have hgathers := gathers_of_leads hn hrun.leads
  exact hlast ▸ ⟨hgathers.isDistinct hd, hgathers.namesMembers⟩

/-- Patches declare each member once.  A class that has no two members of one name and descriptor
has none after patches, and after it is refreshed, so it is not refused for such.  An edit that
declares a member and does not overwrite is refused for it exactly if the class has the member at
that moment: from the start, or from an edit that was made before and not taken back. -/
theorem declares_once (hn : file.NamesMembers) (hd : file.IsDistinct) (patches : List Patch) :
    (file.applyPatches patches).1.IsDistinct ∧
    (∀ hierarchy refusal, (file.applyPatches patches).1.verify hierarchy = .error refusal →
      refusal.isDuplicate = false) ∧
    (∀ hierarchy count later,
      refresh hierarchy (file.applyPatches patches).1 = (.ok count, later) →
        later.IsDistinct ∧ ∀ hierarchy refusal, later.verify hierarchy = .error refusal →
          refusal.isDuplicate = false) ∧
    ∀ moment : Moment, moment.IsOf file patches → ∀ sort signature,
      moment.edit.declared? = some (sort, signature) →
        (∀ name member, (Grafting.apply moment.patch moment.edit moment.graft).1 =
            .error (.duplicateMember name member) ↔
          (moment.edit.overwrites = false ∧ moment.graft.file.HasMember sort signature) ∧
            name = moment.graft.file.nameText ∧ member = signature) ∧
        (moment.edit.overwrites = false → moment.graft.file.HasMember sort signature →
          (moment.start file).applyPatch moment.patch =
              (moment.start file, [⟨some moment.patch.id,
                .skipped (.duplicateMember moment.graft.file.nameText signature)⟩]) ∧
            ⟨some moment.patch.id,
              .skipped (.duplicateMember moment.graft.file.nameText signature)⟩ ∈
                (file.applyPatches patches).2) ∧
        (moment.graft.file.HasMember sort signature ↔ file.HasMember sort signature ∨
          ∃ edit ∈ moment.past file, edit.declared? = some (sort, signature)) := by
  obtain ⟨hdistinct, hnames⟩ := hd.applyPatches hn patches
  refine ⟨hdistinct, fun _ _ => hdistinct.not_isDuplicate_of_verify, fun hierarchy count later h =>
    ?_, fun moment hmoment sort signature hdeclared => ⟨fun name member => ?_, fun ho hs => ?_, ?_⟩⟩
  · obtain ⟨thisClass, -, hrefreshed⟩ := isRefreshed_refresh h
    have hlater := (hrefreshed.keeps.gathers hnames).isDistinct hdistinct
    exact ⟨hlater, fun _ _ => hlater.not_isDuplicate_of_verify⟩
  · exact Grafting.duplicates_iff hdeclared
  · exact hmoment.skips ((Grafting.duplicates_iff hdeclared).mpr ⟨⟨ho, hs⟩, rfl, rfl⟩)
  · rw [(Moment.gathers hn hmoment).hasMember_iff, List.mem_filterMap]

end ClassFile

/-! ### A field that is declared twice -/

/-- A field that is not there is added where there is room for its texts. -/
theorem Grafting.exists_addField {graft : Graft} {edit : Edit} {access : List Modifier}
    {field : Signature} {overwrite : Bool}
    (hnone : graft.file.fieldIndex? field.name field.descriptor = none)
    (hroom : graft.file.pool.slots.size + 2 < 65535) :
    ∃ later, addField edit access field overwrite graft = (.ok (.applied (.done edit)), later) := by
  obtain ⟨nameIndex, between, hname, hsize⟩ :=
    (Interning.fits_utf8 field.name).exists_eq_ok graft.file.pool (by omega)
  obtain ⟨descriptorIndex, pool, hdescriptor, -⟩ :=
    (Interning.fits_utf8 field.descriptor).exists_eq_ok between (by omega)
  obtain ⟨file, hadd⟩ : ∃ file, Changing.addField (Modifier.flags access) field.name
      field.descriptor graft.file = (.ok graft.file.fields.length, file) :=
    ⟨_, ExceptT.bind_eq_ok.mpr ⟨nameIndex, _, Changing.intern_eq_ok.mpr ⟨between, hname, rfl⟩,
      ExceptT.bind_eq_ok.mpr
        ⟨descriptorIndex, _, Changing.intern_eq_ok.mpr ⟨pool, hdescriptor, rfl⟩, rfl⟩⟩⟩
  refine ⟨{ graft with file := file },
    ExceptT.bind_eq_ok.mpr ⟨graft, graft, ExceptT.get_eq_ok.mpr ⟨rfl, rfl⟩, ?_⟩⟩
  simp only [hnone]
  exact ExceptT.bind_eq_ok.mpr ⟨_, _, change_eq_ok.mpr ⟨file, hadd, rfl⟩, rfl⟩

namespace Redeclaring

open Discarding (file patchOf)

def field : Signature := ⟨"f", "I"⟩

def declaring : Edit := .addField [] field false

def twice : Patch := patchOf "a" [declaring, declaring]

def once : Patch := patchOf "b" [declaring]

/-- The moment at which the second patch is about to declare the field. -/
def later : Moment := ⟨[twice], once, [], declaring, ((Graft.start file).applyPatches [twice]).1⟩

theorem namesMembers_file : file.NamesMembers := by
  rintro (_ | _) row hrow
  · exact absurd hrow List.not_mem_nil
  · obtain rfl := List.mem_singleton.mp hrow
    decide

theorem isDistinct_file : file.IsDistinct
  | .field => List.nodup_nil
  | .method => List.nodup_singleton _

/-- A patch that declares a field twice is taken back, and so the next one may declare it. -/
theorem refuses_twice : file.NamesMembers ∧ file.IsDistinct ∧
    (file.applyPatches [twice, once]).1.IsDistinct ∧
    (∃ name, ⟨some "a", .skipped (.duplicateMember name field)⟩ ∈
      (file.applyPatches [twice, once]).2) ∧
    ¬later.graft.file.HasMember .field field := by
  obtain ⟨hdistinct, -, -, hmoments⟩ :=
    ClassFile.declares_once namesMembers_file isDistinct_file [twice, once]
  obtain ⟨graft, hgraft⟩ : ∃ graft, Grafting.apply twice declaring (Graft.start file) =
      (.ok (.applied (.done declaring)), graft) :=
    Grafting.exists_addField rfl (by decide)
  let again : Moment := ⟨[], twice, [declaring], declaring, graft⟩
  have hmade : [declaring].mapM (Grafting.apply twice) (Graft.start file) =
      (.ok [.applied (.done declaring)], graft) := by
    rw [List.mapM_cons]
    exact ExceptT.bind_eq_ok.mpr ⟨_, graft, hgraft, rfl⟩
  obtain ⟨-, hskipped, hthere⟩ :=
    hmoments again ⟨⟨[once], rfl⟩, ⟨[], rfl⟩, ⟨_, hmade⟩⟩ .field field rfl
  obtain ⟨hpatch, hreport⟩ :=
    hskipped rfl (hthere.mpr (.inr ⟨declaring, List.mem_singleton_self _, rfl⟩))
  obtain ⟨-, -, hlater⟩ := hmoments later ⟨⟨[], rfl⟩, ⟨[], rfl⟩, ⟨[], rfl⟩⟩ .field field rfl
  -- nothing is left of the patch that was taken back
  have hpast : later.past file = [] := by
    show (Graft.unskipped [(twice, ((Graft.start file).applyPatch twice).2)]).flatMap _ ++ [] = []
    rw [show (Graft.start file).applyPatch twice = _ from hpatch]
    rfl
  have hfree : ¬file.HasMember .field field := fun ⟨_, hrow, _⟩ => absurd hrow List.not_mem_nil
  refine ⟨namesMembers_file, isDistinct_file, hdistinct, ⟨_, hreport⟩, fun hhas => ?_⟩
  rw [hlater, hpast] at hhas
  exact hhas.elim hfree fun ⟨_, hedit, _⟩ => absurd hedit List.not_mem_nil

end Redeclaring

end ClassGraft

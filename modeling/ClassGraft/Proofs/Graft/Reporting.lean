import ClassGraft.Engine.Basic
import ClassGraft.Proofs.Graft.Deeds

/-!
# What reports leave out

A conflict is not always an edit that was dropped: one that discards what patches did before changes
the class and is reported as a conflict all the same.  But what is discarded was reported as applied
before.  So a report without an applied edit is about a class that is as it was
(`ClassFile.eq_of_appliedCount_eq_zero`), and nothing is lost where the engine then keeps the bytes
of the class.
-/

namespace ClassGraft

variable {graft later : Graft} {patch : Patch} {edit : Edit} {note : Note}

/-- Whether no patch changed the body of any method. -/
def Graft.IsUnchanged (graft : Graft) : Prop :=
  ∀ index, (graft.history index).changedBy = []

theorem Graft.isUnchanged_start (file : ClassFile) : (Graft.start file).IsUnchanged :=
  fun index => by rw [history_start]; rfl

namespace Graft.IsUnchanged

variable (hu : graft.IsUnchanged) (index : Nat)
include hu

theorem replacedBy : (graft.history index).replacedBy = none :=
  Option.toList_eq_nil_iff.mp (List.append_eq_nil_iff.mp (hu index)).1

theorem not_replacedBy {winner : String} : (graft.history index).replacedBy ≠ some winner := by
  rw [hu.replacedBy index]
  exact (Option.some_ne_none winner).symm

theorem editedBy : (graft.history index).editedBy = [] :=
  (List.append_eq_nil_iff.mp (hu index)).2

end Graft.IsUnchanged

namespace Grafting

theorem histories_bodyOf {template : Template} {body : Body}
    (h : bodyOf template graft = (.ok body, later)) : later.histories = graft.histories := by
  obtain ⟨name, pool, steps, supply, -, -, -, rfl⟩ := bodyOf_eq_ok h
  rfl

/-- As long as no patch changed the body of a method, there is nothing to be in conflict with. -/
theorem isApplied_of_isUnchanged (hu : graft.IsUnchanged)
    (h : apply patch edit graft = (.ok note, later)) : ∃ deed, note = .applied deed := by
  -- Each kind of edit looks at the history of its method before it tells of a conflict.
  cases edit with
  | addMethod access method code overwrite =>
    obtain ⟨body, between, hbody, h⟩ := addMethod_eq_ok h
    have hbetween : between.histories = graft.histories := by
      rcases hbody with ⟨-, -, rfl⟩ | ⟨template, made, -, -, hmade⟩
      · rfl
      · exact histories_bodyOf hmade
    rcases h with ⟨index, -, -, hover⟩ | ⟨-, rfl, -⟩
    · have hchanged : (between.history index).changedBy = [] := by
        rw [Graft.history, hbetween]
        exact hu index
      rw [(overwriteMethod_eq_ok hover).1, hchanged]
      exact ⟨_, rfl⟩
    · exact ⟨_, rfl⟩
  | addField access field overwrite => exact (addField_eq_ok h).1
  | replaceBody code =>
    obtain ⟨index, method, -, -, ⟨winner, hwinner, -⟩ | ⟨-, rfl, -⟩⟩ := replaceBody_eq_ok h
    · exact absurd hwinner (hu.not_replacedBy index)
    · rw [hu.editedBy index]
      exact ⟨_, rfl⟩
  | insertAt anchor code =>
    obtain ⟨index, method, -, -, ⟨winner, hwinner, -⟩ | ⟨-, -, -, -, -, -, rfl, -⟩⟩ :=
      insertAt_eq_ok h
    · exact absurd hwinner (hu.not_replacedBy index)
    · exact ⟨_, rfl⟩
  | redirectCall callee replacement kind required =>
    rcases redirectCall_eq_ok h with
      ⟨index, method, -, -, ⟨winner, hwinner, -⟩ | ⟨-, count, rfl, -⟩⟩ | ⟨-, count, rfl, -⟩
    · exact absurd hwinner (hu.not_replacedBy index)
    · exact ⟨_, rfl⟩
    · exact ⟨_, rfl⟩

end Grafting

/-! ### Runs of patches -/

namespace Graft

/-- Where a patch finds nothing changed and none of its edits is reported as applied, it has none or
is skipped. -/
theorem IsUnchanged.applyPatch (hu : graft.IsUnchanged)
    (h : ∀ entry ∈ (graft.applyPatch patch).2, entry.event.isApplied = false) :
    (graft.applyPatch patch).1 = graft := by
  obtain ⟨result, last, hrun⟩ : ∃ result last,
      (patch.edits.mapM (Grafting.apply patch)).run graft = (result, last) := ⟨_, _, rfl⟩
  rw [Graft.applyPatch, hrun] at h ⊢
  cases result with
  | error fault => rfl
  | ok notes =>
    cases hedits : patch.edits with
    | nil =>
      rw [hedits] at hrun
      exact (ExceptT.pure_eq_ok.mp hrun).2.symm
    | cons edit rest =>
      rw [hedits, List.mapM_cons] at hrun
      obtain ⟨note, between, hfirst, hrun⟩ := ExceptT.bind_eq_ok.mp hrun
      obtain ⟨others, _, -, hrun⟩ := ExceptT.bind_eq_ok.mp hrun
      obtain ⟨rfl, -⟩ := ExceptT.pure_eq_ok.mp hrun
      -- the first edit is reported as applied, since there was nothing to be in conflict with
      obtain ⟨deed, rfl⟩ := Grafting.isApplied_of_isUnchanged hu hfirst
      exact nomatch h _ List.mem_cons_self

theorem IsUnchanged.applyPatches (hu : graft.IsUnchanged) {patches : List Patch}
    (h : ∀ entry ∈ (graft.applyPatches patches).2, entry.event.isApplied = false) :
    (graft.applyPatches patches).1 = graft := by
  induction patches with
  | nil => rfl
  | cons patch rest ih =>
    obtain ⟨hfirst, hrest⟩ := List.forall_mem_append.mp h
    have hsame := hu.applyPatch hfirst
    have hlater : ∀ entry ∈ ((graft.applyPatch patch).1.applyPatches rest).2,
        entry.event.isApplied = false := hrest
    show ((graft.applyPatch patch).1.applyPatches rest).1 = graft
    rw [hsame] at hlater ⊢
    exact ih hlater

end Graft

/-- A class of which the report has no applied edit is as it was. -/
theorem ClassFile.eq_of_appliedCount_eq_zero (file : ClassFile) (patches : List Patch)
    (name : String) (fingerprint : Option Bytes)
    (h : (Report.add ⟨name, fingerprint, []⟩ (file.applyPatches patches).2).appliedCount = 0) :
    (file.applyPatches patches).1 = file := by
  have hnone : ∀ entry ∈ ((Graft.start file).applyPatches patches).2,
      entry.event.isApplied = false := by
    intro entry hentry
    exact Bool.eq_false_iff.mpr (List.countP_eq_zero.mp h entry hentry)
  exact congrArg Graft.file ((Graft.isUnchanged_start file).applyPatches hnone)

/-! ### Conflicts that change a class -/

namespace Discarding

def pool : Pool :=
  (Pool.empty.push (.utf8 [109]) (by decide)).push (.utf8 [40, 41, 86]) (by decide)

/-- A class with one method, which returns at once. -/
def file : ClassFile where
  minorVersion := 0
  majorVersion := 52
  pool := pool
  access := 1
  thisClass := 0
  superClass := 0
  interfaces := []
  fields := []
  methods := [⟨0, 1, 2, [.code { Body.new 1 with
    steps := [⟨⟨0⟩, .plain 177⟩], nextMark := 1, initialCount := 1, initialOffsets := [0] }]⟩]
  attributes := []

def method : Signature := ⟨"m", "()V"⟩

def inserting : Edit := .insertAt .methodEntry [.plain 0]

def replacing : Edit := .replaceBody [.plain 0, .plain 0, .plain 177]

/-- The method is there already. -/
def failing : Edit := .addMethod [] method (some [.plain 177]) false

def patchOf (id : String) (edits : List Edit) : Patch := ⟨id, "A", some method, 0, edits⟩

/-- A patch that discards its own insertion and fails in the end. -/
def undone : List Patch := [patchOf "a" [inserting, replacing, failing]]

theorem eq_of_appliedCount_eq_zero_undone :
    (Report.add ⟨"A", none, []⟩ (file.applyPatches undone).2).appliedCount = 0 ∧
      (file.applyPatches undone).1 = file :=
  have hcount : (Report.add ⟨"A", none, []⟩ (file.applyPatches undone).2).appliedCount = 0 := by
    decide +kernel
  ⟨hcount, ClassFile.eq_of_appliedCount_eq_zero file undone "A" none hcount⟩

/-- The replacement changes the class, and it is a conflict. -/
example :
    (file.applyPatches [patchOf "a" [inserting], patchOf "b" [replacing]]).2 =
        [⟨some "a", .applied (.inserted inserting method 1)⟩,
          ⟨some "b", .conflict (.discards replacing method ["a"])⟩] ∧
      (file.applyPatches [patchOf "a" [inserting], patchOf "b" [replacing]]).1.methods ≠
        (file.applyPatches [patchOf "a" [inserting]]).1.methods := by
  decide +kernel

end Discarding

end ClassGraft

import ClassGraft.Patch.Validation
import ClassGraft.Proofs.Class.Rereading
import ClassGraft.Proofs.Code.Rewritten
import ClassGraft.Proofs.Graft.Arrangement
import ClassGraft.Proofs.Graft.Retention
import ClassGraft.Proofs.Graft.Tidied

/-!
# Patched classes are read back

A class that was read, patched with proper templates and refreshed is legible
(`ClassFile.isLegible_of_refresh`), so what is written for it is read as a class that shows it
(`ClassFile.exists_parse_of_serialize`).  A body that was refreshed was tidy before, and so it is
without its dead code; any other is read from the bytes that it was first read from.
-/

namespace ClassGraft

open Reader

variable {pool later : Pool} {body : Body} {head : MethodHead} {hierarchy : Hierarchy}

/-! ### Bodies that were refreshed -/

theorem Body.attributes_live (body : Body) (analysis : Analysis) :
    (body.live analysis).attributes = body.attributes ∧ (body.live analysis).name = body.name ∧
      (body.live analysis).nextMark = body.nextMark := by
  unfold live
  dsimp only
  split_ifs <;> exact ⟨rfl, rfl, rfl⟩

theorem Body.modified_live (h : body.modified = true) (analysis : Analysis) :
    (body.live analysis).modified = true := by
  unfold live
  dsimp only
  split_ifs
  · rfl
  · exact h

/-- A tidy body is so without its dead code. -/
theorem Body.IsTidy.live {analysis : Analysis} (h : body.IsTidy pool)
    (ha : body.analyze head pool hierarchy = .ok analysis) :
    (body.live analysis).IsTidy pool := by
  obtain ⟨hattributes, hname, hnext⟩ := body.attributes_live analysis
  have hmarks := Body.map_mark_live ha
  refine ⟨⟨hmarks ▸ h.nodup, fun step hstep => ?_, Body.isReadable_live ha h.readable⟩,
    hname ▸ h.name, fun item hitem => ?_⟩
  · have hmem := List.mem_map_of_mem (f := (·.mark)) hstep
    rw [hmarks] at hmem
    obtain ⟨old, hold, hmark⟩ := List.mem_map.mp hmem
    rw [← hmark, hnext]
    exact h.below old hold
  · rw [hattributes] at hitem
    rw [hmarks]
    exact h.attributes item hitem

/-- A table of frames is written under the name by which it is read. -/
theorem Body.IsTidy.utf8_of_frameAttribute {frames : Array (Option Frame)} {entry : Frame}
    {layout : Layout} {table : Option RawAttribute} (h : body.IsTidy pool)
    (ht : body.frameAttribute frames entry layout pool = (.ok table, later)) :
    ∀ raw ∈ table, later.utf8 raw.name = some (Bytes.ofAscii "StackMapTable") := by
  have hg := (body.onlyAdds_frameAttribute frames entry layout _ _ _ ht).grows
  obtain ⟨info, between, hinfo, ht⟩ := ExceptT.bind_eq_ok.mp ht
  cases info with
  | none =>
    obtain ⟨rfl, -⟩ := ExceptT.pure_eq_ok.mp ht
    simp
  | some info =>
    cases hold : body.attributes.findSome? BodyAttribute.frames? with
    | some old =>
      simp only [hold] at ht
      obtain ⟨rfl, -⟩ := ExceptT.pure_eq_ok.mp ht
      obtain ⟨item, hitem, hframes⟩ := List.exists_of_findSome?_eq_some hold
      have htidy := h.attributes item hitem
      cases item with
      | frames name entries =>
        obtain rfl := Option.some.inj hframes
        rintro raw ⟨⟩
        exact hg.utf8 htidy
      | _ => nomatch hframes
    | none =>
      simp only [hold] at ht
      obtain ⟨name, last, hname, ht⟩ := ExceptT.bind_eq_ok.mp ht
      obtain ⟨rfl, rfl⟩ := ExceptT.pure_eq_ok.mp ht
      rintro raw ⟨⟩
      have hencode : ModifiedUtf8.encode "StackMapTable" = Bytes.ofAscii "StackMapTable" := by
        decide +kernel
      rw [← hencode]
      exact (Interning.utf8Bytes_spec hname).2

/-- A tidy body that was changed is read back from what it was refreshed to. -/
theorem Body.IsRefreshed.isLegible {majorVersion : UInt16} {body' : Body}
    (h : body.IsRefreshed majorVersion head hierarchy pool later body') (ht : body.IsTidy pool)
    (hm : body.modified = true) :
    later.utf8Is body'.name "Code" = true ∧ body'.IsLegible later := by
  have hg := h.grown.grows
  obtain ⟨analysis, layout, table, encoded, hanalysis, hlayout, htable, hbytes, rfl⟩ := h
  have hlive := ht.live hanalysis
  have hnames : ∀ raw ∈ table, later.utf8 raw.name = some (Bytes.ofAscii "StackMapTable") := by
    split_ifs at htable
    · rw [← htable.1]
      simp
    · obtain ⟨entry, -, htable⟩ := htable
      exact hlive.utf8_of_frameAttribute htable
  refine ⟨(hlive.grow hg).name, fun info hinfo last hlast offset => ?_⟩
  obtain rfl : encoded = info := Option.some.inj hinfo
  obtain ⟨number, again, next, hread, hshown⟩ := Body.exists_isShownBy_of_bytes
    (hlive.grow (hg.trans hlast)) (Body.fallsThrough_live hanalysis) hlayout
    (fun raw hraw => hlast.utf8 (hnames raw hraw)) (Body.modified_live hm analysis) hbytes offset
  exact ⟨number, again, next, hread, hshown.name, hshown.maxStack, hshown.maxLocals, hshown.steps,
    hshown.handlers, hshown.tables, hshown.closed⟩

/-! ### Bodies that were not -/

theorem Body.IsLegible.grow (h : body.IsLegible pool) (hg : pool.Grows later) :
    body.IsLegible later :=
  fun info hinfo last hlast => h info hinfo last (hg.trans hlast)

/-- A body that still has its bytes is read back from them. -/
theorem Body.Grafted.isLegible {origin : ClassFile} {used : Template → Prop}
    (h : body.Grafted origin used pool) (ho : origin.IsParsed) (hg : origin.pool.Grows pool) :
    body.IsLegible pool := by
  intro info hinfo later hlater offset
  obtain ⟨read, cursor, next, rfl, hread, hbody⟩ := (h.exists_read ho).2 info hinfo
  obtain ⟨again, last, hagain, hshown⟩ :=
    Body.exists_isShownBy_of_read hread (hg.trans hlater) offset
  refine ⟨id, again, last, hagain, ?_⟩
  rw [hbody]
  exact ⟨hshown.name, hshown.maxStack, hshown.maxLocals, hshown.steps, hshown.handlers,
    hshown.tables, hshown.closed⟩

/-! ### Classes -/

namespace ClassFile

variable {origin file : ClassFile}

/-- Fields and attributes still have names that are texts. -/
theorem Retains.isNamed (h : origin.Retains file) (ho : origin.IsParsed) : file.IsNamed := by
  have hg := h.pool.grows
  rw [h.same]
  refine ⟨ho.version, hg.isClass ho.thisClass, ho.superClass.imp_right fun hsome => ?_,
    fun index hindex => hg.isClass (ho.interfaces index hindex), fun field hfield => ?_,
    fun raw hraw => hg.isSome_utf8 (ho.attributes raw hraw)⟩
  · obtain ⟨name, hname⟩ := Option.isSome_iff_exists.mp hsome
    exact Option.isSome_of_eq_some (hg.className hname)
  · obtain ⟨hname, hdescriptor, hattributes⟩ := h.fields field hfield
    refine ⟨hname, hdescriptor, fun raw hraw => ?_⟩
    rcases hattributes with hnil | ⟨old, hold, hsame⟩
    · rw [hnil] at hraw
      nomatch hraw
    · rw [hsame] at hraw
      exact hg.isSome_utf8 ((ho.fields old hold).attributes raw hraw)

/-- Refreshing leaves a class legible. -/
theorem isLegible_of_refresh {used : Template → Prop} {later : ClassFile} {count : Nat}
    (ho : origin.IsParsed) (hu : ∀ code, used code → code.IsProper)
    (h : origin.Grafted used file) (hr : refresh hierarchy file = (.ok count, later)) :
    later.IsLegible := by
  have hretains := (h.retains ho).refresh hr
  obtain ⟨thisClass, -, hrefreshed⟩ := isRefreshed_refresh hr
  refine ⟨hretains.isNamed ho, hretains.pool.sound ho.sound, fun method hmethod => ?_⟩
  have hretained := hretains.methods method hmethod
  refine ⟨hretained.name, hretained.descriptor, hretained.one, fun item hitem => ?_⟩
  cases item with
  | other raw => exact hretained.name_of_other ho hretains.pool.grows hitem
  | code body =>
    rcases hrefreshed.mem_code hmethod hretained.one hitem with
      ⟨-, old, hold, hin⟩ | ⟨old, hold, stale, head, before, after, hin, hnone, hbefore, hafter, hbody⟩
    · have hgrafted := h.bodies old hold body hin
      have hgrown := hrefreshed.grown.grows
      exact ⟨((hgrafted.isTidy ho hu).grow hgrown).name,
        (hgrafted.isLegible ho (h.retains ho).pool.grows).grow hgrown⟩
    · have hgrafted := h.bodies old hold stale hin
      obtain ⟨hcode, hlegible⟩ := hbody.isLegible ((hgrafted.isTidy ho hu).grow hbefore)
        ((hgrafted.exists_read ho).1 hnone)
      exact ⟨(hafter.utf8Is_eq (Pool.isSome_of_utf8Is hcode) "Code").trans hcode,
        hlegible.grow hafter⟩

/-- Whatever patches with proper templates do to a class that was read, what is written for it after
it was refreshed is read as a class with the same constants, fields and methods. -/
theorem exists_parse_of_serialize {bytes written : Bytes} {later : ClassFile} {patches : List Patch}
    {count : Nat} (hp : parse bytes = .ok origin)
    (hc : ∀ patch ∈ patches, ∀ edit ∈ patch.edits, ∀ code ∈ edit.code?, code.IsProper)
    (hr : refresh hierarchy (origin.applyPatches patches).1 = (.ok count, later))
    (hw : later.serialize = .ok written) :
    ∃ again, parse written = .ok again ∧ later.IsShownBy again :=
  exists_parse_of_isLegible (isLegible_of_refresh (isParsed_of_parse hp) (fun _ hcode => hcode)
    (origin.grafted_applyPatches hc) hr) hw

end ClassFile

/-! ### An opcode that no instruction has -/

/-- In the complete class with another body of `n`, that one is refreshed and the other is not: it
is up to date. -/
theorem Dangling.refresh_of_refreshBody {file later : ClassFile} {body : Body}
    (hp : (classOf complete).pool.Grows file.pool)
    (hm : file.methods = [invoking, ⟨8, 4, 5, [.code body]⟩]) (ht : file.thisClass = 2)
    (he : body.encoded = none)
    (h : ClassFile.refreshBody 1 ⟨Bytes.ofAscii "C", Bytes.ofAscii "n", Bytes.ofAscii "()V", true⟩
      .unknown body file = (.ok (), later)) :
    ClassFile.refresh .unknown file = (.ok 1, later) := by
  have hutf8 {index : UInt16} {bytes : Bytes} (hin : (classOf complete).pool.get index =
      some (.utf8 bytes)) : file.pool.utf8 index = some bytes := by
    refine hp.utf8 ?_
    rw [Pool.utf8, hin]
  have hname : file.name? = some (Bytes.ofAscii "C") := by
    show file.pool.className file.thisClass = _
    rw [ht]
    refine hp.className ?_
    simp only [Pool.className, Pool.utf8, get_complete]
    rfl
  have hhead : Method.head ⟨8, 4, 5, [.code body]⟩ file.pool (Bytes.ofAscii "C") =
      .ok ⟨Bytes.ofAscii "C", Bytes.ofAscii "n", Bytes.ofAscii "()V", true⟩ := by
    have hn : file.pool.utf8 4 = some (Bytes.ofAscii "n") := hutf8 (get_complete 4)
    have hd : file.pool.utf8 5 = some (Bytes.ofAscii "()V") := hutf8 (get_complete 5)
    have hstatic : Method.isStatic ⟨8, 4, 5, [.code body]⟩ = true := by
      show Access.has 8 Access.isStatic = true
      decide
    unfold Method.head
    simp only [hn, hd, hstatic]
    rfl
  have hmethod : ClassFile.refreshMethod 1 (Bytes.ofAscii "C") .unknown file = (.ok (), later) := by
    refine ExceptT.bind_eq_ok.mpr ⟨file, file, rfl, ?_⟩
    simp only [hm, List.getElem?_cons_succ, List.getElem?_cons_zero]
    refine Refreshing.inMethod_eq_ok.mpr (ExceptT.bind_eq_ok.mpr
      ⟨_, file, ExceptT.lift_eq_ok.mpr ⟨hhead, rfl⟩, ?_⟩)
    have hbody : Method.body? ⟨8, 4, 5, [.code body]⟩ = some body := rfl
    simp only [hbody, he, Option.isNone_none, if_true]
    exact h
  have hfirst : file.isStale 0 = false := by
    unfold ClassFile.isStale
    rw [hm]
    rfl
  have hlast : file.isStale 1 = true := by
    unfold ClassFile.isStale
    rw [hm]
    show body.encoded.isNone = true
    rw [he]
    rfl
  refine ExceptT.bind_eq_ok.mpr ⟨file, file, ExceptT.get_eq_ok.mpr ⟨rfl, rfl⟩, ?_⟩
  rw [hname, hm, show List.range [invoking, ⟨8, 4, 5, [.code body]⟩].length = [0, 1] from rfl]
  refine ExceptT.bind_eq_ok.mpr ⟨file, file, ExceptT.get_eq_ok.mpr ⟨rfl, rfl⟩, ?_⟩
  rw [hfirst]
  refine ExceptT.bind_eq_ok.mpr ⟨file, file, ExceptT.get_eq_ok.mpr ⟨rfl, rfl⟩, ?_⟩
  rw [hlast]
  exact ExceptT.bind_eq_ok.mpr ⟨(), later, hmethod, rfl⟩

namespace Miscast

open Dangling (classOf methodOf complete invoking returning completed complete_spec get_complete
  entry_complete)

/-- A check of a null reference for the class `C`, with the given opcode. -/
def checking (op : Opcode) : Template := [.plain 0x01, .classOp op "C"]

/-- Has the check made when the method is entered. -/
def patch (op : Opcode) : Patch :=
  ⟨"checking", "C", some ⟨"n", "()V"⟩, 0, [.insertAt .methodEntry (checking op)]⟩

/-- The steps of the check. -/
def made (op : Opcode) : List Step := [⟨⟨1⟩, .plain 0x01⟩, ⟨⟨2⟩, .classOp op 2⟩]

/-- No constants are added for the check. -/
theorem steps_eq (op : Opcode) : Template.steps (checking op) ⟨1, (classOf complete).pool⟩ =
    (.ok (made op), ⟨3, (classOf complete).pool⟩) := by
  have hname : Interning.utf8 "C" (classOf complete).pool = (.ok 1, (classOf complete).pool) :=
    entry_complete (show _ = some 0 by rfl)
  have hclass : Interning.classRef "C" (classOf complete).pool =
      (.ok 2, (classOf complete).pool) :=
    ExceptT.bind_eq_ok.mpr ⟨1, _, hname, entry_complete (show _ = some 1 by rfl)⟩
  have hline : Template.instruction ∅ (.classOp op "C") ⟨3, (classOf complete).pool⟩ =
      (.ok (some (.classOp op 2), ∅), ⟨3, (classOf complete).pool⟩) :=
    ExceptT.bind_eq_ok.mpr ⟨2, _, Supplied.intern_eq_ok.mpr ⟨_, hclass, rfl⟩, rfl⟩
  have hrest : Template.stepsFrom 2 ∅ [⟨⟨1⟩, .plain 0x01⟩] [.classOp op "C"]
      ⟨3, (classOf complete).pool⟩ = (.ok (made op), ⟨3, (classOf complete).pool⟩) :=
    ExceptT.bind_eq_ok.mpr ⟨_, _, hline, rfl⟩
  exact hrest

/-- The body with the check. -/
def checked (op : Opcode) : Body := { returning with
  steps := made op ++ returning.steps
  nextMark := 3
  encoded := none
  modified := true }

/-- The class with another body of `n`. -/
def withBody (body : Body) : ClassFile :=
  { classOf complete with methods := [invoking, ⟨8, 4, 5, [.code body]⟩] }

theorem applyPatches_eq (op : Opcode) : (classOf complete).applyPatches [patch op] =
    (withBody (checked op),
      [⟨some "checking", .applied (.inserted (.insertAt .methodEntry (checking op))
        ⟨"n", "()V"⟩ 1)⟩]) := by
  have hmethod : (patch op).method = some ⟨"n", "()V"⟩ := rfl
  obtain ⟨-, -, hmethods, hn, -⟩ := complete_spec
  have hindex : (Graft.start (classOf complete)).file.methodIndex? "n" "()V" = some 1 := hn
  have hbody : (Graft.start (classOf complete)).body? 1 = some returning := by
    show ((classOf complete).methods[1]?).bind Method.body? = _
    rw [hmethods]
    rfl
  have hsites : returning.sites (classOf complete).pool .methodEntry = [⟨0⟩] := rfl
  have hmade : Grafting.insertSteps .methodEntry ⟨0⟩ (made op) { returning with nextMark := 3 }
      .untouched = (checked op, ⟨none, [], some ⟨2⟩, ∅⟩) := rfl
  have happly := Graft.applyPatch_of_site rfl hmethod hindex
    (Graft.history_start (classOf complete) 1) rfl hbody hsites (steps_eq op) hmade
  unfold ClassFile.applyPatches Graft.applyPatches
  rw [happly]
  refine Prod.ext ?_ rfl
  show (classOf complete).setBody 1 (checked op) = _
  unfold ClassFile.setBody ClassFile.modifyMethod
  rw [hmethods]
  rfl

def heading : MethodHead := ⟨Bytes.ofAscii "C", Bytes.ofAscii "n", Bytes.ofAscii "()V", true⟩

/-- What the check leaves: only the right opcode is that of a cast. -/
def outcome (op : Opcode) : FrameType :=
  if op = Opcode.checkCast then .object (Bytes.ofAscii "C") else .int

/-- The frames of the body. -/
def frames (op : Opcode) : Array (Option Frame) := Disguised.frames (outcome op)

/-- The analysis of any body with these steps. -/
theorem analyze_body {base : Body} {op : Opcode} (h : op = Opcode.checkCast ∨ op = 0xca)
    (hd : base.declaredFrames = []) : (Disguised.body base op 2).analyze heading
      (classOf complete).pool .unknown = .ok ⟨frames op, 1, 0⟩ := by
  have hclass : (classOf complete).pool.requireClass 2 = .ok (Bytes.ofAscii "C") := by
    simp only [Pool.requireClass, Pool.className, Pool.utf8, get_complete]
    rfl
  refine Disguised.analyze_eq hd (fun scene hpool => ?_) ?_
  · refine Except.bind_eq_ok.mpr ⟨_, (congrArg (Pool.requireClass · 2) hpool).trans hclass, ?_⟩
    rcases h with rfl | rfl <;> rfl
  · rcases h with rfl | rfl <;> rfl

theorem analyze_eq {op : Opcode} (h : op = Opcode.checkCast ∨ op = 0xca) :
    (checked op).analyze heading (classOf complete).pool .unknown = .ok ⟨frames op, 1, 0⟩ :=
  @analyze_body (checked op) op h rfl

/-- The body as it is encoded. -/
def encoded (op : Opcode) : Bytes := [0, 1, 0, 0, 0, 0, 0, 5, 0x01, op, 0, 2, 0xb1, 0, 0, 0, 0]

/-- The body with the size of its stack. -/
def sized (op : Opcode) : Body := { checked op with maxStack := 1 }

/-- The class with the check, after it was refreshed. -/
def refreshed (op : Opcode) : ClassFile :=
  withBody { sized op with encoded := some (encoded op) }

theorem live_eq (op : Opcode) : (checked op).live ⟨frames op, 1, 0⟩ = sized op :=
  Body.live_of_not_hasDeadCode (by simp [Analysis.hasDeadCode, frames, Disguised.frames]) _

theorem exists_layout {op : Opcode} (h : op = Opcode.checkCast ∨ op = 0xca) :
    ∃ layout, Layout.ofSteps (classOf complete).pool (sized op).steps = .ok layout ∧
      layout.landings = [] ∧ (sized op).bytes layout none = .ok (encoded op) := by
  have hparts : ((Layout.ofSteps (classOf complete).pool (sized op).steps).toOption.any
      fun layout => layout.landings == [] &&
        decide ((sized op).bytes layout none = .ok (encoded op))) = true := by
    rcases h with rfl | rfl <;> decide +kernel
  obtain ⟨layout, hlayout, hboth⟩ := Except.exists_of_any hparts
  simp only [Bool.and_eq_true, beq_iff_eq, decide_eq_true_eq] at hboth
  exact ⟨layout, hlayout, hboth⟩

theorem refreshBody_eq {op : Opcode} (h : op = Opcode.checkCast ∨ op = 0xca) :
    ClassFile.refreshBody 1 heading .unknown (checked op) (withBody (checked op)) =
      (.ok (), refreshed op) := by
  obtain ⟨layout, hlayout, hlandings, hbytes⟩ := exists_layout h
  have hneeded : (sized op).needsFrame layout.landings = [] := by
    rw [hlandings]
    rcases h with rfl | rfl <;> decide +kernel
  rw [← live_eq] at hlayout hneeded hbytes
  have hrefresh : ClassFile.refreshBody 1 heading .unknown (checked op) (withBody (checked op)) =
      _ := ClassFile.refreshBody_of_needsFrame_nil (analyze_eq h) hlayout rfl hneeded hbytes
  rw [hrefresh, live_eq]
  rfl

theorem refresh_eq {op : Opcode} (h : op = Opcode.checkCast ∨ op = 0xca) :
    ClassFile.refresh .unknown (withBody (checked op)) = (.ok 1, refreshed op) :=
  Dangling.refresh_of_refreshBody (.refl _) rfl complete_spec.2.2.2.2.2 rfl (refreshBody_eq h)

/-- With the right opcode, what is written is read again. -/
theorem exists_parse_of_serialize_checking : ∃ count later written,
    ClassFile.parse complete = .ok (classOf complete) ∧
    (∀ edit ∈ (patch Opcode.checkCast).edits, ∀ code ∈ edit.code?, code.IsProper) ∧
    ClassFile.refresh .unknown ((classOf complete).applyPatches [patch Opcode.checkCast]).1 =
      (.ok count, later) ∧
    later.serialize = .ok written ∧
    ∃ again, ClassFile.parse written = .ok again ∧ later.IsShownBy again := by
  obtain ⟨hparse, -⟩ := complete_spec
  have hproper : ∀ edit ∈ (patch Opcode.checkCast).edits, ∀ code ∈ edit.code?, code.IsProper := by
    intro edit hedit code hcode
    obtain rfl := List.mem_singleton.mp hedit
    obtain rfl := Option.some.inj hcode
    unfold Template.IsProper
    decide
  have hrefresh : ClassFile.refresh .unknown
      ((classOf complete).applyPatches [patch Opcode.checkCast]).1 =
        (.ok 1, refreshed Opcode.checkCast) := by
    rw [applyPatches_eq]
    exact refresh_eq (.inl rfl)
  have hwrites : (refreshed Opcode.checkCast).serialize.toOption.any (fun _ => true) = true := by
    decide +kernel
  obtain ⟨written, hwritten, -⟩ := Except.exists_of_any hwrites
  refine ⟨1, _, written, hparse, hproper, hrefresh, hwritten,
    ClassFile.exists_parse_of_serialize hparse (fun other hother => ?_) hrefresh hwritten⟩
  obtain rfl := List.mem_singleton.mp hother
  exact hproper

theorem flaw?_patch (op : Opcode) : (patch op).flaw? = none := by
  have hclass : ("C".isEmpty || "C".contains '.') = false := by simp
  have hmethod : isMethodDescriptor "()V" = true := rfl
  unfold Patch.flaw?
  rw [show (patch op).className = "C" from rfl, hclass]
  simp [patch, checking, Patch.flawOf?, Edit.needsMethod, Edit.flaw?, Option.filter, hmethod]

/-- With an opcode that no instruction has, what is written is not read again: nothing looks at the
opcode before. -/
theorem not_exists_parse_of_serialize :
    ¬∀ (bytes written : Bytes) (hierarchy : Hierarchy) (origin later : ClassFile)
      (patches : List Patch) (count : Nat), ClassFile.parse bytes = .ok origin →
      (∀ patch ∈ patches, patch.flaw? = none) →
      ClassFile.refresh hierarchy (origin.applyPatches patches).1 = (.ok count, later) →
      later.serialize = .ok written →
      ∃ again, ClassFile.parse written = .ok again ∧ later.IsShownBy again := by
  intro hclaim
  have hwrites : (refreshed 0xca).serialize.toOption.any
      (fun written => !(ClassFile.parse written).toOption.isSome) = true := by decide +kernel
  obtain ⟨written, hwritten, hnone⟩ := Except.exists_of_any hwrites
  have hflaw : ∀ other ∈ [patch 0xca], other.flaw? = none := by
    intro other hother
    obtain rfl := List.mem_singleton.mp hother
    exact flaw?_patch 0xca
  have hrefresh : ClassFile.refresh .unknown ((classOf complete).applyPatches [patch 0xca]).1 =
      (.ok 1, refreshed 0xca) := by
    rw [applyPatches_eq]
    exact refresh_eq (.inr rfl)
  obtain ⟨again, hagain, -⟩ := hclaim complete written .unknown (classOf complete)
    (refreshed 0xca) [patch 0xca] 1 complete_spec.1 hflaw hrefresh hwritten
  rw [hagain] at hnone
  nomatch hnone

end Miscast

end ClassGraft

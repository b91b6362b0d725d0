import ClassGraft.Proofs.Class.Distinct
import ClassGraft.Proofs.Class.Refreshing
import ClassGraft.Proofs.Graft.Agreement

/-!
# What the engine makes of classes

An engine remembers outcomes, but only those that it would compute again: whatever it was called for
before, an outcome for a class is what its patches make of bytes with the digest of the given ones
(`Engine.Serves.exists_patchFor`).  A class that it calls patched was read, patched, refreshed and
written (`Engine.patch_eq_patched`), so it agrees with the one that was given on all that no edit is
about (`Engine.exists_agrees_of_transform`).  It can be read if the instructions of all templates have
opcodes of their own kinds; an opcode that no instruction has passes all checks and is written
(`Miscast.not_exists_agrees_of_transform`).
-/

namespace ClassGraft

namespace Engine

variable {first engine : Engine} {name : String} {bytes written : Bytes} {outcome : Outcome}
  {report : Report} {calls : List (String × Bytes)}

/-- The outcome for a class, whatever is remembered. -/
def patchFor (engine : Engine) (name : String) (bytes : Bytes) : Except ClassFault Outcome :=
  engine.patch name (engine.schedule.fingerprint? name) (engine.schedule.patchesOf name) bytes

/-- What an engine may answer when it is called for a class, and what it is then. -/
inductive Answers (engine : Engine) (name : String) (bytes : Bytes) :
    Except ClassFault Outcome × Engine → Prop
  | passing (h : engine.schedule.patchesOf name = []) :
      Answers engine name bytes (.ok .passThrough, engine)
  | recalling {cache : Cache} {fingerprint : Bytes} {outcome : Outcome}
      (hc : engine.cache = some cache)
      (h : cache[CacheKey.mk name fingerprint (Sha256.digest bytes)]? = some outcome) :
      Answers engine name bytes (.ok outcome, engine)
  | computing : Answers engine name bytes (engine.patchFor name bytes, engine)
  | remembering {cache : Cache} {fingerprint : Bytes} {outcome : Outcome}
      (hc : engine.cache = some cache) (h : engine.patchFor name bytes = .ok outcome) :
      Answers engine name bytes (.ok outcome, { engine with
        cache := some (cache.insert ⟨name, fingerprint, Sha256.digest bytes⟩ outcome) })

/-- The calls that an engine was given since it was a first one, and what it is after them.  It may
have been told to forget what it remembered. -/
inductive Serves (first : Engine) : List (String × Bytes) → Engine → Prop
  | start : Serves first [] first
  | transform {calls : List (String × Bytes)} {engine : Engine} (h : Serves first calls engine)
      (name : String) (bytes : Bytes) :
      Serves first (calls ++ [(name, bytes)]) (engine.transform name bytes).2
  | clear {calls : List (String × Bytes)} {engine : Engine} (h : Serves first calls engine) :
      Serves first calls engine.clear

/-- Whether an engine is a first one but for what it remembers, and all of that is what the first
one would compute for a call that was given. -/
structure IsFaithful (first : Engine) (calls : List (String × Bytes)) (engine : Engine) : Prop where
  same : engine = { first with cache := engine.cache }
  cached : ∀ cache, engine.cache = some cache → ∀ (key : CacheKey) (outcome : Outcome),
    cache[key]? = some outcome → ∃ bytes, (key.className, bytes) ∈ calls ∧
      key.input = Sha256.digest bytes ∧ first.patchFor key.className bytes = .ok outcome

/-! ### One call -/

/-- The engine without memory. -/
def withoutMemory (engine : Engine) : Engine := { engine with cache := none }

/-- An engine without memory computes each outcome, and stays as it is. -/
theorem transform_withoutMemory (h : engine.schedule.patchesOf name ≠ []) :
    engine.withoutMemory.transform name bytes =
      (engine.patchFor name bytes, engine.withoutMemory) := by
  have hsome : (engine.schedule.patchesOf name).isEmpty = false := List.isEmpty_eq_false_iff.mpr h
  unfold transform withoutMemory
  simp only [hsome, Bool.false_eq_true, ↓reduceIte]
  rfl

theorem answers_transform (engine : Engine) (name : String) (bytes : Bytes) :
    engine.Answers name bytes (engine.transform name bytes) := by
  unfold transform
  dsimp only
  split_ifs with hempty
  · exact .passing (List.isEmpty_iff.mp hempty)
  · split
    · rename_i cache fingerprint hcache hfingerprint
      unfold remembered
      cases hfound : cache[CacheKey.mk name fingerprint (Sha256.digest bytes)]? with
      | some outcome => exact .recalling hcache hfound
      | none =>
        have hcomputing : engine.Answers name bytes (engine.patchFor name bytes, engine) :=
          .computing
        unfold patchFor at hcomputing
        cases hpatch : engine.patch name (engine.schedule.fingerprint? name)
            (engine.schedule.patchesOf name) bytes with
        | ok outcome => exact .remembering hcache hpatch
        | error fault =>
          rw [hpatch] at hcomputing
          exact hcomputing
    · exact .computing

/-- What an engine computes does not depend on what it remembers. -/
theorem IsFaithful.patchFor_eq (h : first.IsFaithful calls engine) :
    engine.patchFor name bytes = first.patchFor name bytes := by
  rw [h.same]
  rfl

theorem IsFaithful.transform (h : first.IsFaithful calls engine) (name : String) (bytes : Bytes) :
    first.IsFaithful (calls ++ [(name, bytes)]) (engine.transform name bytes).2 := by
  have hmore : first.IsFaithful (calls ++ [(name, bytes)]) engine := by
    refine ⟨h.same, fun cache hcache key outcome hfound => ?_⟩
    obtain ⟨old, hin, hold⟩ := h.cached cache hcache key outcome hfound
    exact ⟨old, List.mem_append_left _ hin, hold⟩
  have hanswers := engine.answers_transform name bytes
  generalize engine.transform name bytes = answer at hanswers
  cases hanswers with
  | passing hempty => exact hmore
  | recalling hc hfound => exact hmore
  | computing => exact hmore
  | @remembering cache fingerprint outcome hc hpatch =>
    refine ⟨?_, fun later hlater key found hfound => ?_⟩
    · rw [h.same]
    · obtain rfl := Option.some.inj hlater
      rw [Std.HashMap.getElem?_insert] at hfound
      split_ifs at hfound with hkey
      · obtain rfl := Option.some.inj hfound
        obtain rfl := eq_of_beq hkey
        exact ⟨bytes, List.mem_concat_self, rfl, h.patchFor_eq ▸ hpatch⟩
      · exact hmore.cached cache hc key found hfound

theorem IsFaithful.clear (h : first.IsFaithful calls engine) :
    first.IsFaithful calls engine.clear := by
  refine ⟨?_, fun cache hcache key outcome hfound => ?_⟩
  · unfold Engine.clear
    rw [h.same]
  · obtain ⟨old, -, rfl⟩ := Option.map_eq_some_iff.mp hcache
    simp at hfound

/-! ### Engines that serve -/

/-- A new engine remembers nothing. -/
theorem isFaithful_new (schedule : Schedule) (hierarchy : Hierarchy) (settings : Settings) :
    (Engine.new schedule hierarchy settings).IsFaithful []
      (Engine.new schedule hierarchy settings) := by
  refine ⟨rfl, fun cache hcache key outcome hfound => ?_⟩
  unfold Engine.new at hcache
  dsimp only at hcache
  split_ifs at hcache
  obtain rfl := Option.some.inj hcache
  simp at hfound

/-- What an engine remembers is what it would compute again, call after call. -/
theorem Serves.isFaithful (h : first.Serves calls engine) (hf : first.IsFaithful [] first) :
    first.IsFaithful calls engine := by
  induction h with
  | start => exact hf
  | transform h name bytes ih => exact ih.transform name bytes
  | clear h ih => exact ih.clear

/-- An outcome for a class is what its patches make of the bytes, or of others with the same digest
that the engine was called for before. -/
theorem Serves.exists_patchFor (h : first.Serves calls engine) (hf : first.IsFaithful [] first)
    (ht : (engine.transform name bytes).1 = .ok outcome) : outcome = .passThrough ∨ ∃ input,
      (input = bytes ∨ (name, input) ∈ calls ∧ Sha256.digest input = Sha256.digest bytes) ∧
        first.patchFor name input = .ok outcome := by
  have hfaithful := h.isFaithful hf
  have hanswers := engine.answers_transform name bytes
  generalize engine.transform name bytes = answer at hanswers ht
  cases hanswers with
  | passing hempty => exact .inl (Except.ok.inj ht).symm
  | @recalling cache fingerprint found hc hfound =>
    obtain rfl := Except.ok.inj ht
    obtain ⟨input, hin, hdigest, hpatch⟩ := hfaithful.cached cache hc _ _ hfound
    exact .inr ⟨input, .inr ⟨hin, hdigest.symm⟩, hpatch⟩
  | computing => exact .inr ⟨bytes, .inl rfl, hfaithful.patchFor_eq ▸ ht⟩
  | remembering hc hpatch =>
    obtain rfl := Except.ok.inj ht
    exact .inr ⟨bytes, .inl rfl, hfaithful.patchFor_eq ▸ hpatch⟩

/-! ### Classes that are patched -/

/-- The bytes of a patched class are those of the class as it was refreshed, and verified if that is
done. -/
theorem finish_eq_ok {file : ClassFile} : engine.finish file = .ok written ↔ ∃ count later,
    ClassFile.refresh engine.hierarchy file = (.ok count, later) ∧
      (engine.verifies = true → later.verify engine.hierarchy = .ok ()) ∧
      later.serialize = .ok written := by
  obtain ⟨result, later, hrefresh⟩ : ∃ result later,
      ClassFile.refresh engine.hierarchy file = (result, later) := ⟨_, _, rfl⟩
  have hrun : (ClassFile.refresh engine.hierarchy).run file = (result, later) := hrefresh
  rw [hrefresh]
  unfold finish
  simp only [hrun]
  rw [Except.bind_eq_ok]
  constructor
  · rintro ⟨count, hcount, h⟩
    obtain rfl := Except.mapError_eq_ok.mp hcount
    refine ⟨count, later, rfl, ?_⟩
    split_ifs at h with hverifies
    · obtain ⟨_, hverify, h⟩ := Except.bind_eq_ok.mp h
      exact ⟨fun _ => Except.mapError_eq_ok.mp hverify, Except.mapError_eq_ok.mp h⟩
    · exact ⟨fun hyes => absurd hyes hverifies, Except.mapError_eq_ok.mp h⟩
  · rintro ⟨count, _, hpair, hverify, hwritten⟩
    obtain ⟨rfl, rfl⟩ := Prod.mk.inj hpair
    refine ⟨count, rfl, ?_⟩
    split_ifs with hverifies
    · exact Except.bind_eq_ok.mpr
        ⟨(), Except.mapError_eq_ok.mpr (hverify hverifies), Except.mapError_eq_ok.mpr hwritten⟩
    · exact Except.mapError_eq_ok.mpr hwritten

/-- A class that is called patched was read, patched, refreshed and written. -/
theorem patch_eq_patched {fingerprint : Option Bytes} {patches : List Patch}
    (h : engine.patch name fingerprint patches bytes = .ok (.patched written report)) :
    ∃ origin, ClassFile.parse bytes = .ok origin ∧
      report = ⟨name, fingerprint, (origin.applyPatches patches).2⟩ ∧
      report.appliedCount ≠ 0 ∧ engine.finish (origin.applyPatches patches).1 = .ok written := by
  unfold patch at h
  dsimp only at h
  split at h
  · rename_i origin hparse
    refine ⟨origin, hparse, ?_⟩
    have hpatched := Except.ok.inj h
    unfold patchFile at hpatched
    dsimp only at hpatched
    split_ifs at hpatched with hcount
    split at hpatched
    · rename_i found hfinish
      obtain ⟨rfl, rfl⟩ := Outcome.patched.inj hpatched
      exact ⟨rfl, hcount, hfinish⟩
    · nomatch hpatched
  · split_ifs at h
    nomatch h

/-- A class that was read, patched so that some edit was applied, and written is called patched. -/
theorem patch_of_finish {fingerprint : Option Bytes} {patches : List Patch} {origin : ClassFile}
    (hparse : ClassFile.parse bytes = .ok origin)
    (hcount : (Report.mk name fingerprint (origin.applyPatches patches).2).appliedCount ≠ 0)
    (hfinish : engine.finish (origin.applyPatches patches).1 = .ok written) :
    engine.patch name fingerprint patches bytes =
      .ok (.patched written ⟨name, fingerprint, (origin.applyPatches patches).2⟩) := by
  unfold patch
  dsimp only
  rw [hparse]
  show Except.ok (engine.patchFile _ _ _) = _
  unfold patchFile
  dsimp only
  rw [if_neg (by exact hcount), hfinish]
  rfl

end Engine

/-- A class that is called patched agrees with the one that was given on all that the edits of its
patches are not about, whatever the engine was called for before, unless it was called for other
bytes of the class with the same digest.  With proper templates it can be read. -/
theorem Engine.exists_agrees_of_transform {schedule : Schedule} {hierarchy : Hierarchy}
    {settings : Settings} {engine : Engine} {calls : List (String × Bytes)}
    (h : (Engine.new schedule hierarchy settings).Serves calls engine) {name : String}
    {bytes written : Bytes} {report : Report}
    (hd : ∀ input, (name, input) ∈ calls → Sha256.digest input = Sha256.digest bytes →
      input = bytes)
    (ht : (engine.transform name bytes).1 = .ok (.patched written report)) :
    ∃ origin turns last, ClassFile.parse bytes = .ok origin ∧
      origin.IsRun
        (Graft.unskipped ((Graft.start origin).account (schedule.patchesOf name))) turns last ∧
      (∀ again, ClassFile.parse written = .ok again → origin.Agrees turns again) ∧
      ((∀ patch ∈ schedule.patchesOf name, ∀ edit ∈ patch.edits, ∀ code ∈ edit.code?,
        code.IsProper) → ∃ again, ClassFile.parse written = .ok again) := by
  obtain hpass | ⟨input, hinput, hpatch⟩ :=
    h.exists_patchFor (isFaithful_new schedule hierarchy settings) ht
  · nomatch hpass
  have hsame : input = bytes := hinput.elim id fun hboth => hd input hboth.1 hboth.2
  obtain ⟨origin, hparse, -, -, hfinish⟩ := patch_eq_patched (hsame ▸ hpatch)
  obtain ⟨count, later, hrefresh, -, hwritten⟩ := finish_eq_ok.mp hfinish
  obtain ⟨turns, last, hrun, hlast⟩ := origin.exists_isRun_unskipped (schedule.patchesOf name)
  have ho := ClassFile.isParsed_of_parse hparse
  refine ⟨origin, turns, last, hparse, hrun, fun again hagain => ?_, fun hproper => ?_⟩
  · have hgrafted : origin.Grafted (fun _ => True)
        (origin.applyPatches (schedule.patchesOf name)).1 :=
      origin.grafted_applyPatches fun _ _ _ _ _ _ => trivial
    have hlater : ClassFile.refresh hierarchy last.file = (.ok count, later) := by
      rw [hlast]
      exact hrefresh
    exact ClassFile.agrees_of_refresh ho hrun.leads (hlast ▸ hgrafted) hlater hwritten hagain
  · obtain ⟨again, hagain, -⟩ := ClassFile.exists_parse_of_isLegible
      (ClassFile.isLegible_of_refresh ho (fun _ hcode => hcode)
        (origin.grafted_applyPatches hproper) hrefresh) hwritten
    exact ⟨again, hagain⟩

/-! ### A field that is made public -/

namespace Exposing

/-- A class `A` with a private field `f` and a static method `m` that only returns. -/
def bytes : Bytes :=
  [0xca, 0xfe, 0xba, 0xbe, 0, 0, 0, 52, 0, 8] ++ [1, 0, 1, 0x41] ++ [7, 0, 1] ++ [1, 0, 1, 0x66] ++
    [1, 0, 1, 0x49] ++ [1, 0, 1, 0x6d] ++ [1, 0, 3, 0x28, 0x29, 0x56] ++
    [1, 0, 4, 0x43, 0x6f, 0x64, 0x65] ++ [0, 0x20, 0, 2, 0, 0, 0, 0] ++
    [0, 1, 0, 2, 0, 3, 0, 4, 0, 0] ++
    [0, 1, 0, 8, 0, 5, 0, 6, 0, 1, 0, 7, 0, 0, 0, 13, 0, 0, 0, 0, 0, 0, 0, 1, 0xb1, 0, 0, 0, 0] ++
    [0, 0]

/-- Makes the field public. -/
def patch : Patch := ⟨"a", "A", none, 0, [.addField [.isPublic] ⟨"f", "I"⟩ true]⟩

def schedule : Schedule := ⟨[("A", ⟨[patch], []⟩)]⟩

def settings : Settings := ⟨false, false, true, []⟩

theorem exists_transform : ∃ written report,
    ((Engine.new schedule .unknown settings).transform "A" bytes).1 =
      .ok (.patched written report) := by
  have hpatched : ((Engine.new schedule .unknown settings).transform "A" bytes).1.toOption.any
      (fun outcome => !(outcome.bytes []).isEmpty) = true := by
    decide +kernel
  obtain ⟨outcome, houtcome, hbytes⟩ := Except.exists_of_any hpatched
  cases outcome with
  | patched written report => exact ⟨written, report, houtcome⟩
  | passThrough => nomatch hbytes
  | fellBack report => nomatch hbytes

/-- The engine patches the class, and what it wrote is read again and agrees with it. -/
theorem exists_agrees_of_transform_exposing : ∃ written report,
    ((Engine.new schedule .unknown settings).transform "A" bytes).1 =
      .ok (.patched written report) ∧
    ∃ origin turns last again, ClassFile.parse bytes = .ok origin ∧
      origin.IsRun (Graft.unskipped ((Graft.start origin).account (schedule.patchesOf "A")))
        turns last ∧
      ClassFile.parse written = .ok again ∧ origin.Agrees turns again := by
  obtain ⟨written, report, htransform⟩ := exists_transform
  have hproper : ∀ other ∈ schedule.patchesOf "A", ∀ edit ∈ other.edits, ∀ code ∈ edit.code?,
      code.IsProper := by
    intro other hother edit hedit code hcode
    obtain rfl := List.mem_singleton.mp hother
    obtain rfl := List.mem_singleton.mp hedit
    nomatch hcode
  obtain ⟨origin, turns, last, hparse, hrun, hagrees, hreads⟩ :=
    Engine.exists_agrees_of_transform .start (fun _ hin => absurd hin List.not_mem_nil) htransform
  obtain ⟨again, hagain⟩ := hreads hproper
  exact ⟨written, report, htransform, origin, turns, last, again, hparse, hrun, hagain,
    hagrees again hagain⟩

end Exposing

/-! ### An opcode that no instruction has -/

namespace Miscast

open Dangling (complete complete_spec)

def schedule : Schedule := ⟨[("C", ⟨[patch 0xca], []⟩)]⟩

/-- Patched classes are verified. -/
def settings : Settings := ⟨false, true, true, []⟩

/-- Nothing that is verified depends on the opcode. -/
theorem verify_refreshed : (refreshed 0xca).verify .unknown = .ok () := by
  have hreference : (refreshed 0xca).referenceRefusal? = none := by decide +kernel
  have hname : (refreshed 0xca).name? = some (Bytes.ofAscii "C") := by decide +kernel
  have hduplicate : (refreshed 0xca).duplicateRefusal? = none := by
    refine ClassFile.duplicateRefusal?_eq_none_iff.mpr fun sort => ?_
    cases sort <;> decide +kernel
  have hmethods : (refreshed 0xca).methods.findSome?
      (Method.bodyRefusal? (refreshed 0xca).pool (Bytes.ofAscii "C") .unknown) = none := by
    refine List.findSome?_eq_none_iff.mpr fun method hmethod => ?_
    rcases List.mem_pair.mp hmethod with rfl | rfl
    · rfl
    · refine Method.bodyRefusal?_eq_none fun body hbody _ => ?_
      obtain rfl := Option.some.inj hbody
      have hhead : Method.looseHead ⟨8, 4, 5, [.code { sized 0xca with
          encoded := some (encoded 0xca) }]⟩ (refreshed 0xca).pool (Bytes.ofAscii "C") =
            heading := by
        decide +kernel
      refine ⟨⟨frames 0xca, 1, 0⟩, ?_, UInt16.le_refl _, UInt16.zero_le⟩
      rw [hhead]
      exact analyze_body (.inr rfl) rfl
  unfold ClassFile.verify ClassFile.refusal?
  simp only [hreference, hname, hmethods, hduplicate]
  rfl

/-- The engine patches and verifies the class, although what it wrote is not read again. -/
theorem not_exists_agrees_of_transform :
    ¬∀ (schedule : Schedule) (hierarchy : Hierarchy) (settings : Settings) (name : String)
      (bytes written : Bytes) (report : Report),
      (∀ patch ∈ schedule.patchesOf name, patch.flaw? = none) →
      ((Engine.new schedule hierarchy settings).transform name bytes).1 =
        .ok (.patched written report) →
      ∃ origin turns last again, ClassFile.parse bytes = .ok origin ∧
        origin.IsRun (Graft.unskipped ((Graft.start origin).account (schedule.patchesOf name)))
          turns last ∧
        ClassFile.parse written = .ok again ∧ origin.Agrees turns again := by
  intro hclaim
  have hwrites : (refreshed 0xca).serialize.toOption.any
      (fun written => !(ClassFile.parse written).toOption.isSome) = true := by decide +kernel
  obtain ⟨written, hwritten, hnone⟩ := Except.exists_of_any hwrites
  have happly := applyPatches_eq 0xca
  have hfinish : (Engine.new schedule .unknown settings).finish (withBody (checked 0xca)) =
      .ok written :=
    Engine.finish_eq_ok.mpr ⟨1, refreshed 0xca, refresh_eq (.inr rfl), fun _ => verify_refreshed,
      hwritten⟩
  have hpatch (fingerprint : Option Bytes) : ∃ report,
      (Engine.new schedule .unknown settings).patch "C" fingerprint [patch 0xca] complete =
        .ok (.patched written report) := by
    refine ⟨_, Engine.patch_of_finish complete_spec.1 ?_ ?_⟩
    · rw [happly]
      exact Nat.one_ne_zero
    · rw [happly]
      exact hfinish
  obtain ⟨report, hreport⟩ := hpatch (schedule.fingerprint? "C")
  have hpatches : schedule.patchesOf "C" ≠ [] := List.cons_ne_nil (patch 0xca) []
  have hforgets : (Engine.new schedule .unknown settings).withoutMemory =
      Engine.new schedule .unknown settings := rfl
  have htransform := congrArg Prod.fst
    (@Engine.transform_withoutMemory (Engine.new schedule .unknown settings) "C" complete hpatches)
  dsimp only at htransform
  rw [hforgets, show (Engine.new schedule .unknown settings).patchFor "C" complete =
    .ok (.patched written report) from hreport] at htransform
  have hflaw : ∀ other ∈ schedule.patchesOf "C", other.flaw? = none := by
    intro other hother
    obtain rfl := List.mem_singleton.mp hother
    exact flaw?_patch 0xca
  obtain ⟨origin, turns, last, again, -, -, hagain, -⟩ :=
    hclaim schedule .unknown settings "C" complete written _ hflaw htransform
  rw [hagain] at hnone
  nomatch hnone

end Miscast

end ClassGraft

/-!
## Remembering changes no answer

Whatever an engine was called for before, and whatever it remembers of that, it answers as one that
remembers nothing (`Engine.Serves.transform_eq`).  So the answers to a row of calls are those that an
engine without memory gives to each of the calls alone (`Engine.answers_eq_map`), if none of the given
bytes share a digest.
-/

namespace ClassGraft

namespace Engine

variable {first engine : Engine} {name : String} {bytes : Bytes} {calls : List (String × Bytes)}

/-- The answers to calls, one after the other. -/
def answers : Engine → List (String × Bytes) → List (Except ClassFault Outcome)
  | _, [] => []
  | engine, (name, bytes) :: rest =>
    (engine.transform name bytes).1 :: (engine.transform name bytes).2.answers rest

/-- A class without patches is passed through, whatever is remembered. -/
theorem transform_of_patchesOf_eq_nil (h : engine.schedule.patchesOf name = []) :
    engine.transform name bytes = (.ok .passThrough, engine) := by
  unfold transform
  rw [h]
  rfl

/-- An engine answers as one without memory, unless it was called for other bytes of the class with
the same digest. -/
theorem Serves.transform_eq (h : first.Serves calls engine) (hf : first.IsFaithful [] first)
    (hd : ∀ input, (name, input) ∈ calls → Sha256.digest input = Sha256.digest bytes →
      input = bytes) :
    (engine.transform name bytes).1 = (first.withoutMemory.transform name bytes).1 := by
  have hfaithful := h.isFaithful hf
  have hschedule : engine.schedule = first.schedule := by rw [hfaithful.same]
  by_cases hempty : first.schedule.patchesOf name = []
  · have hplain : first.withoutMemory.schedule.patchesOf name = [] := hempty
    rw [transform_of_patchesOf_eq_nil (hschedule ▸ hempty), transform_of_patchesOf_eq_nil hplain]
  · rw [transform_withoutMemory hempty]
    have hanswers := engine.answers_transform name bytes
    generalize engine.transform name bytes = answer at hanswers
    cases hanswers with
    | passing hpass => exact absurd (hschedule ▸ hpass) hempty
    | @recalling cache fingerprint outcome hc hfound =>
      -- what is remembered was computed for bytes with the same digest, which are the same bytes
      obtain ⟨input, hin, hdigest, hpatch⟩ := hfaithful.cached cache hc _ _ hfound
      rw [← hd input hin hdigest.symm]
      exact hpatch.symm
    | computing => exact hfaithful.patchFor_eq
    | remembering hc hpatch => exact hpatch.symm.trans hfaithful.patchFor_eq

/-- The answers to further calls are those of an engine without memory to each call alone. -/
theorem Serves.answers_eq (h : first.Serves calls engine) (hf : first.IsFaithful [] first)
    (rest : List (String × Bytes))
    (hd : ∀ call ∈ calls ++ rest, ∀ other ∈ calls ++ rest,
      Sha256.digest call.2 = Sha256.digest other.2 → call.2 = other.2) :
    engine.answers rest =
      rest.map fun call => (first.withoutMemory.transform call.1 call.2).1 := by
  induction rest generalizing calls engine with
  | nil => rfl
  | cons call rest ih =>
    obtain ⟨name, bytes⟩ := call
    have hanswer : (engine.transform name bytes).1 =
        (first.withoutMemory.transform name bytes).1 :=
      h.transform_eq hf fun input hin hdigest =>
        hd (name, input) (List.mem_append_left _ hin) (name, bytes)
          (List.mem_append_right _ List.mem_cons_self) hdigest
    have hrest := ih (h.transform name bytes) (by rwa [List.append_cons] at hd)
    rw [answers, hanswer, hrest, List.map_cons]

end Engine

/-- The answers of an engine that remembers outcomes, to any calls one after the other, are the ones
that an engine which does not remember any gives to each call alone, if no two of the inputs share a
digest. -/
theorem Engine.answers_eq_map (schedule : Schedule) (hierarchy : Hierarchy) (settings : Settings)
    {calls : List (String × Bytes)}
    (hd : ∀ call ∈ calls, ∀ other ∈ calls, Sha256.digest call.2 = Sha256.digest other.2 →
      call.2 = other.2) :
    (Engine.new schedule hierarchy { settings with usesCache := true }).answers calls =
      calls.map fun call => ((Engine.new schedule hierarchy
        { settings with usesCache := false }).transform call.1 call.2).1 :=
  Engine.Serves.start.answers_eq (isFaithful_new schedule hierarchy _) calls hd

/-! ### A class that is loaded twice -/

namespace Exposing

/-- The class twice, a class without patches, and bytes that are no class twice. -/
def calls : List (String × Bytes) := [("A", bytes), ("A", bytes), ("B", bytes), ("A", []), ("A", [])]

/-- The engine answers the second call from memory, but does not remember that bytes are no class,
and answers as one without memory. -/
theorem answers_eq_map_twice :
    (∀ call ∈ calls, ∀ other ∈ calls, Sha256.digest call.2 = Sha256.digest other.2 →
      call.2 = other.2) ∧
    (Engine.new schedule .unknown ⟨true, true, false, []⟩).answers calls =
      calls.map fun call => ((Engine.new schedule .unknown
        ⟨false, true, false, []⟩).transform call.1 call.2).1 := by
  have hd : ∀ call ∈ calls, ∀ other ∈ calls, Sha256.digest call.2 = Sha256.digest other.2 →
      call.2 = other.2 := by
    decide +kernel
  exact ⟨hd, Engine.answers_eq_map schedule .unknown ⟨true, true, false, []⟩ hd⟩

end Exposing

end ClassGraft

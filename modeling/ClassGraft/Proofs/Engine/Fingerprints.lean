import ClassGraft.Proofs.Engine.Outcomes
import ClassGraft.Proofs.Engine.Scheduling
import ClassGraft.Proofs.Graft.Legibility
import ClassGraft.Proofs.Patch.Describing

/-!
# What a fingerprint tells apart

The fingerprint of the patches of a class is the digest of their description, and patches with
templates that were read are told apart by their descriptions, up to the sign of values that are no
number (`Patch.quiet_eq_of_description_eq`).  So registries that describe the patches of a class
alike make the same of it, and so do those with one fingerprint or one key of the cache, unless the
digest of two different texts or inputs is the same (`Registry.outcome_eq_of_description_eq`).  For
negative values that are no number it is not so: their lines lose the sign.
-/

namespace ClassGraft

/-- Whether two different inputs have one digest. -/
def Sha256.Collides (a b : Bytes) : Prop := a ≠ b ∧ digest a = digest b

/-- The description that the fingerprint of patches is the digest of. -/
def Patch.description (patches : List Patch) : String := (Json.array (patches.map Patch.json)).compact

/-- The key under which the outcome for a class is remembered. -/
def Schedule.cacheKey? (schedule : Schedule) (name : String) (bytes : Bytes) : Option CacheKey :=
  (schedule.fingerprint? name).map fun fingerprint => ⟨name, fingerprint, Sha256.digest bytes⟩

/-- What an engine that remembers nothing makes of a class. -/
def Schedule.outcome (schedule : Schedule) (hierarchy : Hierarchy) (settings : Settings)
    (name : String) (bytes : Bytes) : Except ClassFault Outcome :=
  ((Engine.new schedule hierarchy settings).transform name bytes).1

theorem Bytes.ofText_injective : Function.Injective Bytes.ofText := by
  intro a b h
  have hencoded : a.toList.utf8Encode = b.toList.utf8Encode := congrArg List.toByteArray h
  have hdecoded := congrArg ByteArray.utf8Decode? hencoded
  rw [List.utf8Decode?_utf8Encode, List.utf8Decode?_utf8Encode] at hdecoded
  exact String.toList_inj.mp (List.toArray_inj (Option.some.inj hdecoded))

namespace Patch

variable {first second : List Patch}

/-- Patches with templates that were read are told from others by their description, up to the sign
of values that are no number. -/
theorem quiet_eq_of_description_eq (hf : ∀ patch ∈ first, patch.IsRead)
    (hs : ∀ patch ∈ second, patch.IsRead) (h : description first = description second) :
    first.map quiet = second.map quiet :=
  map_eq_of_map_eq (fun a ha b hb => quiet_eq_of_json_eq (hf a ha) (hs b hb))
    (Json.array.inj (Json.compact_injective h))

theorem eq_of_description_eq (hf : ∀ patch ∈ first, patch.IsRead ∧ patch.loadsNegativeNaN = false)
    (hs : ∀ patch ∈ second, patch.IsRead ∧ patch.loadsNegativeNaN = false)
    (h : description first = description second) : first = second := by
  have hself {patches : List Patch}
      (hp : ∀ patch ∈ patches, patch.IsRead ∧ patch.loadsNegativeNaN = false) :
      patches.map quiet = patches :=
    (List.map_congr_left fun patch hin => quiet_eq_self (hp patch hin).1 (hp patch hin).2).trans
      (List.map_id' patches)
  rw [← hself hf, ← hself hs]
  exact quiet_eq_of_description_eq (fun patch hin => (hf patch hin).1)
    (fun patch hin => (hs patch hin).1) h

theorem description_eq_or_collides (h : fingerprintOf first = fingerprintOf second) :
    description first = description second ∨
      Sha256.Collides (Bytes.ofText (description first)) (Bytes.ofText (description second)) := by
  by_cases hsame : description first = description second
  · exact .inl hsame
  · exact .inr ⟨fun heq => hsame (Bytes.ofText_injective heq), h⟩

end Patch

namespace Schedule

variable {one other : Schedule} {name : String}

/-- An engine that remembers nothing computes the outcome. -/
theorem outcome_eq_patchFor (h : one.patchesOf name ≠ []) (hierarchy : Hierarchy)
    (settings : Settings) (bytes : Bytes) : one.outcome hierarchy settings name bytes =
      (Engine.new one hierarchy settings).patchFor name bytes := by
  unfold outcome
  rw [Engine.Serves.start.transform_eq (Engine.isFaithful_new one hierarchy settings)
    (fun _ hin => by cases hin),
    Engine.transform_withoutMemory h]

theorem outcome_eq_passThrough (h : one.patchesOf name = []) (hierarchy : Hierarchy)
    (settings : Settings) (bytes : Bytes) :
    one.outcome hierarchy settings name bytes = .ok .passThrough :=
  congrArg Prod.fst (Engine.transform_of_patchesOf_eq_nil h)

/-- What becomes of a class depends on nothing of a schedule but the patches of the class and their
fingerprint. -/
theorem outcome_eq (hp : one.patchesOf name = other.patchesOf name)
    (hf : one.fingerprint? name = other.fingerprint? name) (hierarchy : Hierarchy)
    (settings : Settings) (bytes : Bytes) :
    one.outcome hierarchy settings name bytes = other.outcome hierarchy settings name bytes := by
  by_cases hempty : one.patchesOf name = []
  · rw [outcome_eq_passThrough hempty, outcome_eq_passThrough (hp ▸ hempty)]
  · rw [outcome_eq_patchFor hempty, outcome_eq_patchFor (hp ▸ hempty)]
    unfold Engine.patchFor
    show Engine.patch _ _ (one.fingerprint? name) (one.patchesOf name) _ = _
    rw [hp, hf]
    rfl

end Schedule

namespace Registry

variable {one other : Registry} {name : String}

theorem mem_of_mem_patchesOf {registered : List Patch} {patch : Patch}
    (h : empty.registerAll registered = .ok one) (hp : patch ∈ one.patchesOf name) :
    patch ∈ registered := by
  have hpatches : one.patches = registered := patches_of_registerAll h
  exact hpatches ▸ List.mem_of_mem_filter ((one.perm_patchesOf name).mem_iff.mp hp)

/-- What becomes of a class depends on nothing of a registry but its patches. -/
theorem outcome_eq_of_patchesOf_eq (h : one.patchesOf name = other.patchesOf name)
    (hierarchy : Hierarchy) (settings : Settings) (bytes : Bytes) :
    one.schedule.outcome hierarchy settings name bytes =
      other.schedule.outcome hierarchy settings name bytes := by
  refine Schedule.outcome_eq ?_ ?_ hierarchy settings bytes
  · rw [patchesOf_schedule, patchesOf_schedule, h]
  · rw [fingerprint?_schedule, fingerprint?_schedule, h]

theorem description_eq_or_collides
    (h : one.schedule.fingerprint? name = other.schedule.fingerprint? name) :
    Patch.description (one.patchesOf name) = Patch.description (other.patchesOf name) ∨
      Sha256.Collides (Bytes.ofText (Patch.description (one.patchesOf name)))
        (Bytes.ofText (Patch.description (other.patchesOf name))) := by
  rw [fingerprint?_schedule, fingerprint?_schedule] at h
  split_ifs at h with hone hother hother
  · exact .inl (by rw [hone, hother])
  · exact Patch.description_eq_or_collides (Option.some.inj h)

theorem outcome_eq_passThrough (h : one.schedule.fingerprint? name = none) (hierarchy : Hierarchy)
    (settings : Settings) (bytes : Bytes) :
    one.schedule.outcome hierarchy settings name bytes = .ok .passThrough := by
  rw [fingerprint?_schedule] at h
  split_ifs at h with hempty
  exact Schedule.outcome_eq_passThrough ((one.patchesOf_schedule name).trans hempty) _ _ _

/-- Patches without flaws are registered. -/
theorem registerAll_eq {registry : Registry} {registered : List Patch}
    (h : ∀ patch ∈ registered, patch.flaw? = none) :
    registry.registerAll registered = .ok ⟨registry.patches ++ registered⟩ := by
  induction registered generalizing registry with
  | nil =>
    rw [List.append_nil]
    rfl
  | cons patch rest ih =>
    obtain ⟨hpatch, hrest⟩ := List.forall_mem_cons.mp h
    refine Except.bind_eq_ok.mpr ⟨⟨registry.patches ++ [patch]⟩, ?_, ?_⟩
    · unfold register
      rw [hpatch]
    · refine (ih hrest).trans ?_
      rw [List.append_assoc, List.singleton_append]

end Registry

/-- Two lists of patches that were registered, with templates that were read and load no negative
value that is no number, make the same of a class if their patches for it have one description.  If
they only have one fingerprint or one key of the cache, the same holds unless two different
descriptions or inputs have one digest. -/
theorem Registry.outcome_eq_or_collides {first second : List Patch} {one other : Registry}
    (hone : Registry.empty.registerAll first = .ok one)
    (hother : Registry.empty.registerAll second = .ok other)
    (hf : ∀ patch ∈ first, patch.IsRead ∧ patch.loadsNegativeNaN = false)
    (hs : ∀ patch ∈ second, patch.IsRead ∧ patch.loadsNegativeNaN = false) (name : String) :
    (Patch.description (one.patchesOf name) = Patch.description (other.patchesOf name) →
      ∀ hierarchy settings bytes, one.schedule.outcome hierarchy settings name bytes =
        other.schedule.outcome hierarchy settings name bytes) ∧
    (one.schedule.fingerprint? name = other.schedule.fingerprint? name →
      (∀ hierarchy settings bytes, one.schedule.outcome hierarchy settings name bytes =
        other.schedule.outcome hierarchy settings name bytes) ∨
      Sha256.Collides (Bytes.ofText (Patch.description (one.patchesOf name)))
        (Bytes.ofText (Patch.description (other.patchesOf name)))) ∧
    ∀ bytes input, one.schedule.cacheKey? name bytes = other.schedule.cacheKey? name input →
      (∀ hierarchy settings, one.schedule.outcome hierarchy settings name bytes =
        other.schedule.outcome hierarchy settings name input) ∨
      Sha256.Collides bytes input ∨
      Sha256.Collides (Bytes.ofText (Patch.description (one.patchesOf name)))
        (Bytes.ofText (Patch.description (other.patchesOf name))) := by
  have hsame (h : Patch.description (one.patchesOf name) = Patch.description (other.patchesOf name))
      (hierarchy settings bytes) : one.schedule.outcome hierarchy settings name bytes =
        other.schedule.outcome hierarchy settings name bytes :=
    outcome_eq_of_patchesOf_eq (Patch.eq_of_description_eq
      (fun patch hin => hf patch (mem_of_mem_patchesOf hone hin))
      (fun patch hin => hs patch (mem_of_mem_patchesOf hother hin)) h) hierarchy settings bytes
  refine ⟨hsame, fun h => (description_eq_or_collides h).imp_left hsame, fun bytes input h => ?_⟩
  unfold Schedule.cacheKey? at h
  cases hfingerprint : one.schedule.fingerprint? name with
  | none =>
    -- neither has patches for the class
    rw [hfingerprint] at h
    have hnone := Option.map_eq_none_iff.mp h.symm
    refine .inl fun hierarchy settings => ?_
    rw [outcome_eq_passThrough hfingerprint, outcome_eq_passThrough hnone]
  | some fingerprint =>
    rw [hfingerprint, Option.map_some] at h
    obtain ⟨digest, hdigest, hkey⟩ := Option.map_eq_some_iff.mp h.symm
    obtain ⟨-, rfl, hinput⟩ := CacheKey.mk.inj hkey
    by_cases heq : bytes = input
    · rcases description_eq_or_collides (hfingerprint.trans hdigest.symm) with hd | hd
      · exact .inl fun hierarchy settings => heq ▸ hsame hd hierarchy settings bytes
      · exact .inr (.inr hd)
    · exact .inr (.inl ⟨heq, hinput.symm⟩)

/-! ### Values that are no number -/

namespace Signed

open Dangling (classOf complete invoking returning completed complete_spec)

variable {bits : UInt32}

/-- Loads a float with the given bits. -/
def loading (bits : UInt32) : Template := [.constant (.float bits)]

/-- Has the float loaded when the method is entered. -/
def patch (id : String) (priority : Int32) (bits : UInt32) : Patch :=
  ⟨id, "C", some ⟨"n", "()V"⟩, priority, [.insertAt .methodEntry (loading bits)]⟩

theorem flaw?_patch (id : String) (priority : Int32) (bits : UInt32) :
    (patch id priority bits).flaw? = none := by
  have hclass : ("C".isEmpty || "C".contains '.') = false := by simp
  have hmethod : isMethodDescriptor "()V" = true := rfl
  unfold Patch.flaw?
  rw [show (patch id priority bits).className = "C" from rfl, hclass]
  simp [patch, loading, Patch.flawOf?, Edit.needsMethod, Edit.flaw?, Option.filter, hmethod]

/-- Both values that are no number can be spelled. -/
theorem isRead_patch (id : String) (priority : Int32)
    (h : bits = 0x7FC00000 ∨ bits = 0xFFC00000) : (patch id priority bits).IsRead := by
  intro edit hedit code hcode
  obtain rfl := List.mem_singleton.mp hedit
  obtain rfl := Option.some.inj hcode
  rcases h with rfl | rfl
  · exact ⟨"ldc NaNf", by decide +kernel⟩
  · exact ⟨"ldc -NaNf", by decide +kernel⟩

def first : List Patch := [patch "late" 1 0x7FC00000, patch "early" 0 0x7FC00000]

/-- The same patches, registered in another order. -/
def second : List Patch := [patch "early" 0 0x7FC00000, patch "late" 1 0x7FC00000]

theorem patchesOf_first : (Registry.mk first).patchesOf "C" = second := by cbv

theorem patchesOf_second : (Registry.mk second).patchesOf "C" = second := by cbv

/-- The order of registration does not show in the outcomes. -/
theorem outcome_eq_or_collides_reordered : ∃ one other,
    Registry.empty.registerAll first = .ok one ∧ Registry.empty.registerAll second = .ok other ∧
    (∀ patch ∈ first, patch.IsRead ∧ patch.loadsNegativeNaN = false) ∧
    (∀ patch ∈ second, patch.IsRead ∧ patch.loadsNegativeNaN = false) ∧
    Patch.description (one.patchesOf "C") = Patch.description (other.patchesOf "C") ∧
    ∀ hierarchy settings bytes, one.schedule.outcome hierarchy settings "C" bytes =
      other.schedule.outcome hierarchy settings "C" bytes := by
  have hpatch (id : String) (priority : Int32) : (patch id priority 0x7FC00000).flaw? = none ∧
      (patch id priority 0x7FC00000).IsRead ∧
      (patch id priority 0x7FC00000).loadsNegativeNaN = false :=
    ⟨flaw?_patch id priority _, isRead_patch id priority (.inl rfl), rfl⟩
  have hfirst : ∀ patch ∈ first, patch.flaw? = none ∧ patch.IsRead ∧
      patch.loadsNegativeNaN = false := by
    intro found hfound
    rcases List.mem_pair.mp hfound with rfl | rfl
    · exact hpatch "late" 1
    · exact hpatch "early" 0
  have hsecond : ∀ patch ∈ second, patch.flaw? = none ∧ patch.IsRead ∧
      patch.loadsNegativeNaN = false := fun found hfound =>
    hfirst found (List.mem_pair.mpr (List.mem_pair.mp hfound).symm)
  have hone : Registry.empty.registerAll first = .ok ⟨first⟩ :=
    Registry.registerAll_eq fun patch hin => (hfirst patch hin).1
  have hother : Registry.empty.registerAll second = .ok ⟨second⟩ :=
    Registry.registerAll_eq fun patch hin => (hsecond patch hin).1
  have hdescription : Patch.description ((Registry.mk first).patchesOf "C") =
      Patch.description ((Registry.mk second).patchesOf "C") := by
    rw [patchesOf_first, patchesOf_second]
  exact ⟨_, _, hone, hother, fun patch hin => (hfirst patch hin).2,
    fun patch hin => (hsecond patch hin).2, hdescription,
    (Registry.outcome_eq_or_collides hone hother (fun patch hin => (hfirst patch hin).2)
      (fun patch hin => (hsecond patch hin).2) "C").1 hdescription⟩

/-- The line does not show the sign. -/
theorem json_loading_eq : (loading 0x7FC00000).json = (loading 0xFFC00000).json := by
  have htext : Decimal.single 0x7FC00000 = Decimal.single 0xFFC00000 := by decide +kernel
  exact congrArg (fun text => Json.array [.string ("ldc " ++ (text ++ "f"))]) htext

theorem json_patch_eq (id : String) (priority : Int32) :
    (patch id priority 0x7FC00000).json = (patch id priority 0xFFC00000).json := by
  simp only [patch, Patch.json, List.map_cons, List.map_nil, Edit.json, Edit.entries,
    json_loading_eq]

/-! #### A class that the load is put into -/

theorem size_add_lt (bits : UInt32) :
    (classOf complete).pool.slots.size + (Pool.Entry.float bits).width < 65535 := by
  rw [← Array.length_toList, complete_spec.2.1]
  show 11 + 1 < 65535
  decide

/-- The constants with the float. -/
def pool (bits : UInt32) : Pool :=
  (classOf complete).pool.push (.float bits) (size_add_lt bits)

theorem toList_slots (bits : UInt32) :
    (pool bits).slots.toList = completed ++ [some (.float bits)] := by
  rw [← complete_spec.2.1]
  exact Array.toList_appendList

theorem get_pool (bits : UInt32) (index : UInt16) : (pool bits).get index =
    if index = 0 then none else ((completed ++ [some (.float bits)])[index.toNat - 1]?).join := by
  unfold Pool.get
  rw [← Array.getElem?_toList, toList_slots]

theorem steps_eq (bits : UInt32) : Template.steps (loading bits) ⟨1, (classOf complete).pool⟩ =
    (.ok [⟨⟨1⟩, .constant 12⟩], ⟨2, pool bits⟩) := by
  have hnone : (classOf complete).pool.slots.toList.findIdx?
      (· == some (.float bits)) = none := by
    rw [complete_spec.2.1]
    rfl
  have hadd : Interning.entry (.float bits) (classOf complete).pool = (.ok 12, pool bits) := by
    have hsize : (classOf complete).pool.slots.size = 11 := by
      rw [← Array.length_toList, complete_spec.2.1]
      rfl
    refine (Pool.add_of_findIdx?_eq_none hnone (size_add_lt bits)).trans ?_
    rw [hsize]
    rfl
  have hline : Template.instruction ∅ (.constant (.float bits)) ⟨2, (classOf complete).pool⟩ =
      (.ok (some (.constant 12), ∅), ⟨2, pool bits⟩) :=
    ExceptT.bind_eq_ok.mpr ⟨12, _, Supplied.intern_eq_ok.mpr ⟨_, hadd, rfl⟩, rfl⟩
  have hfrom : Template.stepsFrom 1 ∅ [] (loading bits) ⟨2, (classOf complete).pool⟩ =
      (.ok [⟨⟨1⟩, .constant 12⟩], ⟨2, pool bits⟩) :=
    ExceptT.bind_eq_ok.mpr ⟨_, _, hline, rfl⟩
  exact hfrom

/-- The body with the load. -/
def loaded : Body := { returning with
  steps := ⟨⟨1⟩, .constant 12⟩ :: returning.steps
  nextMark := 2
  encoded := none
  modified := true }

/-- The class with the float and another body of `n`. -/
def withBody (bits : UInt32) (body : Body) : ClassFile :=
  { classOf complete with
    pool := pool bits
    methods := [invoking, ⟨8, 4, 5, [.code body]⟩] }

theorem applyPatches_eq (id : String) (priority : Int32) (bits : UInt32) :
    (classOf complete).applyPatches [patch id priority bits] = (withBody bits loaded,
      [⟨some id, .applied (.inserted (.insertAt .methodEntry (loading bits)) ⟨"n", "()V"⟩ 1)⟩]) := by
  obtain ⟨-, -, hmethods, hn, -⟩ := complete_spec
  have hbody : (Graft.start (classOf complete)).body? 1 = some returning := by
    show ((classOf complete).methods[1]?).bind Method.body? = _
    rw [hmethods]
    rfl
  have happly : (Graft.start (classOf complete)).applyPatch (patch id priority bits) = _ :=
    Graft.applyPatch_of_site rfl rfl hn (Graft.history_start (classOf complete) 1) rfl hbody
      (show returning.sites (classOf complete).pool .methodEntry = [⟨0⟩] from rfl) (steps_eq bits)
      (show Grafting.insertSteps .methodEntry ⟨0⟩ [⟨⟨1⟩, .constant 12⟩]
        { returning with nextMark := 2 } .untouched = (loaded, ⟨none, [], some ⟨1⟩, ∅⟩) from rfl)
  unfold ClassFile.applyPatches Graft.applyPatches
  rw [happly]
  refine Prod.ext ?_ rfl
  show ClassFile.setBody { classOf complete with pool := pool bits } 1 loaded = _
  unfold ClassFile.setBody ClassFile.modifyMethod
  dsimp only
  rw [hmethods]
  rfl

def heading : MethodHead := ⟨Bytes.ofAscii "C", Bytes.ofAscii "n", Bytes.ofAscii "()V", true⟩

/-- The frames of the body. -/
def frames : Array (Option Frame) := #[some ⟨[], []⟩, some ⟨[], [.float]⟩]

theorem analyze_eq (bits : UInt32) :
    loaded.analyze heading (pool bits) .unknown = .ok ⟨frames, 1, 0⟩ := by
  let course : Course := loaded.plainCourse heading (pool bits) .unknown
  have hd := loaded.declared_plainCourse heading (pool bits) .unknown
  have hload : course.scene.execute ⟨⟨1⟩, .constant 12⟩ ⟨[], []⟩ = .ok ⟨[], [.float]⟩ := by
    have htype : (pool bits).constantType 12 = .ok .float := by
      unfold Pool.constantType
      rw [get_pool]
      rfl
    exact Except.bind_eq_ok.mpr ⟨_, htype, rfl⟩
  have hreturn : course.scene.execute ⟨⟨0⟩, .plain Opcode.returnVoid⟩ ⟨[], [.float]⟩ =
      .ok ⟨[], [.float]⟩ := Scene.execute_plain rfl Opcode.effect?_returnVoid
  have hsend : (Flow.start 2).send course 0 0 ⟨[], []⟩ =
      .ok ⟨#[some ⟨[], []⟩, none], [0], #[true, false], 0⟩ := Flow.send_of_unreached (hd 0) rfl
  have load : Flow.visit course 0 ⟨⟨1⟩, .constant 12⟩ ⟨[], []⟩
      ⟨#[some ⟨[], []⟩, none], [], #[false, false], 0⟩ =
        .ok ⟨frames, [1], #[false, true], 1⟩ :=
    Flow.visit_eq_ok.mpr ⟨_, _, _, hload, rfl, rfl, show 0 + 1 ≠ 2 by decide,
      Flow.send_of_unreached (hd 1) rfl⟩
  have finish : Flow.visit course 1 ⟨⟨0⟩, .plain Opcode.returnVoid⟩ ⟨[], [.float]⟩
      ⟨frames, [], #[false, false], 1⟩ = .ok ⟨frames, [], #[false, false], 1⟩ :=
    Flow.visit_eq_ok.mpr ⟨_, _, _, hreturn, rfl, rfl, rfl⟩
  have hsettle : ∀ fuel, Flow.settle course (fuel + 2)
      ⟨#[some ⟨[], []⟩, none], [0], #[true, false], 0⟩ =
        .ok ⟨frames, [], #[false, false], 1⟩ := by
    intro fuel
    refine (Flow.settle_of_visit load rfl rfl (by rfl)).trans ?_
    refine (Flow.settle_of_visit finish rfl rfl (by rfl)).trans ?_
    exact Flow.settle_of_nil frames #[false, false] 1 fuel
  exact Body.analyze_of_settle rfl rfl (by simp [loaded]) rfl hsend hsettle
    (Flow.le_budget (Nat.le_succ 2)) (by simp) (show 0 ≤ 65535 by decide)

/-- The body as it is encoded. -/
def encoded : Bytes := [0, 1, 0, 0, 0, 0, 0, 3, 0x12, 12, 0xb1, 0, 0, 0, 0]

/-- The body with the size of its stack. -/
def sized : Body := { loaded with maxStack := 1 }

/-- The class with the load, after it was refreshed. -/
def refreshed (bits : UInt32) : ClassFile := withBody bits { sized with encoded := some encoded }

theorem live_eq : loaded.live ⟨frames, 1, 0⟩ = sized :=
  Body.live_of_not_hasDeadCode (by simp [Analysis.hasDeadCode, frames]) loaded

theorem exists_layout (h : bits = 0x7FC00000 ∨ bits = 0xFFC00000) :
    ∃ layout, Layout.ofSteps (pool bits) sized.steps = .ok layout ∧ layout.landings = [] ∧
      sized.bytes layout none = .ok encoded := by
  have hparts : ((Layout.ofSteps (pool bits) sized.steps).toOption.any fun layout =>
      layout.landings == [] && decide (sized.bytes layout none = .ok encoded)) = true := by
    rcases h with rfl | rfl <;> decide +kernel
  obtain ⟨layout, hlayout, hboth⟩ := Except.exists_of_any hparts
  simp only [Bool.and_eq_true, beq_iff_eq, decide_eq_true_eq] at hboth
  exact ⟨layout, hlayout, hboth⟩

theorem refreshBody_eq (h : bits = 0x7FC00000 ∨ bits = 0xFFC00000) :
    ClassFile.refreshBody 1 heading .unknown loaded (withBody bits loaded) =
      (.ok (), refreshed bits) := by
  obtain ⟨layout, hlayout, hlandings, hbytes⟩ := exists_layout h
  have hneeded : sized.needsFrame layout.landings = [] := by
    rw [hlandings]
    decide +kernel
  rw [← live_eq] at hlayout hneeded hbytes
  have hrefresh : ClassFile.refreshBody 1 heading .unknown loaded (withBody bits loaded) = _ :=
    ClassFile.refreshBody_of_needsFrame_nil (analyze_eq bits) hlayout rfl hneeded hbytes
  rw [hrefresh, live_eq]
  rfl

theorem refresh_eq (h : bits = 0x7FC00000 ∨ bits = 0xFFC00000) :
    ClassFile.refresh .unknown (withBody bits loaded) = (.ok 1, refreshed bits) :=
  Dangling.refresh_of_refreshBody (Pool.grows_push (size_add_lt bits)) rfl
    complete_spec.2.2.2.2.2 rfl (refreshBody_eq h)

/-- The engine that only patches, and does not fall back. -/
def settings : Settings := ⟨false, false, false, []⟩

/-- What becomes of the class shows the bits of the float. -/
theorem patch_eq (schedule : Schedule) (fingerprint : Option Bytes) (id : String)
    (priority : Int32) (h : bits = 0x7FC00000 ∨ bits = 0xFFC00000) : ∃ written report,
      (Engine.new schedule .unknown settings).patch "C" fingerprint [patch id priority bits]
        complete = .ok (.patched written report) ∧
      (refreshed bits).serialize = .ok written := by
  have hwrites : (refreshed bits).serialize.toOption.any (fun _ => true) = true := by
    rcases h with rfl | rfl <;> decide +kernel
  obtain ⟨written, hwritten, -⟩ := Except.exists_of_any hwrites
  have hfinish : (Engine.new schedule .unknown settings).finish (withBody bits loaded) =
      .ok written := by
    refine Engine.finish_eq_ok.mpr ⟨1, refreshed bits, refresh_eq h, fun hverifies => ?_, hwritten⟩
    cases hverifies
  have happly := applyPatches_eq id priority bits
  refine ⟨written, _, Engine.patch_of_finish complete_spec.1 ?_ ?_, hwritten⟩
  · rw [happly]
    exact Nat.one_ne_zero
  · rw [happly]
    exact hfinish

/-- With the sign bit the value is described as without, but written otherwise. -/
theorem not_outcome_eq_of_description_eq :
    ¬∀ (first second : List Patch) (one other : Registry) (name : String),
      Registry.empty.registerAll first = .ok one → Registry.empty.registerAll second = .ok other →
      (∀ patch ∈ first, patch.IsRead) → (∀ patch ∈ second, patch.IsRead) →
      Patch.description (one.patchesOf name) = Patch.description (other.patchesOf name) →
      ∀ hierarchy settings bytes, one.schedule.outcome hierarchy settings name bytes =
        other.schedule.outcome hierarchy settings name bytes := by
  intro hclaim
  have hregistered (bits : UInt32) :
      Registry.empty.registerAll [patch "a" 0 bits] = .ok ⟨[patch "a" 0 bits]⟩ :=
    Registry.registerAll_eq (List.forall_mem_singleton.mpr (flaw?_patch "a" 0 bits))
  have hread {bits : UInt32} (h : bits = 0x7FC00000 ∨ bits = 0xFFC00000) :
      ∀ found ∈ [patch "a" 0 bits], found.IsRead :=
    List.forall_mem_singleton.mpr (isRead_patch "a" 0 h)
  have hpatches (bits : UInt32) :
      (Registry.mk [patch "a" 0 bits]).patchesOf "C" = [patch "a" 0 bits] := by
    simp [Registry.patchesOf, patch]
  have houtcome {bits : UInt32} (h : bits = 0x7FC00000 ∨ bits = 0xFFC00000) :
      ∃ written report, (Registry.mk [patch "a" 0 bits]).schedule.outcome .unknown settings "C"
        complete = .ok (.patched written report) ∧ (refreshed bits).serialize = .ok written := by
    have hscheduled := (Registry.patchesOf_schedule _ "C").trans (hpatches bits)
    rw [Schedule.outcome_eq_patchFor (by rw [hscheduled]; exact List.cons_ne_nil _ _)]
    unfold Engine.patchFor
    show ∃ written report, Engine.patch _ "C" _
      ((Registry.mk [patch "a" 0 bits]).schedule.patchesOf "C") complete = _ ∧ _
    rw [hscheduled]
    exact patch_eq _ _ "a" 0 h
  have hdescription : Patch.description ((Registry.mk [patch "a" 0 0x7FC00000]).patchesOf "C") =
      Patch.description ((Registry.mk [patch "a" 0 0xFFC00000]).patchesOf "C") := by
    rw [hpatches, hpatches, Patch.description, Patch.description, List.map_singleton,
      List.map_singleton, json_patch_eq]
  obtain ⟨positive, report, hpositive, hwritten⟩ := houtcome (.inl rfl)
  obtain ⟨negative, report', hnegative, hwritten'⟩ := houtcome (.inr rfl)
  have hsame := hclaim _ _ _ _ "C" (hregistered 0x7FC00000) (hregistered 0xFFC00000)
    (hread (.inl rfl)) (hread (.inr rfl)) hdescription .unknown settings complete
  rw [hpositive, hnegative] at hsame
  obtain ⟨rfl, -⟩ := Outcome.patched.inj (Except.ok.inj hsame)
  have hdiffer : (refreshed 0x7FC00000).serialize.toOption ≠
      (refreshed 0xFFC00000).serialize.toOption := by decide +kernel
  exact hdiffer (by rw [hwritten, hwritten'])

end Signed

end ClassGraft

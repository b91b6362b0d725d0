import ClassGraft.Proofs.Class.Reanalysis
import ClassGraft.Proofs.Frame.Extents
import Mathlib.Algebra.BigOperators.Group.Finset.Basic
import Mathlib.Algebra.Order.BigOperators.Group.Finset

/-!
# The work list comes to an end

A frame that is held becomes lighter whenever it changes, and an instruction becomes pending again
only then.  What is left is the weight of all frames that are held, together with the number of
pending instructions (`Flow.effort`); no frame that arrives raises it (`Flow.descends_arrive`), and
every turn of the work list lowers it (`Flow.Turn.effort_lt`).

`Flow.budget` is computed from the longest name that types can come from.  No frame that a method
starts with, declares or catches an exception with has longer names (`Course.IsBounded`), so that
the ranks of all types fit into the budget (`Flow.lt_budget`).  So whatever the code and the known
classes are, also if these form circles or have array types above them, every run ends within the
budget, and no analysis is given up (`Body.analyze_ends`).
-/

namespace ClassGraft

open Descriptor

/-! ### The longest name -/

/-- The length of the name of a type of objects. -/
def FrameType.nameLength : FrameType → Nat
  | object name => name.length
  | _ => 0

theorem FrameType.typeLength_eq : (fun (longest : Nat) (type : FrameType) =>
    match type with
    | .object name => max longest name.length
    | _ => longest) = fun longest type => max longest type.nameLength := by
  funext longest type
  cases type with
  | object name => rfl
  | _ => exact (Nat.max_zero longest).symm

namespace Flow

/-- The length of the longest text of the pool, and of those that a method is known by. -/
def longestOfPool (scene : Scene) : Nat :=
  scene.pool.slots.foldl (fun longest slot =>
    match slot with
    | some (.utf8 bytes) => max longest bytes.length
    | _ => longest) (max scene.head.thisClass.length scene.head.descriptor.length)

/-- The length of the longest name in frames, if it is more than a given one. -/
def longestOfFrames (declared : List Frame) (longest : Nat) : Nat :=
  let typeLength (longest : Nat) (type : FrameType) : Nat :=
    match type with
    | .object name => max longest name.length
    | _ => longest
  declared.foldl (fun longest frame =>
    frame.stack.foldl typeLength (frame.locals.foldl typeLength longest)) longest

/-- The length of the longest name that a hierarchy knows. -/
def longestOfHierarchy : Hierarchy → Nat
  | .unknown => 0
  | .classPath path => path.foldl (fun longest entry =>
      max (max longest entry.name.length) ((entry.super.map List.length).getD 0)) 0

/-- The length of the longest name that types can come from. -/
def longest (scene : Scene) (declared : List Frame) : Nat :=
  max (max (longestOfFrames declared (longestOfPool scene)) (longestOfHierarchy scene.hierarchy))
    throwableName.length

theorem budget_eq (scene : Scene) (declared : List Frame) (slots : Nat) :
    budget scene declared slots = scene.steps.size * (1 + (2 * scene.steps.size + slots) *
      (((longest scene declared + 8) * (scene.hierarchy.size + 2) + 1) *
        (scene.hierarchy.size + 2 + 1))) + 1 := by
  unfold budget longest longestOfFrames longestOfPool longestOfHierarchy
  cases scene.hierarchy <;> rfl

theorem longestOfPool_le {scene : Scene} {limit : Nat} : longestOfPool scene ≤ limit ↔
    (scene.head.thisClass.length ≤ limit ∧ scene.head.descriptor.length ≤ limit) ∧
      ∀ slot ∈ scene.pool.slots.toList, textLength slot ≤ limit := by
  have hfold : longestOfPool scene =
      scene.pool.slots.foldl (fun longest slot => max longest (textLength slot))
        (max scene.head.thisClass.length scene.head.descriptor.length) :=
    congrArg (fun step => scene.pool.slots.foldl step _) longest_eq
  rw [hfold, ← Array.foldl_toList, foldl_max_le, max_le_iff]

theorem longestOfFrames_le {declared : List Frame} {first limit : Nat} :
    longestOfFrames declared first ≤ limit ↔ first ≤ limit ∧
      ∀ frame ∈ declared, frame.Holds fun type => type.nameLength ≤ limit := by
  unfold longestOfFrames
  simp only [FrameType.typeLength_eq]
  induction declared generalizing first with
  | nil => simp
  | cons frame rest ih =>
    rw [List.foldl_cons, ih, foldl_max_le, foldl_max_le, List.forall_mem_cons]
    constructor
    · rintro ⟨⟨⟨hfirst, hlocals⟩, hstack⟩, hrest⟩
      exact ⟨hfirst, ⟨hlocals, hstack⟩, hrest⟩
    · rintro ⟨hfirst, ⟨hlocals, hstack⟩, hrest⟩
      exact ⟨⟨⟨hfirst, hlocals⟩, hstack⟩, hrest⟩

theorem length_super_le {path : ClassPath} {entry : ClassEntry} (h : entry ∈ path) {name : Bytes}
    (hs : entry.super = some name) : name.length ≤ longestOfHierarchy (.classPath path) := by
  have hfold : path.foldl (fun longest entry =>
      max longest (max entry.name.length ((entry.super.map List.length).getD 0))) 0 ≤
        longestOfHierarchy (.classPath path) := by
    simp only [longestOfHierarchy, Nat.max_assoc, le_refl]
  have hle := (foldl_max_le.mp hfold).2 entry h
  rw [hs] at hle
  exact (le_max_right _ _).trans hle

end Flow

/-! ### The frames that a course starts with -/

/-- Whether the frames that do not come from others are no larger than frames may be: the first one,
those of handlers and those that are declared. -/
structure Course.IsBounded (course : Course) (entry : Frame) (limit slots : Nat) : Prop where
  brief : course.scene.IsBrief limit
  named : 65537 ≤ slots
  entry : entry.Within course.scene.hierarchy limit slots 0
  caught : ∀ range ∈ course.handlers,
    (FrameType.object range.caught).Spans course.scene.hierarchy limit
  declared : ∀ (index : Nat) declared, course.declared[index]? = some declared →
    declared.Within course.scene.hierarchy limit slots declared.stack.length

/-- The values of a table are those that it finds. -/
theorem mem_values {α β : Type} [BEq α] [LawfulBEq α] [Hashable α] {table : Std.HashMap α β}
    {value : β} : value ∈ table.values ↔ ∃ key : α, table[key]? = some value := by
  have hvalues : table.values = table.toList.map Prod.snd := by
    show table.inner.inner.values = (Std.DHashMap.Raw.Const.toList table.inner.inner).map Prod.snd
    rw [Std.DHashMap.Internal.Raw.values_eq_values_toListModel,
      Std.DHashMap.Internal.Raw.Const.toList_eq_toListModel_map,
      Std.Internal.List.values_eq_map, List.map_map]
    rfl
  rw [hvalues, List.mem_map]
  constructor
  · rintro ⟨⟨key, other⟩, hmem, rfl⟩
    exact ⟨key, Std.HashMap.mem_toList_iff_getElem?_eq_some.mp hmem⟩
  · rintro ⟨key, hkey⟩
    exact ⟨(key, value), Std.HashMap.mem_toList_iff_getElem?_eq_some.mpr hkey, rfl⟩

theorem Pool.mem_slots_of_utf8 {pool : Pool} {index : UInt16} {bytes : Bytes}
    (h : pool.utf8 index = some bytes) : some (.utf8 bytes) ∈ pool.slots.toList := by
  unfold Pool.utf8 at h
  split at h
  · rename_i found hget
    obtain rfl := Option.some.inj h
    unfold Pool.get at hget
    split_ifs at hget
    exact Array.mem_toList_iff.mpr (Array.mem_of_getElem? (Option.join_eq_some_iff.mp hget))
  · simp at h

theorem Scene.isBrief_longest (scene : Scene) (declared : List Frame) :
    scene.IsBrief (Flow.longest scene declared + 1) := by
  have hpool := (Flow.longestOfFrames_le.mp
    ((le_max_left _ _).trans (le_max_left _ throwableName.length) :
      Flow.longestOfFrames declared _ ≤ Flow.longest scene declared)).1
  obtain ⟨⟨hthis, -⟩, htexts⟩ := Flow.longestOfPool_le.mp hpool
  exact ⟨Nat.lt_succ_of_le hthis, fun index bytes h =>
    Nat.lt_succ_of_le (htexts _ (Pool.mem_slots_of_utf8 h))⟩

/-- The first frame has no longer names than the method is known by. -/
theorem MethodHead.within_entryFrame {head : MethodHead} {entry : Frame} {hierarchy : Hierarchy}
    {limit : Nat} (ht : head.thisClass.length ≤ limit) (hd : head.descriptor.length ≤ limit)
    (h : head.entryFrame = .ok entry) :
    entry.Within hierarchy limit entry.locals.length 0 := by
  refine ⟨⟨fun type hin => ?_, fun type hin => ?_⟩, le_refl _,
    (congrArg List.length (stack_entryFrame h)).le⟩
  · unfold entryFrame at h
    split at h
    · simp at h
    · rename_i method hmethod
      obtain rfl := Except.ok.inj h
      -- the arguments have names from the descriptor, which is at least as long
      have harguments : ∀ type ∈ FrameType.expand (method.arguments.map FrameType.ofValue),
          type.Spans hierarchy limit := by
        intro type hin
        rcases FrameType.mem_expand hin with hin | rfl
        · obtain ⟨value, hvalue, rfl⟩ := List.mem_map.mp hin
          exact FrameType.spans_ofValue fun name hname =>
            ((length_of_method? hmethod).1 name (hname ▸ hvalue)).trans hd
        · exact FrameType.spans_of_ne nofun
      dsimp only at hin
      split_ifs at hin
      · exact harguments type hin
      · rcases List.mem_cons.mp hin with rfl | hin
        · -- only the receiver has a name that is not from there
          unfold receiver
          split_ifs
          · exact FrameType.spans_of_ne nofun
          · exact FrameType.spans_of_length ht
        · exact harguments type hin
  · rw [stack_entryFrame h] at hin
    simp at hin

theorem Flow.le_slotLimit {entry : Frame} {declared : List Frame} :
    entry.locals.length ≤ slotLimit entry declared ∧ 65537 ≤ slotLimit entry declared ∧
      ∀ frame ∈ declared, frame.locals.length ≤ slotLimit entry declared := by
  obtain ⟨hfirst, hdeclared⟩ := foldl_max_le.mp (le_refl (slotLimit entry declared))
  exact ⟨(le_max_left _ _).trans hfirst, (le_max_right _ _).trans hfirst, hdeclared⟩

/-- What a body is analyzed along starts with frames that the budget allows for. -/
theorem Body.HasCourse.isBounded {body : Body} {head : MethodHead} {pool : Pool}
    {hierarchy : Hierarchy} {entry : Frame} {course : Course}
    (h : body.HasCourse head pool hierarchy entry course) :
    course.IsBounded entry (Flow.longest course.scene course.declared.values + 1)
      (Flow.slotLimit entry course.declared.values) := by
  have hbrief := course.scene.isBrief_longest course.declared.values
  -- the longest name is measured over the pool first, and then over the declared frames
  obtain ⟨hpool, hframes⟩ := Flow.longestOfFrames_le.mp
    ((le_max_left _ _).trans (le_max_left _ throwableName.length) :
      Flow.longestOfFrames course.declared.values _ ≤
        Flow.longest course.scene course.declared.values)
  have hdescriptor := (Flow.longestOfPool_le.mp hpool).1.2
  obtain ⟨hentry, hslots, hlocals⟩ := @Flow.le_slotLimit entry course.declared.values
  have hhead : course.scene.head = head := by rw [h.scene]
  have hwithin := @MethodHead.within_entryFrame head entry course.scene.hierarchy
    (Flow.longest course.scene course.declared.values + 1) (hhead ▸ hbrief.thisClass.le)
    (hhead ▸ hdescriptor.trans (Nat.le_succ _)) h.starts
  refine ⟨hbrief, hslots, ⟨hwithin.types, hentry, hwithin.words⟩, fun range hr => ?_,
    fun index declared hd => ?_⟩
  · obtain ⟨handler, -, hrange⟩ := Body.exists_of_mem_handlerRanges h.handlers hr
    have hcaught := hrange.caught
    split_ifs at hcaught
    · rw [hcaught]
      exact FrameType.spans_of_flat (by decide)
    · exact FrameType.spans_of_length (hbrief.className hcaught).le
  · -- a declared frame has names of its own, which were measured too
    have hin := mem_values.mpr ⟨_, hd⟩
    have hnames : ∀ type : FrameType,
        type.nameLength ≤ Flow.longest course.scene course.declared.values →
        type.Spans course.scene.hierarchy
          (Flow.longest course.scene course.declared.values + 1) := by
      intro type hlength
      cases type with
      | object name => exact FrameType.spans_of_length (hlength.trans (Nat.le_succ _))
      | _ => exact FrameType.spans_of_ne nofun
    have hheld := hframes declared hin
    exact ⟨⟨fun type ht => hnames type (hheld.locals type ht),
      fun type ht => hnames type (hheld.stack type ht)⟩, hlocals declared hin, le_refl _⟩

/-! ### The ranks that it allows for -/

namespace Flow

/-- The dimensions that types can have, as far as they arise from names of no more than the longest
one. -/
def mostDimensions (scene : Scene) (declared : List Frame) : Nat :=
  longest scene declared + 1 + (scene.hierarchy.size + 1) * longest scene declared

theorem dimensions_upper_le {scene : Scene} (declared : List Frame) {path : ClassPath}
    (hh : scene.hierarchy = .classPath path) {upper : Bytes} (h : upper ∈ path.uppers) :
    dimensions upper ≤ longest scene declared := by
  obtain ⟨entry, hentry, rfl⟩ := List.mem_map.mp (List.mem_toFinset.mp h)
  cases hs : entry.super with
  | none =>
    rw [Option.getD_none, dimensions_objectName]
    exact Nat.zero_le _
  | some name =>
    have hlength := length_super_le hentry hs
    rw [← hh] at hlength
    exact (dimensions_le_length name).trans (hlength.trans
      ((le_max_right _ _).trans (le_max_left _ throwableName.length)))

/-- Types that arise from names of no more than the longest one have few enough dimensions. -/
theorem spares_of_spans {scene : Scene} (hu : scene.hierarchy.IsUnique) (declared : List Frame)
    {type : FrameType} (h : type.Spans scene.hierarchy (longest scene declared + 1)) :
    type.Spares (mostDimensions scene declared) := by
  intro name hname
  exact Hierarchy.dimensions_le_of_spans hu
    (fun path hh upper => dimensions_upper_le declared hh) (h name hname)

/-- The budget has a turn for every way in which a frame can become lighter. -/
theorem lt_budget (scene : Scene) (declared : List Frame) (slots : Nat) :
    scene.steps.size * (1 + (2 * scene.steps.size + slots) *
      scene.hierarchy.highest (mostDimensions scene declared)) < budget scene declared slots := by
  rw [budget_eq, Nat.lt_succ_iff, Hierarchy.highest, mostDimensions]
  gcongr
  generalize longest scene declared = length
  generalize scene.hierarchy.size = size
  nlinarith only [Nat.zero_le (length * size), Nat.zero_le size, Nat.zero_le length,
    Nat.zero_le (size * size)]

end Flow

namespace Flow

variable {course : Course} {flow flow' : Flow} {entry : Frame} {limit slots : Nat}

/-! ### A visit is a row of frames that arrive -/

/-- The flows that arise from one as frames arrive. -/
inductive Receives (course : Course) (S : Nat → Frame → Prop) (first : Flow) : Flow → Prop
  | refl : Receives course S first first
  | withHeight {flow : Flow} (h : Receives course S first flow) (height : Nat) :
      Receives course S first { flow with height := height }
  | arrive {flow flow' : Flow} {target : Nat} {sent : Frame} (h : Receives course S first flow)
      (hs : S target sent) (ha : flow.arrive course target sent = .ok flow') :
      Receives course S first flow'

section Receives

variable {S : Nat → Frame → Prop} {first : Flow}

theorem Receives.send (h : Receives course S first flow) {origin target : Nat} {sent : Frame}
    (hs : S target sent) (hsend : flow.send course origin target sent = .ok flow') :
    Receives course S first flow' :=
  h.arrive hs (Except.mapError_eq_ok.mp hsend)

/-- In a visit frames arrive along the edges of the instruction, at instructions that there are. -/
theorem receives_visit {R : Frame → Frame → Prop} (hsound : course.IsSound R) {origin : Nat}
    (ho : origin < course.scene.steps.size) {step : Step} {before : Frame}
    (h : flow.visit course origin step before = .ok flow') :
    ∃ after, course.scene.execute step before = .ok after ∧
      Receives course (fun target sent => target < course.scene.steps.size ∧
        course.Edge origin step before after target sent) flow flow' := by
  obtain ⟨after, -, -, hexecute, -⟩ := visit_eq_ok.mp h
  refine ⟨after, hexecute, keeps_of_visit (fun _ height hr => hr.withHeight height)
    (fun other target sent hother hedge _ _ hr hsend => ?_) .refl h⟩
  obtain rfl := Except.ok.inj (hexecute.symm.trans hother)
  refine hr.send ⟨?_, hedge⟩ hsend
  cases hedge with
  | jump hm ht => exact hsound.positions _ _ ht
  | next hf =>
    have hne := ne_size_of_visit h hf
    omega
  | thrownBefore hrange => exact hsound.entries _ hrange
  | thrownAfter hrange => exact hsound.entries _ hrange

end Receives

/-! ### How much is left -/

/-- The number of instructions that have a frame. -/
def reached (flow : Flow) : Nat :=
  ((Finset.range flow.frames.size).filter fun index => (flow.frameAt? index).isSome).card

/-- How often a frame can still change; one that is not there yet can become the heaviest. -/
noncomputable def changesLeft (hierarchy : Hierarchy) (most full : Nat) : Option Frame → Nat
  | none => 1 + full
  | some frame => frame.weight hierarchy most

/-- How often frames can still change, and instructions are to be looked at. -/
noncomputable def effort (hierarchy : Hierarchy) (most full : Nat) (flow : Flow) : Nat :=
  ∑ index ∈ Finset.range flow.frames.size,
    changesLeft hierarchy most full (flow.frameAt? index) + flow.pending.length

theorem length_pending_set (flow : Flow) (target : Nat) (frame : Frame) :
    (flow.set target frame).pending.length ≤ flow.pending.length + 1 := by
  unfold set
  dsimp only
  split_ifs
  · exact Nat.le_succ _
  · exact le_refl _

theorem size_set (flow : Flow) (target : Nat) (frame : Frame) :
    (flow.set target frame).frames.size = flow.frames.size := by
  rw [frames_set, Array.size_setIfInBounds]

theorem reached_le_set {target : Nat} (ht : target < flow.frames.size) (frame : Frame) :
    flow.reached ≤ (flow.set target frame).reached := by
  unfold reached
  rw [size_set]
  refine Finset.card_le_card fun index hin => ?_
  obtain ⟨hrange, hsome⟩ := Finset.mem_filter.mp hin
  refine Finset.mem_filter.mpr ⟨hrange, ?_⟩
  rw [frameAt?_set flow ht]
  split_ifs
  · rfl
  · exact hsome

theorem reached_lt_set {target : Nat} (ht : target < flow.frames.size) (frame : Frame)
    (hn : flow.frameAt? target = none) : flow.reached < (flow.set target frame).reached := by
  unfold reached
  rw [size_set]
  refine Finset.card_lt_card ((Finset.ssubset_iff_of_subset fun index hin => ?_).mpr
    ⟨target, ?_, ?_⟩)
  · obtain ⟨hrange, hsome⟩ := Finset.mem_filter.mp hin
    refine Finset.mem_filter.mpr ⟨hrange, ?_⟩
    rw [frameAt?_set flow ht]
    split_ifs
    · rfl
    · exact hsome
  · refine Finset.mem_filter.mpr ⟨Finset.mem_range.mpr ht, ?_⟩
    rw [frameAt?_set flow ht, if_pos rfl]
    rfl
  · simp [hn]

theorem reached_le (flow : Flow) : flow.reached ≤ flow.frames.size :=
  (Finset.card_filter_le _ _).trans_eq (Finset.card_range _)

/-- Setting a frame that is lighter costs no more than it gains. -/
theorem effort_set_le {hierarchy : Hierarchy} {most full target : Nat} {frame : Frame}
    (ht : target < flow.frames.size)
    (hl : frame.weight hierarchy most < changesLeft hierarchy most full (flow.frameAt? target)) :
    (flow.set target frame).effort hierarchy most full ≤ flow.effort hierarchy most full := by
  have hpending := flow.length_pending_set target frame
  have hsum : ∑ index ∈ Finset.range flow.frames.size,
      changesLeft hierarchy most full ((flow.set target frame).frameAt? index) <
        ∑ index ∈ Finset.range flow.frames.size,
          changesLeft hierarchy most full (flow.frameAt? index) := by
    refine Finset.sum_lt_sum (fun index hin => ?_) ⟨target, Finset.mem_range.mpr ht, ?_⟩
    · rw [frameAt?_set flow ht]
      split_ifs with he
      · exact he ▸ hl.le
      · exact le_refl _
    · rw [frameAt?_set flow ht, if_pos rfl]
      exact hl
  unfold effort
  rw [size_set]
  omega

/-- Whether the frames that are held are no larger than frames may be; their stacks are no higher
than twice the number of instructions that have a frame. -/
structure IsBounded (course : Course) (limit slots : Nat) (flow : Flow) : Prop where
  frames : flow.frames.size = course.scene.steps.size
  held : ∀ index frame, flow.frameAt? index = some frame →
    frame.Within course.scene.hierarchy limit slots (2 * flow.reached)

/-- Whether a flow goes on from another with no more effort: frames that change become lighter. -/
structure Descends (hierarchy : Hierarchy) (most full : Nat) (flow flow' : Flow) : Prop where
  changed : ∀ index, flow'.frameAt? index = flow.frameAt? index ∨
    changesLeft hierarchy most full (flow'.frameAt? index) <
      changesLeft hierarchy most full (flow.frameAt? index)
  effort : flow'.effort hierarchy most full ≤ flow.effort hierarchy most full

section Descends

variable {hierarchy : Hierarchy} {most full : Nat}

theorem Descends.refl (flow : Flow) : Descends hierarchy most full flow flow :=
  ⟨fun _ => .inl rfl, le_refl _⟩

theorem Descends.trans {flow'' : Flow} (h : Descends hierarchy most full flow flow')
    (h' : Descends hierarchy most full flow' flow'') : Descends hierarchy most full flow flow'' := by
  refine ⟨fun index => ?_, h'.effort.trans h.effort⟩
  rcases h'.changed index with he' | hl'
  · rw [he']
    exact h.changed index
  · rcases h.changed index with he | hl
    · exact .inr (he ▸ hl')
    · exact .inr (hl'.trans hl)

theorem descends_set {target : Nat} {frame : Frame} (ht : target < flow.frames.size)
    (hl : frame.weight hierarchy most < changesLeft hierarchy most full (flow.frameAt? target)) :
    Descends hierarchy most full flow (flow.set target frame) := by
  refine ⟨fun index => ?_, effort_set_le ht hl⟩
  rw [frameAt?_set flow ht]
  split_ifs with he
  · exact .inr (he ▸ hl)
  · exact .inl rfl

end Descends

theorem isBounded_set {target : Nat} {frame : Frame} (hb : flow.IsBounded course limit slots)
    (ht : target < flow.frames.size)
    (hf : frame.Within course.scene.hierarchy limit slots (2 * (flow.set target frame).reached)) :
    (flow.set target frame).IsBounded course limit slots := by
  refine ⟨(size_set flow target frame).trans hb.frames, fun index held hheld => ?_⟩
  rw [frameAt?_set flow ht] at hheld
  split_ifs at hheld
  · exact Option.some.inj hheld ▸ hf
  · have := reached_le_set ht frame
    exact (hb.held index held hheld).mono (by omega)

/-! ### What a flow can still change -/

/-- What is relied on to bound a flow: the classes that are known, and what it starts with. -/
structure IsLimited (course : Course) (entry : Frame) (limit slots most : Nat) : Prop where
  unique : course.scene.hierarchy.IsUnique
  bounded : course.IsBounded entry limit slots
  spares : ∀ type : FrameType, type.Spans course.scene.hierarchy limit → type.Spares most

/-- The weight of the heaviest frame. -/
def full (course : Course) (slots most : Nat) : Nat :=
  (2 * course.scene.steps.size + slots) * course.scene.hierarchy.highest most

variable {most : Nat}

theorem IsLimited.holds (hl : IsLimited course entry limit slots most) {frame : Frame} {words : Nat}
    (hf : frame.Within course.scene.hierarchy limit slots words) :
    frame.Holds (FrameType.Spares most) :=
  ⟨fun type ht => hl.spares type (hf.types.locals type ht),
    fun type ht => hl.spares type (hf.types.stack type ht)⟩

/-- A frame that arrives changes nothing, or makes the frame that is held lighter. -/
theorem descends_arrive (hl : IsLimited course entry limit slots most)
    (hb : flow.IsBounded course limit slots) {r target : Nat} (hr : r ≤ flow.reached)
    (ht : target < course.scene.steps.size) {sent : Frame}
    (hs : sent.Within course.scene.hierarchy limit slots (2 * r + 2))
    (h : flow.arrive course target sent = .ok flow') :
    flow'.IsBounded course limit slots ∧ r ≤ flow'.reached ∧
      Descends course.scene.hierarchy most (full course slots most) flow flow' := by
  obtain ⟨fitted, hfit, h⟩ := arrive_eq_ok.mp h
  have htarget : target < flow.frames.size := hb.frames ▸ ht
  have hfitted : fitted.Within course.scene.hierarchy limit slots (2 * r + 2) := by
    split at hfit
    · rename_i declared hdeclared
      exact Frame.within_fit (hl.bounded.declared target declared hdeclared) hs hfit
    · exact Except.ok.inj hfit ▸ hs
  split at h
  · -- the instruction is reached for the first time, and there is room for two words more
    rename_i hnone
    subst h
    have hreached := reached_lt_set htarget fitted hnone
    have hcount := (flow.set target fitted).reached_le
    rw [size_set, hb.frames] at hcount
    refine ⟨isBounded_set hb htarget (hfitted.mono (by omega)), by omega, descends_set htarget ?_⟩
    have hwords : fitted.stack.length ≤ 2 * course.scene.steps.size := by
      have := hfitted.words
      omega
    rw [hnone]
    exact Nat.lt_one_add_iff.mpr (Frame.weight_le (hl.holds hfitted) hfitted.slots hwords)
  · rename_i old hold
    obtain ⟨merged, hmerge, rfl⟩ := h
    have hmerged := Frame.within_merge (hb.held target old hold) hfitted hmerge
    have hreached := reached_le_set htarget merged
    split_ifs with hsame
    · exact ⟨hb, hr, .refl flow⟩
    · refine ⟨isBounded_set hb htarget (hmerged.mono (by omega)), by omega,
        descends_set htarget ?_⟩
      rw [hold]
      exact (Frame.eq_or_weight_lt_of_merge hl.unique (hl.holds hmerged) hmerge).resolve_left hsame

/-- A row of frames that arrive changes nothing, or makes frames lighter. -/
theorem Receives.descends (hl : IsLimited course entry limit slots most)
    (hb : flow.IsBounded course limit slots) {S : Nat → Frame → Prop}
    (hs : ∀ target sent, S target sent → target < course.scene.steps.size ∧
      sent.Within course.scene.hierarchy limit slots (2 * flow.reached + 2))
    (h : Receives course S flow flow') :
    flow'.IsBounded course limit slots ∧ flow.reached ≤ flow'.reached ∧
      Descends course.scene.hierarchy most (full course slots most) flow flow' := by
  induction h with
  | refl => exact ⟨hb, le_refl _, .refl flow⟩
  | withHeight _ _ ih =>
    obtain ⟨hb', hr, hd⟩ := ih
    exact ⟨⟨hb'.frames, hb'.held⟩, hr, hd.changed, hd.effort⟩
  | arrive _ hsent ha ih =>
    obtain ⟨hb', hr, hd⟩ := ih
    obtain ⟨ht, hwithin⟩ := hs _ _ hsent
    obtain ⟨hb'', hr', hd'⟩ := descends_arrive hl hb' hr ht hwithin ha
    exact ⟨hb'', hr', hd.trans hd'⟩

/-- A visit changes nothing, or makes frames lighter. -/
theorem descends_visit {R : Frame → Frame → Prop} (hsound : course.IsSound R)
    (hl : IsLimited course entry limit slots most) (hb : flow.IsBounded course limit slots)
    {origin : Nat} (ho : origin < course.scene.steps.size) {step : Step} {before : Frame}
    (hbefore : flow.frameAt? origin = some before)
    (h : flow.visit course origin step before = .ok flow') :
    flow'.IsBounded course limit slots ∧
      Descends course.scene.hierarchy most (full course slots most) flow flow' := by
  obtain ⟨after, hexecute, hreceives⟩ := receives_visit hsound ho h
  have hheld := hb.held origin before hbefore
  have hafter := Scene.within_execute hheld hl.bounded.brief hl.bounded.named hexecute
  -- a handler is entered with one word, as the instruction itself was reached
  have hcatching : ∀ {frame : Frame} {range : HandlerRange} {words : Nat},
      range ∈ course.handlers → frame.Within course.scene.hierarchy limit slots words →
      (Frame.catching frame.locals range.caught).Within course.scene.hierarchy limit slots
        (2 * flow.reached + 2) := by
    intro frame range words hr hf
    refine ⟨⟨hf.types.locals, ?_⟩, hf.slots, ?_⟩
    · exact List.forall_mem_singleton.mpr (hl.bounded.caught range hr)
    · show 1 ≤ _
      omega
  obtain ⟨hb', -, hd⟩ := hreceives.descends hl hb fun target sent hsent => by
    obtain ⟨ht, hedge⟩ := hsent
    refine ⟨ht, ?_⟩
    cases hedge with
    | jump => exact hafter
    | next => exact hafter
    | thrownBefore hr => exact hcatching hr hheld
    | thrownAfter hr => exact hcatching hr hafter
  exact ⟨hb', hd⟩

/-! ### Turns of the work list -/

/-- A turn leaves less to do, and changes only frames that become lighter. -/
theorem Turn.effort_lt {R : Frame → Frame → Prop} (hsound : course.IsSound R)
    (hl : IsLimited course entry limit slots most) (hb : flow.IsBounded course limit slots)
    (h : Turn course flow flow') : flow'.IsBounded course limit slots ∧
      (∀ index, flow'.frameAt? index = flow.frameAt? index ∨
        changesLeft course.scene.hierarchy most (full course slots most) (flow'.frameAt? index) <
          changesLeft course.scene.hierarchy most (full course slots most)
            (flow.frameAt? index)) ∧
      flow'.effort course.scene.hierarchy most (full course slots most) <
        flow.effort course.scene.hierarchy most (full course slots most) := by
  cases h with
  | @visit origin rest frames isPending height step before _ hs hf hv =>
    have hpopped : IsBounded course limit slots
        ⟨frames, rest, isPending.setIfInBounds origin false, height⟩ := ⟨hb.frames, hb.held⟩
    have ho : origin < course.scene.steps.size := (Array.getElem?_eq_some_iff.mp hs).1
    obtain ⟨hb', hd⟩ := descends_visit hsound hl hpopped ho hf hv
    exact ⟨hb', hd.changed, Nat.lt_of_le_of_lt hd.effort
      (Nat.add_lt_add_left (Nat.lt_succ_self rest.length) _)⟩
  | @skip origin rest frames isPending height hn =>
    exact ⟨⟨hb.frames, hb.held⟩, fun _ => .inl rfl,
      Nat.add_lt_add_left (Nat.lt_succ_self rest.length) _⟩

/-- How often the frame of an instruction is another one in a row of flows. -/
def changes (index : Nat) : List Flow → Nat
  | flow :: next :: rest =>
    (if next.frameAt? index = flow.frameAt? index then 0 else 1) + changes index (next :: rest)
  | _ => 0

/-- A run takes no more turns than there is effort, and changes no frame more often than that can
become lighter. -/
theorem length_le_effort {R : Frame → Frame → Prop} (hsound : course.IsSound R)
    (hl : IsLimited course entry limit slots most) (hb : flow.IsBounded course limit slots)
    {run : List Flow} (h : List.IsChain (Turn course) (flow :: run)) :
    run.length ≤ flow.effort course.scene.hierarchy most (full course slots most) ∧
      ∀ index, changes index (flow :: run) ≤
        changesLeft course.scene.hierarchy most (full course slots most)
          (flow.frameAt? index) := by
  induction run generalizing flow with
  | nil => exact ⟨Nat.zero_le _, fun _ => Nat.zero_le _⟩
  | cons next rest ih =>
    obtain ⟨hturn, hrest⟩ := List.isChain_cons_cons.mp h
    obtain ⟨hb', hchanged, heffort⟩ := hturn.effort_lt hsound hl hb
    obtain ⟨hlength, hchanges⟩ := ih hb' hrest
    refine ⟨Nat.lt_of_le_of_lt hlength heffort, fun index => ?_⟩
    have hlater := hchanges index
    rw [changes]
    rcases hchanged index with he | hless
    · rw [if_pos he, Nat.zero_add, ← he]
      exact hlater
    · split_ifs
      · omega
      · omega

/-! ### Runs are not given up -/

theorem step_of_send {origin target : Nat} {sent : Frame} {obstacle : Obstacle}
    (h : flow.send course origin target sent = .error obstacle) : obstacle.step ≠ none := by
  obtain ⟨cause, -, rfl⟩ := Except.mapError_eq_error.mp h
  exact Option.some_ne_none origin

theorem step_of_throwFrom {origin : Nat} {before after : Frame} {handlers : List HandlerRange}
    {obstacle : Obstacle}
    (h : flow.throwFrom course origin before after handlers = .error obstacle) :
    obstacle.step ≠ none := by
  induction handlers generalizing flow with
  | nil => nomatch h
  | cons range rest ih =>
    unfold throwFrom at h
    split_ifs at h
    · rcases Except.bind_eq_error.mp h with h | ⟨first, -, h⟩
      · exact step_of_send h
      · rcases Except.bind_eq_error.mp h with h | ⟨second, -, h⟩
        · exact step_of_send h
        · exact ih h
    · exact ih h

theorem step_of_jumpFrom {origin : Nat} {after : Frame} {targets : List Mark} {obstacle : Obstacle}
    (h : flow.jumpFrom course origin after targets = .error obstacle) : obstacle.step ≠ none := by
  induction targets generalizing flow with
  | nil => nomatch h
  | cons mark rest ih =>
    unfold jumpFrom at h
    rcases Except.bind_eq_error.mp h with h | ⟨target, -, h⟩
    · obtain ⟨cause, -, rfl⟩ := Except.mapError_eq_error.mp h
      exact Option.some_ne_none origin
    · rcases Except.bind_eq_error.mp h with h | ⟨first, -, h⟩
      · exact step_of_send h
      · exact ih h

/-- What keeps a visit from going on is at an instruction. -/
theorem step_of_visit {origin : Nat} {step : Step} {before : Frame} {obstacle : Obstacle}
    (h : flow.visit course origin step before = .error obstacle) : obstacle.step ≠ none := by
  unfold visit at h
  rcases Except.bind_eq_error.mp h with h | ⟨after, -, h⟩
  · obtain ⟨cause, -, rfl⟩ := Except.mapError_eq_error.mp h
    exact Option.some_ne_none origin
  · rcases Except.bind_eq_error.mp h with h | ⟨thrown, -, h⟩
    · exact step_of_throwFrom h
    · rcases Except.bind_eq_error.mp h with h | ⟨jumped, -, h⟩
      · exact step_of_jumpFrom h
      · split_ifs at h
        · cases h
          exact Option.some_ne_none origin
        · exact step_of_send h
        · nomatch h

/-- With fuel for the effort, a run is not given up. -/
theorem settle_ne_unsettled {R : Frame → Frame → Prop} (hsound : course.IsSound R)
    (hl : IsLimited course entry limit slots most) (hb : flow.IsBounded course limit slots)
    {fuel : Nat}
    (hf : flow.effort course.scene.hierarchy most (full course slots most) ≤ fuel) :
    flow.settle course fuel ≠ .error (.anywhere .unsettled) := by
  induction fuel generalizing flow with
  | zero =>
    have hnil : flow.pending = [] :=
      List.eq_nil_of_length_eq_zero (Nat.eq_zero_of_add_eq_zero_left (Nat.le_zero.mp hf))
    simp [settle, hnil]
  | succ fuel ih =>
    obtain ⟨frames, pending, isPending, height⟩ := flow
    cases pending with
    | nil => simp [settle]
    | cons origin rest =>
      -- Each turn lowers the effort, so that the rest of the fuel is enough for what is left.
      have hturn : ∀ {flow'}, Turn course ⟨frames, origin :: rest, isPending, height⟩ flow' →
          flow'.settle course fuel ≠ .error (.anywhere .unsettled) := by
        intro flow' h
        obtain ⟨hb', -, hless⟩ := h.effort_lt hsound hl hb
        exact ih hb' (by omega)
      unfold settle
      dsimp only
      split
      · rename_i step before hs hheld
        split
        · rename_i visited hv
          exact hturn (.visit hs hheld hv)
        · rename_i obstacle hv
          intro h
          exact step_of_visit hv (congrArg Obstacle.step (Except.error.inj h))
      · rename_i hnone
        exact hturn (.skip fun step before hs hheld => hnone step before hs hheld)

/-- The first frame that arrives leaves as many changes as all frames together can take. -/
theorem effort_first_le (hl : IsLimited course entry limit slots most)
    (hpos : 0 < course.scene.steps.size)
    (h : (start course.scene.steps.size).send course 0 0 entry = .ok flow) :
    flow.IsBounded course limit slots ∧
      (∀ index, changesLeft course.scene.hierarchy most (full course slots most)
        (flow.frameAt? index) ≤ 1 + full course slots most) ∧
      flow.effort course.scene.hierarchy most (full course slots most) ≤
        course.scene.steps.size * (1 + full course slots most) := by
  have hstart : (start course.scene.steps.size).IsBounded course limit slots := by
    refine ⟨Array.size_replicate, fun index frame hheld => ?_⟩
    rw [frameAt?_start] at hheld
    nomatch hheld
  have hempty : (start course.scene.steps.size).effort course.scene.hierarchy most
      (full course slots most) = course.scene.steps.size * (1 + full course slots most) := by
    rw [effort, hstart.frames]
    simp only [frameAt?_start, changesLeft, Finset.sum_const, Finset.card_range, smul_eq_mul]
    rfl
  obtain ⟨hb, -, hd⟩ := descends_arrive hl hstart (Nat.zero_le _) hpos
    (hl.bounded.entry.mono (Nat.zero_le _)) (Except.mapError_eq_ok.mp h)
  refine ⟨hb, fun index => ?_, hempty ▸ hd.effort⟩
  have hchanged := hd.changed index
  rw [frameAt?_start] at hchanged
  rcases hchanged with he | hless
  · rw [he]
    exact le_refl _
  · exact hless.le

end Flow

/-! ### The analysis -/

namespace Body

variable {body : Body} {head : MethodHead} {pool : Pool} {hierarchy : Hierarchy} {entry : Frame}
  {course : Course}

theorem HasCourse.isLimited (hb : hierarchy.IsBuilt)
    (h : body.HasCourse head pool hierarchy entry course) :
    Flow.IsLimited course entry (Flow.longest course.scene course.declared.values + 1)
      (Flow.slotLimit entry course.declared.values)
      (Flow.mostDimensions course.scene course.declared.values) := by
  have hu : course.scene.hierarchy.IsUnique := by
    rw [h.scene]
    rcases hb with rfl | ⟨entries, rfl⟩
    · trivial
    · exact ClassPath.hasUniqueNames_foldl_add entries List.nodup_nil
  exact ⟨hu, h.isBounded, fun type => Flow.spares_of_spans hu course.declared.values⟩

theorem isAscent_true (hierarchy : Hierarchy) : Frame.IsAscent hierarchy fun _ _ => True :=
  ⟨fun _ => trivial, fun _ _ => trivial, fun _ => ⟨trivial, trivial⟩⟩

theorem HasCourse.size_pos (hne : body.steps ≠ [])
    (h : body.HasCourse head pool hierarchy entry course) : 0 < course.scene.steps.size := by
  rw [h.scene, List.size_toArray]
  exact List.length_pos_iff.mpr hne

theorem HasCourse.send_start (h : body.HasCourse head pool hierarchy entry course) {first : Flow}
    (hfirst : (Flow.start body.steps.length).send course 0 0 entry = .ok first) :
    (Flow.start course.scene.steps.size).send course 0 0 entry = .ok first := by
  rw [h.scene, List.size_toArray]
  exact hfirst

/-- What keeps a body from being analyzed before the flow starts is no lack of turns. -/
theorem handlerRanges_ne_unsettled (scene : Scene) :
    body.handlerRanges scene ≠ .error (.anywhere .unsettled) := by
  intro h
  obtain ⟨handler, -, h⟩ := Except.exists_of_mapM_eq_error h
  have hfind : ∀ mark, (scene.position mark).mapError Obstacle.anywhere ≠
      .error (.anywhere .unsettled) := by
    intro mark h
    obtain ⟨cause, hcause, h⟩ := Except.mapError_eq_error.mp h
    obtain rfl : cause = .unsettled := (Obstacle.mk.inj h).2
    unfold Scene.position at hcause
    split at hcause
    · simp at hcause
    · simp at hcause
  -- a mark that is not found is another fault, whatever comes after it
  have hbind : ∀ {α : Type} (mark : Mark) (rest : Nat → Except Obstacle α),
      (∀ index, rest index ≠ .error (.anywhere .unsettled)) →
      ((scene.position mark).mapError Obstacle.anywhere >>= rest) ≠
        .error (.anywhere .unsettled) := by
    intro α mark rest hrest h
    rcases Except.bind_eq_error.mp h with h | ⟨index, -, h⟩
    · exact hfind mark h
    · exact hrest index h
  revert h
  refine hbind handler.start _ fun start => ?_
  cases handler.stop with
  | «at» mark =>
    refine hbind mark _ fun stop => hbind handler.entry _ fun target => ?_
    split_ifs
    · exact Except.pure_ne_error
    · split
      · exact Except.pure_ne_error
      · exact fun h => absurd (congrArg Obstacle.step (Except.error.inj h)) (Option.some_ne_none _)
  | finish =>
    refine hbind handler.entry _ fun target => ?_
    split_ifs
    · exact Except.pure_ne_error
    · split
      · exact Except.pure_ne_error
      · exact fun h => absurd (congrArg Obstacle.step (Except.error.inj h)) (Option.some_ne_none _)

theorem expandChanges_ne_unsettled (changes : List DeclaredFrame) (locals : List FrameType) :
    expandChanges changes locals ≠ .error .unsettled := by
  induction changes generalizing locals with
  | nil => simp [expandChanges]
  | cons change rest ih =>
    intro h
    unfold expandChanges at h
    rcases Except.bind_eq_error.mp h with h | ⟨⟨next, stack⟩, -, h⟩
    · unfold DeclaredFrame.next at h
      split at h
      case h_3 =>
        split_ifs at h
        simp at h
      all_goals simp at h
    · rcases Except.bind_eq_error.mp h with h | ⟨others, -, h⟩
      · exact ih next h
      · exact Except.pure_ne_error h

/-- What is analyzed does not run out of turns once the first frame arrived. -/
theorem HasCourse.settle_ne_unsettled (hb : hierarchy.IsBuilt) (hne : body.steps ≠ [])
    (h : body.HasCourse head pool hierarchy entry course) {first : Flow}
    (hfirst : (Flow.start body.steps.length).send course 0 0 entry = .ok first) :
    first.settle course (Flow.budget course.scene course.declared.values
      (Flow.slotLimit entry course.declared.values)) ≠ .error (.anywhere .unsettled) := by
  have hl := h.isLimited hb
  obtain ⟨hbounded, -, heffort⟩ := Flow.effort_first_le hl (h.size_pos hne) (h.send_start hfirst)
  have hbudget := Flow.lt_budget course.scene course.declared.values
    (Flow.slotLimit entry course.declared.values)
  exact Flow.settle_ne_unsettled (h.isSound (isAscent_true hierarchy)) hl hbounded
    (heffort.trans hbudget.le)

/-- An analysis is never given up. -/
theorem analyze_ne_unsettled (hb : hierarchy.IsBuilt) (body : Body) (head : MethodHead)
    (pool : Pool) : body.analyze head pool hierarchy ≠ .error (.anywhere .unsettled) := by
  intro h
  unfold analyze at h
  rcases Except.guard_eq_error.mp h with ⟨-, h⟩ | ⟨hne, h⟩
  · nomatch h
  rcases Except.bind_eq_error.mp h with h | ⟨entry, hentry, h⟩
  · obtain ⟨cause, hcause, h⟩ := Except.mapError_eq_error.mp h
    unfold MethodHead.entryFrame at hcause
    split at hcause
    · cases hcause
      nomatch h
    · nomatch hcause
  rcases Except.bind_eq_error.mp h with h | ⟨frames, hframes, h⟩
  · obtain ⟨cause, hcause, h⟩ := Except.mapError_eq_error.mp h
    cases h
    exact expandChanges_ne_unsettled _ _ hcause
  rcases Except.bind_eq_error.mp h with h | ⟨handlers, hhandlers, h⟩
  · exact handlerRanges_ne_unsettled _ h
  rcases Except.bind_eq_error.mp h with h | ⟨first, hfirst, h⟩
  · exact Flow.step_of_send h rfl
  rcases Except.bind_eq_error.mp h with h | ⟨last, -, h⟩
  · have hcourse : body.HasCourse head pool hierarchy entry
        ⟨⟨pool, hierarchy, head, body.steps.toArray, body.positions⟩, handlers,
          framesByIndex body.positions frames⟩ :=
      ⟨Except.mapError_eq_ok.mp hentry, rfl, hhandlers, frames, Except.mapError_eq_ok.mp hframes,
        rfl⟩
    exact hcourse.settle_ne_unsettled hb (by simpa using hne) hfirst h
  -- what is left is whether the sizes can be written down
  rcases Except.guard_eq_error.mp h with ⟨-, h⟩ | ⟨-, h⟩
  · nomatch h
  rcases Except.guard_eq_error.mp h with ⟨-, h⟩ | ⟨-, h⟩
  · nomatch h
  · nomatch h

/-- The work list of an analysis comes to an end, so that the analysis is never given up: every run
has fewer turns than the budget, and the frame of each instruction changes less often than the share
of the budget that an instruction has. -/
theorem analyze_ends (hb : hierarchy.IsBuilt) (body : Body) (head : MethodHead) (pool : Pool) :
    body.analyze head pool hierarchy ≠ .error (.anywhere .unsettled) ∧
      ∀ entry course first, body.steps ≠ [] → body.HasCourse head pool hierarchy entry course →
        (Flow.start body.steps.length).send course 0 0 entry = .ok first →
        ∀ run, List.IsChain (Flow.Turn course) (first :: run) →
          run.length < Flow.budget course.scene course.declared.values
            (Flow.slotLimit entry course.declared.values) ∧
          ∀ index, body.steps.length * Flow.changes index (first :: run) <
            Flow.budget course.scene course.declared.values
              (Flow.slotLimit entry course.declared.values) := by
  refine ⟨analyze_ne_unsettled hb body head pool,
    fun entry course first hne hcourse hfirst run hrun => ?_⟩
  have hsize : course.scene.steps.size = body.steps.length := by
    rw [hcourse.scene, List.size_toArray]
  have hl := hcourse.isLimited hb
  obtain ⟨hbounded, hchanges, heffort⟩ :=
    Flow.effort_first_le hl (hcourse.size_pos hne) (hcourse.send_start hfirst)
  obtain ⟨hlength, hrow⟩ :=
    Flow.length_le_effort (hcourse.isSound (isAscent_true hierarchy)) hl hbounded hrun
  have hbudget := Flow.lt_budget course.scene course.declared.values
    (Flow.slotLimit entry course.declared.values)
  refine ⟨Nat.lt_of_le_of_lt (hlength.trans heffort) hbudget, fun index => ?_⟩
  rw [← hsize]
  exact Nat.lt_of_le_of_lt (Nat.mul_le_mul_left _ ((hrow index).trans (hchanges index))) hbudget

end Body

namespace Meeting

/-- The loop comes to an end also where a class is its own super class. -/
theorem analyze_ends_in_circle :
    (hierarchy first).IsBuilt ∧
      body.analyze head Pool.empty (hierarchy first) ≠ .error (.anywhere .unsettled) ∧
      ∃ reached loaded, (Flow.start 3).send (course first) 0 0 (frame first second []) =
          .ok reached ∧
        List.IsChain (Flow.Turn (course first)) [reached, loaded] ∧
        ∀ index, 3 * Flow.changes index [reached, loaded] <
          Flow.budget (course first).scene (course first).declared.values
            (Flow.slotLimit (frame first second []) (course first).declared.values) := by
  have hb := isBuilt_hierarchy first
  have hd := body.declared_plainCourse head Pool.empty (hierarchy first)
  have hcourse : body.HasCourse head Pool.empty (hierarchy first) (frame first second [])
      (course first) := ⟨rfl, rfl, rfl, [], rfl, rfl⟩
  have hsend : (Flow.start 3).send (course first) 0 0 (frame first second []) =
      .ok ⟨#[some (frame first second []), none, none], [0], #[true, false, false], 0⟩ :=
    Flow.send_of_unreached (hd 0) rfl
  have hload : Flow.visit (course first) 0 ⟨⟨0⟩, .access Opcode.aload 1⟩ (frame first second [])
      ⟨#[some (frame first second []), none, none], [], #[false, false, false], 0⟩ =
      .ok ⟨#[some (frame first second []), some (frame first second [.object second]), none],
        [1], #[false, true, false], 1⟩ :=
    Flow.send_of_unreached (hd 1) rfl
  have hrun : List.IsChain (Flow.Turn (course first))
      [⟨#[some (frame first second []), none, none], [0], #[true, false, false], 0⟩,
        ⟨#[some (frame first second []), some (frame first second [.object second]), none],
          [1], #[false, true, false], 1⟩] :=
    List.isChain_pair.mpr (.visit rfl rfl hload)
  obtain ⟨hends, hruns⟩ := Body.analyze_ends hb body head Pool.empty
  exact ⟨hb, hends, _, _, hsend, hrun,
    (hruns _ (course first) _ (by decide) hcourse hsend _ hrun).2⟩

end Meeting

end ClassGraft

import ClassGraft.Engine.Schedule
import ClassGraft.Proofs.Outcome
import Mathlib

/-!
# The order of patches

A schedule lists for each class the patches that were registered for it, each as often as it was
registered: by priority, and those of one priority in the order of their registration
(`Registry.lists_schedule`).  A list in that order is determined by the rows of patches of each
priority (`Patch.eq_of_ties`), so nothing else about the order of registration shows in a schedule
(`Registry.lists_and_agrees`).
-/

namespace ClassGraft

/-- The patches among some that are of a class and have a priority, in their order. -/
def Patch.ties (patches : List Patch) (name : String) (priority : Int32) : List Patch :=
  patches.filter fun patch => patch.className == name && patch.priority == priority

/-- Whether a schedule has for each class its patches among those that were registered, by priority
and then in the order of their registration, and for a class that has any the digest of them. -/
structure Schedule.Lists (schedule : Schedule) (registered : List Patch) : Prop where
  perm : ∀ name, (schedule.patchesOf name).Perm (registered.filter (·.className == name))
  ordered : ∀ name, (schedule.patchesOf name).Pairwise (·.priority ≤ ·.priority)
  tied : ∀ name priority, (schedule.patchesOf name).filter (·.priority == priority) =
    Patch.ties registered name priority
  digested : ∀ name, schedule.fingerprint? name =
    if schedule.patchesOf name = [] then none else some (fingerprintOf (schedule.patchesOf name))

/-! ### Lists by priority -/

namespace Patch

/-- A list by priority is determined by what it has of each priority. -/
theorem eq_of_ties {first second : List Patch} (hf : first.Pairwise (·.priority ≤ ·.priority))
    (hs : second.Pairwise (·.priority ≤ ·.priority))
    (h : ∀ priority, first.filter (·.priority == priority) =
      second.filter (·.priority == priority)) : first = second := by
  have mem_iff (patch : Patch) : patch ∈ first ↔ patch ∈ second := by
    have := congrArg (patch ∈ ·) (h patch.priority)
    simpa [List.mem_filter] using this
  induction first generalizing second with
  | nil =>
    cases second with
    | nil => rfl
    | cons patch rest => exact absurd ((mem_iff patch).mpr List.mem_cons_self) List.not_mem_nil
  | cons patch rest ih =>
    cases second with
    | nil => exact absurd ((mem_iff patch).mp List.mem_cons_self) List.not_mem_nil
    | cons other others =>
      obtain ⟨hleast, hrest⟩ := List.pairwise_cons.mp hf
      obtain ⟨hother, hothers⟩ := List.pairwise_cons.mp hs
      -- both heads have the least priority, so they are the first of those that have it
      have hle : patch.priority ≤ other.priority := by
        rcases List.mem_cons.mp ((mem_iff other).mpr List.mem_cons_self) with rfl | hin
        · exact Int32.le_refl _
        · exact hleast other hin
      have hge : other.priority ≤ patch.priority := by
        rcases List.mem_cons.mp ((mem_iff patch).mp List.mem_cons_self) with rfl | hin
        · exact Int32.le_refl _
        · exact hother patch hin
      have hsame : other.priority = patch.priority := Int32.le_antisymm hge hle
      have hheads := h patch.priority
      simp only [List.filter_cons, hsame, BEq.rfl, ↓reduceIte] at hheads
      obtain rfl := (List.cons.inj hheads).1
      have htails : ∀ priority, rest.filter (·.priority == priority) =
          others.filter (·.priority == priority) := by
        intro priority
        have htail := h priority
        rw [List.filter_cons, List.filter_cons] at htail
        split_ifs at htail with hpriority
        · exact (List.cons.inj htail).2
        · exact htail
      have hmem (found : Patch) : found ∈ rest ↔ found ∈ others := by
        have := congrArg (found ∈ ·) (htails found.priority)
        simpa [List.mem_filter] using this
      rw [ih hrest hothers htails hmem]

end Patch

/-! ### Registering -/

namespace Registry

variable {registry later : Registry} {registered : List Patch} {name : String}

/-- A registry has the patches that were registered, in that order. -/
theorem patches_of_registerAll (h : registry.registerAll registered = .ok later) :
    later.patches = registry.patches ++ registered := by
  induction registered generalizing registry with
  | nil =>
    obtain rfl := Except.pure_eq_ok.mp h
    exact (List.append_nil _).symm
  | cons patch rest ih =>
    obtain ⟨middle, hmiddle, hrest⟩ := Except.bind_eq_ok.mp h
    unfold register at hmiddle
    split at hmiddle
    · nomatch hmiddle
    · obtain rfl := Except.ok.inj hmiddle
      rw [ih hrest, List.append_assoc, List.singleton_append]

theorem le_trans_of_priority (a b c : Patch) (hab : decide (a.priority ≤ b.priority) = true)
    (hbc : decide (b.priority ≤ c.priority) = true) : decide (a.priority ≤ c.priority) = true :=
  decide_eq_true (Int32.le_trans (of_decide_eq_true hab) (of_decide_eq_true hbc))

theorem le_total_of_priority (a b : Patch) :
    (decide (a.priority ≤ b.priority) || decide (b.priority ≤ a.priority)) = true := by
  rw [Bool.or_eq_true, decide_eq_true_eq, decide_eq_true_eq]
  exact Int32.le_total _ _

theorem perm_patchesOf (registry : Registry) (name : String) :
    (registry.patchesOf name).Perm (registry.patches.filter (·.className == name)) :=
  List.mergeSort_perm _ _

theorem pairwise_patchesOf (registry : Registry) (name : String) :
    (registry.patchesOf name).Pairwise (·.priority ≤ ·.priority) :=
  (List.pairwise_mergeSort le_trans_of_priority le_total_of_priority _).imp of_decide_eq_true

/-- Patches of one priority keep the order of their registration. -/
theorem filter_patchesOf (registry : Registry) (name : String) (priority : Int32) :
    (registry.patchesOf name).filter (·.priority == priority) =
      Patch.ties registry.patches name priority := by
  have hties : Patch.ties registry.patches name priority =
      (registry.patches.filter (·.className == name)).filter (·.priority == priority) := by
    rw [List.filter_filter]
    exact List.filter_congr fun patch _ => Bool.and_comm _ _
  rw [hties]
  -- patches of one priority are in order, so they are a part of the sorted list, and it has no more
  have hordered : ((registry.patches.filter (·.className == name)).filter
      (·.priority == priority)).Pairwise fun a b => decide (a.priority ≤ b.priority) = true := by
    refine List.pairwise_of_forall_mem_list fun a ha b hb => decide_eq_true ?_
    rw [eq_of_beq (List.mem_filter.mp ha).2, eq_of_beq (List.mem_filter.mp hb).2]
    exact Int32.le_refl _
  have hpart := (List.sublist_mergeSort le_trans_of_priority le_total_of_priority hordered
    List.filter_sublist).filter (·.priority == priority)
  rw [List.filter_eq_self.mpr fun patch hpatch => (List.mem_filter.mp hpatch).2] at hpart
  exact (hpart.eq_of_length ((registry.perm_patchesOf name).filter _).length_eq.symm).symm

/-- The classes of a schedule are those that patches were registered for. -/
theorem mem_classNames : name ∈ registry.classNames ↔ registry.patchesOf name ≠ [] := by
  have hempty : registry.patchesOf name = [] ↔
      registry.patches.filter (·.className == name) = [] := by
    rw [← List.length_eq_zero_iff, (registry.perm_patchesOf name).length_eq,
      List.length_eq_zero_iff]
  rw [classNames, (List.mergeSort_perm _ _).mem_iff, List.mem_eraseDups, List.mem_map, Ne, hempty,
    List.filter_eq_nil_iff]
  simp only [beq_iff_eq, not_forall, not_not, exists_prop]

theorem lookup_schedule (registry : Registry) (name : String) :
    registry.schedule.classes.lookup name = if registry.patchesOf name = [] then none else
      some ⟨registry.patchesOf name, fingerprintOf (registry.patchesOf name)⟩ := by
  unfold schedule
  split_ifs with hempty
  · rw [List.lookup_eq_none_iff]
    rintro entry hentry
    obtain ⟨other, hother, rfl⟩ := List.mem_map.mp hentry
    refine bne_iff_ne.mpr ?_
    rintro rfl
    exact mem_classNames.mp hother hempty
  · exact List.lookup_graph _ (mem_classNames.mpr hempty)

/-- A schedule has the patches of each class as the registry sorts them. -/
theorem patchesOf_schedule (registry : Registry) (name : String) :
    registry.schedule.patchesOf name = registry.patchesOf name := by
  unfold Schedule.patchesOf
  rw [lookup_schedule]
  split_ifs with hempty
  · exact hempty.symm
  · rfl

theorem fingerprint?_schedule (registry : Registry) (name : String) :
    registry.schedule.fingerprint? name = if registry.patchesOf name = [] then none else
      some (fingerprintOf (registry.patchesOf name)) := by
  unfold Schedule.fingerprint?
  rw [lookup_schedule]
  split_ifs with hempty <;> rfl

/-- The schedule of a registry lists the patches that were registered. -/
theorem lists_schedule (registry : Registry) : registry.schedule.Lists registry.patches where
  perm name := registry.patchesOf_schedule name ▸ registry.perm_patchesOf name
  ordered name := registry.patchesOf_schedule name ▸ registry.pairwise_patchesOf name
  tied name priority := registry.patchesOf_schedule name ▸ registry.filter_patchesOf name priority
  digested name := by rw [registry.patchesOf_schedule name, registry.fingerprint?_schedule name]

/-- The schedule lists the patches that were registered. -/
theorem lists_of_registerAll (h : empty.registerAll registered = .ok registry) :
    registry.schedule.Lists registered := by
  have hpatches : registry.patches = registered := patches_of_registerAll h
  exact hpatches ▸ registry.lists_schedule

end Registry

/-- A schedule lists the patches of each class that were registered, each as often as it was, by
priority and then in the order of their registration; and two schedules agree on every class if the
patches of each class and priority were registered in the same order. -/
theorem Registry.lists_and_agrees {first second : List Patch} {one other : Registry}
    (ho : Registry.empty.registerAll first = .ok one)
    (hother : Registry.empty.registerAll second = .ok other)
    (h : ∀ name priority, Patch.ties first name priority = Patch.ties second name priority) :
    one.schedule.Lists first ∧ ∀ name,
      one.schedule.patchesOf name = other.schedule.patchesOf name ∧
        one.schedule.fingerprint? name = other.schedule.fingerprint? name := by
  have hfirst : one.schedule.Lists first := lists_of_registerAll ho
  have hsecond : other.schedule.Lists second := lists_of_registerAll hother
  refine ⟨hfirst, fun name => ?_⟩
  have hsame : one.schedule.patchesOf name = other.schedule.patchesOf name :=
    Patch.eq_of_ties (hfirst.ordered name) (hsecond.ordered name) fun priority => by
      rw [hfirst.tied, hsecond.tied, h]
  exact ⟨hsame, by rw [hfirst.digested, hsecond.digested, hsame]⟩

/-! ### Two orders of registration -/

namespace Interleaving

/-- Adds a field with the name of the patch. -/
def patch (id className : String) (priority : Int32) : Patch :=
  ⟨id, className, none, priority, [.addField [] ⟨id, "I"⟩ false]⟩

def first : List Patch :=
  [patch "late" "Player" 10, patch "a" "Player" 1, patch "x" "Enemy" 0, patch "b" "Player" 1,
    patch "a" "Player" 1]

/-- The same patches, with those of one class and priority in the same order. -/
def second : List Patch :=
  [patch "a" "Player" 1, patch "b" "Player" 1, patch "a" "Player" 1, patch "late" "Player" 10,
    patch "x" "Enemy" 0]

theorem ties_eq (name : String) (priority : Int32) :
    Patch.ties first name priority = Patch.ties second name priority := by
  unfold Patch.ties first second patch
  by_cases hplayer : "Player" = name
  · subst hplayer
    by_cases hlate : (10 : Int32) = priority
    · subst hlate
      decide
    · simp [List.filter_cons, hlate]
  · simp [List.filter_cons, hplayer]

/-- A patch that is registered twice is listed twice, and patches of one priority stay in order. -/
theorem lists_and_agrees_twice : ∃ one other, Registry.empty.registerAll first = .ok one ∧
    Registry.empty.registerAll second = .ok other ∧ one.schedule.Lists first ∧
    (one.schedule.patchesOf "Player").map (·.id) = ["a", "b", "a", "late"] ∧
    ∀ name, one.schedule.patchesOf name = other.schedule.patchesOf name ∧
      one.schedule.fingerprint? name = other.schedule.fingerprint? name := by
  have hone : Registry.empty.registerAll first = .ok ⟨first⟩ := by cbv
  have hother : Registry.empty.registerAll second = .ok ⟨second⟩ := by cbv
  obtain ⟨hlists, hagrees⟩ := Registry.lists_and_agrees hone hother ties_eq
  have hids : ((Registry.mk first).patchesOf "Player").map (·.id) = ["a", "b", "a", "late"] := by
    cbv
  refine ⟨_, _, hone, hother, hlists, ?_, hagrees⟩
  rw [Registry.patchesOf_schedule, hids]

end Interleaving

end ClassGraft

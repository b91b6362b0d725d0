import Mathlib.Data.List.Perm.Subperm
import ClassGraft.Proofs.Code.Drafts

/-!
# Restarts of the layout

A layout is the outcome of a sequence of drafts (`Layout.Drafts`).  A draft is given up when some
jump turns out to be too far for the two bytes that it was given.  These two bytes are only given to
a jump whose target is placed later (`Instruction.exists_of_half`), and only while the jump may be
short.  So each restart takes that right from a jump ahead that still had it, and there are no more
restarts than jumps ahead (`Layout.restarts_of_ofSteps`).  Code sizes play no part in this: they may
grow or shrink from one draft to the next.
-/

namespace ClassGraft

variable {narrow : Std.HashSet Nat} {pool : Pool}

/-! ### Distances that may turn out too far -/

namespace Site

variable {site : Site} {origin : Nat} {target other : Mark} {jump : { index // index ∈ narrow }}

theorem case_ne_half : site.case other ≠ .half origin target jump := by
  unfold case
  split <;> simp

theorem eq_of_half_pair {content : Bytes} {start : Nat} {short : { index // index ∈ narrow }}
    (h : Piece.half origin target jump ∈ [.bytes content, .half start other short]) :
    other = target ∧ jump = short := by
  simp only [List.mem_cons, reduceCtorEq, Piece.half.injEq, List.not_mem_nil, or_false,
    false_or] at h
  exact ⟨h.2.1.symm, h.2.2⟩

theorem eq_of_half_jump {short long : Opcode}
    (h : Piece.half origin target jump ∈ site.jump short long other) :
    other = target ∧ jump.val = site.index ∧ site.placed[target]? = none := by
  unfold Site.jump at h
  split at h
  · dsimp only at h
    split_ifs at h <;> simp at h
  · rename_i hnone
    split_ifs at h
    · obtain ⟨rfl, rfl⟩ := eq_of_half_pair h
      exact ⟨rfl, rfl, hnone⟩
    · simp at h

theorem eq_of_half_branch {op inverse : Opcode}
    (h : Piece.half origin target jump ∈ (site.branch op inverse other : Form narrow).pieces) :
    other = target ∧ jump.val = site.index ∧ site.placed[target]? = none := by
  unfold branch at h
  split at h
  · dsimp only at h
    split_ifs at h <;> simp at h
  · rename_i hnone
    split_ifs at h
    · obtain ⟨rfl, rfl⟩ := eq_of_half_pair h
      exact ⟨rfl, rfl, hnone⟩
    · simp at h

end Site

/-- Two bytes for a distance that is not known yet are only given to a jump whose target is still to
be placed. -/
theorem Instruction.exists_of_half {instruction : Instruction Mark} {site : Site}
    {form : Form narrow} {origin : Nat} {target : Mark} {jump : { index // index ∈ narrow }}
    (h : instruction.form pool site = .ok form)
    (hp : Piece.half origin target jump ∈ form.pieces) :
    (∃ op, instruction = .jump op target) ∧ jump.val = site.index ∧
      site.placed[target]? = none := by
  -- The cases of a switch are words, so that only a jump has a half.
  cases instruction with
  | jump op other =>
    have hjump : other = target ∧ jump.val = site.index ∧ site.placed[target]? = none := by
      rw [Instruction.form] at h
      split_ifs at h
      · obtain rfl := Except.ok.inj h
        exact Site.eq_of_half_jump hp
      · obtain rfl := Except.ok.inj h
        exact Site.eq_of_half_jump hp
      · split at h
        · obtain rfl := Except.ok.inj h
          exact Site.eq_of_half_branch hp
        · simp at h
    obtain ⟨rfl, hrest⟩ := hjump
    exact ⟨⟨op, rfl⟩, hrest⟩
  | tableSwitch otherwise low high targets =>
    simp only [Instruction.form] at h
    split_ifs at h
    obtain rfl := Except.ok.inj h
    simp [Site.switchStart, Site.case_ne_half, Site.case_ne_half.symm] at hp
  | lookupSwitch otherwise pairs =>
    simp only [Instruction.form] at h
    split_ifs at h
    obtain rfl := Except.ok.inj h
    simp [Site.switchStart, Site.case_ne_half.symm] at hp
  | _ =>
    obtain rfl := Except.ok.inj h
    simp at hp

namespace Draft

variable {draft draft' : Draft narrow}

/-- A distance in two bytes that was left open belongs to a jump to a step that comes after it. -/
theorem exists_of_half {index : Nat} {steps : List Step}
    (h : extend pool index steps draft = .ok draft') {origin : Nat} {target : Mark}
    {jump : { index // index ∈ narrow }} (hp : Piece.half origin target jump ∈ draft'.pieces) :
    Piece.half origin target jump ∈ draft.pieces ∨ ∃ before step after op,
      steps = before ++ step :: after ∧ jump.val = index + before.length ∧
      step.instruction = .jump op target ∧ draft.placed[target]? = none ∧
      ∀ other ∈ before ++ [step], other.mark ≠ target := by
  induction steps generalizing index draft with
  | nil =>
    obtain rfl := Except.ok.inj h
    exact .inl hp
  | cons step steps ih =>
    obtain ⟨-, form, hform, hrest⟩ := extend_cons_eq_ok.mp h
    -- what is unplaced after the step was unplaced before it, and is not the step
    have hsplit : (draft.placed.insert step.mark draft.size)[target]? = none →
        step.mark ≠ target ∧ draft.placed[target]? = none := by
      intro hnone
      rw [Std.HashMap.getElem?_insert] at hnone
      split_ifs at hnone with he
      exact ⟨by simpa using he, hnone⟩
    rcases ih hrest with hold | ⟨before, later, after, op, rfl, hj, hop, hnone, hne⟩
    · rcases List.mem_append.mp hold with hnew | hold
      · obtain ⟨⟨op, hop⟩, hj, hnone⟩ :=
          Instruction.exists_of_half hform (List.mem_reverse.mp hnew)
        obtain ⟨hmark, hnone⟩ := hsplit hnone
        exact .inr ⟨[], step, steps, op, rfl, hj, hop, hnone, by simpa using hmark⟩
      · exact .inl hold
    · obtain ⟨hmark, hnone⟩ := hsplit hnone
      refine .inr ⟨step :: before, later, after, op, rfl, ?_, hop, hnone, ?_⟩
      · rw [hj, List.length_cons]
        omega
      · rw [List.cons_append]
        exact List.forall_mem_cons.mpr ⟨hmark, hne⟩

/-- A jump that is too far has a place for its distance, which does not fit there. -/
theorem exists_of_tooFar {placed : Std.HashMap Mark Nat} {pieces : List (Piece narrow)}
    {written : Bytes} {jump : { index // index ∈ narrow }}
    (h : resolve placed pieces written = .ok (.tooFar jump)) :
    ∃ origin target position, Piece.half origin target jump ∈ pieces ∧
      placed[target]? = some position ∧ isShortDistance (distance origin position) = false := by
  induction pieces generalizing written with
  | nil => simp [resolve] at h
  | cons piece pieces ih =>
    -- A piece that is passed over leaves it to those after it.
    have hlater : ∀ {written : Bytes}, resolve placed pieces written = .ok (.tooFar jump) →
        ∃ origin target position, Piece.half origin target jump ∈ piece :: pieces ∧
          placed[target]? = some position ∧
          isShortDistance (distance origin position) = false := by
      intro written h
      obtain ⟨origin, target, position, hmem, hp⟩ := ih h
      exact ⟨origin, target, position, List.mem_cons_of_mem _ hmem, hp⟩
    cases piece with
    | bytes content => exact hlater h
    | word origin target =>
      rw [resolve] at h
      split at h
      · simp at h
      · exact hlater h
    | half origin target short =>
      rw [resolve] at h
      split at h
      · simp at h
      · rename_i position hp
        dsimp only at h
        split_ifs at h with hd
        · exact hlater h
        · obtain rfl : short = jump := by simpa using h
          exact ⟨origin, target, position, List.mem_cons_self, find_eq_ok.mp hp,
            Bool.eq_false_iff.mpr hd⟩

end Draft

/-! ### Sequences of drafts -/

/-- Whether the step at an index is a jump to a step that comes after it. -/
def leadsAhead (steps : List Step) (index : Nat) : Bool :=
  match steps[index]? with
  | some ⟨_, .jump _ target⟩ => (steps.findIdx? (·.mark == target)).any (index < ·)
  | _ => false

namespace Layout

/-- What comes of one draft: the answer, or a jump that loses the right to be short. -/
inductive Trial where
  | ends (answer : Except ClassFault Layout)
  | widens (jump : Nat)

/-- One draft, in which only the jumps in `narrow` may be short. -/
def trial (pool : Pool) (steps : List Step) (narrow : Std.HashSet Nat) : Trial :=
  match Draft.extend pool 0 steps (Draft.empty : Draft narrow) with
  | .error fault => .ends (.error fault)
  | .ok draft =>
    if draft.size = 0 ∨ 65535 < draft.size then
      .ends (.error (.unencodable (.codeLength draft.size)))
    else
      match Draft.resolve draft.placed draft.pieces.reverse [] with
      | .error fault => .ends (.error fault)
      | .ok (.code code) => .ends (.ok ⟨code, draft.placed, draft.landings.reverse⟩)
      | .ok (.tooFar jump) => .widens jump.val

/-- Drafts one after the other, each begun because of a jump in the one before, up to the answer
of the last.  The jumps that lose the right to be short are listed in order. -/
inductive Drafts (pool : Pool) (steps : List Step) :
    Std.HashSet Nat → List Nat → Except ClassFault Layout → Prop
  | last {narrow : Std.HashSet Nat} {answer : Except ClassFault Layout}
      (h : trial pool steps narrow = .ends answer) : Drafts pool steps narrow [] answer
  | again {narrow : Std.HashSet Nat} {jump : Nat} {widened : List Nat}
      {answer : Except ClassFault Layout} (h : trial pool steps narrow = .widens jump)
      (hr : Drafts pool steps (narrow.erase jump) widened answer) :
      Drafts pool steps narrow (jump :: widened) answer

variable {steps : List Step}

/-- The layout is the outcome of the draft or of the next one. -/
theorem within_eq_trial : within pool steps narrow =
    match trial pool steps narrow with
    | .ends answer => answer
    | .widens jump => within pool steps (narrow.erase jump) := by
  rw [within, trial]
  cases Draft.extend pool 0 steps (Draft.empty : Draft narrow) with
  | error fault => rfl
  | ok draft =>
    dsimp only
    split_ifs
    · rfl
    · cases Draft.resolve draft.placed draft.pieces.reverse [] with
      | error fault => rfl
      | ok outcome => cases outcome <;> rfl

/-- A jump that loses the right to be short had it, and leads ahead. -/
theorem widens_trial {jump : Nat} (h : trial pool steps narrow = .widens jump) :
    jump ∈ narrow ∧ leadsAhead steps jump = true := by
  unfold trial at h
  split at h
  · simp at h
  · rename_i draft hdraft
    split_ifs at h
    split at h
    · simp at h
    · simp at h
    · rename_i far hfar
      obtain rfl : far.val = jump := by simpa using h
      refine ⟨far.property, ?_⟩
      obtain ⟨origin, target, position, hp, hplaced, -⟩ := Draft.exists_of_tooFar hfar
      obtain ⟨before, step, after, op, rfl, hj, hop, -, hne⟩ :=
        (Draft.exists_of_half hdraft (List.mem_reverse.mp hp)).resolve_left
          (by simp [Draft.empty])
      rw [Nat.zero_add] at hj
      obtain ⟨goal, hgoal, hmark⟩ :=
        (Draft.exists_of_getElem?_extend hdraft hplaced).resolve_right (by simp [Draft.empty])
      -- the target is found, and not up to the jump
      obtain ⟨place, hplace⟩ : ∃ place,
          (before ++ step :: after).findIdx? (·.mark == target) = some place := by
        rw [← Option.isSome_iff_exists, List.findIdx?_isSome, List.any_eq_true]
        exact ⟨goal, hgoal, by simpa using hmark⟩
      have hafter : before.length < place := by
        obtain ⟨hlt, hat, -⟩ := List.findIdx?_eq_some_iff_getElem.mp hplace
        by_contra hle
        refine hne (before ++ step :: after)[place] ?_ (eq_of_beq hat)
        have hsplit : before ++ step :: after = (before ++ [step]) ++ after := by simp
        have hin : place < (before ++ [step]).length := by
          rw [List.length_append, List.length_singleton]
          omega
        rw [List.getElem_of_eq hsplit, List.getElem_append_left hin]
        exact List.getElem_mem _
      obtain ⟨mark, instruction⟩ := step
      obtain rfl := hop
      simp only [leadsAhead, hj, List.getElem?_append_right (Nat.le_refl _), Nat.sub_self,
        List.getElem?_cons_zero, hplace, Option.any_some, decide_eq_true_eq]
      exact hafter

/-- From every set of jumps that may be short the drafts come to an end, which is the layout. -/
theorem exists_drafts (pool : Pool) (steps : List Step) (narrow : Std.HashSet Nat) :
    ∃ widened, Drafts pool steps narrow widened (within pool steps narrow) := by
  induction hn : narrow.size using Nat.strongRecOn generalizing narrow with
  | ind size ih =>
    subst hn
    cases htrial : trial pool steps narrow with
    | ends answer =>
      refine ⟨[], .last ?_⟩
      rw [within_eq_trial, htrial]
    | widens jump =>
      obtain ⟨hmem, -⟩ := widens_trial htrial
      -- the set of jumps that may be short gets smaller
      have hlt : (narrow.erase jump).size < narrow.size := by
        have hpos : narrow.size ≠ 0 := by
          intro hzero
          have hempty : narrow.isEmpty = true := by
            simp [Std.HashSet.isEmpty_eq_size_eq_zero, hzero]
          exact Std.HashSet.isEmpty_iff_forall_not_mem.1 hempty _ hmem
        rw [Std.HashSet.size_erase, if_pos hmem]
        omega
      obtain ⟨widened, hrun⟩ := ih _ hlt (narrow.erase jump) rfl
      refine ⟨jump :: widened, ?_⟩
      rw [within_eq_trial, htrial]
      exact .again htrial hrun

/-- Drafts have only one course. -/
theorem Drafts.unique {widened widened' : List Nat} {answer answer' : Except ClassFault Layout}
    (h : Drafts pool steps narrow widened answer)
    (h' : Drafts pool steps narrow widened' answer') :
    widened = widened' ∧ answer = answer' := by
  induction h generalizing widened' with
  | last h =>
    cases h' with
    | last h' => exact ⟨rfl, by simpa [h] using h'⟩
    | again h' => simp [h] at h'
  | again h _ ih =>
    cases h' with
    | last h' => simp [h] at h'
    | again h' hr' =>
      obtain rfl : _ = _ := Trial.widens.inj (h.symm.trans h')
      obtain ⟨rfl, rfl⟩ := ih hr'
      exact ⟨rfl, rfl⟩

/-- The answer is that of some draft, the last one. -/
theorem Drafts.exists_trial {widened : List Nat} {answer : Except ClassFault Layout}
    (h : Drafts pool steps narrow widened answer) :
    ∃ last, trial pool steps last = .ends answer := by
  induction h with
  | last h => exact ⟨_, h⟩
  | again _ _ ih => exact ih

/-- The jumps that lose the right to be short had it at the start, and each loses it once. -/
theorem Drafts.widened {widened : List Nat} {answer : Except ClassFault Layout}
    (h : Drafts pool steps narrow widened answer) :
    widened.Nodup ∧ ∀ jump ∈ widened, jump ∈ narrow ∧ leadsAhead steps jump = true := by
  induction h with
  | last => exact ⟨List.nodup_nil, by simp⟩
  | @again narrow jump widened answer h _ ih =>
    obtain ⟨hnodup, hall⟩ := ih
    refine ⟨List.nodup_cons.mpr ⟨fun hmem => ?_, hnodup⟩, ?_⟩
    · simpa using (hall jump hmem).1
    · refine List.forall_mem_cons.mpr ⟨widens_trial h, fun other hother => ?_⟩
      obtain ⟨herased, hahead⟩ := hall other hother
      exact ⟨(Std.HashSet.mem_erase.mp herased).2, hahead⟩

/-- Steps are laid out in finitely many drafts, in only one way.  Each restart takes the right to be
short from a jump that still has it and that leads ahead, and there are at most as many restarts as
jumps ahead.  A draft in which no jump ahead may be short is the last one. -/
theorem restarts_of_ofSteps (pool : Pool) (steps : List Step) :
    (∃ widened, Drafts pool steps (jumps steps) widened (ofSteps pool steps) ∧
      (∀ other answer, Drafts pool steps (jumps steps) other answer →
        other = widened ∧ answer = ofSteps pool steps) ∧
      widened.Nodup ∧ (∀ jump ∈ widened, leadsAhead steps jump = true) ∧
      widened.length ≤ (List.range steps.length).countP (leadsAhead steps)) ∧
    (∀ narrow jump, trial pool steps narrow = .widens jump →
      jump ∈ narrow ∧ leadsAhead steps jump = true) ∧
    ∀ narrow : Std.HashSet Nat, (∀ jump ∈ narrow, leadsAhead steps jump = false) →
      ∃ answer, trial pool steps narrow = .ends answer := by
  refine ⟨?_, fun narrow jump => widens_trial, fun narrow hwide => ?_⟩
  · obtain ⟨widened, hrun⟩ := exists_drafts pool steps (jumps steps)
    obtain ⟨hnodup, hall⟩ := hrun.widened
    have hahead : ∀ jump ∈ widened, leadsAhead steps jump = true :=
      fun jump hmem => (hall jump hmem).2
    refine ⟨widened, hrun, fun other answer hother => hother.unique hrun, hnodup, hahead, ?_⟩
    -- what was widened is among the indices of jumps ahead
    have hsubset : widened ⊆ (List.range steps.length).filter (leadsAhead steps) := by
      intro jump hmem
      refine List.mem_filter.mpr ⟨List.mem_range.mpr ?_, hahead jump hmem⟩
      by_contra hout
      have hstep := hahead jump hmem
      rw [leadsAhead, List.getElem?_eq_none (Nat.le_of_not_lt hout)] at hstep
      simp at hstep
    rw [List.countP_eq_length_filter]
    exact (List.subperm_of_subset hnodup hsubset).length_le
  · cases htrial : trial pool steps narrow with
    | ends answer => exact ⟨answer, rfl⟩
    | widens jump =>
      obtain ⟨hmem, hahead⟩ := widens_trial htrial
      rw [hwide jump hmem] at hahead
      simp at hahead

end Layout

end ClassGraft

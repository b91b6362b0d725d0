import ClassGraft.Proofs.Code.Restarts
import ClassGraft.Proofs.Code.Shown

/-!
# Code under other marks

Instructions are laid out in the same way whatever their marks are, as long as these are distinct
and everything that is jumped to is there (`Layout.exists_ofSteps_renumber`).
-/

namespace ClassGraft

/-- The step with other marks. -/
def Step.renumber (number : Mark → Mark) (step : Step) : Step :=
  ⟨number step.mark, step.instruction.mapTargets number⟩

/-- Whether marks of the given ones are distinct under other marks if they are so at all. -/
def Mark.Separates (number : Mark → Mark) (marks : List Mark) : Prop :=
  ∀ mark ∈ marks, ∀ other ∈ marks, number mark = number other → mark = other

/-- Whether positions are those of the given marks under other ones. -/
def Mark.Carries (number : Mark → Mark) (marks : List Mark)
    (placed placed' : Std.HashMap Mark Nat) : Prop :=
  ∀ mark ∈ marks, placed'[number mark]? = placed[mark]?

theorem Mark.Carries.insert {number : Mark → Mark} {marks : List Mark}
    {placed placed' : Std.HashMap Mark Nat} (h : Carries number marks placed placed')
    (hs : Separates number marks) {mark : Mark} (hm : mark ∈ marks) (position : Nat) :
    Carries number marks (placed.insert mark position)
      (placed'.insert (number mark) position) := by
  intro other ho
  rw [Std.HashMap.getElem?_insert, Std.HashMap.getElem?_insert]
  have hiff : (number mark == number other) = (mark == other) := by
    rw [Bool.eq_iff_iff, beq_iff_eq, beq_iff_eq]
    exact ⟨hs mark hm other ho, fun he => he ▸ rfl⟩
  rw [hiff, h other ho]

namespace Layout

variable {number : Mark → Mark} {marks : List Mark} {narrow : Std.HashSet Nat} {pool : Pool}

/-- The piece with another mark. -/
def pieceUnder (number : Mark → Mark) : Piece narrow → Piece narrow
  | .bytes content => .bytes content
  | .half origin target jump => .half origin (number target) jump
  | .word origin target => .word origin (number target)

theorem size_pieceUnder (pieces : List (Piece narrow)) :
    (pieces.map (pieceUnder number)).map Piece.size = pieces.map Piece.size := by
  rw [List.map_map]
  refine List.map_congr_left fun piece _ => ?_
  cases piece <;> rfl

/-- A form with other marks. -/
def formUnder (number : Mark → Mark) (form : Form narrow) : Form narrow :=
  ⟨form.pieces.map (pieceUnder number), form.bypasses⟩

section Sites

variable {index position : Nat} {placed placed' : Std.HashMap Mark Nat} {target : Mark}

theorem jump_under (hc : Mark.Carries number marks placed placed') (ht : target ∈ marks)
    (short long : Opcode) :
    (Site.jump ⟨index, position, placed'⟩ short long (number target) : List (Piece narrow)) =
      (Site.jump ⟨index, position, placed⟩ short long target).map (pieceUnder number) := by
  unfold Site.jump
  dsimp only
  rw [hc target ht]
  cases placed[target]? with
  | some found =>
    dsimp only
    split_ifs <;> rfl
  | none =>
    dsimp only
    split_ifs <;> rfl

theorem branch_under (hc : Mark.Carries number marks placed placed') (ht : target ∈ marks)
    (op inverse : Opcode) :
    (Site.branch ⟨index, position, placed'⟩ op inverse (number target) : Form narrow) =
      formUnder number (Site.branch ⟨index, position, placed⟩ op inverse target) := by
  unfold Site.branch formUnder
  dsimp only
  rw [hc target ht]
  cases placed[target]? with
  | some found =>
    dsimp only
    split_ifs <;> rfl
  | none =>
    dsimp only
    split_ifs <;> rfl

theorem case_under (hc : Mark.Carries number marks placed placed') (ht : target ∈ marks) :
    (Site.case ⟨index, position, placed'⟩ (number target) : Piece narrow) =
      pieceUnder number (Site.case ⟨index, position, placed⟩ target) := by
  unfold Site.case
  dsimp only
  rw [hc target ht]
  cases placed[target]? with
  | some found => rfl
  | none => rfl

theorem keysAscend_map (pairs : List (Int32 × Mark)) :
    keysAscend (pairs.map fun (key, target) => (key, number target)) = keysAscend pairs := by
  fun_induction keysAscend pairs with
  | case1 first second rest ih =>
    rw [List.map_cons] at ih
    rw [List.map_cons, List.map_cons, keysAscend, ih]
  | case2 pairs hshort =>
    match pairs with
    | [] => rfl
    | [_] => rfl
    | first :: second :: rest => exact absurd rfl (hshort first second rest)

/-- An instruction is written in the same way under other marks. -/
theorem form_under (hc : Mark.Carries number marks placed placed')
    {instruction : Instruction Mark} (ht : ∀ target ∈ instruction.targets, target ∈ marks) :
    ((instruction.mapTargets number).form pool ⟨index, position, placed'⟩ :
        Except EncodingFault (Form narrow)) =
      (instruction.form pool ⟨index, position, placed⟩).map (formUnder number) := by
  cases instruction with
  | jump op target =>
    have htarget := ht target List.mem_cons_self
    rw [Instruction.mapTargets, Instruction.form, Instruction.form]
    split_ifs
    · exact congrArg (fun pieces => Except.ok (Form.mk pieces false)) (jump_under hc htarget _ _)
    · exact congrArg (fun pieces => Except.ok (Form.mk pieces false)) (jump_under hc htarget _ _)
    · cases op.inverse? with
      | some inverse => exact congrArg Except.ok (branch_under hc htarget op inverse)
      | none => rfl
  | tableSwitch otherwise low high targets =>
    have hotherwise := ht otherwise List.mem_cons_self
    rw [Instruction.mapTargets, Instruction.form, Instruction.form, List.length_map]
    split_ifs
    · rfl
    · rfl
    · have hcases : (targets.map number).map (Site.case ⟨index, position, placed'⟩) =
          (targets.map fun target => (Site.case ⟨index, position, placed⟩ target : Piece narrow)).map
            (pieceUnder number) := by
        rw [List.map_map, List.map_map]
        exact List.map_congr_left fun target hmem =>
          case_under hc (ht target (List.mem_cons_of_mem _ hmem))
      rw [hcases, case_under hc hotherwise]
      rfl
  | lookupSwitch otherwise pairs =>
    have hotherwise := ht otherwise List.mem_cons_self
    have hpairs : (pairs.map fun (key, target) => (key, number target)).flatMap (fun (key, target) =>
          [.bytes (Bytes.ofInt32 key), (Site.case ⟨index, position, placed'⟩ target)]) =
        (pairs.flatMap fun (key, target) => [.bytes (Bytes.ofInt32 key),
          (Site.case ⟨index, position, placed⟩ target : Piece narrow)]).map (pieceUnder number) := by
      rw [List.flatMap_map, List.map_flatMap]
      refine List.flatMap_congr ?_
      rintro ⟨key, target⟩ hmem
      have htarget := ht target (List.mem_cons_of_mem _ (List.mem_map_of_mem hmem))
      exact congrArg ([Piece.bytes (Bytes.ofInt32 key), ·]) (case_under hc htarget)
    rw [Instruction.mapTargets, Instruction.form, Instruction.form, List.length_map,
      keysAscend_map]
    split_ifs
    · rfl
    · rfl
    · rw [hpairs, case_under hc hotherwise]
      rfl
  | _ => rfl

end Sites

/-! ### Drafts -/

/-- Whether a draft is another one under other marks. -/
structure IsUnder (number : Mark → Mark) (marks : List Mark) (draft draft' : Draft narrow) :
    Prop where
  size : draft'.size = draft.size
  placed : Mark.Carries number marks draft.placed draft'.placed
  pieces : draft'.pieces = draft.pieces.map (pieceUnder number)
  landings : draft'.landings = draft.landings.map number

/-- Instructions are added to a draft in the same way under other marks. -/
theorem IsUnder.exists_extend (hs : Mark.Separates number marks) {index : Nat} {steps : List Step}
    {draft draft' last : Draft narrow} (h : IsUnder number marks draft draft')
    (hm : ∀ step ∈ steps, step.mark ∈ marks)
    (ht : ∀ step ∈ steps, ∀ target ∈ step.instruction.targets, target ∈ marks)
    (he : Draft.extend pool index steps draft = .ok last) :
    ∃ last', Draft.extend pool index (steps.map (Step.renumber number)) draft' = .ok last' ∧
      IsUnder number marks last last' := by
  induction steps generalizing index draft draft' with
  | nil =>
    obtain rfl := Except.ok.inj he
    exact ⟨draft', rfl, h⟩
  | cons step steps ih =>
    obtain ⟨hsize, form, hform, hrest⟩ := Draft.extend_cons_eq_ok.mp he
    have hmark := hm step List.mem_cons_self
    have hplaced := h.placed.insert hs hmark draft.size
    have hform' : (step.instruction.mapTargets number).form pool
        ⟨index, draft'.size, draft'.placed.insert (number step.mark) draft'.size⟩ =
          .ok (formUnder number form) := by
      rw [h.size, form_under hplaced (ht step List.mem_cons_self), hform]
      rfl
    have hnext : IsUnder number marks
        ⟨(form.pieces.map Piece.size).foldl (· + ·) draft.size,
          draft.placed.insert step.mark draft.size, form.pieces.reverse ++ draft.pieces,
          if form.bypasses then (steps.head?.map (·.mark)).toList ++ draft.landings
          else draft.landings⟩
        ⟨((formUnder number form).pieces.map Piece.size).foldl (· + ·) draft'.size,
          draft'.placed.insert (number step.mark) draft'.size,
          (formUnder number form).pieces.reverse ++ draft'.pieces,
          if (formUnder number form).bypasses then
            ((steps.map (Step.renumber number)).head?.map (·.mark)).toList ++ draft'.landings
          else draft'.landings⟩ := by
      refine ⟨?_, ?_, ?_, ?_⟩
      · rw [formUnder, size_pieceUnder, h.size]
      · rw [h.size]
        exact hplaced
      · rw [h.pieces, List.map_append, List.map_reverse]
        rfl
      · have hhead : ((steps.map (Step.renumber number)).head?.map (·.mark)).toList =
            ((steps.head?.map (·.mark)).toList).map number := by
          cases steps <;> rfl
        rw [hhead, h.landings]
        unfold formUnder
        dsimp only
        split_ifs
        · rw [List.map_append]
        · rfl
    obtain ⟨last', hlast', hunder⟩ := ih hnext (fun other ho => hm other (List.mem_cons_of_mem _ ho))
      (fun other ho => ht other (List.mem_cons_of_mem _ ho)) hrest
    refine ⟨last', Draft.extend_cons_eq_ok.mpr ⟨h.size ▸ hsize, formUnder number form, hform', hlast'⟩,
      hunder⟩

/-- Distances are put into pieces in the same way under other marks. -/
theorem resolve_under {placed placed' : Std.HashMap Mark Nat}
    (hc : Mark.Carries number marks placed placed')
    (hp : ∀ target position, placed[target]? = some position → target ∈ marks)
    {pieces : List (Piece narrow)} {written : Bytes} {outcome : Draft.Outcome narrow}
    (h : Draft.resolve placed pieces written = .ok outcome) :
    Draft.resolve placed' (pieces.map (pieceUnder number)) written = .ok outcome := by
  have hfind {target : Mark} {position : Nat} (hf : Draft.find placed target = .ok position) :
      Draft.find placed' (number target) = .ok position := by
    have hplaced := Draft.find_eq_ok.mp hf
    exact Draft.find_eq_ok.mpr ((hc target (hp target position hplaced)).trans hplaced)
  induction pieces generalizing written with
  | nil => exact h
  | cons piece pieces ih =>
    cases piece with
    | bytes content => exact ih h
    | word origin target =>
      rw [Draft.resolve] at h
      rw [List.map_cons, pieceUnder, Draft.resolve]
      cases hposition : Draft.find placed target with
      | error fault =>
        rw [hposition] at h
        cases h
      | ok position =>
        rw [hposition] at h
        rw [hfind hposition]
        exact ih h
    | half origin target jump =>
      rw [Draft.resolve] at h
      rw [List.map_cons, pieceUnder, Draft.resolve]
      cases hposition : Draft.find placed target with
      | error fault =>
        rw [hposition] at h
        cases h
      | ok position =>
        rw [hposition] at h
        rw [hfind hposition]
        dsimp only at h ⊢
        split_ifs at h ⊢
        · exact ih h
        · exact h

/-! ### Layouts -/

variable {steps : List Step} {layout : Layout}

/-- What comes of a draft comes of it under other marks. -/
theorem exists_trial_renumber (hs : Mark.Separates number (steps.map (·.mark)))
    (ht : ∀ step ∈ steps, ∀ target ∈ step.instruction.targets, target ∈ steps.map (·.mark)) :
    (∀ jump, trial pool steps narrow = .widens jump →
      trial pool (steps.map (Step.renumber number)) narrow = .widens jump) ∧
    ∀ layout, trial pool steps narrow = .ends (.ok layout) → ∃ placed',
      trial pool (steps.map (Step.renumber number)) narrow =
        .ends (.ok ⟨layout.code, placed', layout.landings.map number⟩) ∧
      Mark.Carries number (steps.map (·.mark)) layout.placed placed' := by
  unfold trial
  cases hdraft : Draft.extend pool 0 steps (Draft.empty : Draft narrow) with
  | error fault => exact ⟨fun _ h => (by cases h), fun _ h => (by cases h)⟩
  | ok draft =>
    have hempty : IsUnder number (steps.map (·.mark)) (Draft.empty : Draft narrow) Draft.empty := by
      refine ⟨rfl, fun mark _ => ?_, rfl, rfl⟩
      exact Std.HashMap.getElem?_empty.trans Std.HashMap.getElem?_empty.symm
    obtain ⟨draft', hdraft', hunder⟩ := hempty.exists_extend hs
      (fun step hm => List.mem_map_of_mem hm) ht hdraft
    have hplaced : ∀ target position, draft.placed[target]? = some position →
        target ∈ steps.map (·.mark) := by
      intro target position hp
      obtain ⟨step, hstep, rfl⟩ := (Draft.exists_of_getElem?_extend hdraft hp).resolve_right
        (by simp [Draft.empty])
      exact List.mem_map_of_mem hstep
    rw [hdraft']
    dsimp only
    rw [hunder.size, hunder.pieces, ← List.map_reverse]
    split_ifs
    · exact ⟨fun _ h => (by cases h), fun _ h => (by cases h)⟩
    · cases hresolve : Draft.resolve draft.placed draft.pieces.reverse [] with
      | error fault => exact ⟨fun _ h => (by cases h), fun _ h => (by cases h)⟩
      | ok outcome =>
        rw [resolve_under hunder.placed hplaced hresolve]
        cases outcome with
        | code code =>
          refine ⟨fun _ h => (by cases h), fun _ h => ?_⟩
          obtain rfl := Except.ok.inj (Trial.ends.inj h)
          refine ⟨draft'.placed, ?_, hunder.placed⟩
          dsimp only
          rw [hunder.landings, List.map_reverse]
        | tooFar jump => exact ⟨fun _ h => h, fun _ h => (by cases h)⟩

theorem jumps_renumber (steps : List Step) :
    jumps (steps.map (Step.renumber number)) = jumps steps := by
  unfold jumps
  rw [List.zipIdx_map, List.foldl_map]
  congr 1
  funext found ⟨step, index⟩
  obtain ⟨mark, instruction⟩ := step
  cases instruction <;> rfl

/-- Instructions are laid out in the same way under other marks. -/
theorem exists_ofSteps_renumber (hs : Mark.Separates number (steps.map (·.mark)))
    (ht : ∀ step ∈ steps, ∀ target ∈ step.instruction.targets, target ∈ steps.map (·.mark))
    (h : ofSteps pool steps = .ok layout) : ∃ placed',
      ofSteps pool (steps.map (Step.renumber number)) =
        .ok ⟨layout.code, placed', layout.landings.map number⟩ ∧
      Mark.Carries number (steps.map (·.mark)) layout.placed placed' := by
  unfold ofSteps at h ⊢
  rw [jumps_renumber]
  obtain ⟨widened, hdrafts⟩ := exists_drafts pool steps (jumps steps)
  rw [h] at hdrafts
  generalize jumps steps = narrow at hdrafts
  generalize hanswer : (Except.ok layout : Except ClassFault Layout) = answer at hdrafts
  induction hdrafts with
  | last htrial =>
    subst hanswer
    obtain ⟨placed', htrial', hc⟩ := (exists_trial_renumber hs ht).2 layout htrial
    refine ⟨placed', ?_, hc⟩
    rw [within_eq_trial, htrial']
  | again htrial _ ih =>
    rw [within_eq_trial, (exists_trial_renumber hs ht).1 _ htrial]
    exact ih hanswer

end Layout

/-! ### Jumps with a bypass as two instructions -/

/-- Whether an instruction of some steps is one of others, at its place and under another mark, or
two of them: a jump with a bypass, which lands at the instruction that follows, is the jump on the
opposite condition to that instruction, and a `goto` to the target. -/
inductive Step.IsUnfolded (number : Mark → Mark) (place : Nat → Nat) (steps again : List Step)
    (index : Nat) (step : Step) : Prop
  | same (h : again[place index]? = some (step.renumber number))
      (hplace : place (index + 1) = place index + 1) :
      IsUnfolded number place steps again index step
  | bypass {op inverse : Opcode} {target extra : Mark} {next : Step}
      (hs : step.instruction = .jump op target) (hi : op.inverse? = some inverse)
      (hn : steps[index + 1]? = some next)
      (h : again[place index]? = some ⟨number step.mark, .jump inverse (number next.mark)⟩)
      (hgoto : again[place index + 1]? = some ⟨extra, .jump Opcode.goto (number target)⟩)
      (hplace : place (index + 1) = place index + 2) :
      IsUnfolded number place steps again index step

/-- Whether steps are others under other marks, where jumps with a bypass are two instructions, and
the bypasses land at the given marks. -/
structure Step.AreUnfolded (number : Mark → Mark) (place : Nat → Nat) (landings : List Mark)
    (steps again : List Step) : Prop where
  first : place 0 = 0
  last : place steps.length = again.length
  unfolded : ∀ (index : Nat) step, steps[index]? = some step →
    step.IsUnfolded number place steps again index
  landed : ∀ mark, mark ∈ landings ↔ ∃ (index : Nat) (next : Step),
    steps[index + 1]? = some next ∧ next.mark = mark ∧ place (index + 1) = place index + 2
  distinct : (steps.map (·.mark)).Nodup
  nodup : (again.map (·.mark)).Nodup
  targets : ∀ step ∈ steps, ∀ mark ∈ step.instruction.targets, mark ∈ steps.map (·.mark)

theorem Opcode.inverse?_of_inverse? {op inverse : Opcode} (h : op.inverse? = some inverse) :
    inverse.inverse? = some op := by
  have hop := inverse?_inverse? ⟨op.toNat, op.toNat_lt⟩
  rw [UInt8.ofNat_toNat] at hop
  exact hop inverse h

/-- Steps with distinct marks stand at one place each. -/
theorem Step.index_eq {all : List Step} (hn : (all.map (·.mark)).Nodup) {i j : Nat}
    {step other : Step} (hi : all[i]? = some step) (hj : all[j]? = some other)
    (h : step.mark = other.mark) : i = j := by
  have hmark : (all.map (·.mark))[i]? = (all.map (·.mark))[j]? := by
    rw [List.getElem?_map, List.getElem?_map, hi, hj, Option.map_some, Option.map_some, h]
  refine (List.getElem?_inj ?_ hn).mp hmark
  rw [List.length_map]
  exact (List.getElem?_eq_some_iff.mp hi).1

namespace Step.AreUnfolded

variable {number : Mark → Mark} {place : Nat → Nat} {landings : List Mark}
  {steps again : List Step}

/-- Each instruction has a place. -/
theorem exists_at (h : AreUnfolded number place landings steps again) {index : Nat} {step : Step}
    (hs : steps[index]? = some step) : ∃ step', again[place index]? = some step' ∧
      step'.mark = number step.mark := by
  cases h.unfolded index step hs with
  | same hsame => exact ⟨_, hsame, rfl⟩
  | bypass _ _ _ hfirst => exact ⟨_, hfirst, rfl⟩

theorem place_succ (h : AreUnfolded number place landings steps again) {index : Nat}
    (hi : index < steps.length) :
    place (index + 1) = place index + 1 ∨ place (index + 1) = place index + 2 := by
  cases h.unfolded index _ (List.getElem?_eq_getElem hi) with
  | same _ hplace => exact .inl hplace
  | bypass _ _ _ _ _ hplace => exact .inr hplace

theorem place_lt_succ (h : AreUnfolded number place landings steps again) {index : Nat}
    (hi : index < steps.length) : place index < place (index + 1) := by
  have hnext := h.place_succ hi
  omega

/-- A bypass lands at what follows the jump. -/
theorem mem_landings (h : AreUnfolded number place landings steps again) {index : Nat} {next : Step}
    (hn : steps[index + 1]? = some next) :
    next.mark ∈ landings ↔ place (index + 1) = place index + 2 := by
  refine (h.landed next.mark).trans ⟨?_, fun hp => ⟨index, next, hn, rfl, hp⟩⟩
  rintro ⟨i, other, hother, hmark, hp⟩
  obtain rfl := Nat.succ.inj (Step.index_eq h.distinct hother hn hmark)
  exact hp

/-- Instructions stand in the same order. -/
theorem place_lt (h : AreUnfolded number place landings steps again) {i j : Nat} (hij : i < j)
    (hj : j ≤ steps.length) : place i < place j := by
  induction j with
  | zero => cases hij
  | succ j ih =>
    have hnext := h.place_lt_succ hj
    rcases Nat.lt_or_eq_of_le (Nat.le_of_lt_succ hij) with hlt | rfl
    · exact Nat.lt_trans (ih hlt (Nat.le_of_succ_le hj)) hnext
    · exact hnext

theorem place_lt_iff (h : AreUnfolded number place landings steps again) {i j : Nat}
    (hi : i ≤ steps.length) (hj : j ≤ steps.length) : place i < place j ↔ i < j := by
  refine ⟨fun hlt => ?_, fun hlt => h.place_lt hlt hj⟩
  by_contra hle
  rcases Nat.lt_or_eq_of_le (Nat.le_of_not_lt hle) with hgt | rfl
  · exact Nat.lt_asymm hlt (h.place_lt hgt hi)
  · exact Nat.lt_irrefl _ hlt

theorem place_le_iff (h : AreUnfolded number place landings steps again) {i j : Nat}
    (hi : i ≤ steps.length) (hj : j ≤ steps.length) : place i ≤ place j ↔ i ≤ j := by
  rw [← Nat.not_lt, h.place_lt_iff hj hi, Nat.not_lt]

theorem place_inj (h : AreUnfolded number place landings steps again) {i j : Nat}
    (hi : i ≤ steps.length) (hj : j ≤ steps.length) : place i = place j ↔ i = j := by
  have hlt := h.place_lt_iff hi hj
  have hgt := h.place_lt_iff hj hi
  constructor
  · intro he
    omega
  · rintro rfl
    rfl

/-- What stands at a place before the last one is an instruction that has it. -/
theorem lt_of_getElem? (h : AreUnfolded number place landings steps again) {i : Nat}
    (hi : i ≤ steps.length) {step' : Step} (hs : again[place i]? = some step') :
    i < steps.length := by
  have hlt := (List.getElem?_eq_some_iff.mp hs).1
  rwa [← h.last, h.place_lt_iff hi (Nat.le_refl _)] at hlt

/-- The second instruction of a jump with a bypass stands at the place of no other one. -/
theorem place_ne (h : AreUnfolded number place landings steps again) {i j : Nat}
    (hi : i < steps.length) (hp : place (i + 1) = place i + 2) (hj : j ≤ steps.length) :
    place j ≠ place i + 1 := by
  have hnext : i + 1 ≤ steps.length := hi
  have hlt := h.place_lt_iff hj hnext
  have hgt := h.place_lt_iff (Nat.le_of_lt hi) hj
  omega

/-- Every place is that of an instruction, or follows that of a jump with a bypass. -/
theorem exists_place (h : AreUnfolded number place landings steps again) {k : Nat}
    (hk : k < again.length) : ∃ i < steps.length, place i = k ∨
      place i + 1 = k ∧ place (i + 1) = place i + 2 := by
  suffices hbefore : ∀ n ≤ steps.length, k < place n → ∃ i < n, place i = k ∨
      place i + 1 = k ∧ place (i + 1) = place i + 2 from
    hbefore steps.length (Nat.le_refl _) (h.last ▸ hk)
  intro n hn hlt
  induction n with
  | zero =>
    rw [h.first] at hlt
    cases hlt
  | succ n ih =>
    rcases Nat.lt_or_ge k (place n) with hearlier | hlater
    · obtain ⟨i, hi, hplace⟩ := ih (Nat.le_of_succ_le hn) hearlier
      exact ⟨i, Nat.lt_succ_of_lt hi, hplace⟩
    · refine ⟨n, Nat.lt_succ_self n, ?_⟩
      have hnext := h.place_succ hn
      omega

/-- What is read back is an instruction under other marks, or one of the two of a bypass. -/
theorem cases_of_getElem? (h : AreUnfolded number place landings steps again) {k : Nat}
    {step' : Step} (hk : again[k]? = some step') :
    (∃ (i : Nat) (step : Step), steps[i]? = some step ∧ k = place i ∧ place (i + 1) = place i + 1 ∧
        step' = step.renumber number) ∨
      ∃ (i : Nat) (step next : Step) (op inverse : Opcode) (target : Mark), steps[i]? = some step ∧
        step.instruction = .jump op target ∧ op.inverse? = some inverse ∧
        steps[i + 1]? = some next ∧ place (i + 1) = place i + 2 ∧
        (k = place i ∧ step'.instruction = .jump inverse (number next.mark) ∨
          k = place i + 1 ∧ step'.instruction = .jump Opcode.goto (number target)) := by
  obtain ⟨i, hi, hplace⟩ := h.exists_place (List.getElem?_eq_some_iff.mp hk).1
  have hstep : steps[i]? = some steps[i] := List.getElem?_eq_getElem hi
  cases h.unfolded i _ hstep with
  | same hsame hnext =>
    rcases hplace with rfl | ⟨-, hwrong⟩
    · exact .inl ⟨i, _, hstep, rfl, hnext, Option.some.inj (hk.symm.trans hsame)⟩
    · omega
  | bypass hs hi hn hfirst hgoto hnext =>
    refine .inr ⟨i, _, _, _, _, _, hstep, hs, hi, hn, hnext, ?_⟩
    rcases hplace with rfl | ⟨rfl, -⟩
    · exact .inl ⟨rfl, by rw [Option.some.inj (hk.symm.trans hfirst)]⟩
    · exact .inr ⟨rfl, by rw [Option.some.inj (hk.symm.trans hgoto)]⟩

/-- What is marked as an instruction stands at its place. -/
theorem eq_place (h : AreUnfolded number place landings steps again) {index k : Nat}
    {step step' : Step} (hs : steps[index]? = some step) (hk : again[k]? = some step')
    (hm : step'.mark = number step.mark) : k = place index := by
  obtain ⟨other, hother, hmark⟩ := h.exists_at hs
  exact Step.index_eq h.nodup hk hother (hm.trans hmark.symm)

/-- What is jumped to under other marks stands at the place of the target. -/
theorem exists_target (h : AreUnfolded number place landings steps again) {step : Step}
    (hs : step ∈ steps) {target : Mark} (ht : target ∈ step.instruction.targets) {k : Nat}
    {step' : Step} (hk : again[k]? = some step') (hm : step'.mark = number target) :
    ∃ (j : Nat) (other : Step), steps[j]? = some other ∧ other.mark = target ∧ k = place j := by
  obtain ⟨other, hother, rfl⟩ := List.mem_map.mp (h.targets step hs target ht)
  obtain ⟨j, hj⟩ := List.mem_iff_getElem?.mp hother
  exact ⟨j, other, hj, rfl, h.eq_place hj hk hm⟩

/-- A range contains the same instructions. -/
theorem contains_place (h : AreUnfolded number place landings steps again) {start stop i : Nat}
    (hstart : start ≤ steps.length) (hstop : stop ≤ steps.length) (hi : i ≤ steps.length) :
    place start ≤ place i ∧ place i < place stop ↔ start ≤ i ∧ i < stop := by
  rw [h.place_le_iff hstart hi, h.place_lt_iff hi hstop]

/-- A range contains the second instruction of a jump with a bypass if it contains the jump. -/
theorem contains_place_succ (h : AreUnfolded number place landings steps again) {start stop i : Nat}
    (hstart : start ≤ steps.length) (hstop : stop ≤ steps.length) (hi : i < steps.length)
    (hp : place (i + 1) = place i + 2) :
    place start ≤ place i + 1 ∧ place i + 1 < place stop ↔ start ≤ i ∧ i < stop := by
  rw [← h.contains_place hstart hstop (Nat.le_of_lt hi)]
  have hfirst := h.place_ne hi hp hstart
  have hlast := h.place_ne hi hp hstop
  omega

end Step.AreUnfolded

end ClassGraft

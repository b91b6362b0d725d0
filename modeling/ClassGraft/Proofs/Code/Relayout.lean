import ClassGraft.Proofs.Code.Shortness

/-!
# Jumps with a bypass that are read back

Where no instruction is a switch, a layout is the least one there is
(`Layout.exists_of_admits`).  So code in which jumps with a bypass became two instructions each is
laid out as it was (`Layout.exists_ofSteps_unfolded`): where the one layout puts instructions there
is room for the other one, and the other way around.
-/

namespace ClassGraft

variable {pool : Pool}

/-! ### Instructions under other marks -/

/-- A jump with an opposite one has a bypass if it is far. -/
theorem Opcode.ne_of_inverse? {op inverse : Opcode} (h : op.inverse? = some inverse) :
    op ≠ goto ∧ op ≠ jsr := by
  constructor
  · rintro rfl
    cases h
  · rintro rfl
    cases h

theorem Opcode.farSize_of_inverse? {op inverse : Opcode} (h : op.inverse? = some inverse) :
    op.farSize = 8 := by
  have hc : op.isConditional = true := decide_eq_true (ne_of_inverse? h)
  rw [farSize, if_pos hc]

/-- A jump with a bypass is written as a jump on the opposite condition over a long `goto`. -/
theorem Opcode.far_of_inverse? {op inverse : Opcode} (h : op.inverse? = some inverse)
    (origin target : Nat) :
    op.far origin target = inverse.near origin (origin + 8) ++ goto.far (origin + 3) target := by
  obtain ⟨hgoto, hjsr⟩ := ne_of_inverse? h
  have hnear : distance origin (origin + 8) = 8 := by
    rw [distance]
    omega
  rw [far, farHead, farOrigin, if_neg hgoto, if_neg hjsr, if_neg (not_or.mpr ⟨hgoto, hjsr⟩), h, near,
    hnear]
  rfl

namespace Instruction

variable {instruction : Instruction Mark} {content : Bytes} {number : Mark → Mark}

theorem isSwitch_mapTargets {τ σ : Type} (f : τ → σ) (instruction : Instruction τ) :
    (instruction.mapTargets f).isSwitch = instruction.isSwitch := by
  cases instruction <;> rfl

/-- What is written as the same bytes everywhere is so under other marks. -/
theorem isFixed_mapTargets (hs : instruction.isSwitch = false) :
    (instruction.mapTargets number).IsFixed pool content ↔ instruction.IsFixed pool content := by
  cases instruction with
  | jump op target =>
    exact iff_of_false (not_isFixed_jump _ _ _) (not_isFixed_jump _ _ _)
  | tableSwitch | lookupSwitch => cases hs
  | _ => exact Iff.rfl

theorem isWritable_jump {op : Opcode} {target : Mark} : (jump op target).IsWritable pool ↔
    op = Opcode.goto ∨ op = Opcode.jsr ∨ ∃ inverse, op.inverse? = some inverse := by
  constructor
  · intro h
    obtain ⟨form, hform⟩ := h ∅ ⟨0, 0, ∅⟩
    rw [Instruction.form] at hform
    split_ifs at hform with hgoto hjsr
    · exact .inl (eq_of_beq hgoto)
    · exact .inr (.inl (eq_of_beq hjsr))
    · cases hinverse : op.inverse? with
      | some inverse => exact .inr (.inr ⟨inverse, rfl⟩)
      | none =>
        rw [hinverse] at hform
        cases hform
  · intro h narrow site
    rw [Instruction.form]
    split_ifs with hgoto hjsr
    · exact ⟨_, rfl⟩
    · exact ⟨_, rfl⟩
    · rcases h with rfl | rfl | ⟨inverse, hinverse⟩
      · exact absurd rfl hgoto
      · exact absurd rfl hjsr
      · rw [hinverse]
        exact ⟨_, rfl⟩

theorem isWritable_mapTargets (hs : instruction.isSwitch = false)
    (h : instruction.IsWritable pool) : (instruction.mapTargets number).IsWritable pool := by
  cases instruction with
  | jump op target => exact isWritable_jump.mpr (isWritable_jump.mp h)
  | tableSwitch | lookupSwitch => cases hs
  | _ => exact fun _ _ => ⟨_, rfl⟩

namespace IsWrittenAs

variable {placed placed' : Std.HashMap Mark Nat} {origin : Nat} {chunk chunk' : Bytes}

/-- An instruction is the same bytes under other marks, if it takes as many of them. -/
theorem eq_of_length (h : instruction.IsWrittenAs pool placed origin chunk)
    (h' : (instruction.mapTargets number).IsWrittenAs pool placed' origin chunk')
    (hs : instruction.isSwitch = false)
    (hc : ∀ target ∈ instruction.targets, placed'[number target]? = placed[target]?)
    (hl : chunk'.length = chunk.length) : chunk' = chunk := by
  cases h with
  | fixed hfixed => exact h'.eq_of_isFixed ((isFixed_mapTargets hs).mpr hfixed)
  | @near op target position hp hd =>
    obtain ⟨position', hposition, ⟨-, rfl⟩ | rfl⟩ := h'.of_jump
    · rw [hc target (List.mem_singleton.mpr rfl), hp] at hposition
      rw [Option.some.inj hposition]
    · rw [Opcode.length_far, Opcode.length_near, Opcode.farSize] at hl
      split_ifs at hl <;> cases hl
  | @far op target position hp =>
    obtain ⟨position', hposition, ⟨-, rfl⟩ | rfl⟩ := h'.of_jump
    · rw [Opcode.length_far, Opcode.length_near, Opcode.farSize] at hl
      split_ifs at hl <;> cases hl
    · rw [hc target (List.mem_singleton.mpr rfl), hp] at hposition
      rw [Option.some.inj hposition]

/-- A jump with a bypass is the same bytes as two instructions. -/
theorem eq_append {op inverse : Opcode} {target next extra : Mark} {chunk'' : Bytes}
    (hi : op.inverse? = some inverse) (h : (jump op target).IsWrittenAs pool placed origin chunk)
    (h' : (jump inverse next).IsWrittenAs pool placed' origin chunk')
    (h'' : (jump Opcode.goto extra).IsWrittenAs pool placed' (origin + 3) chunk'')
    (hn : placed'[next]? = some (origin + 8)) (hc : placed'[extra]? = placed[target]?)
    (hl : chunk.length = 8) (hl' : chunk'.length = 3) (hl'' : chunk''.length = 5) :
    chunk = chunk' ++ chunk'' := by
  have hfive : Opcode.goto.farSize = 5 := rfl
  obtain ⟨position, hposition, ⟨-, rfl⟩ | rfl⟩ := h.of_jump
  · cases hl
  obtain ⟨position', hposition', ⟨-, rfl⟩ | rfl⟩ := h'.of_jump
  · obtain ⟨position'', hposition'', ⟨-, rfl⟩ | rfl⟩ := h''.of_jump
    · cases hl''
    · obtain rfl := Option.some.inj (hn.symm.trans hposition')
      rw [hc, hposition] at hposition''
      rw [Opcode.far_of_inverse? hi, Option.some.inj hposition'']
  · rw [Opcode.length_far, Opcode.farSize_of_inverse? (Opcode.inverse?_of_inverse? hi)] at hl'
    cases hl'

end IsWrittenAs

end Instruction

/-! ### Room for both layouts -/

section Places

variable {number : Mark → Mark} {place : Nat → Nat} {landings : List Mark} {steps again : List Step}

theorem Instruction.exists_of_mapTargets_eq_jump {instruction : Instruction Mark} {op : Opcode}
    {target : Mark} (h : instruction.mapTargets number = .jump op target) :
    ∃ origin, instruction = .jump op origin ∧ number origin = target := by
  cases instruction with
  | jump op' origin =>
    obtain ⟨rfl, rfl⟩ := Instruction.jump.inj h
    exact ⟨origin, rfl, rfl⟩
  | _ => cases h

namespace Step.AreUnfolded

theorem isSwitch_eq_false (h : AreUnfolded number place landings steps again)
    (hs : ∀ step ∈ steps, step.instruction.isSwitch = false) :
    ∀ step ∈ again, step.instruction.isSwitch = false := by
  intro step' hstep'
  obtain ⟨k, hk⟩ := List.mem_iff_getElem?.mp hstep'
  rcases h.cases_of_getElem? hk with ⟨i, step, hstep, -, -, rfl⟩ |
    ⟨_, _, _, _, _, _, -, -, -, -, -, ⟨-, hjump⟩ | ⟨-, hjump⟩⟩
  · rw [Step.renumber, Instruction.isSwitch_mapTargets]
    exact hs step (List.mem_of_getElem? hstep)
  · rw [hjump]
    rfl
  · rw [hjump]
    rfl

theorem isWritable (h : AreUnfolded number place landings steps again)
    (hs : ∀ step ∈ steps, step.instruction.isSwitch = false)
    (hw : ∀ step ∈ steps, step.instruction.IsWritable pool) :
    ∀ step ∈ again, step.instruction.IsWritable pool := by
  intro step' hstep'
  obtain ⟨k, hk⟩ := List.mem_iff_getElem?.mp hstep'
  rcases h.cases_of_getElem? hk with ⟨i, step, hstep, -, -, rfl⟩ |
    ⟨_, _, _, op, _, _, -, -, hinverse, -, -, ⟨-, hjump⟩ | ⟨-, hjump⟩⟩
  · have hmem := List.mem_of_getElem? hstep
    exact Instruction.isWritable_mapTargets (hs step hmem) (hw step hmem)
  · rw [hjump]
    exact Instruction.isWritable_jump.mpr (.inr (.inr ⟨op, Opcode.inverse?_of_inverse? hinverse⟩))
  · rw [hjump]
    exact Instruction.isWritable_jump.mpr (.inl rfl)

/-- All targets are instructions that are read back. -/
theorem targets_again (h : AreUnfolded number place landings steps again) :
    ∀ step ∈ again, ∀ target ∈ step.instruction.targets, target ∈ again.map (·.mark) := by
  have hplaced {i : Nat} {step : Step} (hstep : steps[i]? = some step) :
      number step.mark ∈ again.map (·.mark) := by
    obtain ⟨step', hstep', hmark⟩ := h.exists_at hstep
    exact List.mem_map.mpr ⟨step', List.mem_of_getElem? hstep', hmark⟩
  have hnumbered {i : Nat} {step : Step} (hstep : steps[i]? = some step) {target : Mark}
      (ht : target ∈ step.instruction.targets) : number target ∈ again.map (·.mark) := by
    obtain ⟨other, hother, rfl⟩ :=
      List.mem_map.mp (h.targets step (List.mem_of_getElem? hstep) target ht)
    obtain ⟨j, hj⟩ := List.mem_iff_getElem?.mp hother
    exact hplaced hj
  intro step' hstep' target' ht
  obtain ⟨k, hk⟩ := List.mem_iff_getElem?.mp hstep'
  rcases h.cases_of_getElem? hk with ⟨i, step, hstep, -, -, rfl⟩ |
    ⟨i, step, next, op, _, target, hstep, hjump', -, hnext, -, ⟨-, hjump⟩ | ⟨-, hjump⟩⟩
  · rw [Step.renumber, Instruction.targets_mapTargets] at ht
    obtain ⟨target, htarget, rfl⟩ := List.mem_map.mp ht
    exact hnumbered hstep htarget
  · rw [hjump] at ht
    obtain rfl := List.mem_singleton.mp ht
    exact hplaced hnext
  · rw [hjump] at ht
    obtain rfl := List.mem_singleton.mp ht
    refine hnumbered hstep ?_
    rw [hjump']
    exact List.mem_singleton.mpr rfl

/-- There are places for what is read back, given those of the instructions. -/
theorem exists_places (h : AreUnfolded number place landings steps again) (start : Nat → Nat) :
    ∃ start' : Nat → Nat, (∀ i ≤ steps.length, start' (place i) = start i) ∧
      ∀ i < steps.length, place (i + 1) = place i + 2 → start' (place i + 1) = start i + 3 := by
  classical
  refine ⟨fun k => if hk : ∃ i ≤ steps.length, place i = k then start hk.choose
    else if hk : ∃ i < steps.length, place i + 1 = k then start hk.choose + 3 else 0,
    fun i hi => ?_, fun i hi hp => ?_⟩
  · have hk : ∃ j ≤ steps.length, place j = place i := ⟨i, hi, rfl⟩
    dsimp only
    rw [dif_pos hk, (h.place_inj hk.choose_spec.1 hi).mp hk.choose_spec.2]
  · have hnot : ¬∃ j ≤ steps.length, place j = place i + 1 := by
      rintro ⟨j, hj, he⟩
      exact h.place_ne hi hp hj he
    have hk : ∃ j < steps.length, place j + 1 = place i + 1 := ⟨i, hi, rfl⟩
    have he := Nat.succ.inj hk.choose_spec.2
    dsimp only
    rw [dif_neg hnot, dif_pos hk,
      (h.place_inj (Nat.le_of_lt hk.choose_spec.1) (Nat.le_of_lt hi)).mp he]

variable {start start' : Nat → Nat}

/-- Where there is room for the instructions, there is room for what is read back. -/
theorem admits_again (h : AreUnfolded number place landings steps again)
    (hs : ∀ step ∈ steps, step.instruction.isSwitch = false)
    (ha : Layout.Admits pool steps start) (hq : ∀ i ≤ steps.length, start' (place i) = start i)
    (hq' : ∀ i < steps.length, place (i + 1) = place i + 2 → start' (place i + 1) = start i + 3)
    (h8 : ∀ i < steps.length, place (i + 1) = place i + 2 → start (i + 1) = start i + 8) :
    Layout.Admits pool again start' := by
  have hlt {i : Nat} {step : Step} (hstep : steps[i]? = some step) : i < steps.length :=
    (List.getElem?_eq_some_iff.mp hstep).1
  refine ⟨fun k step' content hk hcontent => ?_, fun k step' op target hk hjump => ?_,
    fun k step' op j' other' hk hj' hjump => ?_⟩
  · rcases h.cases_of_getElem? hk with ⟨i, step, hstep, rfl, hnext, rfl⟩ |
      ⟨_, _, _, _, _, _, -, -, -, -, -, ⟨-, hwrong⟩ | ⟨-, hwrong⟩⟩
    · rw [← hnext, hq i (Nat.le_of_lt (hlt hstep)), hq (i + 1) (hlt hstep)]
      exact ha.fixed i step content hstep
        ((Instruction.isFixed_mapTargets (hs step (List.mem_of_getElem? hstep))).mp hcontent)
    · rw [hwrong] at hcontent
      exact absurd hcontent (Instruction.not_isFixed_jump _ _ _)
    · rw [hwrong] at hcontent
      exact absurd hcontent (Instruction.not_isFixed_jump _ _ _)
  · rcases h.cases_of_getElem? hk with ⟨i, step, hstep, rfl, hnext, rfl⟩ |
      ⟨i, step, _, _, _, _, hstep, -, -, -, hp, ⟨rfl, -⟩ | ⟨rfl, -⟩⟩
    · obtain ⟨origin, horigin, -⟩ := Instruction.exists_of_mapTargets_eq_jump hjump
      rw [← hnext, hq i (Nat.le_of_lt (hlt hstep)), hq (i + 1) (hlt hstep)]
      exact ha.near i step op origin hstep horigin
    · rw [hq i (Nat.le_of_lt (hlt hstep)), hq' i (hlt hstep) hp]
      omega
    · rw [hq' i (hlt hstep) hp, Nat.add_assoc, ← hp, hq (i + 1) (hlt hstep), h8 i (hlt hstep) hp]
      omega
  · rcases h.cases_of_getElem? hk with ⟨i, step, hstep, rfl, hnext, rfl⟩ |
      ⟨i, step, next, _, _, _, hstep, -, -, hfollows, hp, ⟨rfl, hinverse⟩ | ⟨rfl, hgoto⟩⟩
    · obtain ⟨origin, horigin, hmark⟩ := Instruction.exists_of_mapTargets_eq_jump hjump
      have ht : origin ∈ step.instruction.targets := by
        rw [horigin]
        exact List.mem_singleton.mpr rfl
      obtain ⟨j, other, hother, rfl, rfl⟩ :=
        h.exists_target (List.mem_of_getElem? hstep) ht hj' hmark.symm
      have hi := hlt hstep
      have hj := hlt hother
      unfold Layout.Reaches
      rw [← hnext, hq i (Nat.le_of_lt hi), hq (i + 1) hi, hq j (Nat.le_of_lt hj),
        h.place_lt_iff (Nat.le_of_lt hi) (Nat.le_of_lt hj),
        h.place_le_iff (Nat.le_of_lt hj) (Nat.le_of_lt hi)]
      exact ha.far i step op j other hstep hother horigin
    · -- the jump on the opposite condition leads behind the long one
      have hi := hlt hstep
      obtain ⟨-, hmark⟩ := Instruction.jump.inj (hinverse.symm.trans hjump)
      obtain rfl := h.eq_place hfollows hj' hmark.symm
      have hafter := h.place_lt_succ hi
      refine .inr (.inl ⟨hafter, ?_⟩)
      rw [hq (i + 1) hi, h8 i hi hp, hq' i hi hp]
      omega
    · have hi := hlt hstep
      obtain ⟨rfl, -⟩ := Instruction.jump.inj (hgoto.symm.trans hjump)
      refine .inl ?_
      rw [hq' i hi hp, Nat.add_assoc, ← hp, hq (i + 1) hi, h8 i hi hp]
      show 5 + (start i + 3) ≤ start i + 8
      omega

/-- Where there is room for what is read back, there is room for the instructions. -/
theorem admits (h : AreUnfolded number place landings steps again)
    (hs : ∀ step ∈ steps, step.instruction.isSwitch = false)
    (ha : Layout.Admits pool again start') : Layout.Admits pool steps fun i => start' (place i) := by
  have hlt {i : Nat} {step : Step} (hstep : steps[i]? = some step) : i < steps.length :=
    (List.getElem?_eq_some_iff.mp hstep).1
  refine ⟨fun i step content hstep hcontent => ?_, fun i step op target hstep hjump => ?_,
    fun i step op j other hstep hother hjump => ?_⟩
  · cases h.unfolded i step hstep with
    | same hsame hnext =>
      rw [hnext]
      exact ha.fixed (place i) _ content hsame
        ((Instruction.isFixed_mapTargets (hs step (List.mem_of_getElem? hstep))).mpr hcontent)
    | bypass hwrong =>
      rw [hwrong] at hcontent
      exact absurd hcontent (Instruction.not_isFixed_jump _ _ _)
  · cases h.unfolded i step hstep with
    | same hsame hnext =>
      rw [hnext]
      exact ha.near (place i) _ op (number target) hsame (by rw [Step.renumber, hjump]; rfl)
    | bypass _ _ _ hfirst hgoto hnext =>
      have hinverse := ha.near _ _ _ _ hfirst rfl
      have hlong : 3 + start' (place i + 1) ≤ start' (place i + 2) := ha.near _ _ _ _ hgoto rfl
      rw [hnext]
      omega
  · obtain ⟨other', hother', hmark⟩ := h.exists_at hother
    have hi := hlt hstep
    have hj := hlt hother
    cases h.unfolded i step hstep with
    | same hsame hnext =>
      have hroom := ha.far (place i) _ op (place j) other' hsame hother'
        (by rw [Step.renumber, hjump, hmark]; rfl)
      unfold Layout.Reaches at hroom ⊢
      rwa [← hnext, h.place_lt_iff (Nat.le_of_lt hi) (Nat.le_of_lt hj),
        h.place_le_iff (Nat.le_of_lt hj) (Nat.le_of_lt hi)] at hroom
    | bypass hinstruction hinverse hfollows hfirst hgoto hnext =>
      obtain ⟨rfl, rfl⟩ := Instruction.jump.inj (hjump.symm.trans hinstruction)
      have hshort := ha.near _ _ _ _ hfirst rfl
      have hroom := ha.far (place i + 1) _ Opcode.goto (place j) other' hgoto hother'
        (by rw [hmark])
      have hne := h.place_ne hi hnext (Nat.le_of_lt hj)
      have hafter := h.place_lt_iff (Nat.le_of_lt hi) (Nat.le_of_lt hj)
      unfold Layout.Reaches at hroom ⊢
      dsimp only
      rw [Nat.add_assoc, ← hnext] at hroom
      rw [Opcode.farSize_of_inverse? hinverse]
      -- the long jump takes five bytes, or its target is near the instructions as well
      rcases hroom with hfits | ⟨hahead, hnear⟩ | ⟨hback, hnear⟩
      · have hfive : 5 + start' (place i + 1) ≤ start' (place (i + 1)) := hfits
        exact .inl (by omega)
      · exact .inr (.inl ⟨hafter.mp (by omega), hnear⟩)
      · refine .inr (.inr ⟨?_, by omega⟩)
        exact (h.place_le_iff (Nat.le_of_lt hj) (Nat.le_of_lt hi)).mp (by omega)

end Step.AreUnfolded

namespace Layout

variable {start start' : Nat → Nat} {layout layout' : Layout} {chunks chunks' : List Bytes}

/-- Instructions that take no more room than there was are where they were, if there would be room
for them as they were. -/
theorem start_eq (h : Step.AreUnfolded number place landings steps again) {start₂ : Nat → Nat}
    (hz : start 0 = 0) (hz₂ : start₂ 0 = 0)
    (hq : ∀ i ≤ steps.length, start' (place i) = start i)
    (hq' : ∀ i < steps.length, place (i + 1) = place i + 2 → start' (place i + 1) = start i + 3)
    (h8 : ∀ i < steps.length, place (i + 1) = place i + 2 → start (i + 1) = start i + 8)
    (hup : ∀ k < again.length, start₂ (k + 1) + start' k ≤ start' (k + 1) + start₂ k)
    (hdown : ∀ i < steps.length, start (i + 1) + start₂ (place i) ≤ start₂ (place (i + 1)) + start i) :
    (∀ i ≤ steps.length, start₂ (place i) = start i) ∧
      ∀ i < steps.length, place (i + 1) = place i + 2 → start₂ (place i + 1) = start i + 3 := by
  -- the two instructions of a bypass take three bytes and five at most
  have hbypass {i : Nat} (hi : i < steps.length) (hp : place (i + 1) = place i + 2) :
      start₂ (place i + 1) ≤ start₂ (place i) + 3 ∧
        start₂ (place (i + 1)) ≤ start₂ (place i + 1) + 5 := by
    have hlt := h.place_lt hi (Nat.le_refl _)
    have hle : place (i + 1) ≤ place steps.length := (h.place_le_iff hi (Nat.le_refl _)).mpr hi
    rw [h.last] at hlt hle
    have hfirst := hup (place i) hlt
    have hsecond := hup (place i + 1) (by omega)
    have hnext := hq (i + 1) hi
    rw [hq i (Nat.le_of_lt hi), hq' i hi hp] at hfirst
    rw [hq' i hi hp, Nat.add_assoc, ← hp, hnext, h8 i hi hp] at hsecond
    omega
  have hstarts : ∀ i ≤ steps.length, start₂ (place i) = start i := by
    intro i
    induction i with
    | zero =>
      intro _
      rw [h.first, hz, hz₂]
    | succ i ih =>
      intro hi
      have hbefore := ih (Nat.le_of_succ_le hi)
      have hleast := hdown i hi
      rcases h.place_succ hi with hp | hp
      · have hlt := h.place_lt hi (Nat.le_refl _)
        rw [h.last] at hlt
        have hmost := hup (place i) hlt
        have hnext := hq (i + 1) hi
        rw [← hp, hq i (Nat.le_of_succ_le hi), hnext] at hmost
        omega
      · have hmost := hbypass hi hp
        have height := h8 i hi hp
        omega
  refine ⟨hstarts, fun i hi hp => ?_⟩
  have hmost := hbypass hi hp
  have height := h8 i hi hp
  have hbefore := hstarts i (Nat.le_of_lt hi)
  have hafter := hstarts (i + 1) hi
  omega

/-- A jump that is read back as two instructions has eight bytes. -/
theorem IsWritten.length_of_bypass (hw : layout.IsWritten pool steps chunks)
    (h : Step.AreUnfolded number place layout.landings steps again) {i : Nat} {chunk : Bytes}
    (hi : i < steps.length) (hp : place (i + 1) = place i + 2) (hchunk : chunks[i]? = some chunk) :
    chunk.length = 8 := by
  cases h.unfolded i _ (List.getElem?_eq_getElem hi) with
  | same _ hplace => omega
  | bypass _ _ hn =>
    obtain ⟨j, _, _, _, other, next, _, _, hother, height, hnext, hmark⟩ :=
      (hw.landings _).mp ((h.mem_landings hn).mpr hp)
    obtain rfl : j = i := Nat.succ.inj (Step.index_eq h.distinct hnext hn hmark)
    rw [Option.some.inj (hchunk.symm.trans hother)]
    exact height

/-- A jump that is read back as it was has no bypass. -/
theorem IsWritten.length_ne_of_same (hw : layout.IsWritten pool steps chunks)
    (hwritable : ∀ step ∈ steps, step.instruction.IsWritable pool)
    (hlast : ∀ last ∈ steps.getLast?, last.instruction.fallsThrough = false) {i : Nat} {step : Step}
    {op : Opcode} {target : Mark} {chunk : Bytes} (hstep : steps[i]? = some step)
    (hjump : step.instruction = .jump op target)
    (hl : ∀ next, steps[i + 1]? = some next → next.mark ∉ layout.landings)
    (hchunk : chunks[i]? = some chunk) : chunk.length ≠ 8 := by
  intro height
  cases hnext : steps[i + 1]? with
  | some next =>
    exact hl next hnext ((hw.landings _).mpr
      ⟨i, step, op, target, chunk, next, hstep, hjump, hchunk, height, hnext, rfl⟩)
  | none =>
    -- the last instruction is no jump on a condition
    have hi := (List.getElem?_eq_some_iff.mp hstep).1
    have hend := List.getElem?_eq_none_iff.mp hnext
    have hgetLast : steps.getLast? = some step := by
      rw [List.getLast?_eq_getElem?, ← hstep]
      congr 1
      omega
    have hfalls := hlast step hgetLast
    have hcan := hwritable step (List.mem_of_getElem? hstep)
    have hwritten := hw.written i step chunk hstep hchunk
    rw [hjump] at hfalls hcan hwritten
    obtain ⟨position, -, ⟨-, rfl⟩ | rfl⟩ := hwritten.of_jump
    · cases height
    · rw [Opcode.length_far] at height
      rcases Instruction.isWritable_jump.mp hcan with rfl | rfl | ⟨inverse, hinverse⟩
      · cases height
      · cases height
      · have hgoes : (Instruction.jump op target).opcode.isUnconditional = false :=
          (Opcode.isJump_of_inverse? hinverse).2.2
        rw [Instruction.fallsThrough, hgoes] at hfalls
        cases hfalls

/-- Where an instruction starts. -/
def startIn (chunks : List Bytes) (index : Nat) : Nat := (chunks.take index).flatten.length

theorem startIn_succ {i : Nat} (hi : i < chunks.length) :
    ∃ chunk, chunks[i]? = some chunk ∧ startIn chunks (i + 1) = startIn chunks i + chunk.length :=
  ⟨_, List.getElem?_eq_getElem hi, IsWritten.start_succ (List.getElem?_eq_getElem hi)⟩

theorem startIn_le (chunks : List Bytes) (i : Nat) : startIn chunks i ≤ chunks.flatten.length := by
  unfold startIn
  conv_rhs => rw [← List.take_append_drop i chunks, List.flatten_append, List.length_append]
  exact Nat.le_add_right _ _

theorem IsWritten.startIn_length (hw : layout.IsWritten pool steps chunks) :
    startIn chunks steps.length = layout.code.length := by
  rw [startIn, ← hw.length, List.take_length, hw.code]

/-- What is read back is laid out so that instructions start where they did. -/
theorem exists_isWritten_again (h : Step.AreUnfolded number place layout.landings steps again)
    (hne : steps ≠ []) (hs : ∀ step ∈ steps, step.instruction.isSwitch = false)
    (hlaid : ofSteps pool steps = .ok layout) (hw : layout.IsWritten pool steps chunks)
    (hwritable : ∀ step ∈ steps, step.instruction.IsWritable pool) : ∃ layout' chunks',
      ofSteps pool again = .ok layout' ∧ layout'.IsWritten pool again chunks' ∧
      (∀ i ≤ steps.length, startIn chunks' (place i) = startIn chunks i) ∧
      ∀ i < steps.length, place (i + 1) = place i + 2 →
        startIn chunks' (place i + 1) = startIn chunks i + 3 := by
  have hbound : layout.code.length ≤ 65535 := by
    have hfits := (fits_or_unencodable pool steps).2
    rw [hlaid] at hfits
    exact hfits.2
  have h8 (i : Nat) (hi : i < steps.length) (hp : place (i + 1) = place i + 2) :
      startIn chunks (i + 1) = startIn chunks i + 8 := by
    obtain ⟨chunk, hchunk, hsucc⟩ := startIn_succ (hw.length.symm ▸ hi : i < chunks.length)
    rw [hsucc, hw.length_of_bypass h hi hp hchunk]
  have hle (i : Nat) : startIn chunks i ≤ 65535 :=
    Nat.le_trans (startIn_le chunks i) (by rwa [← hw.code])
  obtain ⟨room, hq, hq'⟩ := h.exists_places (startIn chunks)
  have hroom : ∀ k ≤ again.length, room k ≤ 65535 := by
    intro k hk
    rcases Nat.lt_or_eq_of_le hk with hlt | rfl
    · obtain ⟨i, hi, rfl | ⟨rfl, hp⟩⟩ := h.exists_place hlt
      · rw [hq i (Nat.le_of_lt hi)]
        exact hle i
      · have hnext := hle (i + 1)
        rw [hq' i hi hp]
        rw [h8 i hi hp] at hnext
        omega
    · rw [← h.last, hq _ (Nat.le_refl _)]
      exact hle _
  have hzero : room 0 = 0 := by
    have hfirst := hq 0 (Nat.zero_le _)
    rwa [h.first] at hfirst
  have hne' : again ≠ [] := by
    rw [← List.length_pos_iff, ← h.last]
    have hlt := h.place_lt (List.length_pos_iff.mpr hne) (Nat.le_refl _)
    rwa [h.first] at hlt
  -- there is room for what is read back, and then room for what was there
  obtain ⟨layout', chunks', hlaid', hw', hup⟩ := exists_of_admits h.nodup hne'
    (h.isWritable hs hwritable) (h.isSwitch_eq_false hs) h.targets_again
    (h.admits_again hs (hw.admits h.distinct) hq hq' h8) hzero hroom
  have hfits := (fits_or_unencodable pool again).2
  rw [hlaid'] at hfits
  obtain ⟨layout'', chunks'', hlaid'', hw'', hdown⟩ := exists_of_admits h.distinct hne hwritable hs
    h.targets (h.admits hs (hw'.admits h.nodup)) (by rw [h.first]; rfl) (fun i _ =>
      Nat.le_trans (startIn_le chunks' (place i)) (by rw [← hw'.code]; exact hfits.2))
  obtain rfl := Except.ok.inj (hlaid.symm.trans hlaid'')
  have hsame (i : Nat) (hi : i ≤ steps.length) : startIn chunks'' i = startIn chunks i := by
    rcases Nat.lt_or_eq_of_le hi with hlt | rfl
    · have hstep : steps[i]? = some steps[i] := List.getElem?_eq_getElem hlt
      exact (hw.position_eq h.distinct hstep).mp ((hw''.position_eq h.distinct hstep).mpr rfl)
    · rw [hw''.startIn_length, hw.startIn_length]
  refine ⟨layout', chunks', hlaid', hw', start_eq h rfl rfl hq hq' h8 (fun k hk => ?_) fun i hi => ?_⟩
  · obtain ⟨chunk, hchunk, hsucc⟩ := startIn_succ (hw'.length.symm ▸ hk : k < chunks'.length)
    have hsize := hup k chunk hchunk
    omega
  · obtain ⟨chunk, hchunk, hsucc⟩ := startIn_succ (hw''.length.symm ▸ hi : i < chunks''.length)
    have hsize := hdown i chunk hchunk
    rw [hsame i (Nat.le_of_lt hi), hsame (i + 1) hi] at hsucc
    unfold startIn at hsucc ⊢
    omega

section Chunks

variable (h : Step.AreUnfolded number place layout.landings steps again)
  (hw : layout.IsWritten pool steps chunks) (hw' : layout'.IsWritten pool again chunks')
  (hstart : ∀ i ≤ steps.length, startIn chunks' (place i) = startIn chunks i)
  (hstart' : ∀ i < steps.length, place (i + 1) = place i + 2 →
    startIn chunks' (place i + 1) = startIn chunks i + 3)
include h hw hw' hstart

/-- Where instructions start at the same places, they have the same positions. -/
theorem carries_of_start : Mark.Carries number (steps.map (·.mark)) layout.placed layout'.placed := by
  intro mark hmark
  obtain ⟨step, hstep, rfl⟩ := List.mem_map.mp hmark
  obtain ⟨i, hi⟩ := List.mem_iff_getElem?.mp hstep
  obtain ⟨step', hstep', hsame⟩ := h.exists_at hi
  rw [(hw.position_eq h.distinct hi).mpr rfl, ← hsame, hw'.position_eq h.nodup hstep']
  exact (hstart i (Nat.le_of_lt (List.getElem?_eq_some_iff.mp hi).1)).symm

/-- An instruction that is read back as it was is the same bytes. -/
theorem chunk_eq_of_same {i : Nat} {step : Step} {chunk chunk' : Bytes}
    (hs : step.instruction.isSwitch = false) (hstep : steps[i]? = some step)
    (hstep' : again[place i]? = some (step.renumber number))
    (hp : place (i + 1) = place i + 1) (hchunk : chunks[i]? = some chunk)
    (hchunk' : chunks'[place i]? = some chunk') : chunk' = chunk := by
  have hi := (List.getElem?_eq_some_iff.mp hstep).1
  have hcarries := carries_of_start h hw hw' hstart
  have hwritten := hw'.written (place i) _ chunk' hstep' hchunk'
  have hbefore : (chunks'.take (place i)).flatten.length = (chunks.take i).flatten.length :=
    hstart i (Nat.le_of_lt hi)
  have hafter : (chunks'.take (place (i + 1))).flatten.length =
      (chunks.take (i + 1)).flatten.length := hstart (i + 1) hi
  rw [hp, IsWritten.start_succ hchunk', IsWritten.start_succ hchunk] at hafter
  rw [hbefore] at hwritten
  refine (hw.written i step chunk hstep hchunk).eq_of_length hwritten hs (fun target ht => ?_)
    (by omega)
  exact hcarries target (h.targets step (List.mem_of_getElem? hstep) target ht)

include hstart'

/-- The two instructions that a jump with a bypass is read back as are its bytes. -/
theorem chunk_eq_of_bypass {i : Nat} {step next : Step} {op inverse : Opcode}
    {target extra : Mark} {chunk first second : Bytes} (hstep : steps[i]? = some step)
    (hs : step.instruction = .jump op target) (hi : op.inverse? = some inverse)
    (hn : steps[i + 1]? = some next)
    (hfirst : again[place i]? = some ⟨number step.mark, .jump inverse (number next.mark)⟩)
    (hgoto : again[place i + 1]? = some ⟨extra, .jump Opcode.goto (number target)⟩)
    (hp : place (i + 1) = place i + 2) (hchunk : chunks[i]? = some chunk)
    (hc : chunks'[place i]? = some first) (hc' : chunks'[place i + 1]? = some second) :
    chunk = first ++ second ∧ first.length = 3 ∧ second.length = 5 := by
  have hlt := (List.getElem?_eq_some_iff.mp hstep).1
  have hcarries := carries_of_start h hw hw' hstart
  have height := hw.length_of_bypass h hlt hp hchunk
  have hbefore : (chunks'.take (place i)).flatten.length = (chunks.take i).flatten.length :=
    hstart i (Nat.le_of_lt hlt)
  have hbetween : (chunks'.take (place i + 1)).flatten.length = (chunks.take i).flatten.length + 3 :=
    hstart' i hlt hp
  have hafter : (chunks'.take (place i + 1 + 1)).flatten.length =
      (chunks.take (i + 1)).flatten.length := by
    have hnext := hstart (i + 1) hlt
    rwa [hp] at hnext
  rw [IsWritten.start_succ hc', hbetween, IsWritten.start_succ hchunk, height] at hafter
  have hthree := hbetween
  rw [IsWritten.start_succ hc, hbefore] at hthree
  have hwritten := hw.written i step chunk hstep hchunk
  have hinverse := hw'.written (place i) _ first hfirst hc
  have hlong := hw'.written (place i + 1) _ second hgoto hc'
  rw [hs] at hwritten
  rw [hbefore] at hinverse
  rw [hbetween] at hlong
  refine ⟨hwritten.eq_append hi hinverse hlong ?_ ?_ height (by omega) (by omega), by omega, by omega⟩
  · rw [hcarries next.mark (List.mem_map_of_mem (List.mem_of_getElem? hn)),
      (hw.position_eq h.distinct hn).mpr rfl, IsWritten.start_succ hchunk, height]
  · refine hcarries target (h.targets step (List.mem_of_getElem? hstep) target ?_)
    rw [hs]
    exact List.mem_singleton.mpr rfl

/-- The code is the same up to every instruction. -/
theorem flatten_take_eq (hs : ∀ step ∈ steps, step.instruction.isSwitch = false) {i : Nat}
    (hi : i ≤ steps.length) : (chunks'.take (place i)).flatten = (chunks.take i).flatten := by
  induction i with
  | zero => rw [h.first, List.take_zero, List.take_zero]
  | succ i ih =>
    have hlt : i < chunks.length := hw.length.symm ▸ hi
    have hstep : steps[i]? = some steps[i] := List.getElem?_eq_getElem hi
    have hchunk : chunks[i]? = some chunks[i] := List.getElem?_eq_getElem hlt
    rw [List.take_add_one, hchunk, List.flatten_append, Option.toList_some, List.flatten_singleton,
      ← ih (Nat.le_of_succ_le hi)]
    cases h.unfolded i _ hstep with
    | same hsame hp =>
      obtain ⟨chunk', hchunk'⟩ := hw'.exists_chunk hsame
      rw [hp, List.take_add_one, hchunk', List.flatten_append, Option.toList_some,
        List.flatten_singleton, chunk_eq_of_same h hw hw' hstart
          (hs _ (List.mem_of_getElem? hstep)) hstep hsame hp hchunk hchunk']
    | bypass hjump hinverse hn hfirst hgoto hp =>
      obtain ⟨first, hc⟩ := hw'.exists_chunk hfirst
      obtain ⟨second, hc'⟩ := hw'.exists_chunk hgoto
      rw [hp, List.take_add_one, hc', List.take_add_one, hc, List.flatten_append,
        List.flatten_append, Option.toList_some, Option.toList_some, List.flatten_singleton,
        List.flatten_singleton, (chunk_eq_of_bypass h hw hw' hstart hstart' hstep hjump hinverse hn
          hfirst hgoto hp hchunk hc hc').1, List.append_assoc]

/-- No jump that is read back has a bypass. -/
theorem landings_eq_nil (hwritable : ∀ step ∈ steps, step.instruction.IsWritable pool)
    (hs : ∀ step ∈ steps, step.instruction.isSwitch = false)
    (hlast : ∀ last ∈ steps.getLast?, last.instruction.fallsThrough = false) :
    layout'.landings = [] := by
  refine List.eq_nil_iff_forall_not_mem.mpr fun mark hmark => ?_
  obtain ⟨k, step', op, target, chunk', next, hk, hjump, hchunk', height, -, -⟩ :=
    (hw'.landings mark).mp hmark
  obtain ⟨i, hi, hplace⟩ := h.exists_place (List.getElem?_eq_some_iff.mp hk).1
  have hstep : steps[i]? = some steps[i] := List.getElem?_eq_getElem hi
  have hlt : i < chunks.length := hw.length.symm ▸ hi
  have hchunk : chunks[i]? = some chunks[i] := List.getElem?_eq_getElem hlt
  cases h.unfolded i _ hstep with
  | same hsame hp =>
    rcases hplace with rfl | ⟨-, hwrong⟩
    · obtain rfl := Option.some.inj (hk.symm.trans hsame)
      obtain ⟨origin, horigin, -⟩ := Instruction.exists_of_mapTargets_eq_jump hjump
      obtain rfl := chunk_eq_of_same h hw hw' hstart (hs _ (List.mem_of_getElem? hstep)) hstep hsame
        hp hchunk hchunk'
      refine hw.length_ne_of_same hwritable hlast hstep horigin (fun next hn hl => ?_) hchunk height
      have hwrong := (h.mem_landings hn).mp hl
      omega
    · omega
  | bypass hinstruction hinverse hn hfirst hgoto hp =>
    obtain ⟨first, hc⟩ := hw'.exists_chunk hfirst
    obtain ⟨second, hc'⟩ := hw'.exists_chunk hgoto
    obtain ⟨-, hthree, hfive⟩ := chunk_eq_of_bypass h hw hw' hstart hstart' hstep hinstruction
      hinverse hn hfirst hgoto hp hchunk hc hc'
    rcases hplace with rfl | ⟨rfl, -⟩
    · obtain rfl := Option.some.inj (hchunk'.symm.trans hc)
      omega
    · obtain rfl := Option.some.inj (hchunk'.symm.trans hc')
      omega

end Chunks

/-- What is read back of code without switches is laid out as the code was. -/
theorem exists_ofSteps_unfolded (h : Step.AreUnfolded number place layout.landings steps again)
    (hne : steps ≠ []) (hs : ∀ step ∈ steps, step.instruction.isSwitch = false)
    (hlast : ∀ last ∈ steps.getLast?, last.instruction.fallsThrough = false)
    (hlaid : ofSteps pool steps = .ok layout) : ∃ placed',
      ofSteps pool again = .ok ⟨layout.code, placed', []⟩ ∧
      Mark.Carries number (steps.map (·.mark)) layout.placed placed' := by
  obtain ⟨hwritable, chunks, hw⟩ := exists_isWritten h.distinct hs hlaid
  obtain ⟨layout', chunks', hlaid', hw', hstart, hstart'⟩ :=
    exists_isWritten_again h hne hs hlaid hw hwritable
  have hcode : layout'.code = layout.code := by
    have hall := flatten_take_eq h hw hw' hstart hstart' hs (Nat.le_refl _)
    rwa [h.last, ← hw'.length, ← hw.length, List.take_length, List.take_length, ← hw'.code,
      ← hw.code] at hall
  have hlandings := landings_eq_nil h hw hw' hstart hstart' hwritable hs hlast
  obtain ⟨code, placed', landings'⟩ := layout'
  obtain rfl : code = layout.code := hcode
  obtain rfl : landings' = [] := hlandings
  exact ⟨placed', hlaid', carries_of_start h hw hw' hstart⟩

end Layout

end Places

end ClassGraft

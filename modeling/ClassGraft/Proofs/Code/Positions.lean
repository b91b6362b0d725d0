import ClassGraft.Proofs.Code.Restarts

/-!
# Positions in code

Positions in code have sixteen bits.  Where a step begins is checked before it is written, so it
fits (`Draft.Writes.position_le`).  The position of the long `goto` in a jump with a bypass is not
checked: it is three bytes further, and does not fit if the jump begins in the last three positions.
Then the draft has become too long for code, and that is what it ends with
(`Layout.fits_or_unencodable`).
-/

namespace ClassGraft

variable {narrow : Std.HashSet Nat} {pool : Pool}

/-- A jump with a bypass takes eight bytes. -/
theorem Site.size_branch {site : Site} {op inverse : Opcode} {target : Mark}
    (h : (site.branch op inverse target : Form narrow).bypasses = true) (size : Nat) :
    ((site.branch op inverse target : Form narrow).pieces.map Piece.size).foldl (· + ·) size =
      size + 8 := by
  unfold branch at h ⊢
  split at h
  · dsimp only at h ⊢
    split_ifs at h ⊢
    simp [Piece.size, bypass]
  · split_ifs at h ⊢
    simp [Piece.size, bypass]

/-- A jump on a condition that leads too far back has a bypass. -/
theorem Site.bypasses_branch {site : Site} {op inverse : Opcode} {target : Mark} {position : Nat}
    (hp : site.placed[target]? = some position)
    (hd : isShortDistance (distance site.position position) = false) :
    (site.branch op inverse target : Form narrow).bypasses = true := by
  unfold branch
  rw [hp]
  simp [hd]

theorem Site.size_case {site : Site} {target : Mark} :
    (site.case target : Piece narrow).size = 4 := by
  unfold case
  split
  · exact length_longDistance _
  · rfl

/-- A switch over a range takes four bytes for each target, after a head that is aligned. -/
theorem Instruction.exists_form_tableSwitch {site : Site} {otherwise : Mark} {low high : Int32}
    {targets : List Mark} (hle : ¬ high < low)
    (ht : targets.length = (high.toInt - low.toInt + 1).toNat) :
    ∃ form : Form narrow,
      (Instruction.tableSwitch otherwise low high targets).form pool site = .ok form ∧
      form.bypasses = false ∧ ∀ size, (form.pieces.map Piece.size).foldl (· + ·) size =
        size + (16 - site.position % 4) + 4 * targets.length := by
  have htargets : ∀ size, ((targets.map site.case : List (Piece narrow)).map Piece.size).foldl
      (· + ·) size = size + 4 * targets.length := by
    clear ht
    induction targets with
    | nil => exact fun _ => rfl
    | cons target targets ih =>
      intro size
      rw [List.map_cons, List.map_cons, List.foldl_cons, ih, Site.size_case, List.length_cons]
      omega
  rw [Instruction.form]
  simp only [hle, ht, if_false, ne_eq, not_true_eq_false]
  refine ⟨_, rfl, rfl, fun size => ?_⟩
  have hhead : (site.switchStart Opcode.tableSwitch : Piece narrow).size =
      4 - site.position % 4 := by
    rw [Site.switchStart, Piece.size, List.length_cons, List.length_replicate]
    omega
  have hbounds : (.bytes (Bytes.ofInt32 low ++ Bytes.ofInt32 high) : Piece narrow).size = 8 := rfl
  rw [List.map_cons, List.map_cons, List.map_cons, List.foldl_cons, List.foldl_cons,
    List.foldl_cons, htargets, hhead, Site.size_case, hbounds, ht]
  omega

/-! ### Steps that are written -/

namespace Draft

/-- Where the next step is written. -/
def site (draft : Draft narrow) (index : Nat) (step : Step) : Site :=
  ⟨index, draft.size, draft.placed.insert step.mark draft.size⟩

/-- The draft with one more step in a form, before the rest of the steps. -/
def write (draft : Draft narrow) (step : Step) (steps : List Step) (form : Form narrow) :
    Draft narrow :=
  ⟨(form.pieces.map Piece.size).foldl (· + ·) draft.size,
    draft.placed.insert step.mark draft.size, form.pieces.reverse ++ draft.pieces,
    if form.bypasses then (steps.head?.map (·.mark)).toList ++ draft.landings
    else draft.landings⟩

variable {index : Nat} {step : Step} {steps : List Step} {draft draft' : Draft narrow}
  {site : Site} {form : Form narrow}

/-- While the steps are written one of them is written at a site in some form. -/
inductive Writes (pool : Pool) :
    Nat → List Step → Draft narrow → Site → Form narrow → Prop
  | now {index : Nat} {step : Step} {steps : List Step} {draft : Draft narrow}
      {form : Form narrow} (hs : draft.size ≤ 65535)
      (hf : step.instruction.form pool (draft.site index step) = .ok form) :
      Writes pool index (step :: steps) draft (draft.site index step) form
  | later {index : Nat} {step : Step} {steps : List Step} {draft : Draft narrow}
      {form other : Form narrow} {site : Site} (hs : draft.size ≤ 65535)
      (hf : step.instruction.form pool (draft.site index step) = .ok form)
      (h : Writes pool (index + 1) steps (draft.write step steps form) site other) :
      Writes pool index (step :: steps) draft site other

theorem extend_cons (hs : draft.size ≤ 65535)
    (hf : step.instruction.form pool (draft.site index step) = .ok form) :
    extend pool index (step :: steps) draft =
      extend pool (index + 1) steps (draft.write step steps form) := by
  obtain ⟨size, placed, pieces, landings⟩ := draft
  rw [extend, if_neg (Nat.not_lt.mpr hs)]
  simp only [site] at hf
  simp only [hf, write]

/-- No step is written to a draft that is too long. -/
theorem extend_of_lt_size (hs : 65535 < draft.size) :
    extend pool index (step :: steps) draft = .error (.unencodable (.codeTooLong draft.size)) := by
  obtain ⟨size, placed, pieces, landings⟩ := draft
  rw [extend, if_pos hs]

/-- Where a step begins fits into sixteen bits. -/
theorem Writes.position_le (h : Writes pool index steps draft site form) :
    site.position ≤ 65535 := by
  induction h with
  | now hs => exact hs
  | later _ _ _ ih => exact ih

/-- After a bypass beyond the last position there is no further step. -/
theorem Writes.extend_of_bypasses (h : Writes pool index steps draft site form)
    (hb : form.bypasses = true) (hend : 65535 < site.position + 8) :
    extend pool index steps draft = .error (.unencodable (.codeTooLong (site.position + 8))) ∨
      ∃ draft', extend pool index steps draft = .ok draft' ∧
        draft'.size = site.position + 8 := by
  induction h with
  | @now index step steps draft form hs hf =>
    rw [extend_cons hs hf]
    have hsize : (draft.write step steps form).size = draft.size + 8 := by
      obtain ⟨op, inverse, target, -, -, rfl⟩ := Instruction.exists_of_bypasses hf hb
      exact Site.size_branch hb draft.size
    cases steps with
    | nil => exact .inr ⟨_, rfl, hsize⟩
    | cons next steps =>
      refine .inl ?_
      rw [extend_of_lt_size (by rw [hsize]; exact hend), hsize]
      rfl
  | later hs hf _ ih =>
    rw [extend_cons hs hf]
    exact ih hb hend

/-! ### What drafts end with -/

/-- Steps are only refused as not encodable. -/
theorem exists_of_extend_eq_error {fault : ClassFault}
    (h : extend pool index steps draft = .error fault) : ∃ cause, fault = .unencodable cause := by
  induction steps generalizing index draft with
  | nil => simp [extend] at h
  | cons step steps ih =>
    by_cases hs : draft.size ≤ 65535
    · cases hf : (step.instruction.form pool (draft.site index step) :
          Except EncodingFault (Form narrow)) with
      | error cause =>
        obtain ⟨size, placed, pieces, landings⟩ := draft
        rw [extend, if_neg (Nat.not_lt.mpr hs)] at h
        simp only [site] at hf
        simp only [hf] at h
        exact ⟨cause, (Except.error.inj h).symm⟩
      | ok form =>
        rw [extend_cons hs hf] at h
        exact ih h
    · rw [extend_of_lt_size (Nat.lt_of_not_le hs)] at h
      exact ⟨_, (Except.error.inj h).symm⟩

/-- Distances are only refused as not encodable. -/
theorem exists_of_resolve_eq_error {placed : Std.HashMap Mark Nat} {pieces : List (Piece narrow)}
    {written : Bytes} {fault : ClassFault} (h : resolve placed pieces written = .error fault) :
    ∃ cause, fault = .unencodable cause := by
  induction pieces generalizing written with
  | nil => simp [resolve] at h
  | cons piece pieces ih =>
    cases piece with
    | bytes content => exact ih h
    | word origin target =>
      rw [resolve] at h
      split at h
      · rename_i hfound
        obtain rfl := Except.error.inj h
        exact ⟨_, (find_eq_error hfound).2⟩
      · exact ih h
    | half origin target jump =>
      rw [resolve] at h
      split at h
      · rename_i hfound
        obtain rfl := Except.error.inj h
        exact ⟨_, (find_eq_error hfound).2⟩
      · dsimp only at h
        split_ifs at h
        exact ih h

/-- The size of a draft is that of its pieces. -/
theorem size_extend (h : extend pool index steps draft = .ok draft')
    (hsize : (draft.pieces.reverse.map Piece.size).foldl (· + ·) 0 = draft.size) :
    (draft'.pieces.reverse.map Piece.size).foldl (· + ·) 0 = draft'.size := by
  induction steps generalizing index draft with
  | nil =>
    obtain rfl := Except.ok.inj h
    exact hsize
  | cons step steps ih =>
    obtain ⟨-, form, -, hrest⟩ := extend_cons_eq_ok.mp h
    refine ih hrest ?_
    rw [List.reverse_append, List.reverse_reverse, List.map_append, List.foldl_append, hsize]

end Draft

namespace Layout

variable {steps : List Step}

/-- Laid out code has the size of its draft, which fits into sixteen bits. -/
theorem length_code_of_trial {layout : Layout}
    (h : trial pool steps narrow = .ends (.ok layout)) :
    0 < layout.code.length ∧ layout.code.length ≤ 65535 := by
  unfold trial at h
  split at h
  · simp at h
  · rename_i draft hdraft
    split_ifs at h with hsize
    · simp at h
    · split at h
      · simp at h
      · rename_i code hcode
        obtain rfl : (⟨code, draft.placed, draft.landings.reverse⟩ : Layout) = layout := by
          simpa using h
        obtain ⟨bytes, hresolve, rfl⟩ := Draft.resolveTo_of_resolve hcode
        have hpieces := Draft.size_extend hdraft (by rfl)
        rw [hresolve.length, Nat.zero_add] at hpieces
        rw [hpieces]
        omega
      · simp at h

/-- A draft is only refused as not encodable. -/
theorem exists_of_trial_eq_error {fault : ClassFault}
    (h : trial pool steps narrow = .ends (.error fault)) :
    ∃ cause, fault = .unencodable cause := by
  unfold trial at h
  split at h
  · rename_i cause hdraft
    obtain rfl : cause = fault := by simpa using h
    exact Draft.exists_of_extend_eq_error hdraft
  · split_ifs at h
    · exact ⟨_, by simpa using h.symm⟩
    · split at h
      · rename_i cause hresolve
        obtain rfl : cause = fault := by simpa using h
        exact Draft.exists_of_resolve_eq_error hresolve
      · simp at h
      · simp at h

/-- A draft ends as too long if a bypass in it goes beyond the last position. -/
theorem trial_of_bypasses {site : Site} {form : Form narrow}
    (h : Draft.Writes pool 0 steps Draft.empty site form) (hb : form.bypasses = true)
    (hend : 65535 < site.position + 8) :
    ∃ cause ∈ [EncodingFault.codeTooLong (site.position + 8), .codeLength (site.position + 8)],
      trial pool steps narrow = .ends (.error (.unencodable cause)) := by
  rcases h.extend_of_bypasses hb hend with hfail | ⟨draft, hdraft, hsize⟩
  · refine ⟨.codeTooLong (site.position + 8), by simp, ?_⟩
    rw [trial, hfail]
  · refine ⟨.codeLength (site.position + 8), by simp, ?_⟩
    rw [trial, hdraft]
    dsimp only
    rw [if_pos (by omega), hsize]

/-- Where a step is written fits into sixteen bits.  Where the long `goto` of a bypass is written
fits as well, or the jump begins in one of the last three positions, and then the draft ends as too
long.  So laid out code is never too long, and all else is refused as not encodable. -/
theorem fits_or_unencodable (pool : Pool) (steps : List Step) :
    (∀ (narrow : Std.HashSet Nat) (site : Site) (form : Form narrow),
      Draft.Writes pool 0 steps Draft.empty site form → site.position ≤ 65535 ∧
        (form.bypasses = true → site.bypassed ≤ 65535 ∨ 65533 ≤ site.position ∧
          ∃ cause ∈ [EncodingFault.codeTooLong (site.position + 8),
            .codeLength (site.position + 8)],
            trial pool steps narrow = .ends (.error (.unencodable cause)))) ∧
    match ofSteps pool steps with
    | .ok layout => 0 < layout.code.length ∧ layout.code.length ≤ 65535
    | .error fault => ∃ cause, fault = .unencodable cause := by
  refine ⟨fun narrow site form h => ⟨h.position_le, fun hb => ?_⟩, ?_⟩
  · by_cases hfits : site.bypassed ≤ 65535
    · exact .inl hfits
    · rw [Site.bypassed] at hfits
      exact .inr ⟨by omega, trial_of_bypasses h hb (by omega)⟩
  · obtain ⟨widened, hrun⟩ := exists_drafts pool steps (jumps steps)
    rw [← ofSteps] at hrun
    -- the answer is that of the last draft
    obtain ⟨narrow, hlast⟩ := hrun.exists_trial
    cases hanswer : ofSteps pool steps with
    | ok layout => exact length_code_of_trial (hanswer ▸ hlast)
    | error fault => exact exists_of_trial_eq_error (hanswer ▸ hlast)

end Layout

/-! ### A bypass at the end

A switch with many targets fills the code, so that the jump back to it begins at 65533. -/

namespace Brimming

def steps (targets : List Mark) : List Step :=
  [⟨⟨0⟩, .tableSwitch ⟨0⟩ 0 16378 targets⟩, ⟨⟨1⟩, .plain Opcode.nop⟩,
    ⟨⟨2⟩, .jump Opcode.ifEq ⟨0⟩⟩, ⟨⟨3⟩, .plain Opcode.returnVoid⟩]

theorem exists_writes {targets : List Mark} (ht : targets.length = 16379) :
    ∃ (site : Site) (form : Form (Layout.jumps (steps targets))),
      Draft.Writes Pool.empty 0 (steps targets) Draft.empty site form ∧ form.bypasses = true ∧
        site.bypassed = 65536 := by
  let narrow := Layout.jumps (steps targets)
  -- The switch is so long that the jump begins at one of the last three positions; what its long
  -- form ends with has none.
  obtain ⟨switch, hswitch, -, hsize⟩ := @Instruction.exists_form_tableSwitch narrow Pool.empty
    ⟨0, 0, (∅ : Std.HashMap Mark Nat).insert ⟨0⟩ 0⟩ ⟨0⟩ 0 16378 targets (by decide)
    (by rw [ht]; decide)
  let second : Draft narrow := Draft.empty.write ⟨⟨0⟩, .tableSwitch ⟨0⟩ 0 16378 targets⟩
    (steps targets).tail switch
  have hsecond : second.size = 65532 := by
    show (switch.pieces.map Piece.size).foldl (· + ·) 0 = 65532
    rw [hsize, ht]
    rfl
  let third : Draft narrow := second.write ⟨⟨1⟩, .plain Opcode.nop⟩ (steps targets).tail.tail
    ⟨[.bytes [Opcode.nop]], false⟩
  have hthird : third.size = 65533 := by
    show second.size + 1 = 65533
    rw [hsecond]
  let site := third.site 2 ⟨⟨2⟩, .jump Opcode.ifEq ⟨0⟩⟩
  have hplaced : site.placed[(⟨0⟩ : Mark)]? = some 0 := by
    show ((((∅ : Std.HashMap Mark Nat).insert ⟨0⟩ 0).insert ⟨1⟩ second.size).insert ⟨2⟩
      third.size)[(⟨0⟩ : Mark)]? = some 0
    rw [Std.HashMap.getElem?_insert, if_neg (by decide), Std.HashMap.getElem?_insert,
      if_neg (by decide), Std.HashMap.getElem?_insert_self]
  have hposition : site.position = 65533 := hthird
  have hfar : isShortDistance (distance site.position 0) = false := by
    rw [hposition]
    decide
  refine ⟨site, site.branch Opcode.ifEq Opcode.ifNe ⟨0⟩, ?_,
    Site.bypasses_branch hplaced hfar, ?_⟩
  · refine .later (Nat.zero_le _) hswitch (.later ?_ rfl (.now ?_ rfl))
    · show second.size ≤ 65535
      omega
    · show third.size ≤ 65535
      omega
  · rw [Site.bypassed, hposition]

/-- The position of the long goto does not always fit into sixteen bits. -/
theorem not_bypassed_le : ¬ ∀ (pool : Pool) (steps : List Step) (narrow : Std.HashSet Nat)
    (site : Site) (form : Form narrow), Draft.Writes pool 0 steps Draft.empty site form →
      form.bypasses = true → site.bypassed ≤ 65535 := by
  intro h
  have ht : (List.replicate 16379 (⟨0⟩ : Mark)).length = 16379 := List.length_replicate
  obtain ⟨site, form, hwrites, hb, hposition⟩ := exists_writes ht
  have hle := h Pool.empty _ _ site form hwrites hb
  omega

end Brimming

end ClassGraft

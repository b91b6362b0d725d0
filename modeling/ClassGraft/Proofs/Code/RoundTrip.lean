import ClassGraft.Code.Read
import ClassGraft.Proofs.Code.Positions
import ClassGraft.Proofs.Outcome
import ClassGraft.Proofs.Tables

/-!
# Code that is read back

The code of a layout, read as the code of a method is, gives the instructions that were laid out
(`Layout.Shows`).  Each is found at the position that the layout states, and targets are marks of
the instructions that were meant.  A jump with a bypass is found as two jumps.
-/

namespace ClassGraft

open Reader

/-! ### Marks of offsets -/

namespace Starts

variable {codeLength : Nat} {offsets : List Nat}

/-- The index of each offset, as a table with a row for each. -/
theorem index_ofOffsets (codeLength : Nat) (offsets : List Nat) :
    (ofOffsets codeLength offsets).index =
      Table.insertAll (fun row => row.1) (fun row => row.2) offsets.zipIdx ∅ := rfl

theorem mark?_ofOffsets (hn : offsets.Nodup) {i offset : Nat} (h : offsets[i]? = some offset) :
    (ofOffsets codeLength offsets).mark? offset = some ⟨i⟩ := by
  have hm : (offset, i) ∈ offsets.zipIdx := List.mem_zipIdx_iff_getElem?.mpr h
  have hkeys : (offsets.zipIdx.map fun row => row.1).Nodup := by
    rw [show (fun row : Nat × Nat => row.1) = Prod.fst from rfl, List.zipIdx_map_fst]
    exact hn
  rw [mark?, index_ofOffsets, Table.getElem?_of_mem hkeys hm]
  rfl

/-- The mark of an offset; what has none counts as the first instruction. -/
def markOf (starts : Starts) (offset : Nat) : Mark := (starts.mark? offset).getD ⟨0⟩

theorem resolve_eq_ok {starts : Starts} {instruction : Instruction Nat}
    (h : ∀ offset ∈ instruction.targets, ∃ mark, starts.mark? offset = some mark) :
    starts.resolve instruction = .ok (instruction.mapTargets starts.markOf) := by
  have hnone : instruction.targets.reverse.find? (fun offset => (starts.mark? offset).isNone) =
      none := by
    rw [List.find?_eq_none]
    intro offset hm
    obtain ⟨mark, hmark⟩ := h offset (List.mem_reverse.mp hm)
    simp [hmark]
  unfold resolve
  rw [hnone]
  rfl

end Starts

/-! ### Offsets of instructions -/

/-- Instructions that are read start one after the other. -/
theorem Bytecode.Reads.pairwise {base origin : Nat} {bytes : Bytes}
    {rows : List (Nat × Instruction Nat)} (h : Bytecode.Reads base origin bytes rows) :
    (rows.map (·.1)).Pairwise (· < ·) ∧ ∀ row ∈ rows, origin ≤ row.1 := by
  induction h with
  | nil => simp
  | @cons origin bytes more value rows h _ ih =>
    have hpos := length_pos_of_takes h
    obtain ⟨hp, hle⟩ := ih
    refine ⟨?_, ?_⟩
    · rw [List.map_cons, List.pairwise_cons]
      refine ⟨fun offset hm => ?_, hp⟩
      obtain ⟨row, hrow, rfl⟩ := List.mem_map.mp hm
      have := hle row hrow
      omega
    · rw [List.forall_mem_cons]
      refine ⟨Nat.le_refl _, fun row hrow => ?_⟩
      have := hle row hrow
      omega

namespace Layout

variable {placed : Std.HashMap Mark Nat} {steps : List Step}
  {rows : List (Nat × Instruction Nat)} {landings : List Mark}

/-- Each step starts at its position. -/
theorem Rows.position_mem (h : Rows placed steps rows landings) {step : Step} (hs : step ∈ steps) :
    placed[step.mark]? = some (placeOf placed step.mark) ∧
      placeOf placed step.mark ∈ rows.map (·.1) := by
  induction h with
  | nil => simp at hs
  | same ho _ _ ih =>
    rcases List.mem_cons.mp hs with rfl | hs
    · rw [placeOf_of_eq_some ho]
      exact ⟨ho, List.mem_cons_self⟩
    · obtain ⟨hp, hm⟩ := ih hs
      exact ⟨hp, List.mem_cons_of_mem _ hm⟩
  | bypass ho _ _ _ ih =>
    rcases List.mem_cons.mp hs with rfl | hs
    · rw [placeOf_of_eq_some ho]
      exact ⟨ho, List.mem_cons_self⟩
    · obtain ⟨hp, hm⟩ := ih hs
      exact ⟨hp, List.mem_cons_of_mem _ (List.mem_cons_of_mem _ hm)⟩

/-- The targets of the steps have positions. -/
theorem Rows.exists_position (h : Rows placed steps rows landings) {step : Step} (hs : step ∈ steps)
    {target : Mark} (ht : target ∈ step.instruction.targets) :
    ∃ position, placed[target]? = some position := by
  induction h with
  | nil => simp at hs
  | same _ htargets _ ih =>
    rcases List.mem_cons.mp hs with rfl | hs
    · exact htargets target ht
    · exact ih hs
  | bypass _ _ htarget _ ih =>
    rcases List.mem_cons.mp hs with rfl | hs
    · obtain rfl := List.mem_singleton.mp ht
      exact htarget
    · exact ih hs

/-- Jumps lead to targets of the steps, or past a bypass. -/
theorem Rows.exists_of_target (h : Rows placed steps rows landings)
    {row : Nat × Instruction Nat} (hrow : row ∈ rows) {offset : Nat}
    (ht : offset ∈ row.2.targets) : ∃ mark : Mark, placed[mark]? = some offset ∧
      ((∃ step ∈ steps, mark ∈ step.instruction.targets) ∨ mark ∈ landings) := by
  induction h with
  | nil => simp at hrow
  | same _ htargets _ ih =>
    rcases List.mem_cons.mp hrow with rfl | hrow
    · rw [Instruction.targets_mapTargets] at ht
      obtain ⟨target, hm, rfl⟩ := List.mem_map.mp ht
      obtain ⟨position, hp⟩ := htargets target hm
      exact ⟨target, by rw [hp, placeOf_of_eq_some hp], .inl ⟨_, List.mem_cons_self, hm⟩⟩
    · obtain ⟨mark, hp, hmark⟩ := ih hrow
      exact ⟨mark, hp, hmark.imp_left fun ⟨step, hs, hm⟩ => ⟨step, List.mem_cons_of_mem _ hs, hm⟩⟩
  | @bypass mark target _ _ next _ _ _ _ _ _ htarget h ih =>
    rcases List.mem_cons.mp hrow with rfl | hrow
    · obtain rfl := List.mem_singleton.mp ht
      exact ⟨next.mark, (h.position_mem List.mem_cons_self).1, .inr List.mem_cons_self⟩
    · rcases List.mem_cons.mp hrow with rfl | hrow
      · obtain rfl := List.mem_singleton.mp ht
        obtain ⟨position, hp⟩ := htarget
        exact ⟨target, by rw [hp, placeOf_of_eq_some hp],
          .inl ⟨_, List.mem_cons_self, List.mem_singleton_self target⟩⟩
      · obtain ⟨mark, hp, hmark⟩ := ih hrow
        exact ⟨mark, hp, hmark.imp (fun ⟨step, hs, hm⟩ => ⟨step, List.mem_cons_of_mem _ hs, hm⟩)
          (List.mem_cons_of_mem _)⟩

/-- Instructions that were read, each with its offset, and the steps that they show: `number` gives
each step the mark of the instruction that starts at its position. -/
inductive Shows (placed : Std.HashMap Mark Nat) (number : Mark → Mark) :
    Nat → List Step → List (Nat × Instruction Mark) → List Mark → Prop
  | nil (k : Nat) : Shows placed number k [] [] []
  | same {k origin : Nat} {step : Step} {steps : List Step}
      {rows : List (Nat × Instruction Mark)} {landings : List Mark}
      (hk : number step.mark = ⟨k⟩) (ho : placed[step.mark]? = some origin)
      (h : Shows placed number (k + 1) steps rows landings) :
      Shows placed number k (step :: steps)
        ((origin, step.instruction.mapTargets number) :: rows) landings
  /-- A jump with a bypass is the jump on the opposite condition to the instruction that follows,
  and a `goto` to the target. -/
  | bypass {k origin : Nat} {mark target : Mark} {op inverse : Opcode} {next : Step}
      {steps : List Step} {rows : List (Nat × Instruction Mark)} {landings : List Mark}
      (hk : number mark = ⟨k⟩) (ho : placed[mark]? = some origin)
      (hi : op.inverse? = some inverse)
      (h : Shows placed number (k + 2) (next :: steps) rows landings) :
      Shows placed number k (⟨mark, .jump op target⟩ :: next :: steps)
        ((origin, .jump inverse (number next.mark)) ::
          (origin + 3, .jump Opcode.goto (number target)) :: rows) (next.mark :: landings)

/-- What is read shows the steps under the numbers of the instructions at their positions, in a list
of instructions of which others were read before. -/
theorem Rows.shows (h : Rows placed steps rows landings) {starts : Starts} {k : Nat}
    (hk : ∀ (i : Nat) row, rows[i]? = some row → starts.mark? row.1 = some ⟨k + i⟩) :
    Shows placed (fun mark => starts.markOf (placeOf placed mark)) k steps
      (rows.map fun row => (row.1, row.2.mapTargets starts.markOf)) landings := by
  induction h generalizing k with
  | nil => exact .nil k
  | @same step steps rows landings origin ho _ _ ih =>
    have hfirst : starts.markOf origin = ⟨k⟩ := by
      rw [Starts.markOf, hk 0 _ rfl]
      rfl
    rw [List.map_cons, Instruction.mapTargets_mapTargets]
    refine .same ?_ ho (ih fun i row hrow => ?_)
    · rw [placeOf_of_eq_some ho, hfirst]
    · rw [hk (i + 1) row hrow]
      simp [Nat.add_assoc, Nat.add_comm 1]
  | @bypass mark target op inverse next steps rows landings origin ho hi _ _ ih =>
    have hfirst : starts.markOf origin = ⟨k⟩ := by
      rw [Starts.markOf, hk 0 _ rfl]
      rfl
    rw [List.map_cons, List.map_cons]
    refine .bypass ?_ ho hi (ih fun i row hrow => ?_)
    · rw [placeOf_of_eq_some ho, hfirst]
    · rw [hk (i + 2) row hrow]
      simp [Nat.add_assoc, Nat.add_comm 2]

section

variable (layout : Layout) (rows : List (Nat × Instruction Nat))

/-- The instructions of the code, by the offsets at which they were read. -/
def starts : Starts := Starts.ofOffsets layout.code.length (rows.map (·.1))

/-- The mark that the reader gives to what stands at the position of an instruction. -/
def number (mark : Mark) : Mark := (layout.starts rows).markOf (placeOf layout.placed mark)

end

namespace IsReadAs

variable {layout : Layout} {base : Nat}

theorem mark? (h : layout.IsReadAs base steps rows) {i : Nat} {row : Nat × Instruction Nat}
    (hrow : rows[i]? = some row) : (layout.starts rows).mark? row.1 = some ⟨i⟩ := by
  refine Starts.mark?_ofOffsets (h.reads.pairwise.1.imp Nat.ne_of_lt) ?_
  rw [List.getElem?_map, hrow]
  rfl

/-- Every position is that of an instruction that is read. -/
theorem exists_mark? (h : layout.IsReadAs base steps rows) {mark : Mark} {position : Nat}
    (hp : layout.placed[mark]? = some position) :
    ∃ found, (layout.starts rows).mark? position = some found := by
  obtain ⟨step, hstep, rfl⟩ := h.marks mark position hp
  have hm := (h.rows.position_mem hstep).2
  rw [placeOf_of_eq_some hp] at hm
  obtain ⟨row, hrow, rfl⟩ := List.mem_map.mp hm
  obtain ⟨i, hi⟩ := List.mem_iff_getElem?.mp hrow
  exact ⟨⟨i⟩, h.mark? hi⟩

/-- No target leads nowhere. -/
theorem mapM_resolve (h : layout.IsReadAs base steps rows) :
    rows.mapM (fun row => (layout.starts rows).resolve row.2) =
      .ok (rows.map fun row => row.2.mapTargets (layout.starts rows).markOf) := by
  refine Except.mapM_eq_ok.mpr (List.forall₂_map_right_iff.mpr (List.forall₂_same.mpr ?_))
  intro row hrow
  refine Starts.resolve_eq_ok fun offset ht => ?_
  obtain ⟨mark, hp, -⟩ := h.rows.exists_of_target hrow ht
  exact h.exists_mark? hp

/-- The instructions that are read, with marks for targets, show the steps. -/
theorem shows (h : layout.IsReadAs base steps rows) : ∃ instructions,
    rows.mapM (fun row => (layout.starts rows).resolve row.2) = .ok instructions ∧
    Shows layout.placed (layout.number rows) 0 steps ((rows.map (·.1)).zip instructions)
      layout.landings := by
  refine ⟨_, h.mapM_resolve, ?_⟩
  rw [List.zip_map']
  refine h.rows.shows fun i row hrow => ?_
  rw [Nat.zero_add]
  exact h.mark? hrow

end IsReadAs

/-- The code of a layout is read back as the steps that were laid out, up to jumps with a bypass,
and targets are the instructions that were meant. -/
theorem shows_ofSteps {pool : Pool} {layout : Layout} (hn : (steps.map (·.mark)).Nodup)
    (hr : ∀ step ∈ steps, step.instruction.isReadable = true)
    (hl : ∀ last ∈ steps.getLast?, last.instruction.fallsThrough = false)
    (h : ofSteps pool steps = .ok layout) (base : Nat) :
    ∃ rows instructions number,
      Bytecode.all ⟨layout.code, base⟩ = .ok (rows, ⟨[], base + layout.code.length⟩) ∧
      rows.mapM (fun row =>
        (Starts.ofOffsets layout.code.length (rows.map (·.1))).resolve row.2) = .ok instructions ∧
      (∀ step ∈ steps, ∀ target ∈ step.instruction.targets, ∃ other ∈ steps, other.mark = target) ∧
      Shows layout.placed number 0 steps ((rows.map (·.1)).zip instructions) layout.landings := by
  obtain ⟨rows, hread⟩ := exists_isReadAs hn hr hl h base
  obtain ⟨instructions, hinstructions, hshows⟩ := hread.shows
  refine ⟨rows, instructions, layout.number rows, Bytecode.all_of_reads hread.reads, hinstructions,
    fun step hstep target ht => ?_, hshows⟩
  obtain ⟨position, hp⟩ := hread.rows.exists_position hstep ht
  exact hread.marks target position hp

/-! ### A jump back over a switch

A jump leads ahead to a switch with so many targets that the jump back from behind it has a
bypass. -/

/-- The instructions, given the targets of the switch. -/
def ladder (targets : List Mark) : List Step :=
  [⟨⟨7⟩, .jump Opcode.goto ⟨3⟩⟩, ⟨⟨3⟩, .tableSwitch ⟨9⟩ 0 8199 targets⟩,
    ⟨⟨8⟩, .jump Opcode.ifEq ⟨7⟩⟩, ⟨⟨9⟩, .plain Opcode.returnVoid⟩]

/-- Distances to targets that are placed are put in one after the other. -/
theorem exists_resolve_words {narrow : Std.HashSet Nat} {placed : Std.HashMap Mark Nat}
    {origin : Nat} {targets : List Mark} (ht : ∀ target ∈ targets, placed[target]?.isSome = true)
    (rest : List (Piece narrow)) (written : Bytes) : ∃ written',
      Draft.resolve placed (targets.map (.word origin ·) ++ rest) written =
        Draft.resolve placed rest written' := by
  induction targets generalizing written with
  | nil => exact ⟨written, rfl⟩
  | cons target targets ih =>
    obtain ⟨hfirst, hrest⟩ := List.forall_mem_cons.mp ht
    obtain ⟨position, hp⟩ := Option.isSome_iff_exists.mp hfirst
    obtain ⟨written', hw⟩ :=
      ih hrest ((longDistance (distance origin position)).reverse ++ written)
    refine ⟨written', ?_⟩
    rw [List.map_cons, List.cons_append, Draft.resolve, Draft.find_eq_ok.mpr hp]
    exact hw

/-- The switch with targets that come later. -/
theorem form_ladder {narrow : Std.HashSet Nat} {site : Site} {targets : List Mark}
    (hl : targets.length = 8200) (ht : ∀ target ∈ targets, target = ⟨9⟩)
    (hs : site.placed[(⟨9⟩ : Mark)]? = none) :
    (Instruction.tableSwitch ⟨9⟩ 0 8199 targets).form Pool.empty site =
      .ok (⟨site.switchStart Opcode.tableSwitch :: .word site.position ⟨9⟩ ::
        .bytes (Bytes.ofInt32 0 ++ Bytes.ofInt32 8199) ::
        targets.map (.word site.position ·), false⟩ : Form narrow) := by
  have hcase : site.case ⟨9⟩ = (.word site.position ⟨9⟩ : Piece narrow) := by
    rw [Site.case, hs]
  have hcases : targets.map site.case = targets.map (@Piece.word narrow site.position) :=
    List.map_congr_left fun target htarget => ht target htarget ▸ hcase
  rw [Instruction.form]
  simp only [hl, hcase, hcases]
  rfl

/-- Distances that are not known yet take four bytes each. -/
theorem foldl_size_words {narrow : Std.HashSet Nat} (origin : Nat) (targets : List Mark)
    (size : Nat) : ((targets.map (@Piece.word narrow origin)).map Piece.size).foldl (· + ·) size =
      size + 4 * targets.length := by
  induction targets generalizing size with
  | nil => rfl
  | cons target targets ih =>
    rw [List.map_cons, List.map_cons, List.foldl_cons, ih, Piece.size, List.length_cons]
    omega

namespace Ladder

variable {narrow : Std.HashSet Nat} {targets : List Mark} (hn : 0 ∈ narrow)

def ahead : Step := ⟨⟨7⟩, .jump Opcode.goto ⟨3⟩⟩

def switch (targets : List Mark) : Step := ⟨⟨3⟩, .tableSwitch ⟨9⟩ 0 8199 targets⟩

def back : Step := ⟨⟨8⟩, .jump Opcode.ifEq ⟨7⟩⟩

def last : Step := ⟨⟨9⟩, .plain Opcode.returnVoid⟩

/-- The draft after the jump ahead, whose distance takes two bytes. -/
def first (targets : List Mark) : Draft narrow :=
  Draft.empty.write ahead [switch targets, back, last]
    ⟨[.bytes [Opcode.goto], .half 0 ⟨3⟩ ⟨0, hn⟩], false⟩

/-- The draft after the switch. -/
def second (targets : List Mark) : Draft narrow :=
  (first hn targets).write (switch targets) [back, last]
    ⟨.bytes [Opcode.tableSwitch] :: .word 3 ⟨9⟩ ::
      .bytes (Bytes.ofInt32 0 ++ Bytes.ofInt32 8199) :: targets.map (.word 3 ·), false⟩

/-- The jump back, behind one with the inverted condition. -/
def bypass : Bytes := Site.bypass Opcode.ifNe ++ longDistance (-32819)

def third (targets : List Mark) : Draft narrow :=
  (second hn targets).write back [last] ⟨[.bytes bypass], true⟩

def fourth (targets : List Mark) : Draft narrow :=
  (third hn targets).write last [] ⟨[.bytes [Opcode.returnVoid]], false⟩

theorem size_second (hl : targets.length = 8200) : (second hn targets).size = 32816 :=
  (foldl_size_words 3 targets 16).trans (by rw [hl])

theorem size_fourth (hl : targets.length = 8200) : (fourth hn targets).size = 32825 := by
  show (second hn targets).size + 8 + 1 = 32825
  rw [size_second hn hl]

theorem placed_fourth (hl : targets.length = 8200) : (fourth hn targets).placed =
    ((((∅ : Std.HashMap Mark Nat).insert ⟨7⟩ 0).insert ⟨3⟩ 3).insert ⟨8⟩ 32816).insert ⟨9⟩
      32824 := by
  show ((((∅ : Std.HashMap Mark Nat).insert ⟨7⟩ 0).insert ⟨3⟩ 3).insert ⟨8⟩
    (second hn targets).size).insert ⟨9⟩ ((second hn targets).size + 8) = _
  rw [size_second hn hl]

/-- The jump back leads too far for two bytes. -/
theorem form_back (hl : targets.length = 8200) :
    back.instruction.form Pool.empty ((second hn targets).site 2 back) =
      .ok (⟨[.bytes bypass], true⟩ : Form narrow) := by
  have hsite : (second hn targets).site 2 back = ⟨2, 32816,
      (((∅ : Std.HashMap Mark Nat).insert ⟨7⟩ 0).insert ⟨3⟩ 3).insert ⟨8⟩ 32816⟩ := by
    rw [Draft.site, size_second hn hl]
    rfl
  have hzero : ((((∅ : Std.HashMap Mark Nat).insert ⟨7⟩ 0).insert ⟨3⟩ 3).insert ⟨8⟩
      32816)[(⟨7⟩ : Mark)]? = some 0 := by
    rw [Std.HashMap.getElem?_insert, if_neg (by decide), Std.HashMap.getElem?_insert,
      if_neg (by decide), Std.HashMap.getElem?_insert_self]
  rw [hsite]
  show Except.ok (Site.branch _ Opcode.ifEq Opcode.ifNe ⟨7⟩) = _
  rw [Site.branch, hzero]
  rfl

theorem extend_ladder (hl : targets.length = 8200) (ht : ∀ target ∈ targets, target = ⟨9⟩) :
    Draft.extend Pool.empty 0 (ladder targets) (Draft.empty : Draft narrow) =
      .ok (fourth hn targets) := by
  have hone : Draft.extend Pool.empty 0 (ladder targets) (Draft.empty : Draft narrow) =
      Draft.extend Pool.empty 1 [switch targets, back, last] (first hn targets) := by
    refine Draft.extend_cons (Nat.zero_le _) ?_
    simp [Instruction.form, Site.jump, Draft.site, Draft.empty, hn]
  have htwo : Draft.extend Pool.empty 1 [switch targets, back, last] (first hn targets) =
      Draft.extend Pool.empty 2 [back, last] (second hn targets) := by
    refine Draft.extend_cons (Nat.le_add_left 3 65532) (form_ladder hl ht ?_)
    show (((∅ : Std.HashMap Mark Nat).insert ⟨7⟩ 0).insert ⟨3⟩ 3)[(⟨9⟩ : Mark)]? = none
    simp
  have hthree : Draft.extend Pool.empty 2 [back, last] (second hn targets) =
      Draft.extend Pool.empty 3 [last] (third hn targets) := by
    refine Draft.extend_cons ?_ (form_back hn hl)
    rw [size_second hn hl]
    decide
  have hfour : Draft.extend Pool.empty 3 [last] (third hn targets) =
      Draft.extend Pool.empty 4 [] (fourth hn targets) := by
    refine Draft.extend_cons ?_ rfl
    show (second hn targets).size + 8 ≤ 65535
    rw [size_second hn hl]
    decide
  rw [hone, htwo, hthree, hfour]
  rfl

theorem exists_resolve (hl : targets.length = 8200) (ht : ∀ target ∈ targets, target = ⟨9⟩) :
    ∃ code, Draft.resolve (fourth hn targets).placed (fourth hn targets).pieces.reverse [] =
      .ok (.code code) := by
  have hthree : (fourth hn targets).placed[(⟨3⟩ : Mark)]? = some 3 := by
    rw [placed_fourth hn hl, Std.HashMap.getElem?_insert, if_neg (by decide),
      Std.HashMap.getElem?_insert, if_neg (by decide), Std.HashMap.getElem?_insert_self]
  have hnine : (fourth hn targets).placed[(⟨9⟩ : Mark)]? = some 32824 := by
    rw [placed_fourth hn hl, Std.HashMap.getElem?_insert_self]
  have hpieces : (fourth hn targets).pieces.reverse =
      .bytes [Opcode.goto] :: .half 0 ⟨3⟩ ⟨0, hn⟩ :: .bytes [Opcode.tableSwitch] ::
        .word 3 ⟨9⟩ :: .bytes (Bytes.ofInt32 0 ++ Bytes.ofInt32 8199) ::
        (targets.map (.word 3 ·) ++ [.bytes bypass, .bytes [Opcode.returnVoid]]) := by
    simp [fourth, third, second, first, Draft.write, Draft.empty]
  obtain ⟨written, hwritten⟩ := @exists_resolve_words narrow (fourth hn targets).placed 3 targets
    (fun target htarget => by rw [ht target htarget, hnine]; rfl)
    [.bytes bypass, .bytes [Opcode.returnVoid]]
    ((Bytes.ofInt32 0 ++ Bytes.ofInt32 8199).reverse ++
      ((longDistance (distance 3 32824)).reverse ++ ([Opcode.tableSwitch] ++
        ((shortDistance 3).reverse ++ [Opcode.goto]))))
  rw [hpieces]
  refine ⟨_, Eq.trans ?_ (hwritten.trans rfl)⟩
  simp only [Draft.resolve, Draft.find_eq_ok.mpr hthree, Draft.find_eq_ok.mpr hnine]
  rfl

end Ladder

theorem exists_ofSteps_ladder {targets : List Mark} (hl : targets.length = 8200)
    (ht : ∀ target ∈ targets, target = ⟨9⟩) :
    ∃ layout, ofSteps Pool.empty (ladder targets) = .ok layout ∧ layout.landings = [⟨9⟩] := by
  have hn : 0 ∈ jumps (ladder targets) := by simp [jumps, ladder]
  obtain ⟨code, hcode⟩ := Ladder.exists_resolve hn hl ht
  refine ⟨⟨code, (Ladder.fourth hn targets).placed, (Ladder.fourth hn targets).landings.reverse⟩,
    ?_, rfl⟩
  have hsize := Ladder.size_fourth hn hl
  rw [ofSteps, within_eq_trial, trial, Ladder.extend_ladder hn hl ht]
  dsimp only
  rw [if_neg (by omega), hcode]

theorem shows_ladder : ∃ layout,
    ofSteps Pool.empty (ladder (List.replicate 8200 ⟨9⟩)) = .ok layout ∧
    layout.landings = [⟨9⟩] ∧ ∃ rows instructions number,
      Bytecode.all ⟨layout.code, 0⟩ = .ok (rows, ⟨[], 0 + layout.code.length⟩) ∧
      rows.mapM (fun row =>
        (Starts.ofOffsets layout.code.length (rows.map (·.1))).resolve row.2) = .ok instructions ∧
      (∀ step ∈ ladder (List.replicate 8200 ⟨9⟩), ∀ target ∈ step.instruction.targets,
        ∃ other ∈ ladder (List.replicate 8200 ⟨9⟩), other.mark = target) ∧
      Shows layout.placed number 0 (ladder (List.replicate 8200 ⟨9⟩))
        ((rows.map (·.1)).zip instructions) layout.landings := by
  obtain ⟨layout, h, hlandings⟩ := @exists_ofSteps_ladder (List.replicate 8200 ⟨9⟩)
    List.length_replicate fun _ => List.eq_of_mem_replicate
  refine ⟨layout, h, hlandings, ?_⟩
  generalize List.replicate 8200 (⟨9⟩ : Mark) = targets at h ⊢
  have hn : ((ladder targets).map (·.mark)).Nodup :=
    show ([⟨7⟩, ⟨3⟩, ⟨8⟩, ⟨9⟩] : List Mark).Nodup by decide
  refine shows_ofSteps hn ?_ ?_ h 0
  · simp only [ladder, List.forall_mem_cons, Instruction.isReadable]
    decide
  · simp only [ladder, List.getLast?_cons_cons, List.getLast?_singleton, Option.mem_some_iff,
      forall_eq']
    decide

end Layout

end ClassGraft

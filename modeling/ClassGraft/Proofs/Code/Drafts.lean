import Mathlib.Data.List.Nodup
import ClassGraft.Proofs.Code.Forms

/-!
# Code that was laid out

The code of a layout is read back instruction by instruction (`Layout.exists_isReadAs`).  What is
read shows the steps in order (`Layout.Rows`): each of them is one instruction at its position,
except for jumps with a bypass, which are two.

A layout comes from the last of several drafts.  Drafts are extended step by step, and what is known
of a position when a step is written stays known (`Draft.known_extend`).
-/

namespace ClassGraft

open Reader

/-! ### Reading several instructions -/

/-- Bytes at an offset of the code that are read as instructions, whatever follows. -/
inductive Bytecode.Reads (base : Nat) : Nat → Bytes → List (Nat × Instruction Nat) → Prop
  | nil (origin : Nat) : Reads base origin [] []
  | cons {origin : Nat} {bytes more : Bytes} {value : Instruction Nat}
      {rows : List (Nat × Instruction Nat)}
      (h : (instruction base origin).Takes (base + origin) bytes value)
      (hr : Reads base (origin + bytes.length) more rows) :
      Reads base origin (bytes ++ more) ((origin, value) :: rows)

namespace Bytecode

variable {base origin : Nat} {bytes : Bytes} {rows : List (Nat × Instruction Nat)}

/-- An instruction has at least one byte. -/
theorem length_pos_of_takes {offset : Nat} {value : Instruction Nat}
    (h : (instruction base origin).Takes offset bytes value) : 0 < bytes.length := by
  rcases Nat.eq_zero_or_pos bytes.length with hz | hpos
  · have hnil := h []
    rw [List.length_eq_zero_iff.mp hz] at hnil
    exact absurd hnil (by simp [instruction, uint8, number, take, bind, StateT.bind, Except.bind])
  · exact hpos

theorem allFrom_of_reads (h : Reads base origin bytes rows) {fuel : Nat}
    (hf : bytes.length ≤ fuel) (found : List (Nat × Instruction Nat)) :
    allFrom base fuel found ⟨bytes, base + origin⟩ =
      .ok (found.reverse ++ rows, ⟨[], base + origin + bytes.length⟩) := by
  induction h generalizing fuel found with
  | nil =>
    rw [List.append_nil]
    cases fuel with
    | zero => rfl
    | succ fuel => rfl
  | @cons origin bytes more value rows h _ ih =>
    have hpos := length_pos_of_takes h
    rw [List.length_append] at hf
    obtain ⟨fuel, rfl⟩ := Nat.exists_eq_add_of_le' (Nat.lt_of_lt_of_le hpos (by omega : _ ≤ fuel))
    have hne : (bytes ++ more).isEmpty = false := by
      rw [List.isEmpty_eq_false_iff, ← List.length_pos_iff, List.length_append]
      omega
    rw [allFrom, hne, Nat.add_sub_cancel_left]
    simp only [Bool.false_eq_true, if_false, h more]
    rw [Nat.add_assoc base, ih (by omega)]
    simp [Nat.add_assoc]

/-- Reading goes on to the end of the code. -/
theorem all_of_reads (h : Reads base 0 bytes rows) :
    all ⟨bytes, base⟩ = .ok (rows, ⟨[], base + bytes.length⟩) :=
  allFrom_of_reads h (Nat.le_refl _) []

end Bytecode

/-! ### What a layout shows -/

/-- What is read from the code of steps that stand at some positions, and the marks that jumps with
a bypass lead to. -/
inductive Layout.Rows (placed : Std.HashMap Mark Nat) :
    List Step → List (Nat × Instruction Nat) → List Mark → Prop
  | nil : Rows placed [] [] []
  | same {step : Step} {steps : List Step} {rows : List (Nat × Instruction Nat)}
      {landings : List Mark} {origin : Nat} (ho : placed[step.mark]? = some origin)
      (ht : ∀ target ∈ step.instruction.targets, ∃ position, placed[target]? = some position)
      (h : Rows placed steps rows landings) :
      Rows placed (step :: steps)
        ((origin, step.instruction.mapTargets (placeOf placed)) :: rows) landings
  | bypass {mark target : Mark} {op inverse : Opcode} {next : Step} {steps : List Step}
      {rows : List (Nat × Instruction Nat)} {landings : List Mark} {origin : Nat}
      (ho : placed[mark]? = some origin) (hi : op.inverse? = some inverse)
      (ht : ∃ position, placed[target]? = some position)
      (h : Rows placed (next :: steps) rows landings) :
      Rows placed (⟨mark, .jump op target⟩ :: next :: steps)
        ((origin, .jump inverse (placeOf placed next.mark)) ::
          (origin + 3, .jump Opcode.goto (placeOf placed target)) :: rows)
        (next.mark :: landings)

/-! ### Drafts -/

namespace Draft

variable {narrow : Std.HashSet Nat} {pool : Pool} {index : Nat} {draft draft' : Draft narrow}

theorem extend_cons_eq_ok {step : Step} {steps : List Step} :
    extend pool index (step :: steps) draft = .ok draft' ↔ draft.size ≤ 65535 ∧ ∃ form,
      step.instruction.form pool ⟨index, draft.size, draft.placed.insert step.mark draft.size⟩ =
        .ok form ∧
      extend pool (index + 1) steps ⟨(form.pieces.map Piece.size).foldl (· + ·) draft.size,
        draft.placed.insert step.mark draft.size, form.pieces.reverse ++ draft.pieces,
        if form.bypasses then (steps.head?.map (·.mark)).toList ++ draft.landings
        else draft.landings⟩ = .ok draft' := by
  obtain ⟨size, placed, pieces, landings⟩ := draft
  rw [extend]
  split_ifs with hs
  · simp [Nat.not_le.mpr hs]
  · simp only [Nat.le_of_not_lt hs, true_and]
    split
    · rename_i cause hf
      simp [hf]
    · rename_i form hf
      simp [hf]

/-- What a draft and the steps that are still to be written rely on: every mark is new when it is
placed, and positions fit into two bytes. -/
structure Awaits (draft : Draft narrow) (steps : List Step) : Prop where
  nodup : (steps.map (·.mark)).Nodup
  fresh : ∀ step ∈ steps, draft.placed[step.mark]? = none
  bounded : ∀ (mark : Mark) (position : Nat), draft.placed[mark]? = some position →
    position ≤ 65535

theorem Awaits.tail {step : Step} {steps : List Step} (h : draft.Awaits (step :: steps))
    (hs : draft.size ≤ 65535)
    (hp : draft'.placed = draft.placed.insert step.mark draft.size) : draft'.Awaits steps := by
  obtain ⟨hn, hf, hb⟩ := h
  rw [List.map_cons, List.nodup_cons] at hn
  refine ⟨hn.2, fun other ho => ?_, fun mark position hposition => ?_⟩
  · have hne : step.mark ≠ other.mark := fun he => hn.1 (he ▸ List.mem_map_of_mem ho)
    rw [hp, Std.HashMap.getElem?_insert, if_neg (by simpa using hne)]
    exact hf other (List.mem_cons_of_mem _ ho)
  · rw [hp, Std.HashMap.getElem?_insert] at hposition
    split_ifs at hposition
    · obtain rfl := Option.some.inj hposition
      exact hs
    · exact hb mark position hposition

/-- Positions that are known stay. -/
theorem known_extend {steps : List Step} (ha : draft.Awaits steps)
    (h : extend pool index steps draft = .ok draft') {mark : Mark} {position : Nat}
    (hp : draft.placed[mark]? = some position) : draft'.placed[mark]? = some position := by
  induction steps generalizing index draft with
  | nil =>
    obtain rfl := Except.ok.inj h
    exact hp
  | cons step steps ih =>
    obtain ⟨hs, form, -, h⟩ := extend_cons_eq_ok.mp h
    refine ih (ha.tail hs rfl) h ?_
    have hne : step.mark ≠ mark := by
      rintro rfl
      rw [ha.fresh step List.mem_cons_self] at hp
      simp at hp
    rw [Std.HashMap.getElem?_insert, if_neg (by simpa using hne)]
    exact hp

/-- Positions stay within two bytes. -/
theorem bounded_extend {steps : List Step} (ha : draft.Awaits steps)
    (h : extend pool index steps draft = .ok draft') (mark : Mark) (position : Nat)
    (hp : draft'.placed[mark]? = some position) : position ≤ 65535 := by
  induction steps generalizing index draft with
  | nil =>
    obtain rfl := Except.ok.inj h
    exact ha.bounded mark position hp
  | cons step steps ih =>
    obtain ⟨hs, form, -, h⟩ := extend_cons_eq_ok.mp h
    exact ih (ha.tail hs rfl) h

/-- Only steps have positions. -/
theorem exists_of_getElem?_extend {steps : List Step}
    (h : extend pool index steps draft = .ok draft') {mark : Mark} {position : Nat}
    (hp : draft'.placed[mark]? = some position) :
    (∃ step ∈ steps, step.mark = mark) ∨ draft.placed[mark]? = some position := by
  induction steps generalizing index draft with
  | nil =>
    obtain rfl := Except.ok.inj h
    exact .inr hp
  | cons step steps ih =>
    obtain ⟨-, form, -, h⟩ := extend_cons_eq_ok.mp h
    rcases ih h with ⟨other, ho, hm⟩ | hold
    · exact .inl ⟨other, List.mem_cons_of_mem _ ho, hm⟩
    · rw [Std.HashMap.getElem?_insert] at hold
      split_ifs at hold with he
      · exact .inl ⟨step, List.mem_cons_self, eq_of_beq he⟩
      · exact .inr hold

/-- The first of the steps stands where the draft ended. -/
theorem getElem?_head_extend {step : Step} {steps : List Step} (ha : draft.Awaits (step :: steps))
    (h : extend pool index (step :: steps) draft = .ok draft') :
    draft'.placed[step.mark]? = some draft.size := by
  obtain ⟨hs, form, -, h⟩ := extend_cons_eq_ok.mp h
  exact known_extend (ha.tail hs rfl) h Std.HashMap.getElem?_insert_self

/-- The site of a step knows positions of the finished draft. -/
theorem isWithin_extend {step : Step} {steps : List Step} (ha : draft.Awaits (step :: steps))
    (h : extend pool index (step :: steps) draft = .ok draft') :
    Site.IsWithin ⟨index, draft.size, draft.placed.insert step.mark draft.size⟩ draft'.placed := by
  have hb := bounded_extend ha h
  obtain ⟨hs, form, -, h⟩ := extend_cons_eq_ok.mp h
  exact ⟨fun mark position hp => known_extend (ha.tail hs rfl) h hp, hs, hb⟩

/-- The code of a jump with a bypass is read as two jumps, the first one over the second. -/
theorem reads_bypass {base origin position : Nat} {inverse : Opcode} (hi : inverse.isJump = true)
    (ho : origin + 8 ≤ 65535) (hp : position ≤ 65535) {more : Bytes}
    {rows : List (Nat × Instruction Nat)}
    (h : Bytecode.Reads base (origin + 8) more rows) :
    Bytecode.Reads base origin (inverse :: shortDistance 8 ++
        Opcode.gotoWide :: longDistance (distance (origin + 3) position) ++ more)
      ((origin, .jump inverse (origin + 8)) :: (origin + 3, .jump Opcode.goto position) ::
        rows) := by
  have hd : distance origin (origin + 8) = 8 := by
    unfold distance
    omega
  have hshort := @Bytecode.takes_shortJump base origin inverse hi (origin + 8) ho (by rw [hd]; rfl)
    (base + origin)
  have hlong := @Bytecode.takes_longJump base (origin + 3) Opcode.goto Opcode.gotoWide position
    (by omega) hp rfl rfl (base + (origin + 3))
  rw [hd] at hshort
  have hread : Bytecode.Reads base origin _ _ := .cons hshort (.cons hlong h)
  simpa using hread

section Steps

variable {base : Nat} {placed : Std.HashMap Mark Nat} {site : Site} {step : Step}
  {steps : List Step} {form : Form narrow} {front back : Bytes} {marks : List Mark}
  {rows : List (Nat × Instruction Nat)}

/-- A step without a bypass is read back before what is read of the later steps. -/
theorem reads_step (hs : site.IsWithin placed) (hat : placed[step.mark]? = some site.position)
    (hr : step.instruction.isReadable = true) (hf : step.instruction.form pool site = .ok form)
    (hb : form.bypasses = false) (hfront : Piece.ResolveTo placed form.pieces front)
    (hreads : Bytecode.Reads base (site.position + front.length) back rows)
    (hrows : Layout.Rows placed steps rows marks) :
    ∃ all, Bytecode.Reads base site.position (front ++ back) all ∧
      Layout.Rows placed (step :: steps) all marks := by
  obtain ⟨htargets, htakes⟩ := Instruction.takes_form hs hr hf hb hfront
  exact ⟨_, .cons htakes hreads, .same hat htargets hrows⟩

/-- A step with a bypass is read back as two jumps, the first one to the next step. -/
theorem reads_bypassed_step (hs : site.IsWithin placed)
    (hat : placed[step.mark]? = some site.position)
    (hf : step.instruction.form pool site = .ok form) (hb : form.bypasses = true)
    (hfront : Piece.ResolveTo placed form.pieces front) {next : Step}
    (hnext : placed[next.mark]? = some (site.position + front.length))
    (hreads : Bytecode.Reads base (site.position + front.length) back rows)
    (hrows : Layout.Rows placed (next :: steps) rows marks) :
    ∃ all, Bytecode.Reads base site.position (front ++ back) all ∧
      Layout.Rows placed (step :: next :: steps) all (next.mark :: marks) := by
  obtain ⟨op, inverse, target, hjump, hi, rfl⟩ := Instruction.exists_of_bypasses hf hb
  obtain ⟨hinverse, -, -⟩ := Opcode.isJump_of_inverse? hi
  obtain ⟨position, htarget, hbytes, -⟩ := Site.resolves_branch hs hfront
  obtain rfl := hbytes hb
  have hlength : (inverse :: shortDistance 8 ++ Opcode.gotoWide ::
      longDistance (distance (site.position + 3) position)).length = 8 := by simp
  rw [hlength] at hreads hnext
  have hread := reads_bypass hinverse (hs.bounded next.mark _ hnext)
    (hs.bounded target position htarget) hreads
  refine ⟨_, hread, ?_⟩
  rw [← placeOf_of_eq_some hnext, ← placeOf_of_eq_some htarget]
  obtain ⟨mark, instruction⟩ := step
  obtain rfl := hjump
  exact .bypass hat hi ⟨position, htarget⟩ hrows

/-- The last step has no bypass: it would go on where the condition does not hold. -/
theorem not_bypasses_of_last (hf : step.instruction.form pool site = .ok form)
    (hl : step.instruction.fallsThrough = false) : form.bypasses = false := by
  by_contra hb
  obtain ⟨op, inverse, target, hjump, hi, -⟩ :=
    Instruction.exists_of_bypasses hf (Bool.not_eq_false _ ▸ hb)
  obtain ⟨-, -, hconditional⟩ := Opcode.isJump_of_inverse? hi
  rw [hjump, Instruction.fallsThrough] at hl
  simp [Instruction.opcode, hconditional] at hl

end Steps

/-- The pieces of a draft come to code that is read back as what the steps show. -/
theorem reads_extend (base : Nat) {steps : List Step} (ha : draft.Awaits steps)
    (hr : ∀ step ∈ steps, step.instruction.isReadable = true)
    (hl : ∀ last ∈ steps.getLast?, last.instruction.fallsThrough = false)
    (h : extend pool index steps draft = .ok draft') :
    ∃ pieces marks, draft'.pieces = pieces.reverse ++ draft.pieces ∧
      draft'.landings = marks.reverse ++ draft.landings ∧
      ∀ bytes, Piece.ResolveTo draft'.placed pieces bytes →
        draft'.size = draft.size + bytes.length ∧
        ∃ rows, Bytecode.Reads base draft.size bytes rows ∧
          Layout.Rows draft'.placed steps rows marks := by
  induction steps generalizing index draft with
  | nil =>
    obtain rfl := Except.ok.inj h
    refine ⟨[], [], rfl, rfl, fun bytes hbytes => ?_⟩
    rw [hbytes.eq_of_nil]
    exact ⟨rfl, [], .nil _, .nil⟩
  | cons step steps ih =>
    have hplace := getElem?_head_extend ha h
    have hwithin := isWithin_extend ha h
    obtain ⟨hs, form, hform, hrest⟩ := extend_cons_eq_ok.mp h
    have hlast : ∀ last ∈ steps.getLast?, last.instruction.fallsThrough = false := by
      intro last hlast
      refine hl last ?_
      rw [List.getLast?_cons, Option.mem_def.mp hlast]
      rfl
    obtain ⟨pieces, marks, hpieces, hmarks, hspec⟩ := ih (ha.tail hs rfl)
      (fun other ho => hr other (List.mem_cons_of_mem _ ho)) hlast hrest
    have hfinal : draft'.pieces = (form.pieces ++ pieces).reverse ++ draft.pieces := by
      rw [hpieces, List.reverse_append, List.append_assoc]
    cases hbypass : form.bypasses with
    | false =>
      refine ⟨form.pieces ++ pieces, marks, hfinal, ?_, fun bytes hbytes => ?_⟩
      · rw [hmarks, hbypass]
        rfl
      · obtain ⟨front, back, hfront, hback, rfl⟩ := hbytes.append_inv
        obtain ⟨hsize, rows, hreads, hrows⟩ := hspec back hback
        rw [hfront.length] at hsize hreads
        refine ⟨?_, reads_step hwithin hplace (hr step List.mem_cons_self) hform hbypass hfront
          hreads hrows⟩
        rw [List.length_append, ← Nat.add_assoc, hsize]
    | true =>
      cases steps with
      | nil =>
        -- there is nothing to jump to
        have hnone := not_bypasses_of_last hform (hl step rfl)
        rw [hbypass] at hnone
        simp at hnone
      | cons next steps =>
        refine ⟨form.pieces ++ pieces, next.mark :: marks, hfinal, ?_, fun bytes hbytes => ?_⟩
        · rw [hmarks, hbypass]
          simp
        · have hnext := getElem?_head_extend (ha.tail hs rfl) hrest
          obtain ⟨front, back, hfront, hback, rfl⟩ := hbytes.append_inv
          obtain ⟨hsize, rows, hreads, hrows⟩ := hspec back hback
          dsimp only at hnext
          rw [hfront.length] at hsize hreads hnext
          refine ⟨?_, reads_bypassed_step hwithin hplace hform hbypass hfront hnext hreads hrows⟩
          rw [List.length_append, ← Nat.add_assoc, hsize]

end Draft

/-! ### Layouts -/

theorem Draft.find_eq_ok {placed : Std.HashMap Mark Nat} {target : Mark} {position : Nat} :
    find placed target = .ok position ↔ placed[target]? = some position := by
  unfold find
  cases placed[target]? with
  | none => simp
  | some found => simp

theorem Draft.find_eq_error {placed : Std.HashMap Mark Nat} {target : Mark} {fault : ClassFault}
    (h : find placed target = .error fault) :
    placed[target]? = none ∧ fault = .unencodable (.noInstruction target) := by
  unfold find at h
  split at h
  · simp at h
  · rename_i hnone
    exact ⟨hnone, (Except.error.inj h).symm⟩

/-- Code that was made of pieces is what they come to. -/
theorem Draft.resolveTo_of_resolve {narrow : Std.HashSet Nat} {placed : Std.HashMap Mark Nat}
    {pieces : List (Piece narrow)} {written code : Bytes}
    (h : Draft.resolve placed pieces written = .ok (.code code)) :
    ∃ bytes, Piece.ResolveTo placed pieces bytes ∧ code = written.reverse ++ bytes := by
  induction pieces generalizing written with
  | nil =>
    obtain rfl : written.reverse = code := by simpa [resolve] using h
    exact ⟨[], .nil, (List.append_nil _).symm⟩
  | cons piece pieces ih =>
    -- A half that is too far away makes no code, so that each half here is a short distance.
    cases piece with
    | bytes content =>
      obtain ⟨bytes, hr, rfl⟩ := ih h
      exact ⟨content ++ bytes, .cons (.bytes content) hr, by simp⟩
    | half origin target jump =>
      rw [resolve] at h
      split at h
      · simp at h
      · rename_i position hp
        dsimp only at h
        split_ifs at h with hd
        · obtain ⟨bytes, hr, rfl⟩ := ih h
          exact ⟨_, .cons (.half (find_eq_ok.mp hp) hd) hr, by simp⟩
        · simp at h
    | word origin target =>
      rw [resolve] at h
      split at h
      · simp at h
      · rename_i position hp
        obtain ⟨bytes, hr, rfl⟩ := ih h
        exact ⟨_, .cons (.word (find_eq_ok.mp hp)) hr, by simp⟩

namespace Layout

variable {pool : Pool} {steps : List Step} {layout : Layout}

/-- A layout is that of some draft whose distances all fit. -/
theorem exists_draft_of_within {narrow : Std.HashSet Nat}
    (h : within pool steps narrow = .ok layout) :
    ∃ (narrow : Std.HashSet Nat) (draft : Draft narrow),
      Draft.extend pool 0 steps Draft.empty = .ok draft ∧
      0 < draft.size ∧ draft.size ≤ 65535 ∧
      Piece.ResolveTo draft.placed draft.pieces.reverse layout.code ∧
      layout.placed = draft.placed ∧ layout.landings = draft.landings.reverse := by
  fun_induction within pool steps narrow with
  | case1 => simp at h
  | case2 => simp at h
  | case3 => simp at h
  | case4 narrow draft hdraft hsize code hcode =>
    obtain rfl := Except.ok.inj h
    obtain ⟨bytes, hr, rfl⟩ := Draft.resolveTo_of_resolve hcode
    exact ⟨narrow, draft, hdraft, by omega, by omega, hr, rfl, rfl⟩
  | case5 narrow draft hdraft hsize jump hfar ih => exact ih h

/-- What is read from the code of a layout of steps, whose positions fit into two bytes. -/
structure IsReadAs (layout : Layout) (base : Nat) (steps : List Step)
    (rows : List (Nat × Instruction Nat)) : Prop where
  length : layout.code.length ≤ 65535
  bounded : ∀ (mark : Mark) (position : Nat), layout.placed[mark]? = some position →
    position ≤ 65535
  marks : ∀ (mark : Mark) (position : Nat), layout.placed[mark]? = some position →
    ∃ step ∈ steps, step.mark = mark
  reads : Bytecode.Reads base 0 layout.code rows
  rows : Rows layout.placed steps rows layout.landings

/-- The code of a layout is read back as what the steps show, each at its position. -/
theorem exists_isReadAs (hn : (steps.map (·.mark)).Nodup)
    (hr : ∀ step ∈ steps, step.instruction.isReadable = true)
    (hl : ∀ last ∈ steps.getLast?, last.instruction.fallsThrough = false)
    (h : ofSteps pool steps = .ok layout) (base : Nat) :
    ∃ rows, layout.IsReadAs base steps rows := by
  obtain ⟨narrow, draft, hdraft, hpos, hle, hcode, hplaced, hlandings⟩ :=
    exists_draft_of_within h
  have ha : (Draft.empty : Draft narrow).Awaits steps := by
    refine ⟨hn, fun step _ => ?_, fun mark position hp => ?_⟩
    · simp [Draft.empty]
    · simp [Draft.empty] at hp
  obtain ⟨pieces, marks, hpieces, hmarks, hspec⟩ := Draft.reads_extend base ha hr hl hdraft
  have hall : draft.pieces.reverse = pieces := by
    rw [hpieces]
    simp [Draft.empty]
  have hland : draft.landings.reverse = marks := by
    rw [hmarks]
    simp [Draft.empty]
  rw [hall] at hcode
  obtain ⟨hsize, rows, hreads, hrows⟩ := hspec layout.code hcode
  rw [← hland, ← hlandings] at hrows
  refine ⟨rows, ?_, ?_, fun mark position hp => ?_, hreads, hplaced ▸ hrows⟩
  · simp only [Draft.empty, Nat.zero_add] at hsize
    omega
  · rw [hplaced]
    exact Draft.bounded_extend ha hdraft
  · rw [hplaced] at hp
    exact (Draft.exists_of_getElem?_extend hdraft hp).resolve_right (by simp [Draft.empty])

end Layout

end ClassGraft

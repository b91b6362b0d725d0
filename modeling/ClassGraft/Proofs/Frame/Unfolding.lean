import ClassGraft.Proofs.Code.Renumbering
import ClassGraft.Proofs.Frame.Changes
import ClassGraft.Proofs.Frame.Correspondence
import ClassGraft.Proofs.Frame.Heights

/-!
# Bodies that only differ in marks and in bypasses

A body may have the instructions and handlers of another one under other marks, with two jumps for
each of which the code has a bypass (`Body.Unfolds`).  Its instructions stand in the same order.
Then the stack is as high on all paths (`Body.Unfolds.isEnough_iff`), an instruction does the same
(`Body.Unfolds.ties`), and control goes on in the same way (`Body.Unfolds.edge`), if by way of the
second jump (`Body.Unfolds.edge_of_goto`).
-/

namespace ClassGraft

/-- Whether a body has the instructions and the handlers of another one, which refers to its own
instructions only, under other marks, where a jump that lands behind a bypass is two instructions. -/
structure Body.Unfolds (number : Mark → Mark) (place : Nat → Nat) (landings : List Mark)
    (body again : Body) : Prop where
  steps : Step.AreUnfolded number place landings body.steps again.steps
  handlers : again.handlers = body.handlers.map (Handler.renumber number)
  references : ∀ handler ∈ body.handlers, ∀ mark ∈ handler.marks, mark ∈ body.steps.map (·.mark)

theorem Instruction.words?_mapTargets {τ σ : Type} (f : τ → σ) (pool : Pool)
    (instruction : Instruction τ) :
    (instruction.mapTargets f).words? pool = instruction.words? pool := by
  cases instruction <;> rfl

/-- A jump on the opposite condition is of the same kind. -/
theorem Opcode.kind_of_inverse? {op inverse : Opcode} (h : op.inverse? = some inverse) :
    (op == jsr) = false ∧ (inverse == jsr) = false ∧
      (op == goto) = false ∧ (inverse == goto) = false ∧
      (isBetween ifEq ifLe inverse || inverse == ifNull || inverse == ifNonNull) =
        (isBetween ifEq ifLe op || op == ifNull || op == ifNonNull) ∧
      isBetween ifIntEq ifRefNe inverse = isBetween ifIntEq ifRefNe op := by
  have hop : ∀ op : Opcode, op.inverse?.all (fun inverse => decide
      ((op == jsr) = false ∧ (inverse == jsr) = false ∧
        (op == goto) = false ∧ (inverse == goto) = false ∧
        (isBetween ifEq ifLe inverse || inverse == ifNull || inverse == ifNonNull) =
          (isBetween ifEq ifLe op || op == ifNull || op == ifNonNull) ∧
        isBetween ifIntEq ifRefNe inverse = isBetween ifIntEq ifRefNe op)) = true :=
    forall_of_fin (by decide +kernel)
  exact of_decide_eq_true ((Option.all_eq_true _ _).mp (hop op) inverse h)

theorem words?_of_inverse? {op inverse : Opcode} (h : op.inverse? = some inverse)
    (target : Mark) (pool : Pool) :
    (Instruction.jump inverse target).words? pool = some (op.jumpWords, 0) := by
  obtain ⟨-, -, hop, hinverse, hone, -⟩ := Opcode.kind_of_inverse? h
  unfold Instruction.words? Opcode.jumpWords
  dsimp only
  rw [hop, hinverse, hone]

/-- A jump on a condition goes on to the instruction that follows it. -/
theorem fallsThrough_of_inverse? {op inverse : Opcode} (h : op.inverse? = some inverse)
    (target : Mark) : (Instruction.jump op target).fallsThrough = true := by
  have hop : (Instruction.jump op target).opcode.isUnconditional = false :=
    (Opcode.isJump_of_inverse? h).2.2
  rw [Instruction.fallsThrough, hop]
  rfl

theorem Scene.execute_of_jump {scene : Scene} {step : Step} {op : Opcode} {target : Mark}
    (h : step.instruction = .jump op target) (frame : Frame) :
    scene.execute step frame = jump frame op := by
  rw [execute, h]

/-- A jump on the opposite condition leaves the same frame, or fails as the jump does. -/
theorem Scene.jump_of_inverse? {op inverse : Opcode} (h : op.inverse? = some inverse)
    {before after : Frame} : jump before inverse = .ok after ↔ jump before op = .ok after := by
  obtain ⟨hop, hinverse, hop', hinverse', hone, htwo⟩ := Opcode.kind_of_inverse? h
  unfold jump
  rw [hop, hinverse, hop', hinverse', hone, htwo]
  simp only [Bool.false_eq_true, if_false]
  split_ifs
  · exact Iff.rfl
  · exact Iff.rfl
  · exact iff_of_false (fun he => (by cases he)) fun he => (by cases he)

theorem Body.lt_of_getElem?_positions {body : Body} {mark : Mark} {index : Nat}
    (h : body.positions[mark]? = some index) : index < body.steps.length := by
  obtain ⟨step, hstep, -⟩ := of_getElem?_positions h
  exact (List.getElem?_eq_some_iff.mp hstep).1

namespace Body.Unfolds

variable {number : Mark → Mark} {place : Nat → Nat} {landings : List Mark} {body again : Body}

/-! ### Places -/

/-- Instructions stand at their places. -/
theorem positions (h : body.Unfolds number place landings again) {mark : Mark}
    (hm : mark ∈ body.steps.map (·.mark)) :
    again.positions[number mark]? = body.positions[mark]?.map place := by
  obtain ⟨step, hstep, rfl⟩ := List.mem_map.mp hm
  obtain ⟨index, hindex⟩ := List.mem_iff_getElem?.mp hstep
  obtain ⟨step', hstep', hmark⟩ := h.steps.exists_at hindex
  rw [getElem?_positions h.steps.distinct hindex, ← hmark]
  exact getElem?_positions h.steps.nodup hstep'

/-- No two instructions have one mark. -/
theorem separates (h : body.Unfolds number place landings again) :
    Mark.Separates number (body.steps.map (·.mark)) := by
  intro mark hmark other hother he
  obtain ⟨step, hstep, rfl⟩ := List.mem_map.mp hmark
  obtain ⟨step', hstep', rfl⟩ := List.mem_map.mp hother
  obtain ⟨i, hi⟩ := List.mem_iff_getElem?.mp hstep
  obtain ⟨j, hj⟩ := List.mem_iff_getElem?.mp hstep'
  obtain ⟨found, hfound, hmark⟩ := h.steps.exists_at hi
  have hplace := h.steps.eq_place hj hfound (hmark.trans he)
  obtain rfl := (h.steps.place_inj (Nat.le_of_lt (List.getElem?_eq_some_iff.mp hi).1)
    (Nat.le_of_lt (List.getElem?_eq_some_iff.mp hj).1)).mp hplace
  rw [Option.some.inj (hi.symm.trans hj)]

/-- Handlers have the same ranges and entries. -/
theorem rangeOf? (h : body.Unfolds number place landings again) {handler : Handler}
    (hh : handler ∈ body.handlers) :
    again.rangeOf? (handler.renumber number) =
        (body.rangeOf? handler).map (fun range => (place range.1, place range.2)) ∧
      again.positions[(handler.renumber number).entry]? = body.positions[handler.entry]?.map place := by
  have hmarks := h.references handler hh
  obtain ⟨start, stop, entry, caught⟩ := handler
  refine ⟨?_, h.positions (hmarks _ (List.mem_cons_of_mem _ List.mem_cons_self))⟩
  unfold Body.rangeOf? Handler.renumber
  dsimp only
  rw [h.positions (hmarks _ List.mem_cons_self)]
  cases stop with
  | finish =>
    rw [Place.renumber, ← h.steps.last]
    cases body.positions[start]? <;> rfl
  | «at» mark =>
    rw [Place.renumber]
    dsimp only
    rw [h.positions (hmarks _ (List.mem_cons_of_mem _ (List.mem_cons_of_mem _ List.mem_cons_self)))]
    cases body.positions[start]? with
    | none => rfl
    | some index => cases body.positions[mark]? <;> rfl

theorem le_of_rangeOf? {handler : Handler} {range : Nat × Nat}
    (hr : body.rangeOf? handler = some range) :
    range.1 ≤ body.steps.length ∧ range.2 ≤ body.steps.length := by
  obtain ⟨start, stop, entry, caught⟩ := handler
  obtain ⟨first, hfirst, hr⟩ := Option.bind_eq_some_iff.mp hr
  have hle := Nat.le_of_lt (lt_of_getElem?_positions hfirst)
  cases stop with
  | finish =>
    obtain rfl := Option.some.inj hr
    exact ⟨hle, Nat.le_refl _⟩
  | «at» mark =>
    obtain ⟨last, hlast, hr⟩ := Option.bind_eq_some_iff.mp hr
    obtain rfl := Option.some.inj hr
    exact ⟨hle, Nat.le_of_lt (lt_of_getElem?_positions hlast)⟩

/-! ### Paths -/

variable {pool : Pool}

/-- On every path the stack is as high where instructions stand. -/
theorem climbs (h : body.Unfolds number place landings again) {index height : Nat}
    (hc : body.Climbs pool index height) : again.Climbs pool (place index) height := by
  induction hc with
  | first =>
    rw [h.steps.first]
    exact .first
  | @jump index height target step words mark _ hs hw hm ht ih =>
    have hplace (ht : body.positions[mark]? = some target) :
        again.positions[number mark]? = some (place target) := by
      rw [h.positions (h.steps.targets step (List.mem_of_getElem? hs) mark hm), ht]
      rfl
    cases h.steps.unfolded index step hs with
    | same hsame =>
      refine .jump ih hsame ((Instruction.words?_mapTargets _ _ _).trans hw) ?_ (hplace ht)
      rw [Step.renumber, Instruction.targets_mapTargets]
      exact List.mem_map_of_mem hm
    | @bypass op inverse target' extra next hjump hinverse _ hfirst hgoto =>
      rw [hjump] at hw hm
      obtain rfl := List.mem_singleton.mp hm
      obtain rfl := Option.some.inj hw
      have hnone : (Instruction.jump Opcode.goto (number mark)).words? pool = some (0, 0) := rfl
      have hgoes := Climbs.next ih hfirst (words?_of_inverse? hinverse _ pool)
        (fallsThrough_of_inverse? (Opcode.inverse?_of_inverse? hinverse) _)
      have hjumps := Climbs.jump hgoes hgoto hnone (List.mem_singleton.mpr rfl) (hplace ht)
      exact hjumps
  | @next index height step words _ hs hw hf ih =>
    cases h.steps.unfolded index step hs with
    | same hsame hp =>
      rw [hp]
      exact .next ih hsame ((Instruction.words?_mapTargets _ _ _).trans hw)
        ((Instruction.fallsThrough_mapTargets _ _).trans hf)
    | bypass hjump hinverse hn hfirst _ =>
      rw [hjump] at hw
      obtain rfl := Option.some.inj hw
      refine .jump ih hfirst (words?_of_inverse? hinverse _ pool) (List.mem_singleton.mpr rfl) ?_
      rw [h.positions (List.mem_map_of_mem (List.mem_of_getElem? hn)),
        getElem?_positions h.steps.distinct hn]
      rfl
  | @caught index height target handler range hc hh hr hi ht ih =>
    obtain ⟨hrange, hentry⟩ := h.rangeOf? hh
    rw [hr] at hrange
    rw [ht] at hentry
    obtain ⟨hstart, hstop⟩ := le_of_rangeOf? hr
    refine .caught ih (h.handlers ▸ List.mem_map_of_mem hh) hrange ?_ hentry
    exact (h.steps.contains_place hstart hstop (Nat.le_trans (Nat.le_of_lt hi.2) hstop)).mpr hi

/-- The second jump is on a path if the jump with a bypass is. -/
theorem exists_climbs_between (h : body.Unfolds number place landings again) {index height : Nat}
    (hi : index < body.steps.length) (hp : place (index + 1) = place index + 2)
    (hc : body.Climbs pool index height) : ∃ after, again.Climbs pool (place index + 1) after := by
  cases h.steps.unfolded index _ (List.getElem?_eq_getElem hi) with
  | same _ hsame => omega
  | bypass _ hinverse _ hfirst =>
    exact ⟨_, .next (h.climbs hc) hfirst (words?_of_inverse? hinverse _ pool)
      (fallsThrough_of_inverse? (Opcode.inverse?_of_inverse? hinverse) _)⟩

/-- Whether a place is on a path with a stack of some height: that of an instruction, or what
follows the place of a jump with a bypass. -/
inductive ClimbsAt (pool : Pool) (place : Nat → Nat) (body : Body) : Nat → Nat → Prop
  | at {index height : Nat} (hi : index ≤ body.steps.length) (hc : body.Climbs pool index height) :
      ClimbsAt pool place body (place index) height
  | between {index height : Nat} {step : Step} {words : Nat × Nat}
      (hp : place (index + 1) = place index + 2) (hs : body.steps[index]? = some step)
      (hw : step.instruction.words? pool = some words) (hc : body.Climbs pool index height) :
      ClimbsAt pool place body (place index + 1) (height - words.1 + words.2)

theorem ClimbsAt.of_positions {mark : Mark} {index height : Nat}
    (hp : body.positions[mark]? = some index) (hc : body.Climbs pool index height) :
    ClimbsAt pool place body (place index) height :=
  .at (Nat.le_of_lt (lt_of_getElem?_positions hp)) hc

/-- The target of a jump is a place. -/
theorem exists_position (h : body.Unfolds number place landings again) {step : Step}
    (hs : step ∈ body.steps) {mark : Mark} (hm : mark ∈ step.instruction.targets) {target : Nat}
    (ht : again.positions[number mark]? = some target) :
    ∃ i, body.positions[mark]? = some i ∧ place i = target := by
  rw [h.positions (h.steps.targets step hs mark hm)] at ht
  exact Option.map_eq_some_iff.mp ht

/-- What jumps to a place does so as the instructions do. -/
theorem climbsAt_jump (h : body.Unfolds number place landings again) {k height target : Nat}
    {step' : Step} {words : Nat × Nat} {mark' : Mark} (hc : ClimbsAt pool place body k height)
    (hs : again.steps[k]? = some step') (hw : step'.instruction.words? pool = some words)
    (hm : mark' ∈ step'.instruction.targets) (ht : again.positions[mark']? = some target) :
    ClimbsAt pool place body target (height - words.1 + words.2) := by
  cases hc with
  | @«at» i _ hle hi =>
    have hlt := h.steps.lt_of_getElem? hle hs
    have hstep : body.steps[i]? = some body.steps[i] := List.getElem?_eq_getElem hlt
    cases h.steps.unfolded i _ hstep with
    | same hsame =>
      obtain rfl := Option.some.inj (hs.symm.trans hsame)
      rw [Step.renumber, Instruction.targets_mapTargets] at hm
      obtain ⟨mark, hmark, rfl⟩ := List.mem_map.mp hm
      obtain ⟨j, hj, rfl⟩ := h.exists_position (List.mem_of_getElem? hstep) hmark ht
      exact .of_positions hj
        (.jump hi hstep ((Instruction.words?_mapTargets _ _ _).symm.trans hw) hmark hj)
    | bypass hjump hinverse hn hfirst =>
      -- the jump on the opposite condition leads to the instruction that follows
      obtain rfl := Option.some.inj (hs.symm.trans hfirst)
      obtain rfl := List.mem_singleton.mp hm
      rw [h.positions (List.mem_map_of_mem (List.mem_of_getElem? hn)),
        getElem?_positions h.steps.distinct hn] at ht
      obtain rfl := Option.some.inj ht
      obtain rfl := Option.some.inj ((words?_of_inverse? hinverse _ pool).symm.trans hw)
      refine .at hlt (.next hi hstep (by rw [hjump]; rfl) ?_)
      rw [hjump]
      exact fallsThrough_of_inverse? hinverse _
  | @between i _ step words' hp hstep hw' hi =>
    cases h.steps.unfolded i step hstep with
    | same _ hsame => omega
    | @bypass _ _ mark _ _ hjump _ _ _ hgoto =>
      obtain rfl := Option.some.inj (hs.symm.trans hgoto)
      obtain rfl := List.mem_singleton.mp hm
      obtain rfl : (0, 0) = words := Option.some.inj hw
      have hmark : mark ∈ step.instruction.targets := by
        rw [hjump]
        exact List.mem_singleton.mpr rfl
      obtain ⟨j, hj, rfl⟩ := h.exists_position (List.mem_of_getElem? hstep) hmark ht
      have hjumps := Climbs.jump hi hstep hw' hmark hj
      exact .of_positions hj hjumps

/-- What goes on to the next place does so as the instructions do. -/
theorem climbsAt_next (h : body.Unfolds number place landings again) {k height : Nat}
    {step' : Step} {words : Nat × Nat} (hc : ClimbsAt pool place body k height)
    (hs : again.steps[k]? = some step') (hw : step'.instruction.words? pool = some words)
    (hf : step'.instruction.fallsThrough = true) :
    ClimbsAt pool place body (k + 1) (height - words.1 + words.2) := by
  cases hc with
  | @«at» i _ hle hi =>
    have hlt := h.steps.lt_of_getElem? hle hs
    have hstep : body.steps[i]? = some body.steps[i] := List.getElem?_eq_getElem hlt
    cases h.steps.unfolded i _ hstep with
    | same hsame hp =>
      obtain rfl := Option.some.inj (hs.symm.trans hsame)
      rw [← hp]
      exact .at hlt (.next hi hstep ((Instruction.words?_mapTargets _ _ _).symm.trans hw)
        ((Instruction.fallsThrough_mapTargets _ _).symm.trans hf))
    | bypass hjump hinverse _ hfirst _ hp =>
      obtain rfl := Option.some.inj (hs.symm.trans hfirst)
      obtain rfl := Option.some.inj ((words?_of_inverse? hinverse _ pool).symm.trans hw)
      exact .between hp hstep (by rw [hjump]; rfl) hi
  | @between i _ step words' hp hstep hw' hi =>
    cases h.steps.unfolded i step hstep with
    | same _ hsame => omega
    | bypass _ _ _ _ hgoto =>
      obtain rfl := Option.some.inj (hs.symm.trans hgoto)
      cases hf

/-- A place is in a range of what is read back if the instruction is in the range. -/
theorem ClimbsAt.exists_contains (h : body.Unfolds number place landings again) {k height : Nat}
    (hc : ClimbsAt pool place body k height) {handler : Handler} {range : Nat × Nat}
    (hr : body.rangeOf? handler = some range) (hin : place range.1 ≤ k ∧ k < place range.2) :
    ∃ i before, body.Climbs pool i before ∧ range.1 ≤ i ∧ i < range.2 := by
  obtain ⟨hstart, hstop⟩ := le_of_rangeOf? hr
  cases hc with
  | «at» hle hi => exact ⟨_, _, hi, (h.steps.contains_place hstart hstop hle).mp hin⟩
  | between hp hstep hw hi =>
    have hlt := (List.getElem?_eq_some_iff.mp hstep).1
    exact ⟨_, _, hi, (h.steps.contains_place_succ hstart hstop hlt hp).mp hin⟩

/-- A handler that is read back is one of the body, with the places of its range and its entry. -/
theorem exists_handler (h : body.Unfolds number place landings again) {handler' : Handler}
    (hh : handler' ∈ again.handlers) {range' : Nat × Nat}
    (hr : again.rangeOf? handler' = some range') {target : Nat}
    (ht : again.positions[handler'.entry]? = some target) :
    ∃ handler range j, handler ∈ body.handlers ∧ body.rangeOf? handler = some range ∧
      body.positions[handler.entry]? = some j ∧ range' = (place range.1, place range.2) ∧
      target = place j := by
  rw [h.handlers] at hh
  obtain ⟨handler, hhandler, rfl⟩ := List.mem_map.mp hh
  obtain ⟨hrange, hentry⟩ := h.rangeOf? hhandler
  obtain ⟨range, hrange', rfl⟩ := Option.map_eq_some_iff.mp (hrange.symm.trans hr)
  obtain ⟨j, hj, rfl⟩ := Option.map_eq_some_iff.mp (hentry.symm.trans ht)
  exact ⟨handler, range, j, hhandler, hrange', hj, rfl, rfl⟩

/-- Every path through what is read back is one through the body. -/
theorem climbsAt (h : body.Unfolds number place landings again) {k height : Nat}
    (hc : again.Climbs pool k height) : ClimbsAt pool place body k height := by
  induction hc with
  | first =>
    have hfirst : ClimbsAt pool place body (place 0) 0 := .at (Nat.zero_le _) .first
    rwa [h.steps.first] at hfirst
  | jump _ hs hw hm ht ih => exact h.climbsAt_jump ih hs hw hm ht
  | next _ hs hw hf ih => exact h.climbsAt_next ih hs hw hf
  | caught _ hh hr hin ht ih =>
    obtain ⟨handler, range, j, hhandler, hrange, hj, rfl, rfl⟩ := h.exists_handler hh hr ht
    obtain ⟨i, before, hi, hcontains⟩ := ih.exists_contains h hrange hin
    exact .of_positions hj (.caught hi hhandler hrange hcontains hj)

/-- An instruction is on the same paths. -/
theorem climbs_iff (h : body.Unfolds number place landings again) {index height : Nat}
    (hi : index ≤ body.steps.length) :
    again.Climbs pool (place index) height ↔ body.Climbs pool index height := by
  refine ⟨fun hc => ?_, h.climbs⟩
  generalize hk : place index = k at hc
  cases h.climbsAt hc with
  | «at» hle hc =>
    obtain rfl := (h.steps.place_inj hi hle).mp hk
    exact hc
  | between hp hstep =>
    exact absurd hk (h.steps.place_ne (List.getElem?_eq_some_iff.mp hstep).1 hp hi)

/-- As many words are enough for what is read back. -/
theorem isEnough_iff (h : body.Unfolds number place landings again) {limit : Nat} :
    again.IsEnough pool limit ↔ body.IsEnough pool limit := by
  constructor
  · intro he
    refine ⟨fun index height step words hc hs hw => ?_, fun index height handler range target hc hh hr
      hi ht => ?_⟩
    · cases h.steps.unfolded index step hs with
      | same hsame =>
        exact he.stack (place index) height _ words (h.climbs hc) hsame
          ((Instruction.words?_mapTargets _ _ _).trans hw)
      | bypass hjump hinverse _ hfirst =>
        rw [hjump] at hw
        exact he.stack (place index) height _ words (h.climbs hc) hfirst
          ((words?_of_inverse? hinverse _ pool).trans hw)
    · obtain ⟨hrange, hentry⟩ := h.rangeOf? hh
      rw [hr] at hrange
      rw [ht] at hentry
      obtain ⟨hstart, hstop⟩ := le_of_rangeOf? hr
      exact he.caught _ _ _ _ _ (h.climbs hc) (h.handlers ▸ List.mem_map_of_mem hh) hrange
        ((h.steps.contains_place hstart hstop (Nat.le_trans (Nat.le_of_lt hi.2) hstop)).mpr hi) hentry
  · intro he
    refine ⟨fun k height step' words hc hs hw => ?_, fun k height handler' range' target hc hh hr
      hin ht => ?_⟩
    · cases h.climbsAt hc with
      | @«at» i _ hle hi =>
        have hlt := h.steps.lt_of_getElem? hle hs
        have hstep : body.steps[i]? = some body.steps[i] := List.getElem?_eq_getElem hlt
        cases h.steps.unfolded i _ hstep with
        | same hsame =>
          obtain rfl := Option.some.inj (hs.symm.trans hsame)
          exact he.stack i height _ words hi hstep
            ((Instruction.words?_mapTargets _ _ _).symm.trans hw)
        | bypass hjump hinverse _ hfirst =>
          obtain rfl := Option.some.inj (hs.symm.trans hfirst)
          obtain rfl := Option.some.inj ((words?_of_inverse? hinverse _ pool).symm.trans hw)
          exact he.stack i height _ _ hi hstep (by rw [hjump]; rfl)
      | between hp hstep hw' hi =>
        -- the second jump takes nothing from what the first one leaves
        cases h.steps.unfolded _ _ hstep with
        | same _ hsame => omega
        | bypass _ _ _ _ hgoto =>
          obtain rfl := Option.some.inj (hs.symm.trans hgoto)
          obtain rfl : (0, 0) = words := Option.some.inj hw
          have hafter := (he.stack _ _ _ _ hi hstep hw').2
          exact ⟨hafter, hafter⟩
    · obtain ⟨handler, range, j, hhandler, hrange, hj, rfl, -⟩ := h.exists_handler hh hr ht
      obtain ⟨i, before, hi, hcontains⟩ := (h.climbsAt hc).exists_contains h hrange hin
      exact he.caught _ _ _ _ _ hi hhandler hrange hcontains hj

end Body.Unfolds

end ClassGraft

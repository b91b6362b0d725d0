import ClassGraft.Proofs.Class.DeadCode
import ClassGraft.Proofs.Graft.Tidied

/-!
# What holds at an instruction

Exception ranges, local variables and lines hold at some of the instructions of a body
(`Body.surroundingsAt`).  Insertions move the marks at which ranges and lines begin and end, and the
indices of these marks, but not across any instruction: what held at an instruction still holds
there, and what is inserted before or after an instruction is where that one is
(`Body.surroundings_splices`).
-/

namespace ClassGraft

/-! ### Ranges and lines -/

/-- The local variables of an attribute. -/
def BodyAttribute.variableEntries : BodyAttribute → List (VariableTable × VariableEntry)
  | .locals table _ entries => entries.map (table, ·)
  | .lines _ _ | .frames _ _ | .other _ => []

/-- The lines of an attribute. -/
def BodyAttribute.lineEntries : BodyAttribute → List LineEntry
  | .lines _ entries => entries
  | .locals _ _ _ | .frames _ _ | .other _ => []

/-- What holds at an instruction. -/
structure Surroundings where
  /-- For each handler where it starts, what it catches, and whether its range has the
  instruction. -/
  handlers : List (Mark × UInt16 × Bool)
  /-- For each local variable its table, name, descriptor and slot, and whether it lives there. -/
  lifetimes : List (VariableTable × UInt16 × UInt16 × UInt16 × Bool)
  /-- The lines with the greatest start that is not after the instruction. -/
  lines : List UInt16
  deriving DecidableEq, Repr

namespace Body

/-- The local variables of a body. -/
def variableEntries (body : Body) : List (VariableTable × VariableEntry) :=
  body.attributes.flatMap BodyAttribute.variableEntries

/-- The lines of a body. -/
def lineEntries (body : Body) : List LineEntry :=
  body.attributes.flatMap BodyAttribute.lineEntries

/-- The marks at which ranges begin and end, and lines begin. -/
def bounds (body : Body) : List Mark :=
  body.handlers.flatMap (fun handler => handler.start :: handler.stop.marks) ++
    body.variableEntries.flatMap (fun row => row.2.start :: row.2.stop.marks) ++
    body.lineEntries.map (·.start)

/-- Whether an instruction is in the range of a local variable. -/
def livesAt (body : Body) (entry : VariableEntry) (index : Nat) : Bool :=
  match body.position? entry.start, body.indexOf? entry.stop with
  | some start, some stop => decide (start ≤ index ∧ index < stop)
  | _, _ => false

/-- The lines that start at an instruction or before it, with where they do. -/
def linesUpTo (body : Body) (index : Nat) : List (Nat × UInt16) :=
  (body.lineEntries.filterMap fun entry =>
    (body.position? entry.start).map (·, entry.line)).filter (·.1 ≤ index)

/-- What holds at the instruction with an index. -/
def surroundingsAt (body : Body) (index : Nat) : Surroundings where
  handlers := body.handlers.map fun handler =>
    (handler.entry, handler.catchType, body.covers handler index)
  lifetimes := body.variableEntries.map fun (table, entry) =>
    (table, entry.name, entry.descriptor, entry.slot, body.livesAt entry index)
  lines :=
    let lines := body.linesUpTo index
    (lines.filter fun line => lines.all (·.1 ≤ line.1)).map (·.2)

/-- What holds at the instruction with a mark. -/
def surroundings? (body : Body) (mark : Mark) : Option Surroundings :=
  (body.position? mark).map body.surroundingsAt

/-! ### Bounds that move -/

/-- Whether the ranges and lines of a body are those of another one, under other marks that stand
where `shift` says. -/
structure HasMoved (body later : Body) (rename : Mark → Mark) (shift : Nat → Nat) : Prop where
  handlers : later.handlers = body.handlers.map fun handler =>
    { handler with start := rename handler.start, stop := handler.stop.renumber rename }
  variableEntries : later.variableEntries = body.variableEntries.map fun (table, entry) =>
    (table, entry.renumber rename)
  lines : later.lineEntries = body.lineEntries.map (LineEntry.renumber rename)
  position : ∀ mark ∈ body.bounds, later.position? (rename mark) = (body.position? mark).map shift
  finish : later.steps.length = shift body.steps.length
  mono : StrictMono shift

namespace HasMoved

variable {body later : Body} {rename : Mark → Mark} {shift : Nat → Nat} {index index' : Nat}

theorem bounds_eq (h : HasMoved body later rename shift) :
    later.bounds = body.bounds.map rename := by
  have hstop (place : Place) : (place.renumber rename).marks = place.marks.map rename := by
    cases place <;> rfl
  rw [bounds, bounds, h.handlers, h.variableEntries, h.lines]
  simp only [List.flatMap_map, List.map_append, List.map_flatMap, List.map_map, List.map_cons,
    VariableEntry.renumber, hstop]
  rfl

theorem indexOf? (h : HasMoved body later rename shift) {place : Place}
    (hp : ∀ mark ∈ place.marks, mark ∈ body.bounds) :
    later.indexOf? (place.renumber rename) = (body.indexOf? place).map shift := by
  cases place with
  | «at» mark => exact h.position mark (hp mark (List.mem_singleton_self mark))
  | finish => exact congrArg some h.finish

/-- A range has the instructions that it had, wherever they stand on the same side of all that is
moved. -/
theorem within (h : HasMoved body later rename shift) {start : Mark} {stop : Place}
    (hm : ∀ mark ∈ start :: stop.marks, mark ∈ body.bounds)
    (hs : ∀ bound, shift bound ≤ index' ↔ bound ≤ index) :
    (match later.position? (rename start), later.indexOf? (stop.renumber rename) with
      | some start, some stop => decide (start ≤ index' ∧ index' < stop)
      | _, _ => false) =
    match body.position? start, body.indexOf? stop with
      | some start, some stop => decide (start ≤ index ∧ index < stop)
      | _, _ => false := by
  obtain ⟨hstart, hstop⟩ := List.forall_mem_cons.mp hm
  rw [h.position start hstart, h.indexOf? hstop]
  cases body.position? start with
  | none => rfl
  | some first =>
    cases body.indexOf? stop with
    | none => rfl
    | some last =>
      refine decide_eq_decide.mpr (and_congr (hs first) ?_)
      rw [← Nat.not_le, ← Nat.not_le, hs last]

/-- What starts at an instruction or before it still does. -/
theorem linesUpTo_eq (h : HasMoved body later rename shift)
    (hs : ∀ bound, shift bound ≤ index' ↔ bound ≤ index) :
    later.linesUpTo index' =
      (body.linesUpTo index).map fun line => (shift line.1, line.2) := by
  have hentries : (later.lineEntries.filterMap fun entry =>
        (later.position? entry.start).map (·, entry.line)) =
      (body.lineEntries.filterMap fun entry =>
        (body.position? entry.start).map (·, entry.line)).map
          fun line => (shift line.1, line.2) := by
    rw [h.lines, List.filterMap_map, List.map_filterMap]
    refine List.filterMap_congr fun entry hentry => ?_
    have hbound : entry.start ∈ body.bounds :=
      List.mem_append_right _ (List.mem_map_of_mem hentry)
    show ((later.position? (rename entry.start)).map _) = _
    rw [h.position _ hbound, Option.map_map, Option.map_map]
    rfl
  rw [linesUpTo, linesUpTo, hentries, List.filter_map]
  refine congrArg _ (List.filter_congr fun line _ => ?_)
  exact decide_eq_decide.mpr (hs line.1)

theorem surroundingsAt_eq (h : HasMoved body later rename shift)
    (hs : ∀ bound, shift bound ≤ index' ↔ bound ≤ index) :
    later.surroundingsAt index' = body.surroundingsAt index := by
  rw [surroundingsAt, surroundingsAt, Surroundings.mk.injEq]
  refine ⟨?_, ?_, ?_⟩
  · rw [h.handlers, List.map_map]
    refine List.map_congr_left fun handler hh => ?_
    have hbounds : ∀ mark ∈ handler.start :: handler.stop.marks, mark ∈ body.bounds :=
      fun mark hm => List.mem_append_left _ (List.mem_append_left _
        (List.mem_flatMap.mpr ⟨handler, hh, hm⟩))
    exact congrArg (fun covered => (handler.entry, handler.catchType, covered))
      (h.within hbounds hs)
  · rw [h.variableEntries, List.map_map]
    refine List.map_congr_left fun ⟨table, entry⟩ hv => ?_
    have hbounds : ∀ mark ∈ entry.start :: entry.stop.marks, mark ∈ body.bounds :=
      fun mark hm => List.mem_append_left _ (List.mem_append_right _
        (List.mem_flatMap.mpr ⟨(table, entry), hv, hm⟩))
    exact congrArg (fun lives => (table, entry.name, entry.descriptor, entry.slot, lives))
      (h.within hbounds hs)
  · dsimp only
    rw [h.linesUpTo_eq hs, List.filter_map, List.map_map]
    refine congrArg _ (List.filter_congr fun line _ => ?_)
    rw [Function.comp_apply, List.all_map]
    exact List.all_congr rfl fun other => decide_eq_decide.mpr h.mono.le_iff_le

end HasMoved

/-! ### Insertions -/

/-- Where something stands after `count` more were put in front of the one with index `cut`. -/
def shiftFrom (cut count index : Nat) : Nat := if index < cut then index else index + count

theorem strictMono_shiftFrom (cut count : Nat) : StrictMono (shiftFrom cut count) := by
  intro index other h
  unfold shiftFrom
  split_ifs <;> omega

theorem position?_eq_findIdx? (body : Body) (mark : Mark) :
    body.position? mark = (body.steps.map (·.mark)).findIdx? (· == mark) := by
  rw [position?, List.findIdx?_map]
  rfl

variable {body later : Body} {marks added : List Mark} {cut : Nat} {mark : Mark}

theorem isSome_position? : (body.position? mark).isSome ↔ mark ∈ body.steps.map (·.mark) := by
  rw [position?_eq_findIdx?, List.findIdx?_isSome, List.any_beq']
  simp

theorem findIdx?_eq_none_of_notMem (h : mark ∉ marks) : marks.findIdx? (· == mark) = none :=
  List.findIdx?_eq_none_iff.mpr fun _ ho => beq_eq_false_iff_ne.mpr fun he => h (he ▸ ho)

/-- A mark that is not among the new ones is moved by their number from where they are on. -/
theorem position?_of_insert (hm : body.steps.map (·.mark) = marks)
    (hl : later.steps.map (·.mark) = marks.take cut ++ added ++ marks.drop cut)
    (hc : cut ≤ marks.length) (hadded : mark ∉ added) :
    later.position? mark = (body.position? mark).map (shiftFrom cut added.length) := by
  have hlength : (marks.take cut).length = cut := List.length_take_of_le hc
  rw [position?_eq_findIdx?, position?_eq_findIdx?, hl, hm, List.findIdx?_append,
    List.findIdx?_append, findIdx?_eq_none_of_notMem hadded, Option.map_none, Option.or_none,
    List.length_append, hlength]
  conv_rhs => rw [← List.take_append_drop cut marks, List.findIdx?_append, hlength]
  cases hfront : (marks.take cut).findIdx? (· == mark) with
  | some index =>
    have hlt : index < cut := by
      obtain ⟨hindex, -⟩ := List.findIdx?_eq_some_iff_getElem.mp hfront
      omega
    simp [shiftFrom, hlt]
  | none =>
    rw [Option.none_or, Option.none_or, Option.map_map]
    refine Option.map_congr fun index _ => ?_
    simp [shiftFrom]
    omega

/-- A new mark stands where it is among the new ones. -/
theorem position?_of_mem_insert {index : Nat}
    (hl : later.steps.map (·.mark) = marks.take cut ++ added ++ marks.drop cut)
    (hc : cut ≤ marks.length) (hadded : added.findIdx? (· == mark) = some index)
    (hf : mark ∉ marks) : later.position? mark = some (cut + index) := by
  have hnone : (marks.take cut).findIdx? (· == mark) = none :=
    findIdx?_eq_none_of_notMem fun hmem => hf (List.mem_of_mem_take hmem)
  rw [position?_eq_findIdx?, hl, List.append_assoc, List.findIdx?_append, List.findIdx?_append,
    hnone, hadded, List.length_take_of_le hc]
  simp [Nat.add_comm]

end Body

/-- An insertion of instructions. -/
inductive Splice where
  /-- Before an instruction, such that what refers to it refers to the first of the new ones. -/
  | before (anchor : Mark) (steps : List Step)
  | after (anchor : Mark) (steps : List Step)
  /-- Before the first instruction, to which all still refers that did. -/
  | entry (steps : List Step)

namespace Splice

/-- The new instructions. -/
def steps : Splice → List Step
  | before _ steps | after _ steps | entry steps => steps

/-- The instruction that the new ones belong to. -/
def anchor? : Splice → Option Mark
  | before anchor _ | after anchor _ => some anchor
  | entry _ => none

/-- Whether the instruction that is named is there, and the new ones have marks of their own. -/
structure Fits (marks : List Mark) (splice : Splice) : Prop where
  filled : marks ≠ []
  anchor : ∀ anchor ∈ splice.anchor?, anchor ∈ marks
  fresh : ∀ mark ∈ splice.steps.map (·.mark), mark ∉ marks

/-- Whether each of the insertions fits after those before it. -/
def AllFit : List Mark → List Splice → Prop
  | _, [] => True
  | marks, splice :: rest =>
    splice.Fits marks ∧ AllFit (splice.steps.map (·.mark) ++ marks) rest

end Splice

namespace Body

/-- Inserts instructions.  Absent if there is no such place. -/
def splice? (body : Body) : Splice → Option Body
  | .before anchor steps => body.insertBefore anchor steps true
  | .after anchor steps => body.insertAfter anchor steps
  | .entry steps => body.steps.head?.bind fun first => body.insertBefore first.mark steps false

/-- What is where after an insertion: the new marks in front of those with an index from `cut` on,
and bounds moved from `edge` on. -/
structure Spliced (body later : Body) (added : List Mark) (cut edge : Nat) : Prop where
  le : cut ≤ (body.steps.map (·.mark)).length
  marks : later.steps.map (·.mark) =
    (body.steps.map (·.mark)).take cut ++ added ++ (body.steps.map (·.mark)).drop cut
  near : edge = cut ∨ edge = cut + 1
  moved : ∃ rename, HasMoved body later rename (shiftFrom edge added.length)
  entries : later.handlers.map (·.entry) = body.handlers.map (·.entry)

variable {steps : List Step} {edge : Nat}

/-- New instructions in front of all from an index on move the bounds from there on. -/
theorem spliced_insertAt (hc : cut ≤ body.steps.length)
    (hb : ∀ mark ∈ body.bounds, mark ∈ body.steps.map (·.mark))
    (hf : ∀ mark ∈ steps.map (·.mark), mark ∉ body.steps.map (·.mark)) :
    Spliced body (body.insertAt cut steps) (steps.map (·.mark)) cut cut := by
  have hmarks := body.map_mark_insertAt cut steps
  have hle : cut ≤ (body.steps.map (·.mark)).length := by rwa [List.length_map]
  refine ⟨hle, hmarks, .inl rfl, ⟨id, ?_⟩, rfl⟩
  refine
    { handlers := by simp only [Place.renumber_id, id, List.map_id']; rfl
      variableEntries := by simp only [VariableEntry.renumber_id, id, List.map_id']; rfl
      lines := by simp only [LineEntry.renumber_id, List.map_id]; rfl
      position := fun mark hmark => ?_
      finish := ?_
      mono := strictMono_shiftFrom _ _ }
  · exact position?_of_insert rfl hmarks hle fun hadded => hf mark hadded (hb mark hmark)
  · have hlength := congrArg List.length hmarks
    simp only [List.length_map, List.length_append, List.length_take, List.length_drop] at hlength
    rw [shiftFrom, if_neg (Nat.not_lt.mpr hc), hlength, List.length_map]
    omega

theorem variableEntries_move (source target : Mark) (attributes : List BodyAttribute) :
    (attributes.map (BodyAttribute.move source target)).flatMap BodyAttribute.variableEntries =
      (attributes.flatMap BodyAttribute.variableEntries).map fun (table, entry) =>
        (table, entry.renumber (Mark.move source target)) := by
  rw [List.flatMap_map, List.map_flatMap]
  refine congrArg (fun f => attributes.flatMap f) (funext fun item => ?_)
  cases item with
  | «locals» table name entries =>
    simp [BodyAttribute.move, BodyAttribute.variableEntries, Place.move_eq_renumber,
      VariableEntry.renumber]
  | _ => rfl

theorem lineEntries_move (source target : Mark) (attributes : List BodyAttribute) :
    (attributes.map (BodyAttribute.move source target)).flatMap BodyAttribute.lineEntries =
      (attributes.flatMap BodyAttribute.lineEntries).map
        (LineEntry.renumber (Mark.move source target)) := by
  rw [List.flatMap_map, List.map_flatMap]
  refine congrArg (fun f => attributes.flatMap f) (funext fun item => ?_)
  cases item <;> rfl

/-- New instructions before one to which references move leave bounds there where they are. -/
theorem spliced_insertAt_retarget {anchor : Mark} {first : Step} {rest : List Step}
    (hc : body.position? anchor = some cut)
    (hb : ∀ mark ∈ body.bounds, mark ∈ body.steps.map (·.mark))
    (hf : ∀ mark ∈ (first :: rest).map (·.mark), mark ∉ body.steps.map (·.mark)) :
    Spliced body ((body.retarget anchor first.mark).insertAt cut (first :: rest))
      ((first :: rest).map (·.mark)) cut (cut + 1) := by
  have hmarks := (body.retarget anchor first.mark).map_mark_insertAt cut (first :: rest)
  rw [body.map_mark_retarget] at hmarks
  obtain ⟨hlt, hat, -⟩ := List.findIdx?_eq_some_iff_getElem.mp hc
  have hle : cut ≤ (body.steps.map (·.mark)).length := by
    rw [List.length_map]
    exact hlt.le
  refine ⟨hle, hmarks, .inr rfl, ⟨Mark.move anchor first.mark, ?_⟩, ?_⟩
  · refine
      { handlers := by simp only [← Place.move_eq_renumber]; rfl
        variableEntries := variableEntries_move anchor first.mark body.attributes
        lines := lineEntries_move anchor first.mark body.attributes
        position := fun mark hmark => ?_
        finish := ?_
        mono := strictMono_shiftFrom _ _ }
    · -- A bound at the anchor goes to the first new instruction, which stands where it did; any
      -- other bound is moved like its instruction, and is not at the place of the insertion.
      by_cases hanchor : mark = anchor
      · subst hanchor
        have hfirst : ((first :: rest).map (·.mark)).findIdx? (· == first.mark) = some 0 := by
          simp [List.findIdx?_cons]
        rw [Mark.move, if_pos rfl, hc, Option.map_some,
          position?_of_mem_insert hmarks hle hfirst (hf _ List.mem_cons_self)]
        simp [shiftFrom]
      · rw [Mark.move, if_neg hanchor,
          position?_of_insert rfl hmarks hle fun hadded => hf mark hadded (hb mark hmark)]
        refine Option.map_congr fun index hindex => ?_
        have hne : index ≠ cut := by
          rintro rfl
          obtain ⟨_, hother, -⟩ := List.findIdx?_eq_some_iff_getElem.mp hindex
          exact hanchor ((beq_iff_eq.mp hother).symm.trans (beq_iff_eq.mp hat))
        unfold shiftFrom
        split_ifs <;> omega
    · have hlength := congrArg List.length hmarks
      simp only [List.length_map, List.length_append, List.length_take, List.length_drop]
        at hlength
      rw [shiftFrom, if_neg (by omega), hlength, List.length_map]
      omega
  · show ((body.handlers.map _).map _) = _
    rw [List.map_map]
    rfl

/-- An insertion that fits is made, in front of the instruction that it belongs to or the one after
it. -/
theorem exists_spliced {splice : Splice} (hb : ∀ mark ∈ body.bounds, mark ∈ body.steps.map (·.mark))
    (hf : splice.Fits (body.steps.map (·.mark))) :
    ∃ later cut edge, body.splice? splice = some later ∧
      Spliced body later (splice.steps.map (·.mark)) cut edge ∧
      ∀ anchor ∈ splice.anchor?,
        ∃ index, body.position? anchor = some index ∧ edge = index + 1 := by
  cases splice with
  | before anchor steps =>
    obtain ⟨index, hindex⟩ := Option.isSome_iff_exists.mp
      (isSome_position?.mpr (hf.anchor anchor rfl))
    cases steps with
    | nil =>
      have hlt := (List.findIdx?_eq_some_iff_getElem.mp hindex).1
      -- Without instructions it does not matter on which side they go.
      have hnil : body.insertAt index [] = body.insertAt (index + 1) [] := by
        simp [insertAt]
      refine ⟨_, index + 1, index + 1, ?_, spliced_insertAt hlt hb hf.fresh, ?_⟩
      · show (body.position? anchor).map _ = _
        rw [hindex]
        exact congrArg some hnil
      · rintro _ ⟨⟩
        exact ⟨index, hindex, rfl⟩
    | cons first rest =>
      refine ⟨_, index, index + 1, ?_, spliced_insertAt_retarget hindex hb hf.fresh, ?_⟩
      · show (body.position? anchor).map _ = _
        rw [hindex]
        rfl
      · rintro _ ⟨⟩
        exact ⟨index, hindex, rfl⟩
  | after anchor steps =>
    obtain ⟨index, hindex⟩ := Option.isSome_iff_exists.mp
      (isSome_position?.mpr (hf.anchor anchor rfl))
    have hlt := (List.findIdx?_eq_some_iff_getElem.mp hindex).1
    refine ⟨_, index + 1, index + 1, ?_, spliced_insertAt hlt hb hf.fresh, ?_⟩
    · show (body.position? anchor).map _ = _
      rw [hindex]
      rfl
    · rintro _ ⟨⟩
      exact ⟨index, hindex, rfl⟩
  | entry steps =>
    obtain ⟨first, rest, hsteps⟩ :=
      List.exists_cons_of_ne_nil (List.map_eq_nil_iff.not.mp hf.filled)
    refine ⟨_, 0, 0, ?_, spliced_insertAt (Nat.zero_le _) hb hf.fresh, by simp [Splice.anchor?]⟩
    have hfirst : body.position? first.mark = some 0 := by
      simp [position?, hsteps, List.findIdx?_cons]
    show (body.steps.head?.bind fun first => (body.position? first.mark).map _) = _
    rw [hsteps, List.head?_cons, Option.bind_some, hfirst]
    rfl

namespace Spliced

variable {around : Surroundings}

/-- What holds at an instruction still does after an insertion. -/
theorem surroundings?_of_mem (h : Spliced body later added cut edge) (hadded : mark ∉ added)
    (hm : body.surroundings? mark = some around) : later.surroundings? mark = some around := by
  obtain ⟨index, hindex, rfl⟩ := Option.map_eq_some_iff.mp hm
  obtain ⟨rename, hmoved⟩ := h.moved
  rw [surroundings?, position?_of_insert rfl h.marks h.le hadded, hindex, Option.map_some,
    Option.map_some]
  refine congrArg some (hmoved.surroundingsAt_eq fun bound => ?_)
  have hnear := h.near
  unfold shiftFrom
  split_ifs <;> omega

/-- What is inserted is where the instruction is that it belongs to. -/
theorem surroundings?_of_mem_new (h : Spliced body later added cut edge) {anchor : Mark}
    {index : Nat} (ha : body.position? anchor = some index) (he : edge = index + 1)
    (hadded : mark ∈ added)
    (hf : mark ∉ body.steps.map (·.mark)) :
    later.surroundings? mark = body.surroundings? anchor := by
  obtain ⟨rename, hmoved⟩ := h.moved
  cases hplace : added.findIdx? (· == mark) with
  | none => simpa using List.findIdx?_eq_none_iff.mp hplace mark hadded
  | some place =>
    obtain ⟨hlt, -⟩ := List.findIdx?_eq_some_iff_getElem.mp hplace
    rw [surroundings?, surroundings?, position?_of_mem_insert h.marks h.le hplace hf, ha,
      Option.map_some, Option.map_some]
    refine congrArg some (hmoved.surroundingsAt_eq fun bound => ?_)
    have hnear := h.near
    unfold shiftFrom
    split_ifs <;> omega

/-- Bounds are still those of instructions. -/
theorem bounds_mem (h : Spliced body later added cut edge)
    (hb : ∀ mark ∈ body.bounds, mark ∈ body.steps.map (·.mark)) :
    ∀ mark ∈ later.bounds, mark ∈ later.steps.map (·.mark) := by
  obtain ⟨rename, hmoved⟩ := h.moved
  rw [hmoved.bounds_eq]
  refine List.forall_mem_map.mpr fun mark hmark => ?_
  rw [← isSome_position?, hmoved.position mark hmark, Option.isSome_map, isSome_position?]
  exact hb mark hmark

theorem mem_marks (h : Spliced body later added cut edge) :
    mark ∈ later.steps.map (·.mark) ↔ mark ∈ added ++ body.steps.map (·.mark) := by
  rw [h.marks, List.append_assoc, (List.perm_append_comm_assoc _ _ _).mem_iff,
    List.take_append_drop]

end Spliced

end Body

theorem Splice.AllFit.congr {splices : List Splice} {marks marks' : List Mark}
    (h : AllFit marks splices) (hm : ∀ mark, mark ∈ marks ↔ mark ∈ marks') :
    AllFit marks' splices := by
  induction splices generalizing marks marks' with
  | nil => trivial
  | cons splice rest ih =>
    refine ⟨⟨?_, fun anchor ha => (hm anchor).mp (h.1.anchor anchor ha),
      fun mark hmark hmem => h.1.fresh mark hmark ((hm mark).mpr hmem)⟩, ih h.2 fun mark => ?_⟩
    · obtain ⟨mark, hmark⟩ := List.exists_mem_of_ne_nil _ h.1.filled
      exact List.ne_nil_of_mem ((hm mark).mp hmark)
    · rw [List.mem_append, List.mem_append, hm]

namespace Body

variable {body : Body} {splices : List Splice}

theorem exists_surroundings {mark : Mark} (h : mark ∈ body.steps.map (·.mark)) :
    ∃ around, body.surroundings? mark = some around := by
  obtain ⟨index, hindex⟩ := Option.isSome_iff_exists.mp (isSome_position?.mpr h)
  exact ⟨_, by rw [surroundings?, hindex]; rfl⟩

theorem mem_marks_of_surroundings? {mark : Mark} {around : Surroundings}
    (h : body.surroundings? mark = some around) : mark ∈ body.steps.map (·.mark) := by
  obtain ⟨index, hindex, -⟩ := Option.map_eq_some_iff.mp h
  exact isSome_position?.mp (by rw [hindex]; rfl)

/-- What insertions leave as it was, and where they put what is new. -/
theorem exists_splices (hb : ∀ mark ∈ body.bounds, mark ∈ body.steps.map (·.mark))
    (hf : Splice.AllFit (body.steps.map (·.mark)) splices) :
    ∃ later, splices.foldlM splice? body = some later ∧
      later.handlers.map (·.entry) = body.handlers.map (·.entry) ∧
      (∀ mark around, body.surroundings? mark = some around →
        later.surroundings? mark = some around) ∧
      ∀ splice ∈ splices, ∀ anchor ∈ splice.anchor?, ∀ step ∈ splice.steps,
        ∃ around, later.surroundings? anchor = some around ∧
          later.surroundings? step.mark = some around := by
  induction splices generalizing body with
  | nil => exact ⟨body, rfl, rfl, fun _ _ h => h, by simp⟩
  | cons splice rest ih =>
    obtain ⟨between, cut, edge, hbetween, hspliced, hanchor⟩ := exists_spliced hb hf.1
    obtain ⟨later, hlater, hentries, hold, hadded⟩ :=
      ih (hspliced.bounds_mem hb) (hf.2.congr fun mark => hspliced.mem_marks.symm)
    have hkept (mark : Mark) (around : Surroundings)
        (h : body.surroundings? mark = some around) : between.surroundings? mark = some around :=
      hspliced.surroundings?_of_mem
        (fun hmem => hf.1.fresh mark hmem (mem_marks_of_surroundings? h)) h
    refine ⟨later, ?_, hentries.trans hspliced.entries,
      fun mark around h => hold mark around (hkept mark around h), ?_⟩
    · rw [List.foldlM_cons, hbetween]
      exact hlater
    · refine List.forall_mem_cons.mpr ⟨fun anchor ha step hstep => ?_, hadded⟩
      obtain ⟨index, hindex, hedge⟩ := hanchor anchor ha
      have hmark : step.mark ∈ splice.steps.map (·.mark) := List.mem_map_of_mem hstep
      have hsame := hspliced.surroundings?_of_mem_new hindex hedge hmark (hf.1.fresh _ hmark)
      obtain ⟨around, haround⟩ := exists_surroundings (hf.1.anchor anchor ha)
      exact ⟨around, hold anchor around (hkept anchor around haround),
        hold step.mark around (hsame.trans haround)⟩

/-- After insertions that fit all handlers start where they did, what held at an instruction still
holds there, and what was inserted before or after an instruction is where that one is.  Marks need
not be distinct for that. -/
theorem surroundings_splices (hb : ∀ mark ∈ body.bounds, mark ∈ body.steps.map (·.mark))
    (hf : Splice.AllFit (body.steps.map (·.mark)) splices) :
    ∃ later, splices.foldlM splice? body = some later ∧
      later.handlers.map (·.entry) = body.handlers.map (·.entry) ∧
      (∀ step ∈ body.steps, ∃ around, body.surroundings? step.mark = some around ∧
        later.surroundings? step.mark = some around) ∧
      ∀ splice ∈ splices, ∀ anchor ∈ splice.anchor?, ∀ step ∈ splice.steps,
        ∃ around, later.surroundings? anchor = some around ∧
          later.surroundings? step.mark = some around := by
  obtain ⟨later, hlater, hentries, hold, hadded⟩ := exists_splices hb hf
  refine ⟨later, hlater, hentries, fun step hstep => ?_, hadded⟩
  obtain ⟨around, haround⟩ := exists_surroundings (List.mem_map_of_mem hstep)
  exact ⟨around, haround, hold step.mark around haround⟩

/-! ### A call under a handler -/

/-- A call with a handler for what it throws, a line, and a local variable that begins with the
handler. -/
def guarded : Body :=
  { new 1 with
    steps := [⟨⟨0⟩, .access Opcode.aload 0⟩, ⟨⟨1⟩, .invoke Opcode.invokeVirtual 7⟩,
      ⟨⟨2⟩, .plain 0xb1⟩, ⟨⟨3⟩, .access 0x3a 1⟩, ⟨⟨4⟩, .plain 0xb1⟩]
    handlers := [⟨⟨1⟩, .at ⟨2⟩, ⟨3⟩, 0⟩]
    attributes := [.lines 2 [⟨⟨0⟩, 10⟩, ⟨⟨2⟩, 11⟩, ⟨⟨3⟩, 12⟩],
      .locals .descriptors 3 [⟨⟨3⟩, .finish, 4, 5, 1⟩]]
    nextMark := 5 }

/-- Insertions before the call, after it, at the entry and before what was inserted. -/
def guardedSplices : List Splice :=
  [.before ⟨1⟩ [⟨⟨5⟩, .plain Opcode.nop⟩],
    .after ⟨1⟩ [⟨⟨6⟩, .plain Opcode.nop⟩, ⟨⟨7⟩, .plain Opcode.nop⟩],
    .entry [⟨⟨8⟩, .plain Opcode.nop⟩], .before ⟨5⟩ [⟨⟨9⟩, .plain Opcode.nop⟩],
    .before ⟨3⟩ [⟨⟨10⟩, .plain Opcode.nop⟩]]

theorem surroundings_splices_guarded :
    ∃ later, guardedSplices.foldlM splice? guarded = some later ∧
      later.handlers.map (·.entry) = guarded.handlers.map (·.entry) ∧
      (∀ step ∈ guarded.steps, ∃ around, guarded.surroundings? step.mark = some around ∧
        later.surroundings? step.mark = some around) ∧
      ∀ splice ∈ guardedSplices, ∀ anchor ∈ splice.anchor?, ∀ step ∈ splice.steps,
        ∃ around, later.surroundings? anchor = some around ∧
          later.surroundings? step.mark = some around :=
  surroundings_splices (by decide)
    ⟨⟨by decide, by decide, by decide⟩, ⟨by decide, by decide, by decide⟩,
      ⟨by decide, by decide, by decide⟩, ⟨by decide, by decide, by decide⟩,
      ⟨by decide, by decide, by decide⟩, trivial⟩

end Body

end ClassGraft

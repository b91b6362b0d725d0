import ClassGraft.Proofs.Class.Parsed
import ClassGraft.Proofs.Code.Relocated
import ClassGraft.Proofs.Code.RoundTrip

/-!
# Bodies whose parts belong together

A body that was read is tidy (`Body.isTidy_of_read`): each instruction has a mark of its own and an
opcode of its kind, tables have the names that they are read by and speak of instructions of the
body, and no local variable ends before it starts.  All marks that occur in such a body are those of
instructions (`Body.isClosed_of_read`).
-/

namespace ClassGraft

open Reader

variable {pool later : Pool} {cursor next : Cursor}

/-! ### Marks in order -/

/-- Whether a mark comes before another in a list, or is the same one. -/
def Mark.Precedes (marks : List Mark) (mark other : Mark) : Prop :=
  [mark, other].Sublist marks ∨ mark = other ∧ mark ∈ marks

namespace Mark.Precedes

variable {marks marks' : List Mark} {mark other : Mark}

theorem left_mem (h : Precedes marks mark other) : mark ∈ marks := by
  rcases h with h | ⟨-, h⟩
  · exact h.subset List.mem_cons_self
  · exact h

theorem right_mem (h : Precedes marks mark other) : other ∈ marks := by
  rcases h with h | ⟨rfl, h⟩
  · exact h.subset (List.mem_cons_of_mem _ (List.mem_singleton_self other))
  · exact h

/-- Other names for marks, and more marks between them, do not change their order. -/
theorem map {f : Mark → Mark} (h : Precedes marks mark other)
    (hs : (marks.map f).Sublist marks') : Precedes marks' (f mark) (f other) := by
  rcases h with h | ⟨rfl, h⟩
  · exact .inl ((h.map f).trans hs)
  · exact .inr ⟨rfl, hs.subset (List.mem_map_of_mem h)⟩

theorem of_getElem? {i j : Nat} (hi : marks[i]? = some mark) (hj : marks[j]? = some other)
    (h : i ≤ j) : Precedes marks mark other := by
  rcases Nat.eq_or_lt_of_le h with rfl | hlt
  · obtain rfl := Option.some.inj (hi.symm.trans hj)
    exact .inr ⟨rfl, List.mem_of_getElem? hi⟩
  · refine .inl ?_
    have hfront : mark ∈ marks.take j := by
      refine List.mem_of_getElem? (i := i) ?_
      rw [List.getElem?_take_of_lt hlt]
      exact hi
    have hback : other ∈ marks.drop j := by
      refine List.mem_of_getElem? (i := 0) ?_
      rw [List.getElem?_drop]
      exact hj
    have hsub := (List.singleton_sublist.mpr hfront).append (List.singleton_sublist.mpr hback)
    rwa [List.take_append_drop] at hsub

end Mark.Precedes

/-! ### What a body refers to -/

/-- The mark that a place has. -/
def Place.marks : Place → List Mark
  | .at mark => [mark]
  | .finish => []

/-- The marks that a handler refers to. -/
def Handler.marks (handler : Handler) : List Mark :=
  handler.start :: handler.entry :: handler.stop.marks

/-- Whether the attribute is a table of lines or of local variables. -/
def BodyAttribute.isTable : BodyAttribute → Bool
  | .lines _ _ | .locals _ _ _ => true
  | .frames _ _ | .other _ => false

/-- The marks that a table of lines or of local variables refers to. -/
def BodyAttribute.marks : BodyAttribute → List Mark
  | .lines _ entries => entries.map (·.start)
  | .locals _ _ entries => entries.flatMap fun entry => entry.start :: entry.stop.marks
  | .frames _ _ | .other _ => []

/-- The marks that instructions, handlers and tables refer to. -/
def Body.references (body : Body) : List Mark :=
  body.steps.flatMap (·.instruction.targets) ++ body.handlers.flatMap Handler.marks ++
    body.attributes.flatMap BodyAttribute.marks

/-- Whether a body refers to its own instructions only. -/
def Body.IsClosed (body : Body) : Prop :=
  ∀ mark ∈ body.references, mark ∈ body.steps.map (·.mark)

/-- Whether a local variable starts at one of the instructions and does not end before that. -/
def VariableEntry.IsOrdered (marks : List Mark) (entry : VariableEntry) : Prop :=
  match entry.stop with
  | .at mark => Mark.Precedes marks entry.start mark
  | .finish => entry.start ∈ marks

/-- The name by which a table of local variables is read. -/
def VariableTable.attributeName : VariableTable → Bytes
  | .descriptors => Bytes.ofAscii "LocalVariableTable"
  | .signatures => Bytes.ofAscii "LocalVariableTypeTable"

/-- Whether an attribute has the name by which it is read, and speaks of instructions with the given
marks. -/
def BodyAttribute.IsTidy (pool : Pool) (marks : List Mark) : BodyAttribute → Prop
  | .lines name entries => pool.utf8 name = some (Bytes.ofAscii "LineNumberTable") ∧
    ∀ entry ∈ entries, entry.start ∈ marks
  | .locals table name entries => pool.utf8 name = some table.attributeName ∧
    ∀ entry ∈ entries, entry.IsOrdered marks
  | .frames name _ => pool.utf8 name = some (Bytes.ofAscii "StackMapTable")
  | .other _ => True

/-- Whether the instructions of a body have marks of their own, and opcodes of their kinds. -/
structure Body.IsMarked (body : Body) : Prop where
  nodup : (body.steps.map (·.mark)).Nodup
  below : ∀ step ∈ body.steps, step.mark.number < body.nextMark
  readable : ∀ step ∈ body.steps, step.instruction.isReadable = true

/-- Whether the parts of a body belong together. -/
structure Body.IsTidy (pool : Pool) (body : Body) : Prop extends body.IsMarked where
  name : pool.utf8Is body.name "Code" = true
  attributes : ∀ item ∈ body.attributes, item.IsTidy pool (body.steps.map (·.mark))

theorem VariableEntry.IsOrdered.mem {marks : List Mark} {entry : VariableEntry}
    (h : entry.IsOrdered marks) : ∀ mark ∈ entry.start :: entry.stop.marks, mark ∈ marks := by
  unfold IsOrdered at h
  cases hstop : entry.stop with
  | finish =>
    rw [hstop] at h
    simpa [Place.marks] using h
  | «at» mark =>
    rw [hstop] at h
    simpa [Place.marks] using ⟨h.left_mem, h.right_mem⟩

/-- A tidy table refers to instructions only. -/
theorem BodyAttribute.IsTidy.mem {marks : List Mark} {item : BodyAttribute}
    (h : item.IsTidy pool marks) : ∀ mark ∈ item.marks, mark ∈ marks := by
  cases item with
  | lines name entries => simpa [BodyAttribute.marks] using h.2
  | «locals» table name entries =>
    intro mark hmark
    obtain ⟨entry, hentry, hmark⟩ := List.mem_flatMap.mp hmark
    exact (h.2 entry hentry).mem mark hmark
  | frames name entries => simp [BodyAttribute.marks]
  | other raw => simp [BodyAttribute.marks]

/-! ### Code -/

namespace Bytecode

variable {base distance : Nat} {rest : Bytes} {rows : List (Nat × Instruction Nat)}

/-- An instruction takes at least a byte. -/
theorem exists_length_of_instruction {origin : Nat} {value : Instruction Nat}
    (h : instruction base origin ⟨rest, base + distance⟩ = .ok (value, next)) :
    ∃ length, 0 < length ∧ next.offset = base + (distance + length) := by
  obtain ⟨op, between, hop, h⟩ := bind_eq_ok.mp h
  have hbetween : between = ⟨between.rest, base + (distance + 1)⟩ := by
    obtain rfl : rest = op :: between.rest := rest_of_uint8 hop
    have htakes := takes_uint8 op (base + distance) between.rest
    obtain ⟨-, hnext⟩ := Prod.mk.inj (Except.ok.inj (hop.symm.trans htakes))
    rw [hnext]
    rfl
  rw [hbetween] at h
  have hrest : Follows base base Eq
      (if op.isPlain then return .plain op else operands base origin op)
      (if op.isPlain then return .plain op else operands base origin op) :=
    follows_ite (fun _ => follows_pure rfl) fun _ => follows_operands origin op
  obtain ⟨-, length, -, hoffset, -⟩ := hrest _ _ _ _ h
  refine ⟨1 + length, by omega, ?_⟩
  rw [hoffset, Nat.add_assoc distance]

/-- Instructions are found in order, and have opcodes that can be read. -/
theorem exists_of_allFrom {fuel : Nat} {found : List (Nat × Instruction Nat)}
    (h : allFrom base fuel found ⟨rest, base + distance⟩ = .ok (rows, next)) :
    ∃ more, rows = found.reverse ++ more ∧ (more.map (·.1)).Pairwise (· < ·) ∧
      ∀ row ∈ more, distance ≤ row.1 ∧ row.2.isReadable = true := by
  induction fuel generalizing found rest distance with
  | zero =>
    obtain ⟨rfl, -⟩ := Prod.mk.inj (Except.ok.inj h)
    exact ⟨[], (List.append_nil _).symm, .nil, by simp⟩
  | succ fuel ih =>
    unfold allFrom at h
    split_ifs at h
    · obtain ⟨rfl, -⟩ := Prod.mk.inj (Except.ok.inj h)
      exact ⟨[], (List.append_nil _).symm, .nil, by simp⟩
    · rw [Nat.add_sub_cancel_left] at h
      dsimp only at h
      split at h
      · simp at h
      · rename_i value between hvalue
        obtain ⟨left, offset⟩ := between
        -- An instruction takes at least a byte, so that the next one starts later.
        obtain ⟨length, hpos, rfl⟩ := exists_length_of_instruction hvalue
        obtain ⟨more, rfl, hpairwise, hall⟩ := ih h
        refine ⟨(distance, value) :: more, ?_, ?_, ?_⟩
        · rw [List.reverse_cons, List.append_assoc]
          rfl
        · rw [List.map_cons, List.pairwise_cons]
          refine ⟨fun offset hoffset => ?_, hpairwise⟩
          obtain ⟨row, hrow, rfl⟩ := List.mem_map.mp hoffset
          have hle := (hall row hrow).1
          omega
        · refine List.forall_mem_cons.mpr ⟨⟨Nat.le_refl _, ?_⟩, fun row hrow => ?_⟩
          · exact gives_isReadable _ _ _ hvalue
          · have hle := (hall row hrow).1
            exact ⟨by omega, (hall row hrow).2⟩

theorem pairwise_of_all (h : all cursor = .ok (rows, next)) :
    (rows.map (·.1)).Pairwise (· < ·) ∧ ∀ row ∈ rows, row.2.isReadable = true := by
  obtain ⟨more, rfl, hpairwise, hall⟩ := @exists_of_allFrom _ cursor.offset 0 _ _ _ _ h
  exact ⟨hpairwise, fun row hrow => (hall row hrow).2⟩

end Bytecode

/-! ### Offsets that were read -/

namespace Starts

variable {codeLength : Nat} {offsets : List Nat}

/-- The marks of instructions that were read. -/
def marks (offsets : List Nat) : List Mark := (List.range offsets.length).map Mark.mk

/-- A mark is found at the offset of its instruction only. -/
theorem exists_of_mark? {offset : Nat} {mark : Mark}
    (h : (ofOffsets codeLength offsets).mark? offset = some mark) :
    ∃ i : Nat, offsets[i]? = some offset ∧ (marks offsets)[i]? = some mark := by
  obtain ⟨i, hi, rfl⟩ := Option.map_eq_some_iff.mp h
  rw [index_ofOffsets] at hi
  obtain ⟨⟨found, j⟩, hrow, rfl, rfl⟩ | hnone := Table.exists_of_getElem? hi
  · have hat : offsets[j]? = some found := List.mem_zipIdx_iff_getElem?.mp hrow
    refine ⟨j, hat, ?_⟩
    rw [marks, List.getElem?_map, List.getElem?_range (List.getElem?_eq_some_iff.mp hat).1]
    rfl
  · simp at hnone

theorem mem_of_mark? {offset : Nat} {mark : Mark}
    (h : (ofOffsets codeLength offsets).mark? offset = some mark) : mark ∈ marks offsets := by
  obtain ⟨i, -, hi⟩ := exists_of_mark? h
  exact List.mem_of_getElem? hi

/-- Marks are in the order of their offsets. -/
theorem precedes_of_mark? (hp : offsets.Pairwise (· < ·)) {offset offset' : Nat} {mark mark' : Mark}
    (h : (ofOffsets codeLength offsets).mark? offset = some mark)
    (h' : (ofOffsets codeLength offsets).mark? offset' = some mark') (hle : offset ≤ offset') :
    Mark.Precedes (marks offsets) mark mark' := by
  obtain ⟨i, hi, hmark⟩ := exists_of_mark? h
  obtain ⟨j, hj, hmark'⟩ := exists_of_mark? h'
  refine .of_getElem? hmark hmark' ?_
  by_contra hlt
  obtain ⟨hi', rfl⟩ := List.getElem?_eq_some_iff.mp hi
  obtain ⟨hj', rfl⟩ := List.getElem?_eq_some_iff.mp hj
  have hback := List.pairwise_iff_getElem.mp hp j i hj' hi' (Nat.lt_of_not_le hlt)
  omega

theorem gives_mark (starts : Starts) (offset : Nat) :
    (starts.mark offset).Gives fun mark => starts.mark? offset = some mark := by
  unfold mark
  cases hmark : starts.mark? offset with
  | some mark => exact gives_pure rfl
  | none => exact gives_malformed _

theorem gives_place (starts : Starts) (offset : Nat) : (starts.place offset).Gives fun place =>
    ∀ mark ∈ place.marks, starts.mark? offset = some mark := by
  refine gives_ite (fun _ => gives_pure (by simp [Place.marks])) fun _ => ?_
  exact (starts.gives_mark offset).bind fun mark hmark => gives_pure (by simpa [Place.marks])

/-- What an instruction jumps to is found. -/
theorem mapTargets_of_resolve {starts : Starts} {instruction : Instruction Nat}
    {resolved : Instruction Mark} (h : starts.resolve instruction = .ok resolved) :
    resolved = instruction.mapTargets starts.markOf ∧
      ∀ offset ∈ instruction.targets, ∃ mark, starts.mark? offset = some mark := by
  unfold resolve at h
  split at h
  · nomatch h
  · rename_i hnone
    refine ⟨(Except.ok.inj h).symm, fun offset hoffset => ?_⟩
    have hfound := List.find?_eq_none.mp hnone offset (List.mem_reverse.mpr hoffset)
    exact Option.ne_none_iff_exists'.mp (by simpa using hfound)

end Starts

theorem Instruction.isReadable_mapTargets {σ τ : Type} (f : σ → τ) (instruction : Instruction σ) :
    (instruction.mapTargets f).isReadable = instruction.isReadable := by
  cases instruction <;> rfl

/-! ### Tables that were read -/

namespace Body

variable {codeLength : Nat} {offsets : List Nat}

theorem gives_readHandler : (readHandler (.ofOffsets codeLength offsets)).Gives fun handler =>
    ∀ mark ∈ handler.marks, mark ∈ Starts.marks offsets := by
  refine gives_bind fun _ => (Starts.gives_mark _ _).bind fun start hstart => ?_
  refine gives_bind fun _ => (Starts.gives_place _ _).bind fun stop hstop => ?_
  refine gives_bind fun _ => (Starts.gives_mark _ _).bind fun entry hentry => ?_
  refine gives_bind fun _ => gives_pure ?_
  refine List.forall_mem_cons.mpr ⟨Starts.mem_of_mark? hstart, ?_⟩
  exact List.forall_mem_cons.mpr ⟨Starts.mem_of_mark? hentry, fun mark hmark =>
    Starts.mem_of_mark? (hstop mark hmark)⟩

theorem gives_readLine : (readLine (.ofOffsets codeLength offsets)).Gives fun entry =>
    entry.start ∈ Starts.marks offsets :=
  gives_bind fun _ => (Starts.gives_mark _ _).bind fun _ hstart => gives_bind fun _ =>
    gives_pure (Starts.mem_of_mark? hstart)

/-- The length of a variable is never negative. -/
theorem gives_readVariable (hp : offsets.Pairwise (· < ·)) :
    (readVariable (.ofOffsets codeLength offsets)).Gives
      (VariableEntry.IsOrdered (Starts.marks offsets)) := by
  refine gives_bind fun offset => gives_bind fun length => ?_
  refine (Starts.gives_mark _ _).bind fun start hstart => ?_
  refine (Starts.gives_place _ _).bind fun stop hstop => ?_
  refine gives_bind fun _ => gives_bind fun _ => gives_bind fun _ => gives_pure ?_
  cases stop with
  | finish => exact Starts.mem_of_mark? hstart
  | «at» mark =>
    exact Starts.precedes_of_mark? hp hstart (hstop mark (List.mem_singleton_self mark))
      (Nat.le_add_right _ _)

theorem of_readWhole {α : Type} {reader : Reader α} {P : α → Prop} (hr : reader.Gives P)
    {bytes : Bytes} {value : α} (h : readWhole reader bytes = some value) : P value := by
  unfold readWhole at h
  split at h
  · rename_i found next hread
    obtain rfl := Option.some.inj h
    obtain ⟨first, between, hfirst, hread⟩ := bind_eq_ok.mp hread
    obtain ⟨_, _, -, hread⟩ := bind_eq_ok.mp hread
    obtain ⟨rfl, -⟩ := pure_eq_ok.mp hread
    exact hr _ _ _ hfirst
  · nomatch h

/-- A table that is read has the name by which it is read; one that is not is no table. -/
theorem isTidy_attributeOf (hp : offsets.Pairwise (· < ·)) {index : UInt16} {name : Bytes}
    (hname : pool.utf8 index = some name) (info : Bytes) :
    (attributeOf (.ofOffsets codeLength offsets) pool index name info).IsTidy pool
      (Starts.marks offsets) := by
  have hraw : (BodyAttribute.other ⟨index, info⟩).IsTidy pool (Starts.marks offsets) := trivial
  have hlocals : ∀ table : VariableTable, name = table.attributeName →
      (((readWhole (list (readVariable (.ofOffsets codeLength offsets))) info).map
        (BodyAttribute.locals table index)).getD (.other ⟨index, info⟩)).IsTidy pool
          (Starts.marks offsets) := by
    rintro table rfl
    cases hread : readWhole (list (readVariable (.ofOffsets codeLength offsets))) info with
    | none => exact hraw
    | some entries => exact ⟨hname, of_readWhole (gives_list (gives_readVariable hp)) hread⟩
  unfold attributeOf
  dsimp only
  split_ifs with hlines hdescriptors hsignatures hframes
  · cases hread : readWhole (list (readLine (.ofOffsets codeLength offsets))) info with
    | none => exact hraw
    | some entries =>
      exact ⟨eq_of_beq hlines ▸ hname, of_readWhole (gives_list gives_readLine) hread⟩
  · exact hlocals .descriptors (eq_of_beq hdescriptors)
  · exact hlocals .signatures (eq_of_beq hsignatures)
  · obtain rfl := eq_of_beq hframes
    exact hname
  · exact hraw

theorem gives_readAttribute (hp : offsets.Pairwise (· < ·)) :
    (readAttribute (.ofOffsets codeLength offsets) pool).Gives
      (BodyAttribute.IsTidy pool (Starts.marks offsets)) := by
  refine gives_bind fun index => gives_bind fun length => gives_bind fun info => ?_
  cases hname : pool.utf8 index with
  | some name => exact gives_pure (isTidy_attributeOf hp hname info)
  | none => exact gives_malformed _

/-! ### The body -/

theorem map_instruction_zipIdx (instructions : List (Instruction Mark)) :
    (instructions.zipIdx.map fun (instruction, i) => Step.mk ⟨i⟩ instruction).map
      (·.instruction) = instructions := by
  rw [List.map_map]
  exact List.zipIdx_map_fst 0 instructions

/-- What a body is made of that was read, with instructions at some offsets. -/
structure IsDecoded (pool : Pool) (offsets : List Nat) (body : Body) : Prop where
  ordered : offsets.Pairwise (· < ·)
  marks : body.steps.map (·.mark) = Starts.marks offsets
  nextMark : body.nextMark = offsets.length
  steps : ∀ step ∈ body.steps, step.instruction.isReadable = true ∧
    ∀ target ∈ step.instruction.targets, target ∈ Starts.marks offsets
  handlers : ∀ handler ∈ body.handlers, ∀ mark ∈ handler.marks, mark ∈ Starts.marks offsets
  attributes : ∀ item ∈ body.attributes, item.IsTidy pool (Starts.marks offsets)

theorem exists_isDecoded {name : UInt16} {body : Body}
    (h : read name pool cursor = .ok (body, next)) : ∃ offsets, body.IsDecoded pool offsets := by
  obtain ⟨length, rows, instructions, c₁, c₂, c₃, c₄, -, hrows, hinstructions, hhandlers,
    hattributes, hbody⟩ := of_read h
  obtain ⟨part, last, -, hall⟩ := within_eq_ok.mp hrows
  obtain ⟨hordered, hreadable⟩ := Bytecode.pairwise_of_all hall
  have hresolved := Except.mapM_eq_ok.mp hinstructions
  have hcount : instructions.length = (rows.map (·.1)).length := by
    rw [List.length_map]
    exact hresolved.length_eq.symm
  have hhandlers' : ∀ handler ∈ body.handlers, ∀ mark ∈ handler.marks,
      mark ∈ Starts.marks (rows.map (·.1)) := gives_list gives_readHandler _ _ _ hhandlers
  have hattributes' : ∀ item ∈ body.attributes, item.IsTidy pool (Starts.marks (rows.map (·.1))) :=
    gives_list (gives_readAttribute hordered) _ _ _ hattributes
  rw [hbody]
  refine ⟨rows.map (·.1), hordered, ?_, hcount, fun step hstep => ?_, hhandlers', hattributes'⟩
  · rw [map_mark_zipIdx, hcount]
    rfl
  · have hmem := List.mem_map_of_mem (f := (·.instruction)) hstep
    rw [map_instruction_zipIdx] at hmem
    obtain ⟨row, hrow, hrow'⟩ := exists_of_mem_right hresolved hmem
    obtain ⟨hmap, hfound⟩ := Starts.mapTargets_of_resolve hrow'
    rw [hmap]
    refine ⟨?_, fun target htarget => ?_⟩
    · rw [Instruction.isReadable_mapTargets]
      exact hreadable row hrow
    · rw [Instruction.targets_mapTargets] at htarget
      obtain ⟨offset, hoffset, rfl⟩ := List.mem_map.mp htarget
      obtain ⟨mark, hmark⟩ := hfound offset hoffset
      rw [Starts.markOf, hmark]
      exact Starts.mem_of_mark? hmark

/-- A body that was read is tidy. -/
theorem isTidy_of_read {name : UInt16} {body : Body} (hn : pool.utf8Is name "Code" = true)
    (h : read name pool cursor = .ok (body, next)) : body.IsTidy pool := by
  obtain ⟨offsets, hbody⟩ := exists_isDecoded h
  have hmarks : (Starts.marks offsets).Nodup :=
    List.nodup_range.map fun _ _ he => congrArg Mark.number he
  refine ⟨⟨hbody.marks ▸ hmarks, fun step hstep => ?_,
    fun step hstep => (hbody.steps step hstep).1⟩, (encoded_of_read h).1 ▸ hn,
    fun item hitem => ?_⟩
  · have hmem := List.mem_map_of_mem (f := (·.mark)) hstep
    rw [hbody.marks] at hmem
    obtain ⟨number, hnumber, he⟩ := List.mem_map.mp hmem
    rw [← he, hbody.nextMark]
    exact List.mem_range.mp hnumber
  · rw [hbody.marks]
    exact hbody.attributes item hitem

/-- A body refers to its own instructions only, if its parts do. -/
theorem isClosed_of_parts {body : Body}
    (hs : ∀ step ∈ body.steps, ∀ mark ∈ step.instruction.targets,
      mark ∈ body.steps.map (·.mark))
    (hh : ∀ handler ∈ body.handlers, ∀ mark ∈ handler.marks, mark ∈ body.steps.map (·.mark))
    (ha : ∀ item ∈ body.attributes, ∀ mark ∈ item.marks, mark ∈ body.steps.map (·.mark)) :
    body.IsClosed := by
  intro mark hmark
  rcases List.mem_append.mp hmark with hmark | hmark
  · rcases List.mem_append.mp hmark with hmark | hmark
    · obtain ⟨step, hstep, hmark⟩ := List.mem_flatMap.mp hmark
      exact hs step hstep mark hmark
    · obtain ⟨handler, hhandler, hmark⟩ := List.mem_flatMap.mp hmark
      exact hh handler hhandler mark hmark
  · obtain ⟨item, hitem, hmark⟩ := List.mem_flatMap.mp hmark
    exact ha item hitem mark hmark

/-- A body that was read refers to its own instructions only. -/
theorem isClosed_of_read {name : UInt16} {body : Body}
    (h : read name pool cursor = .ok (body, next)) : body.IsClosed := by
  obtain ⟨offsets, hbody⟩ := exists_isDecoded h
  have hmarks := hbody.marks
  exact isClosed_of_parts (fun step hstep => hmarks ▸ (hbody.steps step hstep).2)
    (hmarks ▸ hbody.handlers) fun item hitem => hmarks ▸ (hbody.attributes item hitem).mem

end Body

end ClassGraft

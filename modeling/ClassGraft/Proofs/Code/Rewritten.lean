import ClassGraft.Proofs.Class.FrameTable
import ClassGraft.Proofs.Class.Reanalysis
import ClassGraft.Proofs.Class.Sizes
import ClassGraft.Proofs.Code.Renumbering
import ClassGraft.Proofs.Code.Shown

/-!
# Bodies that were written anew

The contents of the attribute of a tidy body, as they were written around a layout, are read as a
body that shows it (`Body.exists_isShownBy_of_bytes`).  Whatever refers to an instruction is written
as its position, where the reader finds the number of the instruction.
-/

namespace ClassGraft

open Reader

/-- Instructions that are read start before the end. -/
theorem Bytecode.Reads.lt_length {base origin : Nat} {bytes : Bytes}
    {rows : List (Nat × Instruction Nat)} (h : Bytecode.Reads base origin bytes rows) :
    ∀ row ∈ rows, row.1 < origin + bytes.length := by
  induction h with
  | nil => simp
  | cons h _ ih =>
    have hpos := length_pos_of_takes h
    rw [List.length_append]
    refine List.forall_mem_cons.mpr ⟨by omega, fun row hrow => ?_⟩
    have hlt := ih row hrow
    omega

namespace Layout

variable {layout : Layout} {base : Nat} {body : Body} {rows : List (Nat × Instruction Nat)}

/-! ### Positions -/

namespace IsReadAs

/-- A mark that has a position is that of an instruction. -/
theorem exists_index (h : layout.IsReadAs base body.steps rows)
    (hn : (body.steps.map (·.mark)).Nodup) {mark : Mark} {position : Nat}
    (hp : layout.offset mark = .ok position) : ∃ index step, body.steps[index]? = some step ∧
      step.mark = mark ∧ body.position? mark = some index := by
  obtain ⟨step, hstep, rfl⟩ := h.marks mark position (offset_eq_ok.mp hp)
  obtain ⟨index, hindex⟩ := List.mem_iff_getElem?.mp hstep
  exact ⟨index, step, hindex, rfl,
    Body.position?_of_positions hn (Body.getElem?_positions hn hindex)⟩

theorem lt_length (h : layout.IsReadAs base body.steps rows) {mark : Mark} {position : Nat}
    (hp : layout.offset mark = .ok position) : position < layout.code.length := by
  have hat := offset_eq_ok.mp hp
  obtain ⟨step, hstep, rfl⟩ := h.marks mark position hat
  have hmem := (h.rows.position_mem hstep).2
  rw [placeOf_of_eq_some hat] at hmem
  obtain ⟨row, hrow, rfl⟩ := List.mem_map.mp hmem
  have hlt := h.reads.lt_length row hrow
  omega

/-- Positions are in the order of the instructions. -/
theorem lt_iff (h : layout.IsReadAs base body.steps rows) {i j : Nat} {step other : Step}
    (hi : body.steps[i]? = some step) (hj : body.steps[j]? = some other) {position position' : Nat}
    (hp : layout.offset step.mark = .ok position) (hp' : layout.offset other.mark = .ok position') :
    position < position' ↔ i < j := by
  have hat := placeOf_of_eq_some (offset_eq_ok.mp hp)
  have hat' := placeOf_of_eq_some (offset_eq_ok.mp hp')
  obtain ⟨hi', rfl⟩ := List.getElem?_eq_some_iff.mp hi
  obtain ⟨hj', rfl⟩ := List.getElem?_eq_some_iff.mp hj
  have hpairwise := List.pairwise_iff_getElem.mp h.pairwise
  rcases Nat.lt_trichotomy i j with hlt | rfl | hgt
  · have hpositions := hpairwise i j hi' hj' hlt
    omega
  · omega
  · have hpositions := hpairwise j i hj' hi' hgt
    omega

theorem takes_mark (h : layout.IsReadAs base body.steps rows) {mark : Mark} {position : Nat}
    (hp : layout.offset mark = .ok position) (offset : Nat) :
    ((layout.starts rows).mark (UInt16.ofNat position).toNat).Takes offset []
      (layout.number rows mark) := by
  obtain ⟨hlt, hmark⟩ := h.isNumbered mark position (offset_eq_ok.mp hp)
  rw [UInt16.toNat_ofNat_of_lt' hlt]
  exact Layout.takes_mark hmark offset

/-- A place fits into two bytes, and is read back from its position. -/
theorem takes_place (h : layout.IsReadAs base body.steps rows) {place : Place} {position : Nat}
    (hp : layout.offsetOf place = .ok position) : position < 65536 ∧ ∀ offset,
      ((layout.starts rows).place position).Takes offset []
        (place.renumber (layout.number rows)) := by
  have hlength := h.length
  unfold Starts.place
  cases place with
  | finish =>
    obtain rfl := Except.ok.inj hp
    refine ⟨by omega, fun offset => ?_⟩
    rw [if_pos (show layout.code.length = (layout.starts rows).codeLength from rfl)]
    exact takes_pure _ offset
  | «at» mark =>
    have hlt := h.lt_length hp
    have hmark := h.takes_mark hp
    rw [UInt16.toNat_ofNat_of_lt' (show position < 65536 by omega)] at hmark
    refine ⟨by omega, fun offset => ?_⟩
    rw [if_neg (show position ≠ (layout.starts rows).codeLength from Nat.ne_of_lt hlt)]
    exact (hmark offset).bind_nil (takes_pure _ _)

theorem marks_of_offset (h : layout.IsReadAs base body.steps rows) {mark : Mark} {position : Nat}
    (hp : layout.offset mark = .ok position) : mark ∈ body.steps.map (·.mark) := by
  obtain ⟨step, hstep, rfl⟩ := h.marks mark position (offset_eq_ok.mp hp)
  exact List.mem_map_of_mem hstep

/-- Every instruction has a position. -/
theorem exists_offset (h : layout.IsReadAs base body.steps rows) {mark : Mark}
    (hm : mark ∈ body.steps.map (·.mark)) : ∃ position, layout.offset mark = .ok position := by
  obtain ⟨step, hstep, rfl⟩ := List.mem_map.mp hm
  exact ⟨_, offset_eq_ok.mpr (h.rows.position_mem hstep).1⟩

/-! ### Rows of tables -/

/-- A handler is written if there is an instruction in its range. -/
theorem hasRange_iff (h : layout.IsReadAs base body.steps rows)
    (hn : (body.steps.map (·.mark)).Nodup) {handler : Handler} {start stop : Nat}
    (hstart : layout.offset handler.start = .ok start)
    (hstop : layout.offsetOf handler.stop = .ok stop) :
    body.hasRange handler = true ↔ start < stop := by
  obtain ⟨i, step, hi, hmark, hposition⟩ := h.exists_index hn hstart
  unfold Body.hasRange
  rw [hposition]
  rw [← hmark] at hstart
  cases hplace : handler.stop with
  | finish =>
    rw [hplace] at hstop
    obtain rfl := Except.ok.inj hstop
    have hlt := h.lt_length hstart
    have hindex := (List.getElem?_eq_some_iff.mp hi).1
    simp [Body.indexOf?, hlt, hindex]
  | «at» mark =>
    rw [hplace] at hstop
    have hstop' : layout.offset mark = .ok stop := hstop
    obtain ⟨j, other, hj, rfl, hposition'⟩ := h.exists_index hn hstop'
    simp [Body.indexOf?, hposition', h.lt_iff hi hj hstart hstop']

theorem handlerRow?_spec (h : layout.IsReadAs base body.steps rows)
    (hn : (body.steps.map (·.mark)).Nodup) {handler : Handler} {row : Option (List UInt16)}
    (hr : layout.handlerRow? handler = .ok row) :
    (∀ mark ∈ handler.marks, mark ∈ body.steps.map (·.mark)) ∧
      row.isSome = body.hasRange handler ∧ ∀ cells ∈ row, ∀ offset,
        (Body.readHandler (layout.starts rows)).Takes offset (cells.flatMap Bytes.ofUInt16)
          (handler.renumber (layout.number rows)) := by
  obtain ⟨start, hstart, hr⟩ := Except.bind_eq_ok.mp hr
  obtain ⟨stop, hstop, hr⟩ := Except.bind_eq_ok.mp hr
  obtain ⟨entry, hentry, hr⟩ := Except.bind_eq_ok.mp hr
  -- A row is left out just for a range without instructions.
  have hrange := h.hasRange_iff hn hstart hstop
  refine ⟨?_, ?_, fun cells hcells offset => ?_⟩
  · refine List.forall_mem_cons.mpr ⟨h.marks_of_offset hstart, ?_⟩
    refine List.forall_mem_cons.mpr ⟨h.marks_of_offset hentry, fun mark hmark => ?_⟩
    cases hplace : handler.stop with
    | finish => simp [hplace, Place.marks] at hmark
    | «at» other =>
      obtain rfl : mark = other := by simpa [hplace, Place.marks] using hmark
      rw [hplace] at hstop
      exact h.marks_of_offset hstop
  · by_cases hle : stop ≤ start
    · rw [if_pos hle] at hr
      obtain rfl := Except.pure_eq_ok.mp hr
      have hnot : ¬body.hasRange handler = true := fun hb => by
        have hlt := hrange.mp hb
        omega
      simpa using hnot
    · rw [if_neg hle] at hr
      obtain rfl := Except.pure_eq_ok.mp hr
      exact (hrange.mpr (Nat.lt_of_not_le hle)).symm
  · obtain ⟨hlt, hplace⟩ := h.takes_place hstop
    split_ifs at hr with hle
    · obtain rfl := Except.pure_eq_ok.mp hr
      exact absurd hcells (Option.not_mem_none cells)
    · obtain rfl := Except.pure_eq_ok.mp hr
      obtain rfl := Option.some.inj hcells
      simp only [List.flatMap_cons, List.flatMap_nil, List.append_nil]
      rw [← UInt16.toNat_ofNat_of_lt' hlt] at hplace
      refine (takes_uint16 _ offset).bind ((h.takes_mark hstart _).nil_bind ?_)
      refine (takes_uint16 _ _).bind ((hplace _).nil_bind ?_)
      refine (takes_uint16 _ _).bind ((h.takes_mark hentry _).nil_bind ?_)
      exact (takes_uint16 handler.catchType _).bind_nil (takes_pure _ _)

/-- Every line of a tidy table is written. -/
theorem lineRow?_spec (h : layout.IsReadAs base body.steps rows) {entry : LineEntry}
    (hm : entry.start ∈ body.steps.map (·.mark)) : (layout.lineRow? entry).isSome ∧
      ∀ row, layout.lineRow? entry = some row → ∀ offset,
        (Body.readLine (layout.starts rows)).Takes offset (row.flatMap Bytes.ofUInt16)
          (entry.renumber (layout.number rows)) := by
  obtain ⟨start, hstart⟩ := h.exists_offset hm
  have hrow : layout.lineRow? entry = some [UInt16.ofNat start, entry.line] := by
    rw [lineRow?, offset?, offset_eq_ok.mp hstart]
    rfl
  rw [hrow]
  refine ⟨rfl, fun row hr offset => ?_⟩
  obtain rfl := Option.some.inj hr
  simp only [List.flatMap_cons, List.flatMap_nil, List.append_nil]
  refine (takes_uint16 _ offset).bind ((h.takes_mark hstart _).nil_bind ?_)
  exact (takes_uint16 entry.line _).bind_nil (takes_pure _ _)

/-- A local variable does not end before it starts, also in positions. -/
theorem exists_positions (h : layout.IsReadAs base body.steps rows) {entry : VariableEntry}
    (ho : entry.IsOrdered (body.steps.map (·.mark))) : ∃ start stop,
      layout.offset entry.start = .ok start ∧ layout.offsetOf entry.stop = .ok stop ∧
        start ≤ stop := by
  have hpairwise : (body.steps.map (·.mark)).Pairwise fun mark other =>
      placeOf layout.placed mark < placeOf layout.placed other :=
    List.pairwise_map.mpr h.pairwise
  obtain ⟨start, hstart⟩ := h.exists_offset (ho.mem _ List.mem_cons_self)
  unfold VariableEntry.IsOrdered at ho
  cases hstop : entry.stop with
  | finish => exact ⟨start, _, hstart, rfl, Nat.le_of_lt (h.lt_length hstart)⟩
  | «at» mark =>
    rw [hstop] at ho
    obtain ⟨stop, hat⟩ := h.exists_offset ho.right_mem
    refine ⟨start, stop, hstart, hat, ?_⟩
    rcases ho with hsub | ⟨hsame, -⟩
    · have hlt := List.pairwise_pair.mp (hpairwise.sublist hsub)
      rw [placeOf_of_eq_some (offset_eq_ok.mp hstart), placeOf_of_eq_some (offset_eq_ok.mp hat)]
        at hlt
      exact Nat.le_of_lt hlt
    · rw [hsame] at hstart
      exact Nat.le_of_eq (Except.ok.inj (hstart.symm.trans hat))

/-- Every local variable of a tidy table is written. -/
theorem variableRow?_spec (h : layout.IsReadAs base body.steps rows) {entry : VariableEntry}
    (ho : entry.IsOrdered (body.steps.map (·.mark))) : (layout.variableRow? entry).isSome ∧
      ∀ row, layout.variableRow? entry = some row → ∀ offset,
        (Body.readVariable (layout.starts rows)).Takes offset (row.flatMap Bytes.ofUInt16)
          (entry.renumber (layout.number rows)) := by
  obtain ⟨start, stop, hstart, hstop, hle⟩ := h.exists_positions ho
  have hrow : layout.variableRow? entry = some [UInt16.ofNat start, UInt16.ofNat (stop - start),
      entry.name, entry.descriptor, entry.slot] := by
    rw [variableRow?, offset?, offset_eq_ok.mp hstart, hstop]
    exact if_neg (Nat.not_lt.mpr hle)
  obtain ⟨hlt, hplace⟩ := h.takes_place hstop
  have hlength : (UInt16.ofNat start).toNat + (UInt16.ofNat (stop - start)).toNat = stop := by
    rw [UInt16.toNat_ofNat_of_lt' (show start < 65536 by omega),
      UInt16.toNat_ofNat_of_lt' (show stop - start < 65536 by omega)]
    omega
  rw [hrow]
  refine ⟨rfl, fun row hr offset => ?_⟩
  obtain rfl := Option.some.inj hr
  simp only [List.flatMap_cons, List.flatMap_nil, List.append_nil]
  rw [← hlength] at hplace
  refine (takes_uint16 _ offset).bind ((takes_uint16 _ _).bind ?_)
  refine (h.takes_mark hstart _).nil_bind ((hplace _).nil_bind ?_)
  refine (takes_uint16 entry.name _).bind ((takes_uint16 entry.descriptor _).bind ?_)
  exact (takes_uint16 entry.slot _).bind_nil (takes_pure _ _)

/-! ### Tables -/

/-- The table of handlers is read back as the handlers that have a range. -/
theorem takes_handlers (h : layout.IsReadAs base body.steps rows)
    (hn : (body.steps.map (·.mark)).Nodup) {handlers : List Handler}
    {written : List (Option (List UInt16))} {bytes : Bytes}
    (hw : handlers.mapM layout.handlerRow? = .ok written)
    (ht : Bytes.tableOf id (written.filterMap id) = .ok bytes) (offset : Nat) :
    (list (Body.readHandler (layout.starts rows))).Takes offset bytes
      ((handlers.filter body.hasRange).map (Handler.renumber (layout.number rows))) := by
  refine takes_listOf ht ?_ offset
  clear ht
  replace hw := Except.mapM_eq_ok.mp hw
  induction hw with
  | nil => exact .nil
  | @cons handler row _ _ hrow _ ih =>
    obtain ⟨-, hrange, htakes⟩ := h.handlerRow?_spec hn hrow
    cases row with
    | none =>
      rw [List.filterMap_cons_none rfl, List.filter_cons_of_neg (by simp [← hrange])]
      exact ih
    | some cells =>
      rw [List.filterMap_cons_some (f := id) rfl, List.filter_cons_of_pos (by simp [← hrange]),
        List.map_cons]
      refine .cons (fun part hpart offset => ?_) ih
      obtain rfl := Except.ok.inj hpart
      exact htakes cells rfl offset

/-- A table of lines is read back whole. -/
theorem readWhole_lines (h : layout.IsReadAs base body.steps rows) {entries : List LineEntry}
    {info : Bytes} (hm : ∀ entry ∈ entries, entry.start ∈ body.steps.map (·.mark))
    (hw : Bytes.tableOf id (entries.filterMap layout.lineRow?) = .ok info) :
    Body.readWhole (list (Body.readLine (layout.starts rows))) info =
      some (entries.map (LineEntry.renumber (layout.number rows))) := by
  have htakes := takes_tableOf hw (fun entry hentry => (h.lineRow?_spec (hm entry hentry)).2) 0
  rw [List.filter_eq_self.mpr fun entry hentry => (h.lineRow?_spec (hm entry hentry)).1] at htakes
  exact Body.readWhole_of_takes htakes

/-- A table of local variables is read back whole. -/
theorem readWhole_variables (h : layout.IsReadAs base body.steps rows)
    {entries : List VariableEntry} {info : Bytes}
    (ho : ∀ entry ∈ entries, entry.IsOrdered (body.steps.map (·.mark)))
    (hw : Bytes.tableOf id (entries.filterMap layout.variableRow?) = .ok info) :
    Body.readWhole (list (Body.readVariable (layout.starts rows))) info =
      some (entries.map (VariableEntry.renumber (layout.number rows))) := by
  have htakes := takes_tableOf hw (fun entry hentry => (h.variableRow?_spec (ho entry hentry)).2) 0
  rw [List.filter_eq_self.mpr fun entry hentry => (h.variableRow?_spec (ho entry hentry)).1]
    at htakes
  exact Body.readWhole_of_takes htakes

end IsReadAs

end Layout

/-! ### Attributes -/

namespace Body

variable {starts : Starts} {pool : Pool} {index : UInt16} {info : Bytes}

theorem takes_readAttribute {raw : RawAttribute} {name bytes : Bytes} (hw : raw.bytes = .ok bytes)
    (hn : pool.utf8 raw.name = some name) (offset : Nat) :
    (readAttribute starts pool).Takes offset bytes
      (attributeOf starts pool raw.name name raw.info) := by
  obtain ⟨hlt, rfl⟩ := RawAttribute.bytes_eq_ok_iff.mp hw
  refine (takes_uint16 raw.name offset).bind ((takes_uint32 _ _).bind ?_)
  rw [UInt32.toNat_ofNat_of_lt' hlt]
  refine (takes_take raw.info _).bind_nil ?_
  simp only [hn]
  exact takes_pure _ _

theorem attributeOf_lines {entries : List LineEntry}
    (h : readWhole (list (readLine starts)) info = some entries) :
    attributeOf starts pool index (Bytes.ofAscii "LineNumberTable") info =
      .lines index entries := by
  unfold attributeOf
  dsimp only
  rw [if_pos (by decide), h]
  rfl

theorem attributeOf_locals {table : VariableTable} {entries : List VariableEntry}
    (h : readWhole (list (readVariable starts)) info = some entries) :
    attributeOf starts pool index table.attributeName info = .locals table index entries := by
  unfold attributeOf
  dsimp only
  cases table with
  | descriptors =>
    rw [if_neg (by decide), if_pos (by decide), h]
    rfl
  | signatures =>
    rw [if_neg (by decide), if_neg (by decide), if_pos (by decide), h]
    rfl

theorem attributeOf_frames :
    attributeOf starts pool index (Bytes.ofAscii "StackMapTable") info =
      .frames index ((readWhole (readFrames starts pool) info).getD []) := by
  unfold attributeOf
  dsimp only
  rw [if_neg (by decide), if_neg (by decide), if_neg (by decide), if_pos (by decide)]

end Body

namespace Layout

variable {layout : Layout} {base : Nat} {body : Body} {rows : List (Nat × Instruction Nat)}

/-- What is read back of attributes that were written with a table of frames, or without one. -/
def reread (number : Mark → Mark) (entriesOf : Bytes → List DeclaredFrame) :
    List BodyAttribute → (frames : Option RawAttribute) → List BodyAttribute
  | [], frames => frames.toList.map fun raw => .frames raw.name (entriesOf raw.info)
  | .lines name entries :: rest, frames =>
    .lines name (entries.map (LineEntry.renumber number)) :: reread number entriesOf rest frames
  | .locals table name entries :: rest, frames =>
    .locals table name (entries.map (VariableEntry.renumber number)) ::
      reread number entriesOf rest frames
  | .frames _ _ :: rest, some raw =>
    .frames raw.name (entriesOf raw.info) :: reread number entriesOf rest none
  | .frames _ _ :: rest, none => reread number entriesOf rest none
  | .other _ :: rest, frames => reread number entriesOf rest frames

theorem filter_isTable_reread (number : Mark → Mark) (entriesOf : Bytes → List DeclaredFrame)
    (items : List BodyAttribute) (frames : Option RawAttribute) :
    (reread number entriesOf items frames).filter (·.isTable) =
      (items.filter (·.isTable)).map (BodyAttribute.renumber number) := by
  induction items generalizing frames with
  | nil => cases frames <;> rfl
  | cons item items ih =>
    cases item with
    | lines name entries => exact congrArg (_ :: ·) (ih frames)
    | «locals» table name entries => exact congrArg (_ :: ·) (ih frames)
    | frames name entries => cases frames <;> exact ih none
    | other raw => exact ih frames

/-- The table of frames that is read back is the one that was written. -/
theorem findSome?_frames?_reread (number : Mark → Mark) (entriesOf : Bytes → List DeclaredFrame)
    (items : List BodyAttribute) (frames : Option RawAttribute) :
    (reread number entriesOf items frames).findSome? BodyAttribute.frames? =
      frames.map fun raw => (raw.name, entriesOf raw.info) := by
  induction items generalizing frames with
  | nil => cases frames <;> rfl
  | cons item items ih =>
    cases item with
    | lines name entries => exact ih frames
    | «locals» table name entries => exact ih frames
    | frames name entries =>
      cases frames with
      | none => exact ih none
      | some raw => rfl
    | other raw => exact ih frames

/-- The attributes that are written are read back: tables of lines and of local variables as they
were, and one of frames. -/
theorem IsReadAs.takes_attributes (h : layout.IsReadAs base body.steps rows) {later : Pool}
    {items : List BodyAttribute} {frames : Option RawAttribute} {written : List RawAttribute}
    (ht : ∀ item ∈ items, item.IsTidy later (body.steps.map (·.mark)))
    (hf : ∀ raw ∈ frames, later.utf8 raw.name = some (Bytes.ofAscii "StackMapTable"))
    (hw : layout.attributes items frames = .ok written) :
    List.Forall₂ (fun raw value => ∀ bytes, raw.bytes = .ok bytes → ∀ offset,
      (Body.readAttribute (layout.starts rows) later).Takes offset bytes value) written
      (reread (layout.number rows) (fun info =>
        (Body.readWhole (Body.readFrames (layout.starts rows) later) info).getD []) items
        frames) := by
  -- an attribute is read back as what its name and its contents say
  have hread {raw : RawAttribute} {name : Bytes} {value : BodyAttribute}
      (hn : later.utf8 raw.name = some name)
      (ha : Body.attributeOf (layout.starts rows) later raw.name name raw.info = value) (bytes : Bytes)
      (hbytes : raw.bytes = .ok bytes) (offset : Nat) :
      (Body.readAttribute (layout.starts rows) later).Takes offset bytes value :=
    ha ▸ Body.takes_readAttribute hbytes hn offset
  induction items generalizing frames written with
  | nil =>
    obtain rfl := Except.pure_eq_ok.mp hw
    cases frames with
    | none => exact .nil
    | some raw => exact .cons (hread (hf raw rfl) Body.attributeOf_frames) .nil
  | cons item items ih =>
    obtain ⟨hitem, hrest⟩ := List.forall_mem_cons.mp ht
    cases item with
    | lines name entries =>
      obtain ⟨info, hinfo, hw⟩ := Except.bind_eq_ok.mp hw
      obtain ⟨more, hmore, hw⟩ := Except.bind_eq_ok.mp hw
      obtain rfl := Except.pure_eq_ok.mp hw
      exact .cons (hread hitem.1 (Body.attributeOf_lines (h.readWhole_lines hitem.2 hinfo)))
        (ih hrest hf hmore)
    | «locals» table name entries =>
      obtain ⟨info, hinfo, hw⟩ := Except.bind_eq_ok.mp hw
      obtain ⟨more, hmore, hw⟩ := Except.bind_eq_ok.mp hw
      obtain rfl := Except.pure_eq_ok.mp hw
      exact .cons (hread hitem.1 (Body.attributeOf_locals (h.readWhole_variables hitem.2 hinfo)))
        (ih hrest hf hmore)
    | frames name entries =>
      cases frames with
      | none => exact ih hrest hf hw
      | some raw =>
        obtain ⟨more, hmore, hw⟩ := Except.bind_eq_ok.mp hw
        obtain rfl := Except.pure_eq_ok.mp hw
        -- The table of frames is written in place of the first old one, and for no other after it.
        exact .cons (hread (hf raw rfl) Body.attributeOf_frames) (ih hrest nofun hmore)
    | other raw => exact ih hrest hf hw

/-- The steps of a body whose instructions were read. -/
def stepsOf (k : Nat) (instructions : List (Instruction Mark)) : List Step :=
  (instructions.zipIdx k).map fun (instruction, i) => ⟨⟨i⟩, instruction⟩

/-- Instructions that were read, as the steps of a body, show the steps that were laid out. -/
theorem Shows.areShown {placed : Std.HashMap Mark Nat} {number : Mark → Mark} {k : Nat}
    {steps : List Step} {rows : List (Nat × Instruction Mark)} {landings : List Mark}
    (h : Shows placed number k steps rows landings) :
    Step.AreShown number k steps (stepsOf k (rows.map (·.2))) := by
  induction h with
  | nil k => exact .nil k
  | same hk _ _ ih => exact .same hk ih
  | bypass hk _ hi _ ih => exact .bypass hk hi ih

/-- Without a bypass the steps that are read are those that were laid out, with other marks. -/
theorem Shows.stepsOf_eq {placed : Std.HashMap Mark Nat} {number : Mark → Mark} {k : Nat}
    {steps : List Step} {rows : List (Nat × Instruction Mark)}
    (h : Shows placed number k steps rows []) :
    stepsOf k (rows.map (·.2)) = steps.map (Step.renumber number) := by
  generalize hlandings : ([] : List Mark) = landings at h
  induction h with
  | nil k => rfl
  | @same k origin step steps rows landings hk _ _ ih =>
    rw [List.map_cons, List.map_cons, ← ih hlandings, Step.renumber, hk]
    rfl
  | bypass => nomatch hlandings

theorem ne_nil_of_ofSteps {pool : Pool} {steps : List Step} (h : ofSteps pool steps = .ok layout) :
    steps ≠ [] := by
  rintro rfl
  obtain ⟨_, draft, hdraft, hpos, -⟩ := exists_draft_of_within h
  obtain rfl := Except.ok.inj hdraft
  exact absurd hpos (Nat.lt_irrefl 0)

theorem IsReadAs.length_pos (h : layout.IsReadAs base body.steps rows) (hs : body.steps ≠ []) :
    0 < layout.code.length := by
  obtain ⟨step, hstep⟩ := List.exists_mem_of_ne_nil _ hs
  exact Nat.zero_lt_of_lt (h.lt_length (offset_eq_ok.mpr (h.rows.position_mem hstep).1))

end Layout

/-! ### Bodies -/

namespace Body

variable {body : Body} {pool later : Pool} {layout : Layout} {table : Option RawAttribute}

/-- A body that was written refers to its own instructions only. -/
theorem isClosed_of_bytes (ht : body.IsTidy later) {base : Nat}
    {rows : List (Nat × Instruction Nat)} (h : layout.IsReadAs base body.steps rows)
    {written : List (Option (List UInt16))}
    (hw : body.handlers.mapM layout.handlerRow? = .ok written) : body.IsClosed := by
  refine isClosed_of_parts (fun step hstep mark hmark => ?_) (fun handler hhandler => ?_)
    fun item hitem mark hmark => (ht.attributes item hitem).mem mark hmark
  · obtain ⟨position, hposition⟩ := h.rows.exists_position hstep hmark
    exact h.marks_of_offset (Layout.offset_eq_ok.mpr hposition)
  · obtain ⟨row, -, hrow⟩ := exists_of_mem_left (Except.mapM_eq_ok.mp hw) hhandler
    exact (h.handlerRow?_spec ht.nodup hrow).1

/-- Whether a body is what is read back of one that was laid out and written. -/
structure IsReread (layout : Layout) (rows : List (Nat × Instruction Nat)) (later : Pool)
    (table : Option RawAttribute) (body again : Body) : Prop where
  name : again.name = body.name
  maxStack : again.maxStack = body.maxStack
  maxLocals : again.maxLocals = body.maxLocals
  steps : ∃ instructions : List (Nat × Instruction Mark), Layout.Shows layout.placed
    (layout.number rows) 0 body.steps instructions layout.landings ∧
      again.steps = Layout.stepsOf 0 (instructions.map (·.2))
  handlers : again.handlers = (body.handlers.filter body.hasRange).map
    (Handler.renumber (layout.number rows))
  attributes : again.attributes = Layout.reread (layout.number rows) (fun info =>
    (readWhole (readFrames (layout.starts rows) later) info).getD []) body.attributes table
  closed : body.IsClosed

/-- The contents that are written for a tidy body are read back, wherever they stand. -/
theorem exists_isReread_of_bytes (ht : body.IsTidy later)
    (hl : ∀ last ∈ body.steps.getLast?, last.instruction.fallsThrough = false)
    (hlayout : Layout.ofSteps pool body.steps = .ok layout)
    (hf : ∀ raw ∈ table, later.utf8 raw.name = some (Bytes.ofAscii "StackMapTable"))
    {encoded : Bytes} (hw : body.bytes layout table = .ok encoded)
    (offset : Nat) : ∃ base rows again last, layout.IsReadAs base body.steps rows ∧
      read body.name later ⟨encoded, offset⟩ = .ok (again, last) ∧
        body.IsReread layout rows later table again := by
  obtain ⟨rows, h⟩ := Layout.exists_isReadAs ht.nodup ht.readable hl hlayout
    (offset + (Bytes.ofUInt16 body.maxStack).length + (Bytes.ofUInt16 body.maxLocals).length +
      (Bytes.ofUInt32 (UInt32.ofNat layout.code.length)).length)
  obtain ⟨instructions, hinstructions, hshows⟩ := h.shows
  have hpos := h.length_pos (Layout.ne_nil_of_ofSteps hlayout)
  have hlength := h.length
  obtain ⟨code, hcode, hw⟩ := Except.bind_eq_ok.mp hw
  obtain ⟨written, hwritten, hw⟩ := Except.bind_eq_ok.mp hw
  obtain ⟨handlers, hhandlers, hw⟩ := Except.bind_eq_ok.mp hw
  obtain ⟨raws, hraws, hw⟩ := Except.bind_eq_ok.mp hw
  obtain ⟨attributes, hattributes, hw⟩ := Except.bind_eq_ok.mp hw
  have hvalues := h.takes_attributes ht.attributes hf hraws
  have hsmall : layout.code.length < 4294967296 := by omega
  obtain rfl : Bytes.ofUInt32 (UInt32.ofNat layout.code.length) ++ layout.code = code := by
    simpa [Bytes.block, hsmall] using hcode
  -- The parts are read in the order in which they were written, up to the end.
  have hread : (read body.name later).Ends offset encoded
      { name := body.name
        maxStack := body.maxStack
        maxLocals := body.maxLocals
        steps := Layout.stepsOf 0 instructions
        handlers := (body.handlers.filter body.hasRange).map
          (Handler.renumber (layout.number rows))
        attributes := Layout.reread (layout.number rows) (fun info =>
          (readWhole (readFrames (layout.starts rows) later) info).getD []) body.attributes table
        nextMark := instructions.length
        initialCount := instructions.length
        initialOffsets := (rows.map (·.1)).map UInt16.ofNat
        encoded := some encoded
        modified := false } := by
    refine ends_remaining ?_
    obtain rfl := Except.pure_eq_ok.mp hw
    simp only [List.append_assoc]
    refine (takes_uint16 body.maxStack _).bind_ends ((takes_uint16 body.maxLocals _).bind_ends ?_)
    refine (takes_uint32 _ _).bind_ends ?_
    rw [UInt32.toNat_ofNat_of_lt' hsmall, if_neg (by omega)]
    refine (takes_within (Bytecode.all_of_reads h.reads)).bind_ends ?_
    refine (takes_lift hinstructions _).nil_bind_ends ?_
    refine (h.takes_handlers ht.nodup hwritten hhandlers _).bind_ends ?_
    rw [← List.append_nil attributes]
    refine (takes_listOf hattributes hvalues _).bind_ends (ends_finished (ends_pure _ _ _))
  obtain ⟨last, hread⟩ := hread
  refine ⟨_, rows, _, last, h, hread, rfl, rfl, rfl, ⟨_, hshows, ?_⟩, rfl, rfl,
    isClosed_of_bytes ht h hwritten⟩
  have hcount := (Except.mapM_eq_ok.mp hinstructions).length_eq
  rw [List.map_snd_zip (by simp [hcount])]

/-- The contents that are written for a tidy body are read as a body that shows it, wherever they
stand. -/
theorem exists_isShownBy_of_bytes (ht : body.IsTidy later)
    (hl : ∀ last ∈ body.steps.getLast?, last.instruction.fallsThrough = false)
    (hlayout : Layout.ofSteps pool body.steps = .ok layout)
    (hf : ∀ raw ∈ table, later.utf8 raw.name = some (Bytes.ofAscii "StackMapTable"))
    (hm : body.modified = true) {encoded : Bytes} (hw : body.bytes layout table = .ok encoded)
    (offset : Nat) : ∃ number again last,
      read body.name later ⟨encoded, offset⟩ = .ok (again, last) ∧
        body.IsShownBy number again := by
  obtain ⟨base, rows, again, last, -, hread, hagain⟩ :=
    exists_isReread_of_bytes ht hl hlayout hf hw offset
  obtain ⟨instructions, hshows, hsteps⟩ := hagain.steps
  refine ⟨layout.number rows, again, last, hread, hagain.name, hagain.maxStack, hagain.maxLocals,
    hsteps ▸ hshows.areShown, ?_, ?_, hagain.closed⟩
  · rw [hagain.handlers, keptHandlers, if_pos hm]
  · rw [tables, hagain.attributes]
    exact Layout.filter_isTable_reread _ _ _ _

end Body

end ClassGraft

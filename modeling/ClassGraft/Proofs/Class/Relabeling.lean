import ClassGraft.Proofs.Class.FrameTable
import ClassGraft.Proofs.Class.Repeating
import ClassGraft.Proofs.Code.Rewritten
import ClassGraft.Proofs.Frame.Renumbering

/-!
# Tables under other marks

What is written for a body does not depend on the marks of its instructions.  Where instructions have
the same positions under other marks (`Layout.Relabels`), rows of tables are written in the same way
(`Layout.Relabels.attributes_eq`), and so is the table of frames, if the frames list the same types
(`Body.Unfolds.frameTable_eq`): the same instructions need one, with a bypass or with two jumps in
place of it (`Body.Unfolds.needsFrame_eq`).
-/

namespace ClassGraft

/-! ### Tables under other marks -/

namespace FrameType

variable {number : Mark → Mark} {marks : List Mark}

theorem rename_eq_top {type : FrameType} : type.rename number = top ↔ type = top := by
  cases type <;> simp [rename]

theorem trimReversed_rename (slots : List FrameType) :
    trimReversed (slots.map (rename number)) = (trimReversed slots).map (rename number) := by
  induction slots using trimReversed.induct with
  | case1 => rfl
  | case2 => rfl
  | case3 type hne =>
    rw [List.map_singleton, trimReversed, trimReversed, if_neg (rename_eq_top.not.mpr hne),
      if_neg hne]
    rfl
  | case4 last before rest h ih =>
    rw [List.map_cons, List.map_cons, trimReversed, if_pos, ← List.map_cons, ih, trimReversed,
      if_pos h]
    rw [rename_eq_top, isWide_rename]
    exact h
  | case5 last before rest h =>
    rw [List.map_cons, List.map_cons, trimReversed, if_neg, trimReversed, if_neg h]
    · rfl
    · rw [rename_eq_top, isWide_rename]
      exact h

theorem trim_rename (slots : List FrameType) :
    trim (slots.map (rename number)) = (trim slots).map (rename number) := by
  rw [trim, ← List.map_reverse, trimReversed_rename, ← List.map_reverse, trim]

theorem collapse_rename (slots : List FrameType) :
    collapse (slots.map (rename number)) = (collapse slots).map (rename number) := by
  induction slots using collapse.induct with
  | case1 => rfl
  | case2 => rfl
  | case3 type second rest hw ih =>
    rw [List.map_cons, List.map_cons, collapse, isWide_rename, if_pos hw, ih, collapse, if_pos hw]
    rfl
  | case4 type second rest hw ih =>
    rw [List.map_cons, List.map_cons, collapse, isWide_rename, if_neg hw, ← List.map_cons, ih,
      collapse, if_neg hw]
    rfl

/-- Lists of types are the same under other marks only if they are the same. -/
theorem map_rename_inj (hs : Mark.Separates number marks) {types others : List FrameType}
    (ht : ∀ type ∈ types, type.IsMadeIn marks) (ho : ∀ type ∈ others, type.IsMadeIn marks) :
    types.map (rename number) = others.map (rename number) ↔ types = others := by
  refine ⟨fun h => ?_, fun h => h ▸ rfl⟩
  induction types generalizing others with
  | nil => exact (List.map_eq_nil_iff.mp h.symm).symm
  | cons type types ih =>
    cases others with
    | nil => nomatch h
    | cons other others =>
      obtain ⟨hhead, htail⟩ := List.cons.inj h
      obtain ⟨hthead, ht⟩ := List.forall_mem_cons.mp ht
      obtain ⟨hohead, ho⟩ := List.forall_mem_cons.mp ho
      rw [eq_of_rename hs hthead hohead hhead, ih ht ho htail]

end FrameType

/-- Frames change in the same way under other marks. -/
theorem FrameChange.between_rename {number : Mark → Mark} {marks : List Mark}
    (hs : Mark.Separates number marks) {previous locals : List FrameType}
    (hp : ∀ type ∈ previous, type.IsMadeIn marks) (hl : ∀ type ∈ locals, type.IsMadeIn marks)
    (stack : List FrameType) :
    between (previous.map (FrameType.rename number)) (locals.map (FrameType.rename number))
      (stack.map (FrameType.rename number)) =
      (between previous locals stack).rename number := by
  have hsame := FrameType.map_rename_inj hs hl hp
  have hchop (count : Nat) : (previous.map (FrameType.rename number)).take count =
      locals.map (FrameType.rename number) ↔ previous.take count = locals := by
    rw [← List.map_take]
    exact FrameType.map_rename_inj hs (fun type ht => hp type (List.mem_of_mem_take ht)) hl
  have happend (count : Nat) : (locals.map (FrameType.rename number)).take count =
      previous.map (FrameType.rename number) ↔ locals.take count = previous := by
    rw [← List.map_take]
    exact FrameType.map_rename_inj hs (fun type ht => hl type (List.mem_of_mem_take ht)) hp
  unfold between
  simp only [List.length_map, hsame, hchop, happend]
  rcases stack with _ | ⟨type, _ | ⟨second, rest⟩⟩
  · dsimp only [List.map_nil]
    split_ifs
    · rfl
    · rfl
    · rw [← List.map_drop]
      rfl
    · rfl
  · show (if locals = previous then sameOne (type.rename number)
      else full (locals.map (FrameType.rename number)) [type.rename number]) =
        (if locals = previous then sameOne type else full locals [type]).rename number
    split_ifs
    · rfl
    · rfl
  · rfl

/-- The types in a change are those of the frame. -/
theorem FrameChange.mem_of_mem_types_between {previous locals stack : List FrameType}
    {type : FrameType} (h : type ∈ (between previous locals stack).types) :
    type ∈ locals ++ stack := by
  unfold between at h
  dsimp only at h
  split at h
  · split_ifs at h
    · nomatch h
    · nomatch h
    · exact List.mem_append_left _ (List.mem_of_mem_drop h)
    · exact h
  · split_ifs at h
    · exact List.mem_append_right _ h
    · exact h
  · exact h

/-- Whether tables list the same types for two frames, under other marks. -/
structure Frame.IsListedAs (number : Mark → Mark) (marks : List Mark) (frame other : Frame) :
    Prop where
  locals : other.listedLocals = frame.listedLocals.map (FrameType.rename number)
  stack : other.listedStack = frame.listedStack.map (FrameType.rename number)
  made : ∀ type ∈ frame.listedLocals ++ frame.listedStack, type.IsMadeIn marks

/-! ### Layouts with instructions at the same places -/

/-- A step that does the same for other items does the same for all of them. -/
theorem mapM_map_eq {m : Type → Type} [Monad m] [LawfulMonad m] {α β γ : Type} {items : List α}
    {f : α → β} {step : β → m γ} {step' : α → m γ}
    (h : ∀ item ∈ items, step (f item) = step' item) :
    (items.map f).mapM step = items.mapM step' := by
  induction items with
  | nil => rfl
  | cons item items ih =>
    obtain ⟨hitem, hitems⟩ := List.forall_mem_cons.mp h
    rw [List.map_cons, List.mapM_cons, List.mapM_cons, hitem, ih hitems]

/-- Whether a frame that is to be written is listed as another one, for the same instruction. -/
def Layout.IsRowUnder (number : Mark → Mark) (marks : List Mark)
    (row row' : Nat × Mark × Option Frame) : Prop :=
  row.2.1 ∈ marks ∧ ∃ frame frame', row.2.2 = some frame ∧
    row'.2 = (number row.2.1, some frame') ∧ frame.IsListedAs number marks frame'

/-- Whether instructions stand where those of another layout do, under other marks. -/
structure Layout.Relabels (number : Mark → Mark) (marks : List Mark) (layout again : Layout) :
    Prop where
  code : again.code = layout.code
  offset : ∀ mark ∈ marks, ∃ position,
    layout.offset mark = .ok position ∧ again.offset (number mark) = .ok position

namespace Layout.Relabels

variable {number : Mark → Mark} {marks : List Mark} {layout again : Layout}

theorem offset_eq (h : layout.Relabels number marks again) {mark : Mark} (hm : mark ∈ marks) :
    again.offset (number mark) = layout.offset mark := by
  obtain ⟨position, hposition, hagain⟩ := h.offset mark hm
  rw [hposition, hagain]

theorem offset?_eq (h : layout.Relabels number marks again) {mark : Mark} (hm : mark ∈ marks) :
    again.offset? (number mark) = layout.offset? mark := by
  obtain ⟨position, hposition, hagain⟩ := h.offset mark hm
  exact (offset_eq_ok.mp hagain).trans (offset_eq_ok.mp hposition).symm

theorem offsetOf_eq (h : layout.Relabels number marks again) {place : Place}
    (hm : ∀ mark ∈ place.marks, mark ∈ marks) :
    again.offsetOf (place.renumber number) = layout.offsetOf place := by
  cases place with
  | finish => exact congrArg (fun code : Bytes => Except.ok code.length) h.code
  | «at» mark => exact h.offset_eq (hm mark List.mem_cons_self)

/-! #### Types and frames -/

theorem typeBytes_eq (h : layout.Relabels number marks again) {type : FrameType}
    (ht : type.IsMadeIn marks) :
    again.typeBytes (type.rename number) = layout.typeBytes type := by
  cases type with
  | uninitialized mark =>
    show (do
      let offset ← liftM (again.offset (number mark))
      return 8 :: Bytes.ofUInt16 (UInt16.ofNat offset) : Interning Bytes) = _
    rw [h.offset_eq (ht mark rfl)]
    rfl
  | _ => rfl

theorem typesBytes_eq (h : layout.Relabels number marks again) {types : List FrameType}
    (ht : ∀ type ∈ types, type.IsMadeIn marks) :
    again.typesBytes (types.map (FrameType.rename number)) = layout.typesBytes types := by
  unfold typesBytes
  rw [mapM_map_eq fun type htype => h.typeBytes_eq (ht type htype)]

theorem countedTypes_eq (h : layout.Relabels number marks again) {types : List FrameType}
    (ht : ∀ type ∈ types, type.IsMadeIn marks) :
    again.countedTypes (types.map (FrameType.rename number)) = layout.countedTypes types := by
  unfold countedTypes
  rw [List.length_map, h.typesBytes_eq ht]

theorem changeBytes_eq (h : layout.Relabels number marks again) {change : FrameChange}
    (ht : ∀ type ∈ change.types, type.IsMadeIn marks) (distance : Nat) :
    again.changeBytes distance (change.rename number) = layout.changeBytes distance change := by
  cases change with
  | same => rfl
  | sameOne type =>
    unfold changeBytes FrameChange.rename
    dsimp only
    rw [h.typeBytes_eq (ht type List.mem_cons_self)]
  | chop count => rfl
  | append types =>
    have htypes : ∀ type ∈ types, type.IsMadeIn marks := ht
    unfold changeBytes FrameChange.rename
    dsimp only
    rw [List.length_map, h.typesBytes_eq htypes]
  | full locals stack =>
    unfold changeBytes FrameChange.rename
    dsimp only
    rw [h.countedTypes_eq fun type htype => ht type (List.mem_append_left _ htype),
      h.countedTypes_eq fun type htype => ht type (List.mem_append_right _ htype)]

/-- The frames of rows are written in the same way, if they list the same types under other marks. -/
theorem frameEntries_eq (h : layout.Relabels number marks again) (hs : Mark.Separates number marks)
    {rows rows' : List (Nat × Mark × Option Frame)}
    (hr : List.Forall₂ (IsRowUnder number marks) rows rows') {previous : List FrameType}
    (hp : ∀ type ∈ previous, type.IsMadeIn marks) (before : Option Nat) :
    again.frameEntries rows' (previous.map (FrameType.rename number)) before =
      layout.frameEntries rows previous before := by
  induction hr generalizing previous before with
  | nil => rfl
  | @cons row row' rows rows' hrow _ ih =>
    obtain ⟨index, mark, found⟩ := row
    obtain ⟨index', mark', found'⟩ := row'
    obtain ⟨hmark, frame, frame', rfl, hrow, hlisted⟩ := hrow
    obtain ⟨rfl, rfl⟩ := Prod.mk.inj hrow
    have hlocals : ∀ type ∈ frame.listedLocals, type.IsMadeIn marks := fun type ht =>
      hlisted.made type (List.mem_append_left _ ht)
    have hchange := FrameChange.between_rename hs hp hlocals frame.listedStack
    have htypes : ∀ type ∈ (FrameChange.between previous frame.listedLocals
        frame.listedStack).types, type.IsMadeIn marks := fun type ht =>
      hlisted.made type (FrameChange.mem_of_mem_types_between ht)
    unfold frameEntries
    dsimp only
    simp only [hlisted.locals, hlisted.stack, hchange, h.changeBytes_eq htypes, h.offset_eq hmark,
      ih hlocals]

/-! #### Rows of tables -/

theorem handlerRow?_eq (h : layout.Relabels number marks again) {handler : Handler}
    (hm : ∀ mark ∈ handler.marks, mark ∈ marks) :
    again.handlerRow? (handler.renumber number) = layout.handlerRow? handler := by
  obtain ⟨hstart, hrest⟩ := List.forall_mem_cons.mp hm
  obtain ⟨hentry, hstop⟩ := List.forall_mem_cons.mp hrest
  unfold handlerRow? Handler.renumber
  dsimp only
  rw [h.offset_eq hstart, h.offset_eq hentry, h.offsetOf_eq hstop]

theorem lineRow?_eq (h : layout.Relabels number marks again) {entry : LineEntry}
    (hm : entry.start ∈ marks) : again.lineRow? (entry.renumber number) = layout.lineRow? entry :=
  congrArg (Option.map fun start => [UInt16.ofNat start, entry.line]) (h.offset?_eq hm)

theorem variableRow?_eq (h : layout.Relabels number marks again) {entry : VariableEntry}
    (hm : ∀ mark ∈ entry.start :: entry.stop.marks, mark ∈ marks) :
    again.variableRow? (entry.renumber number) = layout.variableRow? entry := by
  obtain ⟨hstart, hstop⟩ := List.forall_mem_cons.mp hm
  unfold variableRow? VariableEntry.renumber
  dsimp only
  rw [h.offset?_eq hstart, h.offsetOf_eq hstop]

/-- Attributes that were read back are written as they were, with the same table of frames. -/
theorem attributes_eq (h : layout.Relabels number marks again)
    (entriesOf : Bytes → List DeclaredFrame) {items : List BodyAttribute}
    (hm : ∀ item ∈ items, ∀ mark ∈ item.marks, mark ∈ marks) (table : Option RawAttribute) :
    again.attributes (reread number entriesOf items table) table = layout.attributes items table := by
  induction items generalizing table with
  | nil => cases table <;> rfl
  | cons item items ih =>
    obtain ⟨hitem, hitems⟩ := List.forall_mem_cons.mp hm
    cases item with
    | lines name entries =>
      have hrows : (entries.map (LineEntry.renumber number)).filterMap again.lineRow? =
          entries.filterMap layout.lineRow? := by
        rw [List.filterMap_map]
        exact List.filterMap_congr fun entry hentry =>
          h.lineRow?_eq (hitem _ (List.mem_map_of_mem hentry))
      rw [reread, attributes, attributes, hrows, ih hitems]
    | «locals» kind name entries =>
      have hrows : (entries.map (VariableEntry.renumber number)).filterMap again.variableRow? =
          entries.filterMap layout.variableRow? := by
        rw [List.filterMap_map]
        exact List.filterMap_congr fun entry hentry =>
          h.variableRow?_eq fun mark hmark =>
            hitem mark (List.mem_flatMap.mpr ⟨entry, hentry, hmark⟩)
      rw [reread, attributes, attributes, hrows, ih hitems]
    | frames name entries =>
      cases table with
      | none => exact ih hitems none
      | some raw =>
        rw [reread, attributes, attributes, ih hitems]
    | other raw => exact ih hitems table

end Layout.Relabels

/-! ### Bodies -/

theorem forall₂_filterMap {α β γ : Type} {R : β → γ → Prop} {f : α → Option β} {g : α → Option γ}
    {items : List α}
    (h : ∀ item ∈ items, ∃ left right, f item = some left ∧ g item = some right ∧ R left right) :
    List.Forall₂ R (items.filterMap f) (items.filterMap g) := by
  induction items with
  | nil => exact .nil
  | cons item items ih =>
    obtain ⟨left, right, hleft, hright, hr⟩ := h item List.mem_cons_self
    rw [List.filterMap_cons_some hleft, List.filterMap_cons_some hright]
    exact .cons hr (ih fun other ho => h other (List.mem_cons_of_mem _ ho))

namespace Body

variable {number : Mark → Mark} {place : Nat → Nat} {body again : Body} {landings : List Mark}

namespace Unfolds

/-- What is jumped to has the place of an instruction that is jumped to, or on which a bypass
lands. -/
theorem exists_wanted_of_targets (h : body.Unfolds number place landings again) {step' : Step}
    (hs : step' ∈ again.steps) {mark' : Mark} (hm : mark' ∈ step'.instruction.targets) {k : Nat}
    (hk : again.positions[mark']? = some k) : ∃ index ∈ body.wanted landings, place index = k := by
  have hwanted {mark : Mark} (hm : mark ∈ body.steps.map (·.mark))
      (hj : (∃ step ∈ body.steps, mark ∈ step.instruction.targets) ∨
        (∃ handler ∈ body.handlers, handler.entry = mark) ∨ mark ∈ landings)
      (hk : again.positions[number mark]? = some k) : ∃ index ∈ body.wanted landings,
        place index = k := by
    rw [h.positions hm] at hk
    obtain ⟨index, hindex, hplace⟩ := Option.map_eq_some_iff.mp hk
    exact ⟨index, mem_wanted.mpr (.inr ⟨mark, hj, hindex⟩), hplace⟩
  obtain ⟨j, hj⟩ := List.mem_iff_getElem?.mp hs
  obtain ⟨i, hi, hplace⟩ := h.steps.exists_place (List.getElem?_eq_some_iff.mp hj).1
  have hstep := List.getElem?_eq_getElem hi
  have hmem := List.mem_of_getElem? hstep
  cases h.steps.unfolded i _ hstep with
  | same hsame hnext =>
    obtain rfl : place i = j := hplace.resolve_right fun hwrong => by omega
    obtain rfl := Option.some.inj (hj.symm.trans hsame)
    rw [Step.renumber, Instruction.targets_mapTargets] at hm
    obtain ⟨mark, hmark, rfl⟩ := List.mem_map.mp hm
    exact hwanted (h.steps.targets _ hmem mark hmark) (.inl ⟨_, hmem, hmark⟩) hk
  | @bypass op inverse target extra next hjump hinverse hn hfirst hgoto hnext =>
    rcases hplace with rfl | ⟨rfl, -⟩
    · obtain rfl := Option.some.inj (hj.symm.trans hfirst)
      obtain rfl := List.mem_singleton.mp hm
      exact hwanted (List.mem_map_of_mem (List.mem_of_getElem? hn))
        (.inr (.inr ((h.steps.mem_landings hn).mpr hnext))) hk
    · obtain rfl := Option.some.inj (hj.symm.trans hgoto)
      obtain rfl := List.mem_singleton.mp hm
      have hmark : target ∈ body.steps[i].instruction.targets := by
        rw [hjump]
        exact List.mem_singleton.mpr rfl
      exact hwanted (h.steps.targets _ hmem target hmark) (.inl ⟨_, hmem, hmark⟩) hk

/-- What follows an instruction that never goes on follows one that never does, or is landed on by
a bypass. -/
theorem exists_wanted_of_stopped (h : body.Unfolds number place landings again) {j : Nat}
    {step' : Step} (hj : again.steps[j]? = some step')
    (hf : step'.instruction.fallsThrough = false) :
    ∃ index ∈ body.wanted landings, place index = j + 1 := by
  obtain ⟨i, hi, hplace⟩ := h.steps.exists_place (List.getElem?_eq_some_iff.mp hj).1
  have hstep := List.getElem?_eq_getElem hi
  cases h.steps.unfolded i _ hstep with
  | same hsame hnext =>
    obtain rfl : place i = j := hplace.resolve_right fun hwrong => by omega
    obtain rfl := Option.some.inj (hj.symm.trans hsame)
    rw [Step.renumber, Instruction.fallsThrough_mapTargets] at hf
    exact ⟨i + 1, mem_wanted.mpr (.inl ⟨i, _, hstep, hf, rfl⟩), hnext⟩
  | bypass hjump hinverse hn hfirst hgoto hnext =>
    rcases hplace with rfl | ⟨rfl, -⟩
    · obtain rfl := Option.some.inj (hj.symm.trans hfirst)
      rw [fallsThrough_of_inverse? (Opcode.inverse?_of_inverse? hinverse)] at hf
      cases hf
    · have hlanding := (h.steps.mem_landings hn).mpr hnext
      exact ⟨i + 1, mem_wanted.mpr (.inr ⟨_, .inr (.inr hlanding),
        getElem?_positions h.steps.distinct hn⟩), hnext⟩

/-- What needs a frame still needs one. -/
theorem mem_wanted_place (h : body.Unfolds number place landings again) {index : Nat}
    (hi : index ∈ body.wanted landings) : place index ∈ again.wanted [] := by
  have hposition {mark : Mark} (hp : body.positions[mark]? = some index) :
      again.positions[number mark]? = some (place index) := by
    obtain ⟨step, hstep, rfl⟩ := of_getElem?_positions hp
    rw [h.positions (List.mem_map_of_mem (List.mem_of_getElem? hstep)), hp]
    rfl
  rcases mem_wanted.mp hi with ⟨i, step, hstep, hf, rfl⟩ | ⟨mark, hjumped, hp⟩
  · cases h.steps.unfolded i step hstep with
    | same hsame hnext =>
      rw [hnext]
      exact mem_wanted.mpr (.inl ⟨place i, _, hsame,
        (Instruction.fallsThrough_mapTargets _ _).trans hf, rfl⟩)
    | bypass hjump hinverse =>
      rw [hjump, fallsThrough_of_inverse? hinverse] at hf
      cases hf
  · refine mem_wanted.mpr (.inr ⟨number mark, ?_, hposition hp⟩)
    rcases hjumped with ⟨step, hmem, hmark⟩ | ⟨handler, hhandler, rfl⟩ | hlanding
    · obtain ⟨i, hstep⟩ := List.mem_iff_getElem?.mp hmem
      cases h.steps.unfolded i step hstep with
      | same hsame =>
        refine .inl ⟨_, List.mem_of_getElem? hsame, ?_⟩
        rw [Step.renumber, Instruction.targets_mapTargets]
        exact List.mem_map_of_mem hmark
      | bypass hjump _ _ _ hgoto =>
        rw [hjump] at hmark
        obtain rfl := List.mem_singleton.mp hmark
        exact .inl ⟨_, List.mem_of_getElem? hgoto, List.mem_singleton.mpr rfl⟩
    · refine .inr (.inl ⟨handler.renumber number, ?_, rfl⟩)
      rw [h.handlers]
      exact List.mem_map_of_mem hhandler
    · -- the jump before it is on the opposite condition, to what follows
      obtain ⟨i, next, hnext, rfl, hplace⟩ := (h.steps.landed mark).mp hlanding
      have hstep := List.getElem?_eq_getElem (Nat.lt_of_succ_lt (List.getElem?_eq_some_iff.mp hnext).1)
      cases h.steps.unfolded i _ hstep with
      | same _ hsame => omega
      | bypass _ _ hn hfirst =>
        obtain rfl := Option.some.inj (hnext.symm.trans hn)
        exact .inl ⟨_, List.mem_of_getElem? hfirst, List.mem_singleton.mpr rfl⟩

/-- The same instructions need a frame. -/
theorem needsFrame_eq (h : body.Unfolds number place landings again) :
    again.needsFrame [] = (body.needsFrame landings).map place := by
  have hlt {index : Nat} (hi : index ∈ body.needsFrame landings) : index < body.steps.length :=
    (mem_needsFrame.mp hi).2
  have hsorted : ((body.needsFrame landings).map place).Pairwise (· < ·) := by
    refine List.pairwise_map.mpr ((pairwise_needsFrame body landings).imp_of_mem ?_)
    exact fun _ hj hij => h.steps.place_lt hij (Nat.le_of_lt (hlt hj))
  have hmem (k : Nat) : k ∈ again.needsFrame [] ↔ k ∈ (body.needsFrame landings).map place := by
    rw [List.mem_map, mem_needsFrame]
    constructor
    · rintro ⟨hk, hbound⟩
      obtain ⟨index, hindex, rfl⟩ : ∃ index ∈ body.wanted landings, place index = k := by
        rcases mem_wanted.mp hk with ⟨j, step', hj, hf, rfl⟩ | ⟨mark', hjumped, hp⟩
        · exact h.exists_wanted_of_stopped hj hf
        · rcases hjumped with ⟨step', hs, hm⟩ | ⟨handler', hh, rfl⟩ | hnone
          · exact h.exists_wanted_of_targets hs hm hp
          · rw [h.handlers] at hh
            obtain ⟨handler, hhandler, rfl⟩ := List.mem_map.mp hh
            rw [(h.rangeOf? hhandler).2] at hp
            obtain ⟨index, hindex, hplace⟩ := Option.map_eq_some_iff.mp hp
            exact ⟨index, mem_wanted.mpr (.inr ⟨_, .inr (.inl ⟨handler, hhandler, rfl⟩), hindex⟩),
              hplace⟩
          · cases hnone
      have hle : index ≤ body.steps.length := by
        rcases mem_wanted.mp hindex with ⟨i, step, hstep, -, rfl⟩ | ⟨mark, -, hp⟩
        · exact (List.getElem?_eq_some_iff.mp hstep).1
        · exact Nat.le_of_lt (lt_of_getElem?_positions hp)
      rw [← h.steps.last, h.steps.place_lt_iff hle (Nat.le_refl _)] at hbound
      exact ⟨index, mem_needsFrame.mpr ⟨hindex, hbound⟩, rfl⟩
    · rintro ⟨index, hindex, rfl⟩
      obtain ⟨hwanted, hbound⟩ := mem_needsFrame.mp hindex
      refine ⟨h.mem_wanted_place hwanted, ?_⟩
      rw [← h.steps.last]
      exact h.steps.place_lt hbound (Nat.le_refl _)
  exact List.Perm.eq_of_pairwise (fun a b _ _ hab hba => absurd hab (Nat.lt_asymm hba))
    (pairwise_needsFrame again []) hsorted
    ((List.perm_ext_iff_of_nodup (pairwise_needsFrame again []).nodup hsorted.nodup).mpr hmem)

variable {layout layout' : Layout} {frames frames' : Array (Option Frame)} {entry : Frame}

/-- The table of frames is written in the same way, if the frames list the same types. -/
theorem frameTable_eq (h : body.Unfolds number place layout.landings again)
    (hl : layout.Relabels number (body.steps.map (·.mark)) layout') (hnone : layout'.landings = [])
    (hf : ∀ index ∈ body.needsFrame layout.landings, ∃ frame frame',
      frames[index]? = some (some frame) ∧ frames'[place index]? = some (some frame') ∧
      frame.IsListedAs number (body.steps.map (·.mark)) frame')
    (he : ∀ type ∈ entry.listedLocals, ∀ mark, type ≠ .uninitialized mark) :
    again.frameTable frames' entry layout' = body.frameTable frames entry layout := by
  have hrow (index : Nat) (hindex : index ∈ body.needsFrame layout.landings) :
      ∃ row row', ((body.steps.toArray[index]?).map fun step =>
          (index, step.mark, (frames[index]?).join)) = some row ∧
        ((again.steps.toArray[place index]?).map fun step =>
          (place index, step.mark, (frames'[place index]?).join)) = some row' ∧
        Layout.IsRowUnder number (body.steps.map (·.mark)) row row' := by
    have hlt := (mem_needsFrame.mp hindex).2
    obtain ⟨frame, frame', hframe, hframe', hlisted⟩ := hf index hindex
    have hstep : body.steps[index]? = some body.steps[index] := List.getElem?_eq_getElem hlt
    obtain ⟨step', hstep', hmark⟩ := h.steps.exists_at hstep
    refine ⟨(index, body.steps[index].mark, some frame), (place index, step'.mark, some frame'),
      ?_, ?_, List.mem_map_of_mem (List.getElem_mem hlt), frame, frame', rfl, ?_, hlisted⟩
    · rw [hframe, (List.getElem?_toArray ..).trans hstep]
      rfl
    · rw [hframe', (List.getElem?_toArray ..).trans hstep']
      rfl
    · rw [hmark]
  have hrows : List.Forall₂ (Layout.IsRowUnder number (body.steps.map (·.mark)))
      ((body.needsFrame layout.landings).filterMap fun index =>
        (body.steps.toArray[index]?).map fun step => (index, step.mark, (frames[index]?).join))
      (((body.needsFrame layout.landings).map place).filterMap fun index =>
        (again.steps.toArray[index]?).map fun step =>
          (index, step.mark, (frames'[index]?).join)) := by
    rw [List.filterMap_map]
    exact forall₂_filterMap hrow
  have hmade : ∀ type ∈ entry.listedLocals, type.IsMadeIn (body.steps.map (·.mark)) :=
    fun type ht mark hmark => absurd hmark (he type ht mark)
  have hsame : entry.listedLocals.map (FrameType.rename number) = entry.listedLocals :=
    (List.map_congr_left fun type ht => FrameType.rename_of_ne (he type ht)).trans (List.map_id _)
  have hentries := hl.frameEntries_eq h.separates hrows hmade none
  rw [hsame] at hentries
  unfold frameTable
  simp only [hnone, h.needsFrame_eq, List.isEmpty_map, List.length_map, hentries]

end Unfolds

/-- A table that is written is written with the constants there are then. -/
theorem frameTable_of_frameAttribute {layout : Layout} {frames : Array (Option Frame)}
    {entry : Frame} {pool later : Pool} {table : Option RawAttribute}
    (h : body.frameAttribute frames entry layout pool = (.ok table, later)) :
    body.frameTable frames entry layout later = (.ok (table.map (·.info)), later) := by
  obtain ⟨info, between, hinfo, h⟩ := ExceptT.bind_eq_ok.mp h
  have hsettled := (body.addsNames_frameTable frames entry layout).settles pool between info hinfo
  cases info with
  | none =>
    obtain ⟨rfl, rfl⟩ := ExceptT.pure_eq_ok.mp h
    exact hsettled.2 between (.refl between)
  | some info =>
    cases hold : body.attributes.findSome? BodyAttribute.frames? with
    | some old =>
      simp only [hold] at h
      obtain ⟨rfl, rfl⟩ := ExceptT.pure_eq_ok.mp h
      exact hsettled.2 between (.refl between)
    | none =>
      simp only [hold] at h
      obtain ⟨name, last, hname, h⟩ := ExceptT.bind_eq_ok.mp h
      obtain ⟨rfl, rfl⟩ := ExceptT.pure_eq_ok.mp h
      exact hsettled.2 last (Interning.settles_utf8 _ between last name hname).1

/-- A table is written under the name that it was read with. -/
theorem frameAttribute_of_frameTable {layout : Layout} {frames : Array (Option Frame)}
    {entry : Frame} {pool : Pool} {table : Option RawAttribute}
    (ha : ∀ raw ∈ table, ∃ entries,
      body.attributes.findSome? BodyAttribute.frames? = some (raw.name, entries))
    (h : body.frameTable frames entry layout pool = (.ok (table.map (·.info)), pool)) :
    body.frameAttribute frames entry layout pool = (.ok table, pool) := by
  refine ExceptT.bind_eq_ok.mpr ⟨_, pool, h, ?_⟩
  cases table with
  | none => rfl
  | some raw =>
    obtain ⟨entries, hentries⟩ := ha raw rfl
    simp only [Option.map_some, hentries]
    rfl

end Body

end ClassGraft

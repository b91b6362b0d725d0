import ClassGraft.Frame.Table
import ClassGraft.Proofs.Frame.Slots
import ClassGraft.Proofs.Outcome

/-!
# Changes between frames

A frame is declared as a change of the one before (`FrameChange.between`).  The changes of a row of
frames expand to these frames again (`expandChanges_changesFrom`), whose wide values must have both
slots.  Marks may be exchanged on the way, as those of code that is read back are others.
-/

namespace ClassGraft

/-! ### Other marks -/

namespace FrameType

variable (number : Mark → Mark)

/-- The type with another mark in place of its own. -/
def rename : FrameType → FrameType
  | uninitialized mark => uninitialized (number mark)
  | type => type

@[simp] theorem isWide_rename (type : FrameType) : (type.rename number).isWide = type.isWide := by
  cases type <;> rfl

theorem expand_rename (types : List FrameType) :
    expand (types.map (rename number)) = (expand types).map (rename number) := by
  induction types with
  | nil => rfl
  | cons type types ih =>
    rw [List.map_cons, expand_cons, expand_cons, ih, isWide_rename]
    split_ifs
    · rfl
    · rfl

theorem mem_of_mem_collapse {type : FrameType} {slots : List FrameType}
    (h : type ∈ collapse slots) : type ∈ slots := by
  induction slots using collapse.induct with
  | case1 => exact h
  | case2 => exact h
  | case3 first second rest hw ih =>
    rw [collapse, if_pos hw] at h
    rcases List.mem_cons.mp h with rfl | h
    · exact List.mem_cons_self
    · exact List.mem_cons_of_mem _ (List.mem_cons_of_mem _ (ih h))
  | case4 first second rest hw ih =>
    rw [collapse, if_neg hw] at h
    rcases List.mem_cons.mp h with rfl | h
    · exact List.mem_cons_self
    · exact List.mem_cons_of_mem _ (ih h)

end FrameType

/-- The change with other marks in its types. -/
def FrameChange.rename (number : Mark → Mark) : FrameChange → FrameChange
  | same => same
  | sameOne type => sameOne (type.rename number)
  | chop count => chop count
  | append types => append (types.map (FrameType.rename number))
  | full locals stack =>
    full (locals.map (FrameType.rename number)) (stack.map (FrameType.rename number))

/-- A frame as a table declares it, without unusable locals at the end, with other marks. -/
def Frame.declared (number : Mark → Mark) (frame : Frame) : Frame :=
  ⟨(FrameType.trim frame.locals).map (FrameType.rename number),
    frame.stack.map (FrameType.rename number)⟩

/-- Whether the wide values of a frame have both slots. -/
structure Frame.IsPaired (frame : Frame) : Prop where
  locals : FrameType.Paired frame.locals
  stack : FrameType.Paired frame.fromBottom

/-! ### One change -/

/-- The types in a change. -/
def FrameChange.types : FrameChange → List FrameType
  | same | chop _ => []
  | sameOne type => [type]
  | append types => types
  | full locals stack => locals ++ stack

/-- Whether the number of locals that are removed or added is one that tables have a form for. -/
def FrameChange.IsShort : FrameChange → Prop
  | chop count => 0 < count.toNat ∧ count.toNat ≤ 3
  | append types => 0 < types.length ∧ types.length ≤ 3
  | _ => True

theorem toNat_ofNat_of_le_three {n : Nat} (h : n ≤ 3) : (UInt8.ofNat n).toNat = n :=
  UInt8.toNat_ofNat_of_lt' (show n < 256 by omega)

theorem FrameChange.isShort_between (previous locals stack : List FrameType) :
    (between previous locals stack).IsShort := by
  unfold between
  dsimp only
  split
  · split_ifs with _ hchop happend
    · trivial
    · rw [IsShort, toNat_ofNat_of_le_three hchop.2.1]
      exact ⟨hchop.1, hchop.2.1⟩
    · rw [IsShort, List.length_drop]
      exact ⟨happend.1, happend.2.1⟩
    · trivial
  · split_ifs
    · trivial
    · trivial
  · trivial

namespace DeclaredFrame

/-- The change between two frames leads from the one to the other. -/
theorem next_between (mark : Mark) (previous locals stack : List FrameType) :
    next ⟨mark, .between previous locals stack⟩ previous = .ok (locals, stack) := by
  unfold next FrameChange.between
  dsimp only
  cases stack with
  | nil =>
    dsimp only
    -- without a stack, a change is of the first form that fits; the last one always does
    split_ifs with hsame hchop happend
    · rw [hsame]
    · obtain ⟨hpos, hle, htake⟩ := hchop
      have hn := toNat_ofNat_of_le_three hle
      dsimp only
      rw [hn, if_neg (by omega),
        show previous.length - (previous.length - locals.length) = locals.length by omega, htake]
    · obtain ⟨-, -, htake⟩ := happend
      have hall := List.take_append_drop previous.length locals
      rw [htake] at hall
      dsimp only
      rw [hall]
    · rfl
  | cons type rest =>
    -- with one value on the stack, the locals must be the same for the short form
    cases rest with
    | nil =>
      dsimp only
      split_ifs with hsame
      · rw [hsame]
      · rfl
    | cons second rest => rfl

/-- Other marks do not matter to what a change does. -/
theorem next_rename {mark : Mark} (other : Mark) (number : Mark → Mark) {change : FrameChange}
    {previous locals stack : List FrameType}
    (h : next ⟨mark, change⟩ previous = .ok (locals, stack)) :
    next ⟨other, change.rename number⟩ (previous.map (FrameType.rename number)) =
      .ok (locals.map (FrameType.rename number), stack.map (FrameType.rename number)) := by
  cases change with
  | same =>
    obtain ⟨rfl, rfl⟩ := Prod.mk.inj (Except.ok.inj h)
    rfl
  | sameOne type =>
    obtain ⟨rfl, rfl⟩ := Prod.mk.inj (Except.ok.inj h)
    rfl
  | chop count =>
    unfold next FrameChange.rename at *
    dsimp only at *
    rw [List.length_map]
    split_ifs at h ⊢
    obtain ⟨rfl, rfl⟩ := Prod.mk.inj (Except.ok.inj h)
    rw [List.map_take]
    rfl
  | append types =>
    obtain ⟨rfl, rfl⟩ := Prod.mk.inj (Except.ok.inj h)
    rw [List.map_append]
    rfl
  | full _ _ =>
    obtain ⟨rfl, rfl⟩ := Prod.mk.inj (Except.ok.inj h)
    rfl

/-- Types come from the frame before or from the change. -/
theorem mem_of_next {mark : Mark} {change : FrameChange} {previous locals stack : List FrameType}
    (h : next ⟨mark, change⟩ previous = .ok (locals, stack)) {type : FrameType}
    (ht : type ∈ locals ++ stack) : type ∈ previous ∨ type ∈ change.types := by
  cases change with
  | same =>
    obtain ⟨rfl, rfl⟩ := Prod.mk.inj (Except.ok.inj h)
    rw [List.append_nil] at ht
    exact .inl ht
  | sameOne _ =>
    obtain ⟨rfl, rfl⟩ := Prod.mk.inj (Except.ok.inj h)
    exact List.mem_append.mp ht
  | chop count =>
    unfold next at h
    dsimp only at h
    split_ifs at h
    obtain ⟨rfl, rfl⟩ := Prod.mk.inj (Except.ok.inj h)
    rw [List.append_nil] at ht
    exact .inl (List.mem_of_mem_take ht)
  | append types =>
    obtain ⟨rfl, rfl⟩ := Prod.mk.inj (Except.ok.inj h)
    rw [List.append_nil] at ht
    exact List.mem_append.mp ht
  | full _ _ =>
    obtain ⟨rfl, rfl⟩ := Prod.mk.inj (Except.ok.inj h)
    exact .inr ht

end DeclaredFrame

/-! ### A row of frames -/

/-- The changes that declare frames at the marks of their instructions, beginning with the given
locals. -/
def changesFrom (number : Mark → Mark) :
    (frames : List (Mark × Frame)) → (previous : List FrameType) → List DeclaredFrame
  | [], _ => []
  | (mark, frame) :: rest, previous =>
    ⟨number mark, (FrameChange.between previous frame.listedLocals frame.listedStack).rename number⟩
      :: changesFrom number rest frame.listedLocals

/-- The values of a frame expand to its slots again. -/
theorem Frame.expand_listed {frame : Frame} (h : frame.IsPaired) (number : Mark → Mark) :
    (⟨FrameType.expand (frame.listedLocals.map (FrameType.rename number)),
      (FrameType.expand (frame.listedStack.map (FrameType.rename number))).reverse⟩ : Frame) =
      frame.declared number := by
  rw [FrameType.expand_rename, FrameType.expand_rename, listedLocals, listedStack,
    FrameType.expand_collapse (FrameType.paired_trim h.locals), FrameType.expand_collapse h.stack,
    ← List.map_reverse, fromBottom, List.reverse_reverse]
  rfl

/-- The changes of a row of frames expand to the frames. -/
theorem expandChanges_changesFrom (number : Mark → Mark) {frames : List (Mark × Frame)}
    (h : ∀ row ∈ frames, row.2.IsPaired) (previous : List FrameType) :
    expandChanges (changesFrom number frames previous)
        (previous.map (FrameType.rename number)) =
      .ok (frames.map fun row => (number row.1, row.2.declared number)) := by
  induction frames generalizing previous with
  | nil => rfl
  | cons row rest ih =>
    obtain ⟨mark, frame⟩ := row
    obtain ⟨hframe, hrest⟩ := List.forall_mem_cons.mp h
    rw [changesFrom, expandChanges]
    refine Except.bind_eq_ok.mpr ⟨_, DeclaredFrame.next_rename (number mark) number
      (DeclaredFrame.next_between mark previous frame.listedLocals frame.listedStack), ?_⟩
    refine Except.bind_eq_ok.mpr ⟨_, ih hrest frame.listedLocals, ?_⟩
    rw [Frame.expand_listed hframe]
    rfl

end ClassGraft

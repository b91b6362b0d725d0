import ClassGraft.Code.Read
import ClassGraft.Proofs.Bytes.Reading
import ClassGraft.Proofs.Code.Forms
import ClassGraft.Proofs.Frame.Changes
import ClassGraft.Proofs.Pool.Growth

/-!
# Tables of frames that are read back

What `Body.frameTable` writes is read back as the changes that were meant (`Layout.takes_frames`),
with the numbers of the instructions that are found at the positions of a layout in place of marks.
Classes are read with the pool that was left, or with one that it grew to.
-/

namespace ClassGraft

open Reader

namespace Layout

/-- Whether an instruction is found at every position, and which one. -/
def IsNumbered (layout : Layout) (starts : Starts) (number : Mark → Mark) : Prop :=
  ∀ (mark : Mark) (position : Nat), layout.placed[mark]? = some position →
    position < 65536 ∧ starts.mark? position = some (number mark)

/-- Whether the instruction that a type names has a position. -/
def IsPlaced (layout : Layout) (type : FrameType) : Prop :=
  ∀ mark, type = .uninitialized mark → ∃ position, layout.placed[mark]? = some position

variable {layout : Layout} {starts : Starts} {number : Mark → Mark} {pool later : Pool}

theorem offset_eq_ok {mark : Mark} {position : Nat} :
    layout.offset mark = .ok position ↔ layout.placed[mark]? = some position := by
  unfold offset Draft.find
  cases layout.placed[mark]? with
  | none => simp
  | some found => simp

theorem takes_mark {position : Nat} {mark : Mark} (h : starts.mark? position = some mark)
    (offset : Nat) : (starts.mark position).Takes offset [] mark := by
  unfold Starts.mark
  rw [h]
  exact takes_pure mark offset

/-! ### Types -/

/-- A type is read back from what was written for it. -/
def IsReadBack (starts : Starts) (later : Pool) (bytes : Bytes) (type : FrameType) : Prop :=
  ∀ last, later.Grows last → ∀ offset, (Body.readType starts last).Takes offset bytes type

theorem typeBytes_spec (hn : layout.IsNumbered starts number) {type : FrameType} {bytes : Bytes}
    (h : layout.typeBytes type pool = (.ok bytes, later)) :
    pool.Grows later ∧ layout.IsPlaced type ∧
      IsReadBack starts later bytes (type.rename number) := by
  -- a type without operands is one byte
  have hplain : ∀ {tag : UInt8}, (∀ mark, type ≠ .uninitialized mark) →
      (pure [tag] : Interning Bytes) pool = (.ok bytes, later) →
      (∀ last offset, (Body.readType starts last).Takes offset [tag] type) →
      pool.Grows later ∧ layout.IsPlaced type ∧ IsReadBack starts later bytes type := by
    intro tag hne h ht
    obtain ⟨rfl, rfl⟩ := ExceptT.pure_eq_ok.mp h
    exact ⟨.refl pool, fun mark he => absurd he (hne mark), fun last _ => ht last⟩
  cases type with
  | object name =>
    obtain ⟨index, between, hindex, h⟩ := ExceptT.bind_eq_ok.mp h
    obtain ⟨rfl, rfl⟩ := ExceptT.pure_eq_ok.mp h
    obtain ⟨⟨hg, -⟩, hname⟩ := Interning.classBytes_spec hindex
    refine ⟨hg, fun mark he => absurd he (by simp), fun last hlast offset => ?_⟩
    refine (takes_uint8 7 offset).bind ((takes_uint16 index _).bind_nil ?_)
    rw [hlast.className hname]
    exact takes_pure _ _
  | uninitialized mark =>
    obtain ⟨position, between, hoffset, h⟩ := ExceptT.bind_eq_ok.mp h
    obtain ⟨rfl, rfl⟩ := ExceptT.pure_eq_ok.mp h
    obtain ⟨hposition, rfl⟩ := ExceptT.lift_eq_ok.mp hoffset
    have hp := offset_eq_ok.mp hposition
    obtain ⟨hlt, hmark⟩ := hn mark position hp
    refine ⟨.refl pool, fun other he => ?_, fun last _ offset => ?_⟩
    · obtain rfl := FrameType.uninitialized.inj he
      exact ⟨position, hp⟩
    · refine (takes_uint8 8 offset).bind ((takes_uint16 (UInt16.ofNat position) _).bind_nil ?_)
      rw [UInt16.toNat_ofNat_of_lt' hlt]
      exact (takes_mark hmark _).bind_nil (takes_pure _ _)
  | _ =>
    refine hplain (fun mark he => absurd he (by simp)) h fun last offset => ?_
    exact (takes_uint8 _ offset).bind_nil (takes_pure _ _)

theorem mapM_typeBytes_spec (hn : layout.IsNumbered starts number) {types : List FrameType}
    {parts : List Bytes} (h : types.mapM layout.typeBytes pool = (.ok parts, later)) :
    pool.Grows later ∧ (∀ type ∈ types, layout.IsPlaced type) ∧
      List.Forall₂ (IsReadBack starts later) parts (types.map (FrameType.rename number)) := by
  induction types generalizing pool parts with
  | nil =>
    rw [List.mapM_nil] at h
    obtain ⟨rfl, rfl⟩ := ExceptT.pure_eq_ok.mp h
    exact ⟨.refl pool, by simp, .nil⟩
  | cons type types ih =>
    rw [List.mapM_cons] at h
    obtain ⟨bytes, between, hbytes, h⟩ := ExceptT.bind_eq_ok.mp h
    obtain ⟨others, last, hothers, h⟩ := ExceptT.bind_eq_ok.mp h
    obtain ⟨rfl, rfl⟩ := ExceptT.pure_eq_ok.mp h
    obtain ⟨hg, hp, hr⟩ := typeBytes_spec hn hbytes
    obtain ⟨hg', hps, hrs⟩ := ih hothers
    exact ⟨hg.trans hg', List.forall_mem_cons.mpr ⟨hp, hps⟩,
      .cons (fun last hlast => hr last (hg'.trans hlast)) hrs⟩

/-- Types are read back one by one. -/
theorem typesBytes_spec (hn : layout.IsNumbered starts number) {types : List FrameType}
    {bytes : Bytes} (h : layout.typesBytes types pool = (.ok bytes, later)) :
    pool.Grows later ∧ (∀ type ∈ types, layout.IsPlaced type) ∧ ∃ parts : List Bytes,
      bytes = parts.flatten ∧
      List.Forall₂ (IsReadBack starts later) parts (types.map (FrameType.rename number)) := by
  obtain ⟨parts, last, hparts, h⟩ := ExceptT.bind_eq_ok.mp h
  obtain ⟨rfl, rfl⟩ := ExceptT.pure_eq_ok.mp h
  obtain ⟨hg, hp, hr⟩ := mapM_typeBytes_spec hn hparts
  exact ⟨hg, hp, parts, rfl, hr⟩

theorem takes_of_isReadBack {parts : List Bytes} {types : List FrameType}
    (h : List.Forall₂ (IsReadBack starts later) parts types) {last : Pool}
    (hlast : later.Grows last) : List.Forall₂ (fun bytes type =>
      ∀ offset, (Body.readType starts last).Takes offset bytes type) parts types :=
  h.imp fun _ _ hr => hr last hlast

theorem countedTypes_spec (hn : layout.IsNumbered starts number) {types : List FrameType}
    {bytes : Bytes} (h : layout.countedTypes types pool = (.ok bytes, later)) :
    pool.Grows later ∧ (∀ type ∈ types, layout.IsPlaced type) ∧
      ∀ last, later.Grows last → ∀ offset, (Reader.list (Body.readType starts last)).Takes offset
        bytes (types.map (FrameType.rename number)) := by
  obtain ⟨hcount, h⟩ := ExceptT.guard_eq_ok.mp h
  obtain ⟨content, between, hcontent, h⟩ := ExceptT.bind_eq_ok.mp h
  obtain ⟨rfl, rfl⟩ := ExceptT.pure_eq_ok.mp h
  obtain ⟨hg, hp, parts, rfl, hr⟩ := typesBytes_spec hn hcontent
  refine ⟨hg, hp, fun last hlast offset => ?_⟩
  have htakes := takes_list (by rw [List.length_map]; omega) (takes_of_isReadBack hr hlast) offset
  rwa [List.length_map] at htakes

/-! ### Changes -/

/-- What stands in a change after a distance of two bytes. -/
def readFar (starts : Starts) (pool : Pool) (tag : UInt8) (distance : Nat) :
    Reader (Nat × FrameChange) := do
  let n := tag.toNat
  let type := Body.readType starts pool
  if n = 247 then return (distance, .sameOne (← type))
  else if n < 251 then return (distance, .chop (251 - tag))
  else if n = 251 then return (distance, .same)
  else if n < 255 then return (distance, .append (← Reader.repeated (n - 251) type))
  else
    let locals ← Reader.list type
    return (distance, .full locals (← Reader.list type))

theorem takes_far {last : Pool} {distance : Nat} (hd : distance < 65536) {tag : UInt8}
    (ht : 247 ≤ tag.toNat) {bytes : Bytes} {change : FrameChange} {offset : Nat}
    (h : (readFar starts last tag distance).Takes (offset + 1 + 2) bytes (distance, change)) :
    (Body.readChange starts last).Takes offset
      (tag :: (Bytes.ofUInt16 (UInt16.ofNat distance) ++ bytes)) (distance, change) := by
  refine (takes_uint8 tag offset).bind ?_
  dsimp only
  rw [if_neg (by omega), if_neg (by omega), if_neg (by omega)]
  refine (takes_uint16 (UInt16.ofNat distance) _).bind ?_
  rw [UInt16.toNat_ofNat_of_lt' hd]
  exact h

theorem takes_same {last : Pool} {distance : Nat} (hd : distance < 65536) (offset : Nat) :
    (Body.readChange starts last).Takes offset
      (if distance < 64 then [UInt8.ofNat distance]
        else 251 :: Bytes.ofUInt16 (UInt16.ofNat distance)) (distance, .same) := by
  split_ifs with hnear
  · have htag : (UInt8.ofNat distance).toNat = distance :=
      UInt8.toNat_ofNat_of_lt' (show distance < 256 by omega)
    refine (takes_uint8 (UInt8.ofNat distance) offset).bind_nil ?_
    dsimp only
    rw [htag, if_pos hnear]
    exact takes_pure _ _
  · have hread : (readFar starts last 251 distance).Takes (offset + 1 + 2) []
        (distance, .same) := takes_pure _ _
    have htakes := takes_far hd (by decide) hread
    rwa [List.append_nil] at htakes

theorem takes_sameOne {last : Pool} {distance : Nat} (hd : distance < 65536) {type : FrameType}
    {bytes : Bytes} (h : ∀ offset, (Body.readType starts last).Takes offset bytes type)
    (offset : Nat) :
    (Body.readChange starts last).Takes offset
      (if distance < 64 then UInt8.ofNat (64 + distance) :: bytes
        else 247 :: (Bytes.ofUInt16 (UInt16.ofNat distance) ++ bytes)) (distance, .sameOne type) := by
  split_ifs with hnear
  · have htag : (UInt8.ofNat (64 + distance)).toNat = 64 + distance :=
      UInt8.toNat_ofNat_of_lt' (show 64 + distance < 256 by omega)
    refine (takes_uint8 (UInt8.ofNat (64 + distance)) offset).bind ?_
    dsimp only
    rw [htag, if_neg (by omega), if_pos (by omega), Nat.add_sub_cancel_left]
    exact (h _).bind_nil (takes_pure _ _)
  · exact takes_far hd (by decide) ((h _).bind_nil (takes_pure _ _))

theorem takes_chop {last : Pool} {distance : Nat} (hd : distance < 65536) {count : UInt8}
    (hpos : 0 < count.toNat) (hle : count.toNat ≤ 3) (offset : Nat) :
    (Body.readChange starts last).Takes offset
      ((251 - count) :: Bytes.ofUInt16 (UInt16.ofNat distance)) (distance, .chop count) := by
  have htag : (251 - count).toNat = 251 - count.toNat :=
    UInt8.toNat_sub_of_le 251 count (show count.toNat ≤ 251 by omega)
  have hback : 251 - (251 - count) = count := by
    refine UInt8.toNat_inj.mp ?_
    rw [UInt8.toNat_sub_of_le 251 (251 - count) (show (251 - count).toNat ≤ 251 by omega), htag]
    show 251 - (251 - count.toNat) = count.toNat
    omega
  have hread : (readFar starts last (251 - count) distance).Takes (offset + 1 + 2) []
      (distance, .chop count) := by
    unfold readFar
    dsimp only
    rw [htag, if_neg (by omega), if_pos (by omega), hback]
    exact takes_pure _ _
  have htakes := takes_far hd (by omega) hread
  rwa [List.append_nil] at htakes

theorem takes_append {last : Pool} {distance : Nat} (hd : distance < 65536)
    {types : List FrameType} (hpos : 0 < types.length) (hle : types.length ≤ 3) {bytes : Bytes}
    {offset : Nat} (h : (Reader.repeated types.length (Body.readType starts last)).Takes
      (offset + 1 + 2) bytes types) :
    (Body.readChange starts last).Takes offset (UInt8.ofNat (251 + types.length) ::
      (Bytes.ofUInt16 (UInt16.ofNat distance) ++ bytes)) (distance, .append types) := by
  have htag : (UInt8.ofNat (251 + types.length)).toNat = 251 + types.length :=
    UInt8.toNat_ofNat_of_lt' (show 251 + types.length < 256 by omega)
  refine takes_far hd (by omega) ?_
  unfold readFar
  dsimp only
  rw [htag, if_neg (by omega), if_neg (by omega), if_neg (by omega), if_pos (by omega),
    Nat.add_sub_cancel_left]
  exact h.bind_nil (takes_pure _ _)

/-- A change is read back with its distance. -/
theorem changeBytes_spec (hn : layout.IsNumbered starts number) {change : FrameChange}
    (hs : change.IsShort) {distance : Nat} (hd : distance < 65536) {bytes : Bytes}
    (h : layout.changeBytes distance change pool = (.ok bytes, later)) :
    pool.Grows later ∧ (∀ type ∈ change.types, layout.IsPlaced type) ∧
      ∀ last, later.Grows last → ∀ offset, (Body.readChange starts last).Takes offset bytes
        (distance, change.rename number) := by
  -- one case for each form, as it is written; only types can add to the pool
  cases change with
  | same =>
    obtain ⟨rfl, rfl⟩ := ExceptT.pure_eq_ok.mp h
    exact ⟨.refl pool, by simp [FrameChange.types], fun last _ => takes_same hd⟩
  | sameOne type =>
    obtain ⟨content, between, hcontent, h⟩ := ExceptT.bind_eq_ok.mp h
    obtain ⟨rfl, rfl⟩ := ExceptT.pure_eq_ok.mp h
    obtain ⟨hg, hp, hr⟩ := typeBytes_spec hn hcontent
    exact ⟨hg, by simpa [FrameChange.types] using hp,
      fun last hlast => takes_sameOne hd (hr last hlast)⟩
  | chop count =>
    obtain ⟨rfl, rfl⟩ := ExceptT.pure_eq_ok.mp h
    obtain ⟨hpos, hle⟩ := hs
    exact ⟨.refl pool, by simp [FrameChange.types], fun last _ => takes_chop hd hpos hle⟩
  | append types =>
    obtain ⟨content, between, hcontent, h⟩ := ExceptT.bind_eq_ok.mp h
    obtain ⟨rfl, rfl⟩ := ExceptT.pure_eq_ok.mp h
    obtain ⟨hpos, hle⟩ := hs
    obtain ⟨hg, hp, parts, rfl, hr⟩ := typesBytes_spec hn hcontent
    refine ⟨hg, hp, fun last hlast offset => ?_⟩
    have htakes := takes_repeated (takes_of_isReadBack hr hlast) (offset + 1 + 2)
    have hlength : (types.map (FrameType.rename number)).length = types.length :=
      List.length_map _
    rw [← hlength] at hpos hle ⊢
    exact takes_append hd hpos hle htakes
  | full locals stack =>
    obtain ⟨front, between, hfront, h⟩ := ExceptT.bind_eq_ok.mp h
    obtain ⟨back, last, hback, h⟩ := ExceptT.bind_eq_ok.mp h
    obtain ⟨rfl, rfl⟩ := ExceptT.pure_eq_ok.mp h
    obtain ⟨hg, hp, hr⟩ := countedTypes_spec hn hfront
    obtain ⟨hg', hp', hr'⟩ := countedTypes_spec hn hback
    refine ⟨hg.trans hg', fun type ht => ?_, fun last hlast offset => ?_⟩
    · exact (List.mem_append.mp ht).elim (hp type) (hp' type)
    · have hread : (readFar starts last 255 distance).Takes (offset + 1 + 2) (front ++ back)
          (distance, (FrameChange.full locals stack).rename number) :=
        (hr last (hg'.trans hlast) _).bind ((hr' last hlast _).bind_nil (takes_pure _ _))
      simpa using takes_far hd (by decide) hread

/-! ### Rows of frames -/

/-- The distance of a position from that of the frame before. -/
def distanceFrom (before : Option Nat) (position : Nat) : Nat :=
  match before with
  | none => position
  | some before => position - before - 1

/-- The position at a distance from the frame before. -/
def positionAt (before : Option Nat) (distance : Nat) : Nat :=
  match before with
  | none => distance
  | some before => before + distance + 1

theorem distanceFrom_le (before : Option Nat) (position : Nat) :
    distanceFrom before position ≤ position := by
  cases before with
  | none => exact Nat.le_refl _
  | some before =>
    unfold distanceFrom
    dsimp only
    omega

theorem positionAt_distanceFrom {before : Option Nat} {position : Nat}
    (h : ∀ other ∈ before, other < position) :
    positionAt before (distanceFrom before position) = position := by
  cases before with
  | none => rfl
  | some before =>
    have hlt := h before rfl
    unfold positionAt distanceFrom
    dsimp only
    omega

/-- One frame is read back as its change, and what comes after it is read from its position. -/
theorem frameEntry_spec (hn : layout.IsNumbered starts number) {previous : List FrameType}
    {before : Option Nat} {mark : Mark} {position : Nat} {frame : Frame}
    (hat : layout.placed[mark]? = some position) (hb : ∀ other ∈ before, other < position)
    (hprevious : ∀ type ∈ previous, layout.IsPlaced type) {entry : Bytes}
    (h : layout.changeBytes (distanceFrom before position)
      (FrameChange.between previous frame.listedLocals frame.listedStack) pool =
        (.ok entry, later)) :
    pool.Grows later ∧
      (∀ type ∈ frame.listedLocals ++ frame.listedStack, layout.IsPlaced type) ∧
      ∀ last, later.Grows last → ∀ count bytes frames,
        (∀ found offset, (Body.readFramesFrom starts last count (some position) found).Takes offset
          bytes (found.reverse ++ frames)) →
        ∀ found offset, (Body.readFramesFrom starts last (count + 1) before found).Takes offset
          (entry ++ bytes) (found.reverse ++ ⟨number mark, (FrameChange.between previous
            frame.listedLocals frame.listedStack).rename number⟩ :: frames) := by
  obtain ⟨hlt, hmark⟩ := hn mark position hat
  have hd := Nat.lt_of_le_of_lt (distanceFrom_le before position) hlt
  obtain ⟨hg, hplaced, hr⟩ := changeBytes_spec hn (FrameChange.isShort_between _ _ _) hd h
  refine ⟨hg, fun type ht => ?_, fun last hlast count bytes frames hrest found offset => ?_⟩
  · -- a type of the frame stands in the change, or in the frame before
    exact (DeclaredFrame.mem_of_next (DeclaredFrame.next_between mark previous _ _) ht).elim
      (hprevious type) (hplaced type)
  · refine (hr last hlast offset).bind ?_
    have hfound : starts.mark? (positionAt before (distanceFrom before position)) =
        some (number mark) := by
      rw [positionAt_distanceFrom hb, hmark]
    refine (takes_mark hfound _).bind ?_
    have htakes := hrest (⟨number mark, (FrameChange.between previous
      frame.listedLocals frame.listedStack).rename number⟩ :: found) (offset + entry.length)
    rw [List.reverse_cons, List.append_assoc] at htakes
    show (Body.readFramesFrom starts last count
      (some (positionAt before (distanceFrom before position))) _).Takes _ _ _
    rw [positionAt_distanceFrom hb]
    exact htakes

/-- Frames in order of their positions are read back as the changes between them. -/
theorem frameEntries_spec (hn : layout.IsNumbered starts number)
    {rows : List (Nat × Mark × Option Frame)} {previous : List FrameType} {before : Option Nat}
    (hp : (rows.map fun row => placeOf layout.placed row.2.1).Pairwise (· < ·))
    (hb : ∀ row ∈ rows, ∀ position ∈ before, position < placeOf layout.placed row.2.1)
    (hprevious : ∀ type ∈ previous, layout.IsPlaced type) {parts : List Bytes}
    (h : layout.frameEntries rows previous before pool = (.ok parts, later)) :
    pool.Grows later ∧ ∃ frames : List (Mark × Frame),
      rows.map (·.2) = frames.map (fun row => (row.1, some row.2)) ∧
      (∀ row ∈ frames, ∀ type ∈ row.2.listedLocals ++ row.2.listedStack, layout.IsPlaced type) ∧
      ∀ last, later.Grows last → ∀ found offset,
        (Body.readFramesFrom starts last rows.length before found).Takes offset parts.flatten
          (found.reverse ++ changesFrom number frames previous) := by
  -- by induction on the rows: each is read from the position of the one before
  induction rows generalizing previous before pool parts with
  | nil =>
    obtain ⟨rfl, rfl⟩ := ExceptT.pure_eq_ok.mp h
    refine ⟨.refl pool, [], rfl, by simp, fun last _ found offset => ?_⟩
    rw [changesFrom, List.append_nil]
    exact takes_pure _ _
  | cons row rest ih =>
    obtain ⟨index, mark, held⟩ := row
    unfold frameEntries at h
    cases held with
    | none => exact absurd h ExceptT.throw_ne_ok
    | some frame =>
      obtain ⟨position, between, hoffset, h⟩ := ExceptT.bind_eq_ok.mp h
      obtain ⟨hposition, rfl⟩ := ExceptT.lift_eq_ok.mp hoffset
      obtain ⟨entry, between, hentry, h⟩ := ExceptT.bind_eq_ok.mp h
      obtain ⟨others, last, hothers, h⟩ := ExceptT.bind_eq_ok.mp h
      obtain ⟨rfl, rfl⟩ := ExceptT.pure_eq_ok.mp h
      have hat := offset_eq_ok.mp hposition
      rw [List.map_cons, List.pairwise_cons, placeOf_of_eq_some hat] at hp
      rw [List.forall_mem_cons, placeOf_of_eq_some hat] at hb
      obtain ⟨hg, htypes, hr⟩ := frameEntry_spec hn hat hb.1 hprevious hentry
      obtain ⟨hg', frames, hframes, hall, hrs⟩ := ih hp.2
        (fun row hrow other ho => by
          obtain rfl := Option.some.inj ho
          exact hp.1 _ (List.mem_map_of_mem hrow))
        (fun type ht => htypes type (List.mem_append_left _ ht)) hothers
      refine ⟨hg.trans hg', (mark, frame) :: frames, ?_, ?_, fun last hlast => ?_⟩
      · rw [List.map_cons, hframes]
        rfl
      · exact List.forall_mem_cons.mpr ⟨htypes, hall⟩
      · exact hr last (hg'.trans hlast) rest.length others.flatten _ (hrs last hlast)

end Layout

end ClassGraft

import ClassGraft.Proofs.Code.Decoding

/-!
# Forms of instructions

The bytes that the pieces of a form come to once all positions are known (`Piece.Resolves`).  They
are read back as the instruction (`Instruction.takes_form`), unless the form is a jump with a
bypass (`Instruction.exists_of_bypasses`), whose bytes are those of two jumps
(`Site.resolves_branch`).
-/

namespace ClassGraft

open Reader

/-- The position of a mark; what has none stands at the start. -/
def placeOf (placed : Std.HashMap Mark Nat) (mark : Mark) : Nat := (placed[mark]?).getD 0

/-- What a piece comes to once all positions are known. -/
inductive Piece.Resolves {narrow : Std.HashSet Nat} (placed : Std.HashMap Mark Nat) :
    Piece narrow → Bytes → Prop
  | bytes (content : Bytes) : Resolves placed (.bytes content) content
  | half {origin position : Nat} {target : Mark} {jump : { index // index ∈ narrow }}
      (h : placed[target]? = some position)
      (hd : isShortDistance (distance origin position) = true) :
      Resolves placed (.half origin target jump) (shortDistance (distance origin position))
  | word {origin position : Nat} {target : Mark} (h : placed[target]? = some position) :
      Resolves placed (.word origin target) (longDistance (distance origin position))

/-- What pieces come to that stand one after the other. -/
inductive Piece.ResolveTo {narrow : Std.HashSet Nat} (placed : Std.HashMap Mark Nat) :
    List (Piece narrow) → Bytes → Prop
  | nil : ResolveTo placed [] []
  | cons {piece : Piece narrow} {pieces : List (Piece narrow)} {bytes more : Bytes}
      (h : piece.Resolves placed bytes) (hr : ResolveTo placed pieces more) :
      ResolveTo placed (piece :: pieces) (bytes ++ more)

/-- Positions that go on from those of a site, and fit into two bytes. -/
structure Site.IsWithin (site : Site) (placed : Std.HashMap Mark Nat) : Prop where
  known : ∀ (mark : Mark) (position : Nat), site.placed[mark]? = some position →
    placed[mark]? = some position
  position : site.position ≤ 65535
  bounded : ∀ (mark : Mark) (position : Nat), placed[mark]? = some position → position ≤ 65535

variable {narrow : Std.HashSet Nat} {placed : Std.HashMap Mark Nat} {base : Nat}

theorem placeOf_of_eq_some {mark : Mark} {position : Nat} (h : placed[mark]? = some position) :
    placeOf placed mark = position := by
  rw [placeOf, h]
  rfl

theorem Site.IsWithin.placeOf_le {site : Site} (hs : site.IsWithin placed) (mark : Mark) :
    placeOf placed mark ≤ 65535 := by
  unfold placeOf
  cases h : placed[mark]? with
  | none => exact Nat.zero_le _
  | some position => exact hs.bounded mark position h

theorem Piece.Resolves.length {piece : Piece narrow} {bytes : Bytes}
    (h : piece.Resolves placed bytes) : bytes.length = piece.size := by
  cases h with
  | bytes => rfl
  | half => exact length_shortDistance _
  | word => exact length_longDistance _

theorem Piece.ResolveTo.eq_of_bytes {content bytes : Bytes} {pieces : List (Piece narrow)}
    (h : Piece.ResolveTo placed (.bytes content :: pieces) bytes) :
    ∃ more, Piece.ResolveTo placed pieces more ∧ bytes = content ++ more := by
  cases h with
  | cons h hr =>
    cases h
    exact ⟨_, hr, rfl⟩

theorem Piece.ResolveTo.eq_of_word {origin : Nat} {target : Mark} {bytes : Bytes}
    {pieces : List (Piece narrow)}
    (h : Piece.ResolveTo placed (.word origin target :: pieces) bytes) :
    ∃ position more, placed[target]? = some position ∧ Piece.ResolveTo placed pieces more ∧
      bytes = longDistance (distance origin position) ++ more := by
  cases h with
  | cons h hr =>
    cases h with
    | word hp => exact ⟨_, _, hp, hr, rfl⟩

theorem Piece.ResolveTo.eq_of_half {origin : Nat} {target : Mark}
    {jump : { index // index ∈ narrow }} {bytes : Bytes} {pieces : List (Piece narrow)}
    (h : Piece.ResolveTo placed (.half origin target jump :: pieces) bytes) :
    ∃ position more, placed[target]? = some position ∧
      isShortDistance (distance origin position) = true ∧ Piece.ResolveTo placed pieces more ∧
      bytes = shortDistance (distance origin position) ++ more := by
  cases h with
  | cons h hr =>
    cases h with
    | half hp hd => exact ⟨_, _, hp, hd, hr, rfl⟩

theorem Piece.ResolveTo.eq_of_nil {bytes : Bytes}
    (h : Piece.ResolveTo placed ([] : List (Piece narrow)) bytes) : bytes = [] := by
  cases h
  rfl

theorem Piece.ResolveTo.eq_of_only {content bytes : Bytes}
    (h : Piece.ResolveTo placed ([.bytes content] : List (Piece narrow)) bytes) :
    bytes = content := by
  obtain ⟨more, hr, rfl⟩ := h.eq_of_bytes
  rw [hr.eq_of_nil, List.append_nil]

/-- Pieces that stand after others come after them. -/
theorem Piece.ResolveTo.append_inv {first second : List (Piece narrow)} {bytes : Bytes}
    (h : Piece.ResolveTo placed (first ++ second) bytes) :
    ∃ front back, Piece.ResolveTo placed first front ∧ Piece.ResolveTo placed second back ∧
      bytes = front ++ back := by
  induction first generalizing bytes with
  | nil => exact ⟨[], bytes, .nil, h, rfl⟩
  | cons piece first ih =>
    cases h with
    | cons h hr =>
      obtain ⟨front, back, hf, hb, rfl⟩ := ih hr
      exact ⟨_, back, .cons h hf, hb, (List.append_assoc ..).symm⟩

theorem Piece.ResolveTo.length {pieces : List (Piece narrow)} {bytes : Bytes}
    (h : Piece.ResolveTo placed pieces bytes) (size : Nat) :
    (pieces.map Piece.size).foldl (· + ·) size = size + bytes.length := by
  induction h generalizing size with
  | nil => rfl
  | cons h _ ih =>
    rw [List.map_cons, List.foldl_cons, ih, ← h.length, List.length_append, Nat.add_assoc]

/-! ### Distances in pieces -/

namespace Site

variable {site : Site} {target : Mark}

theorem resolves_case (hs : site.IsWithin placed) {pieces : List (Piece narrow)} {bytes : Bytes}
    (h : Piece.ResolveTo placed (site.case target :: pieces) bytes) :
    ∃ position more, placed[target]? = some position ∧ Piece.ResolveTo placed pieces more ∧
      bytes = longDistance (distance site.position position) ++ more := by
  unfold case at h
  split at h
  · rename_i position hp
    obtain ⟨more, hr, rfl⟩ := h.eq_of_bytes
    exact ⟨position, more, hs.known target position hp, hr, rfl⟩
  · exact h.eq_of_word

theorem resolves_jump (hs : site.IsWithin placed) {short long : Opcode} {bytes : Bytes}
    (h : Piece.ResolveTo placed (site.jump short long target : List (Piece narrow)) bytes) :
    ∃ position, placed[target]? = some position ∧
      (isShortDistance (distance site.position position) = true ∧
          bytes = short :: shortDistance (distance site.position position) ∨
        bytes = long :: longDistance (distance site.position position)) := by
  -- a target that is known decides on the form, and one that is not is left open
  unfold jump at h
  split at h
  · rename_i position hp
    dsimp only at h
    refine ⟨position, hs.known target position hp, ?_⟩
    split_ifs at h with hd
    · exact .inl ⟨hd, h.eq_of_only⟩
    · exact .inr h.eq_of_only
  · split_ifs at h with hn
    · obtain ⟨more, hr, rfl⟩ := h.eq_of_bytes
      obtain ⟨position, rest, hp, hd, hnil, rfl⟩ := hr.eq_of_half
      rw [hnil.eq_of_nil, List.append_nil]
      exact ⟨position, hp, .inl ⟨hd, rfl⟩⟩
    · obtain ⟨more, hr, rfl⟩ := h.eq_of_bytes
      obtain ⟨position, rest, hp, hnil, rfl⟩ := hr.eq_of_word
      rw [hnil.eq_of_nil, List.append_nil]
      exact ⟨position, hp, .inr rfl⟩

/-- A jump on a condition is short, or leads over a long `goto` to the target. -/
theorem resolves_branch (hs : site.IsWithin placed) {op inverse : Opcode} {bytes : Bytes}
    (h : Piece.ResolveTo placed (site.branch op inverse target : Form narrow).pieces bytes) :
    ∃ position, placed[target]? = some position ∧
      ((site.branch op inverse target : Form narrow).bypasses = true →
        bytes = inverse :: shortDistance 8 ++
          Opcode.gotoWide :: longDistance (distance (site.position + 3) position)) ∧
      ((site.branch op inverse target : Form narrow).bypasses = false →
        isShortDistance (distance site.position position) = true ∧
          bytes = op :: shortDistance (distance site.position position)) := by
  unfold branch at h ⊢
  split at h
  · rename_i position hp
    refine ⟨position, hs.known target position hp, ?_⟩
    by_cases hd : isShortDistance (distance site.position position) = true
    · simp only [if_pos hd] at h ⊢
      exact ⟨fun hb => absurd hb (by simp), fun _ => ⟨hd, h.eq_of_only⟩⟩
    · simp only [if_neg hd] at h ⊢
      obtain rfl := h.eq_of_only
      exact ⟨fun _ => by simp [bypass, bypassed], fun hb => absurd hb (by simp)⟩
  · by_cases hn : site.index ∈ narrow
    · simp only [dif_pos hn] at h ⊢
      obtain ⟨more, hr, rfl⟩ := h.eq_of_bytes
      obtain ⟨position, rest, hp, hd, hnil, rfl⟩ := hr.eq_of_half
      rw [hnil.eq_of_nil, List.append_nil]
      exact ⟨position, hp, fun hb => absurd hb (by simp), fun _ => ⟨hd, rfl⟩⟩
    · simp only [dif_neg hn] at h ⊢
      obtain ⟨more, hr, rfl⟩ := h.eq_of_bytes
      obtain ⟨position, rest, hp, hnil, rfl⟩ := hr.eq_of_word
      rw [hnil.eq_of_nil, List.append_nil]
      exact ⟨position, hp, fun _ => by simp [bypass, bypassed], fun hb => absurd hb (by simp)⟩

/-- The distances to the targets of a switch. -/
theorem resolves_cases (hs : site.IsWithin placed) {targets : List Mark} {bytes : Bytes}
    (h : Piece.ResolveTo placed (targets.map site.case : List (Piece narrow)) bytes) :
    (∀ target ∈ targets, ∃ position, placed[target]? = some position) ∧
      bytes = (targets.map fun target =>
        longDistance (distance site.position (placeOf placed target))).flatten := by
  induction targets generalizing bytes with
  | nil => exact ⟨by simp, h.eq_of_nil⟩
  | cons target targets ih =>
    obtain ⟨position, more, hp, hr, rfl⟩ := resolves_case hs h
    obtain ⟨hall, rfl⟩ := ih hr
    refine ⟨List.forall_mem_cons.mpr ⟨⟨position, hp⟩, hall⟩, ?_⟩
    rw [List.map_cons, List.flatten_cons, placeOf_of_eq_some hp]

theorem resolves_pairs (hs : site.IsWithin placed) {pairs : List (Int32 × Mark)} {bytes : Bytes}
    (h : Piece.ResolveTo placed (pairs.flatMap fun (key, target) =>
      [.bytes (Bytes.ofInt32 key), site.case target] : List (Piece narrow)) bytes) :
    (∀ pair ∈ pairs, ∃ position, placed[pair.2]? = some position) ∧
      bytes = (pairs.map fun pair => Bytes.ofInt32 pair.1 ++
        longDistance (distance site.position (placeOf placed pair.2))).flatten := by
  induction pairs generalizing bytes with
  | nil => exact ⟨by simp, h.eq_of_nil⟩
  | cons pair pairs ih =>
    obtain ⟨rest, hr, rfl⟩ := h.eq_of_bytes
    obtain ⟨position, more, hp, hr', rfl⟩ := resolves_case hs hr
    obtain ⟨hall, rfl⟩ := ih hr'
    refine ⟨List.forall_mem_cons.mpr ⟨⟨position, hp⟩, hall⟩, ?_⟩
    rw [List.map_cons, List.flatten_cons, placeOf_of_eq_some hp, List.append_assoc]

end Site

/-! ### Reading a form back -/

namespace Instruction

variable {pool : Pool} {site : Site} {form : Form narrow} {bytes : Bytes}

/-- A form with a bypass is that of a jump on a condition. -/
theorem exists_of_bypasses {instruction : Instruction Mark}
    (hf : instruction.form pool site = .ok form) (hb : form.bypasses = true) :
    ∃ op inverse target, instruction = .jump op target ∧ op.inverse? = some inverse ∧
      form = site.branch op inverse target := by
  cases instruction with
  | jump op target =>
    simp only [Instruction.form] at hf
    split_ifs at hf
    · obtain rfl := Except.ok.inj hf
      exact absurd hb (by simp)
    · obtain rfl := Except.ok.inj hf
      exact absurd hb (by simp)
    · -- Only a jump on a condition has an inverse, around which a long jump can be written.
      split at hf
      · rename_i inverse hi
        exact ⟨op, inverse, target, rfl, hi, (Except.ok.inj hf).symm⟩
      · simp at hf
  | tableSwitch otherwise low high targets =>
    simp only [Instruction.form] at hf
    split_ifs at hf
    obtain rfl := Except.ok.inj hf
    exact absurd hb (by simp)
  | lookupSwitch otherwise pairs =>
    simp only [Instruction.form] at hf
    split_ifs at hf
    obtain rfl := Except.ok.inj hf
    exact absurd hb (by simp)
  | _ =>
    obtain rfl := Except.ok.inj hf
    exact absurd hb (by simp)

/-- Whether bytes are read back as an instruction, whose targets all have positions. -/
structure IsReadFrom (placed : Std.HashMap Mark Nat) (base : Nat) (site : Site) (bytes : Bytes)
    (instruction : Instruction Mark) : Prop where
  known : ∀ target ∈ instruction.targets, ∃ position, placed[target]? = some position
  takes : (Bytecode.instruction base site.position).Takes (base + site.position) bytes
    (instruction.mapTargets (placeOf placed))

/-- A form of one piece of bytes comes to these. -/
theorem takes_of_bytes {instruction : Instruction Mark} {content : Bytes} {value : Instruction Nat}
    (hf : (.ok ⟨[.bytes content], false⟩ : Except EncodingFault (Form narrow)) = .ok form)
    (hp : Piece.ResolveTo placed form.pieces bytes)
    (ht : instruction.targets = []) (hv : instruction.mapTargets (placeOf placed) = value)
    (h : (Bytecode.instruction base site.position).Takes (base + site.position) content value) :
    instruction.IsReadFrom placed base site bytes := by
  obtain rfl := Except.ok.inj hf
  obtain rfl := hp.eq_of_only
  exact ⟨by simp [ht], hv ▸ h⟩

/-- A jump without a condition is read back from its short and from its long form. -/
theorem takes_jump (hs : site.IsWithin placed) {short long : Opcode} {target : Mark}
    (hj : short.isJump = true) (hl : long.isPlain = false)
    (hop : Bytecode.operands base site.position long = (do
      return .jump short (← Bytecode.target site.position (← int32))))
    (hp : Piece.ResolveTo placed (site.jump short long target : List (Piece narrow)) bytes) :
    (Instruction.jump short target).IsReadFrom placed base site bytes := by
  obtain ⟨position, hat, hbytes⟩ := Site.resolves_jump hs hp
  have hle := hs.bounded target position hat
  refine ⟨by simpa [targets] using ⟨position, hat⟩, ?_⟩
  rw [mapTargets, placeOf_of_eq_some hat]
  rcases hbytes with ⟨hd, rfl⟩ | rfl
  · exact Bytecode.takes_shortJump hj hle hd _
  · exact Bytecode.takes_longJump hs.position hle hl hop _

/-- A jump on a condition that is short is read back, its bypass is not one instruction. -/
theorem takes_branch (hs : site.IsWithin placed) {op inverse : Opcode} {target : Mark}
    (hj : op.isJump = true) (hb : (site.branch op inverse target : Form narrow).bypasses = false)
    (hp : Piece.ResolveTo placed (site.branch op inverse target : Form narrow).pieces bytes) :
    (Instruction.jump op target).IsReadFrom placed base site bytes := by
  obtain ⟨position, hat, -, hshort⟩ := Site.resolves_branch hs hp
  obtain ⟨hd, rfl⟩ := hshort hb
  refine ⟨by simpa [targets] using ⟨position, hat⟩, ?_⟩
  rw [mapTargets, placeOf_of_eq_some hat]
  exact Bytecode.takes_shortJump hj (hs.bounded target position hat) hd _

theorem takes_tableSwitch (hs : site.IsWithin placed) {otherwise : Mark} {low high : Int32}
    {targets : List Mark} (hf : (tableSwitch otherwise low high targets).form pool site = .ok form)
    (hp : Piece.ResolveTo placed form.pieces bytes) :
    (tableSwitch otherwise low high targets).IsReadFrom placed base site bytes := by
  simp only [Instruction.form] at hf
  split_ifs at hf with hlow hcount
  obtain rfl := Except.ok.inj hf
  obtain ⟨rest, hr₁, rfl⟩ := hp.eq_of_bytes
  obtain ⟨position, rest, hat, hr₂, rfl⟩ := Site.resolves_case hs hr₁
  obtain ⟨rest, hr₃, rfl⟩ := hr₂.eq_of_bytes
  obtain ⟨hall, rfl⟩ := Site.resolves_cases hs hr₃
  refine ⟨List.forall_mem_cons.mpr ⟨⟨position, hat⟩, hall⟩, ?_⟩
  have hplaces : ∀ position ∈ placeOf placed otherwise :: targets.map (placeOf placed),
      position ≤ 65535 := by
    rw [← List.map_cons (f := placeOf placed)]
    exact List.forall_mem_map.mpr fun target hm => hs.placeOf_le target
  have hlength : (targets.map (placeOf placed)).length = (high.toInt - low.toInt + 1).toNat := by
    rw [List.length_map]
    exact not_not.mp hcount
  have h : (Bytecode.instruction base site.position).Takes _ _ _ :=
    Bytecode.takes_tableSwitch hlow hlength hs.position hplaces
  rw [mapTargets, ← placeOf_of_eq_some hat]
  simpa [Function.comp_def] using h

theorem takes_lookupSwitch (hs : site.IsWithin placed) {otherwise : Mark}
    {pairs : List (Int32 × Mark)} (hf : (lookupSwitch otherwise pairs).form pool site = .ok form)
    (hp : Piece.ResolveTo placed form.pieces bytes) :
    (lookupSwitch otherwise pairs).IsReadFrom placed base site bytes := by
  simp only [Instruction.form] at hf
  split_ifs at hf with hkeys hcount
  obtain rfl := Except.ok.inj hf
  obtain ⟨rest, hr₁, rfl⟩ := hp.eq_of_bytes
  obtain ⟨position, rest, hat, hr₂, rfl⟩ := Site.resolves_case hs hr₁
  obtain ⟨rest, hr₃, rfl⟩ := hr₂.eq_of_bytes
  obtain ⟨hall, rfl⟩ := Site.resolves_pairs hs hr₃
  refine ⟨?_, ?_⟩
  · rw [targets, List.forall_mem_cons, List.forall_mem_map]
    exact ⟨⟨position, hat⟩, hall⟩
  · have hlength :
        (pairs.map fun pair => (pair.1, placeOf placed pair.2)).length ≤ 2147483647 := by
      rw [List.length_map]
      exact Nat.le_of_not_lt hcount
    have hplaces : ∀ pair ∈ pairs.map fun pair => (pair.1, placeOf placed pair.2),
        pair.2 ≤ 65535 :=
      List.forall_mem_map.mpr fun pair _ => hs.placeOf_le pair.2
    have h : (Bytecode.instruction base site.position).Takes _ _ _ :=
      Bytecode.takes_lookupSwitch hlength hs.position (hs.placeOf_le otherwise) hplaces
    rw [mapTargets, ← placeOf_of_eq_some hat]
    simpa [Function.comp_def] using h

theorem takes_jumpForm (hs : site.IsWithin placed) {op : Opcode} {target : Mark}
    (hr : op.isJump = true) (hf : (jump op target).form pool site = .ok form)
    (hb : form.bypasses = false) (hp : Piece.ResolveTo placed form.pieces bytes) :
    (jump op target).IsReadFrom placed base site bytes := by
  simp only [Instruction.form] at hf
  split_ifs at hf with hgoto hjsr
  · obtain rfl := eq_of_beq hgoto
    obtain rfl := Except.ok.inj hf
    exact takes_jump hs rfl rfl rfl hp
  · obtain rfl := eq_of_beq hjsr
    obtain rfl := Except.ok.inj hf
    exact takes_jump hs rfl rfl rfl hp
  · -- a jump on a condition has the short form, as it has no bypass
    split at hf
    · rename_i inverse hi
      obtain rfl := Except.ok.inj hf
      exact takes_branch hs hr hb hp
    · simp at hf

/-- Any other form is read back as the instruction. -/
theorem takes_form (hs : site.IsWithin placed) {instruction : Instruction Mark}
    (hr : instruction.isReadable = true) (hf : instruction.form pool site = .ok form)
    (hb : form.bypasses = false) (hp : Piece.ResolveTo placed form.pieces bytes) :
    instruction.IsReadFrom placed base site bytes := by
  -- The forms without targets are the bytes of their operands; the others have lemmas of their own.
  cases instruction with
  | plain op => exact takes_of_bytes hf hp rfl rfl (Bytecode.takes_instruction_of_isPlain hr)
  | bytePush value =>
    refine takes_of_bytes hf hp rfl rfl (Bytecode.takes_instruction rfl ?_)
    exact (takes_int8 value _).map Instruction.bytePush
  | shortPush value =>
    refine takes_of_bytes hf hp rfl rfl (Bytecode.takes_instruction rfl ?_)
    exact (takes_int16 value _).map Instruction.shortPush
  | constant index =>
    exact takes_of_bytes hf hp rfl rfl (Bytecode.takes_constantBytes pool index)
  | access op slot => exact takes_of_bytes hf hp rfl rfl (Bytecode.takes_accessBytes hr slot)
  | increment slot delta =>
    exact takes_of_bytes hf hp rfl rfl (Bytecode.takes_incrementBytes slot delta)
  | jump op target => exact takes_jumpForm hs hr hf hb hp
  | tableSwitch otherwise low high targets => exact takes_tableSwitch hs hf hp
  | lookupSwitch otherwise pairs => exact takes_lookupSwitch hs hf hp
  | field op index =>
    obtain ⟨hplain, hop⟩ := Bytecode.operands_of_isField base site.position hr
    refine takes_of_bytes hf hp rfl rfl (Bytecode.takes_instruction hplain ?_)
    rw [hop]
    exact (takes_uint16 index _).map (Instruction.field op)
  | invoke op index =>
    obtain ⟨hplain, hop⟩ := Bytecode.operands_of_isInvoke base site.position hr
    refine takes_of_bytes hf hp rfl rfl (Bytecode.takes_instruction hplain ?_)
    rw [hop]
    exact (takes_uint16 index _).map (Instruction.invoke op)
  | invokeInterface index count =>
    refine takes_of_bytes hf hp rfl rfl (Bytecode.takes_instruction rfl ?_)
    refine (takes_uint16 index _).bind ?_
    exact (takes_uint8 count _).bind
      ((takes_uint8 0 _).map fun _ => Instruction.invokeInterface index count)
  | invokeDynamic index =>
    refine takes_of_bytes hf hp rfl rfl (Bytecode.takes_instruction rfl ?_)
    refine (takes_uint16 index _).bind ?_
    exact (takes_uint16 0 _).map fun _ => Instruction.invokeDynamic index
  | classOp op index =>
    obtain ⟨hplain, hop⟩ := Bytecode.operands_of_isClassOp base site.position hr
    refine takes_of_bytes hf hp rfl rfl (Bytecode.takes_instruction hplain ?_)
    rw [hop]
    exact (takes_uint16 index _).map (Instruction.classOp op)
  | newArray element =>
    refine takes_of_bytes hf hp rfl rfl (Bytecode.takes_instruction rfl ?_)
    exact (takes_uint8 element _).map Instruction.newArray
  | newMultiArray index dimensions =>
    refine takes_of_bytes hf hp rfl rfl (Bytecode.takes_instruction rfl ?_)
    refine (takes_uint16 index _).bind ?_
    exact (takes_uint8 dimensions _).map (Instruction.newMultiArray index)

end Instruction

end ClassGraft

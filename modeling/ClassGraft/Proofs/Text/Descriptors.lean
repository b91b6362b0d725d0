import ClassGraft.Proofs.Text.Grammar
import ClassGraft.Text.ModifiedUtf8
import Mathlib.Data.List.Basic

/-!
# Descriptors in modified UTF-8

A class file spells a descriptor in modified UTF-8, while patches give it as a text.  The two
spellings differ only in stretches of bytes that have no meaning in descriptors, so the same types
are read from both, up to the names of classes (`Descriptor.shape_encode`).
-/

namespace ClassGraft

/-- The sizes of the arguments, and the words that the result takes. -/
def MethodType.shape (type : MethodType) : List Nat × Nat :=
  (type.arguments.map ValueType.size, type.resultSize)

namespace Descriptor

/-! ### Bytes that read alike -/

/-- Whether a byte has no meaning in descriptors: it may only stand in the name of a class. -/
def IsForeign (byte : UInt8) : Prop := byte = 0 ∨ 0x80 ≤ byte

/-- Whether two lists of bytes are the same but for stretches without meaning. -/
inductive Alike : Bytes → Bytes → Prop
  | nil : Alike [] []
  | byte {xs ys : Bytes} (byte : UInt8) (h : Alike xs ys) : Alike (byte :: xs) (byte :: ys)
  | foreign {us vs xs ys : Bytes} (hu : us ≠ []) (hv : vs ≠ []) (hus : ∀ byte ∈ us, IsForeign byte)
      (hvs : ∀ byte ∈ vs, IsForeign byte) (h : Alike xs ys) : Alike (us ++ xs) (vs ++ ys)

variable {xs ys : Bytes}

theorem IsForeign.ne {byte other : UInt8} (h : IsForeign byte) (hpos : 0 < other)
    (hlt : other < 0x80) : byte ≠ other := by
  rintro rfl
  rcases h with rfl | h
  · exact absurd hpos (by decide)
  · exact absurd hlt (UInt8.not_lt.mpr h)

theorem primitive?_of_isForeign {byte : UInt8} (h : IsForeign byte) : primitive? byte = none := by
  rw [Option.eq_none_iff_forall_ne_some]
  intro type htype
  cases primitive?_eq_some_iff.mp htype
  all_goals exact h.ne (by decide) (by decide) rfl

namespace Alike

/-- The same bytes may be put in front. -/
theorem append (bytes : Bytes) (h : Alike xs ys) : Alike (bytes ++ xs) (bytes ++ ys) := by
  induction bytes with
  | nil => exact h
  | cons byte rest ih => exact .byte byte ih

theorem eq_nil_iff (h : Alike xs ys) : xs = [] ↔ ys = [] := by
  cases h with
  | nil => exact Iff.rfl
  | byte byte h => exact iff_of_false (List.cons_ne_nil _ _) (List.cons_ne_nil _ _)
  | foreign hu hv hus hvs h => simp [hu, hv]

/-- A byte with a meaning is followed by alike bytes. -/
theorem of_cons {byte : UInt8} (hpos : 0 < byte) (hlt : byte < 0x80) (h : Alike (byte :: xs) ys) :
    ∃ rest, ys = byte :: rest ∧ Alike xs rest := by
  generalize hbytes : byte :: xs = bytes at h
  cases h with
  | nil => nomatch hbytes
  | @byte _ rest _ h =>
    obtain ⟨rfl, rfl⟩ := List.cons.inj hbytes
    exact ⟨rest, rfl, h⟩
  | @foreign us _ _ _ hu hv hus hvs h =>
    obtain ⟨first, others, rfl⟩ := List.exists_cons_of_ne_nil hu
    obtain ⟨rfl, -⟩ := List.cons.inj hbytes
    exact absurd rfl ((hus _ List.mem_cons_self).ne hpos hlt)

theorem symm (h : Alike xs ys) : Alike ys xs := by
  induction h with
  | nil => exact .nil
  | byte byte _ ih => exact .byte byte ih
  | foreign hu hv hus hvs _ ih => exact .foreign hv hu hvs hus ih

/-- The names of classes end at the same places, and are empty at the same places. -/
theorem dropWhile_name (h : Alike xs ys) :
    Alike (xs.dropWhile (· != nameEnd)) (ys.dropWhile (· != nameEnd)) ∧
      (xs.takeWhile (· != nameEnd) = [] ↔ ys.takeWhile (· != nameEnd) = []) := by
  induction h with
  | nil => exact ⟨.nil, Iff.rfl⟩
  | @byte xs ys byte h ih =>
    by_cases hend : byte = nameEnd
    · simp only [List.dropWhile_cons, List.takeWhile_cons, hend, bne_self_eq_false]
      exact ⟨.byte _ h, Iff.rfl⟩
    · simp only [List.dropWhile_cons, List.takeWhile_cons, bne_iff_ne.mpr hend, if_true]
      exact ⟨ih.1, iff_of_false (List.cons_ne_nil _ _) (List.cons_ne_nil _ _)⟩
  | @foreign us vs xs ys hu hv hus hvs h ih =>
    have hfirst : ∀ byte ∈ us, (byte != nameEnd) = true := fun byte hbyte =>
      bne_iff_ne.mpr ((hus byte hbyte).ne (by decide) (by decide))
    have hsecond : ∀ byte ∈ vs, (byte != nameEnd) = true := fun byte hbyte =>
      bne_iff_ne.mpr ((hvs byte hbyte).ne (by decide) (by decide))
    rw [List.dropWhile_append_of_pos hfirst, List.dropWhile_append_of_pos hsecond,
      List.takeWhile_append_of_pos hfirst, List.takeWhile_append_of_pos hsecond]
    exact ⟨ih.1, by simp [hu, hv]⟩

/-- Where a name ends, one ends in alike bytes too, and alike bytes follow. -/
theorem exists_name {name rest : Bytes} (h : Alike (name ++ nameEnd :: rest) ys)
    (hnot : nameEnd ∉ name) : ∃ other rest', ys = other ++ nameEnd :: rest' ∧ nameEnd ∉ other ∧
      (name = [] ↔ other = []) ∧ Alike rest rest' := by
  obtain ⟨hdrop, htake⟩ := h.dropWhile_name
  rw [dropWhile_append_nameEnd hnot] at hdrop
  rw [takeWhile_append_nameEnd hnot] at htake
  obtain ⟨rest', hrest', hrest⟩ := hdrop.of_cons (by decide) (by decide)
  refine ⟨_, rest', ?_, fun hmem => ?_, htake, hrest⟩
  · rw [← hrest', List.takeWhile_append_dropWhile]
  · simpa using List.mem_takeWhile_imp hmem

/-- There are the same brackets in front, and alike bytes after them. -/
theorem drop_brackets (h : Alike xs ys) :
    (xs.takeWhile (· == bracket)).length = (ys.takeWhile (· == bracket)).length ∧
      Alike (xs.drop (xs.takeWhile (· == bracket)).length)
        (ys.drop (ys.takeWhile (· == bracket)).length) := by
  induction h with
  | nil => exact ⟨rfl, .nil⟩
  | @byte xs ys byte h ih =>
    by_cases hbracket : byte = bracket
    · simp only [List.takeWhile_cons, hbracket, beq_self_eq_true, if_true, List.length_cons,
        List.drop_succ_cons]
      exact ⟨congrArg _ ih.1, ih.2⟩
    · simp only [List.takeWhile_cons, beq_eq_false_iff_ne.mpr hbracket, Bool.false_eq_true,
        if_false, List.length_nil, List.drop_zero, true_and]
      exact .byte byte h
  | @foreign us vs xs ys hu hv hus hvs h ih =>
    have hnone : ∀ {ws : Bytes}, ws ≠ [] → (∀ byte ∈ ws, IsForeign byte) → ∀ zs,
        (ws ++ zs).takeWhile (· == bracket) = [] := by
      intro ws hw hws zs
      obtain ⟨first, others, rfl⟩ := List.exists_cons_of_ne_nil hw
      have hne : first ≠ bracket := (hws first List.mem_cons_self).ne (by decide) (by decide)
      rw [List.cons_append, List.takeWhile_cons_of_neg (by simpa using hne)]
    rw [hnone hu hus, hnone hv hvs]
    exact ⟨rfl, .foreign hu hv hus hvs h⟩

end Alike

/-! ### Types -/

/-- Whether two readings of types both failed, or gave types of the same size and left alike
bytes. -/
inductive Agree (xs ys : Bytes) : Option (ValueType × Nat) → Option (ValueType × Nat) → Prop
  | none : Agree xs ys none none
  | some {type type' : ValueType} {length length' : Nat} (size : type.size = type'.size)
      (rest : Alike (xs.drop length) (ys.drop length')) (pos : 0 < length) (pos' : 0 < length')
      (le : length ≤ xs.length) (le' : length' ≤ ys.length) :
      Agree xs ys (some (type, length)) (some (type', length'))

theorem drop_named (name rest : Bytes) :
    (classMark :: (name ++ nameEnd :: rest)).drop (name.length + 2) = rest := by
  rw [List.drop_succ_cons, ← List.drop_drop, List.drop_left, List.drop_one, List.tail_cons]

theorem agree_readElement (h : Alike xs ys) : Agree xs ys (readElement xs) (readElement ys) := by
  cases h with
  | nil => exact .none
  | @byte xs ys byte h =>
    by_cases hclass : byte = classMark
    · subst hclass
      -- Names need not be as long as each other, but they end on both sides or on neither.
      by_cases hend : nameEnd ∈ xs
      · obtain ⟨name, rest, rfl, hnot⟩ := List.eq_append_cons_of_mem hend
        obtain ⟨other, rest', rfl, hnot', hempty, hrest⟩ := h.exists_name hnot
        rw [readElement_named hnot, readElement_named hnot']
        by_cases hname : name = []
        · rw [if_pos hname, if_pos (hempty.mp hname)]
          exact .none
        · rw [if_neg hname, if_neg (mt hempty.mpr hname)]
          refine .some rfl ?_ (Nat.succ_pos _) (Nat.succ_pos _) ?_ ?_
          · rwa [drop_named, drop_named]
          · simp
          · simp
      · have hend' : nameEnd ∉ ys := by
          intro hmem
          obtain ⟨name, rest, rfl, hnot⟩ := List.eq_append_cons_of_mem hmem
          obtain ⟨other, rest', rfl, -⟩ := h.symm.exists_name hnot
          exact hend (List.mem_append_right other List.mem_cons_self)
        rw [readElement_unnamed hend, readElement_unnamed hend']
        exact .none
    · rw [readElement_of_ne hclass, readElement_of_ne hclass]
      cases primitive? byte with
      | none => exact .none
      | some type =>
        exact .some rfl h Nat.one_pos Nat.one_pos (Nat.succ_pos _) (Nat.succ_pos _)
  | @foreign us vs xs ys hu hv hus hvs h =>
    have hnone : ∀ {ws : Bytes}, ws ≠ [] → (∀ byte ∈ ws, IsForeign byte) → ∀ zs,
        readElement (ws ++ zs) = none := by
      intro ws hw hws zs
      obtain ⟨first, others, rfl⟩ := List.exists_cons_of_ne_nil hw
      have hforeign := hws first List.mem_cons_self
      rw [List.cons_append, readElement_of_ne (hforeign.ne (by decide) (by decide)),
        primitive?_of_isForeign hforeign]
      rfl
    rw [hnone hu hus, hnone hv hvs]
    exact .none

theorem agree_readType (h : Alike xs ys) : Agree xs ys (readType xs) (readType ys) := by
  obtain ⟨hlength, hdrop⟩ := h.drop_brackets
  unfold readType
  rw [← hlength] at hdrop ⊢
  have helement := agree_readElement hdrop
  generalize hdimensions : (xs.takeWhile (· == bracket)).length = dimensions at *
  dsimp only
  split_ifs with hnone hmany
  · exact agree_readElement h
  · exact .none
  · generalize readElement (xs.drop dimensions) = read at helement
    generalize readElement (ys.drop dimensions) = read' at helement
    cases helement with
    | none => exact .none
    | some size rest pos pos' le le' =>
      rw [List.drop_drop, List.drop_drop] at rest
      rw [List.length_drop] at le le'
      exact .some rfl rest (by omega) (by omega) (by omega) (by omega)

/-! ### Methods -/

/-- Arguments of the same sizes are read, and alike bytes follow them. -/
theorem agree_readArguments {fuel fuel' : Nat} {found found' : List ValueType}
    (hfound : found.map ValueType.size = found'.map ValueType.size) (h : Alike xs ys)
    (hf : xs.length < fuel) (hf' : ys.length < fuel') :
    (readArguments fuel found xs = none ∧ readArguments fuel' found' ys = none) ∨
      ∃ arguments arguments' rest rest', readArguments fuel found xs = some (arguments, rest) ∧
        readArguments fuel' found' ys = some (arguments', rest') ∧
        arguments.map ValueType.size = arguments'.map ValueType.size ∧ Alike rest rest' := by
  induction fuel generalizing fuel' found found' xs ys with
  | zero => exact absurd hf (Nat.not_lt_zero _)
  | succ fuel ih =>
    obtain ⟨fuel', rfl⟩ := Nat.exists_eq_succ_of_ne_zero (Nat.ne_zero_of_lt hf')
    -- The end of the arguments is a byte that is alike to itself only.
    by_cases hend : ∃ rest, xs = closing :: rest
    · obtain ⟨rest, rfl⟩ := hend
      obtain ⟨rest', rfl, hrest⟩ := h.of_cons (by decide) (by decide)
      refine .inr ⟨found.reverse, found'.reverse, rest, rest', rfl, rfl, ?_, hrest⟩
      rw [List.map_reverse, List.map_reverse, hfound]
    · have hend' : ¬∃ rest, ys = closing :: rest := by
        rintro ⟨rest, rfl⟩
        obtain ⟨rest', rfl, -⟩ := h.symm.of_cons (by decide) (by decide)
        exact hend ⟨rest', rfl⟩
      rw [readArguments_succ hend, readArguments_succ hend']
      have htype := agree_readType h
      generalize readType xs = read at htype
      generalize readType ys = read' at htype
      cases htype with
      | none => exact .inl ⟨rfl, rfl⟩
      | some size rest pos pos' le le' =>
        rw [Option.bind_some, Option.bind_some]
        refine ih (congrArg₂ List.cons size hfound) rest ?_ ?_
        · rw [List.length_drop]
          omega
        · rw [List.length_drop]
          omega

theorem agree_field? (h : Alike xs ys) :
    (field? xs).map ValueType.size = (field? ys).map ValueType.size := by
  have htype := agree_readType h
  unfold field?
  generalize readType xs = read at htype
  generalize readType ys = read' at htype
  cases htype with
  | none => rfl
  | @some type type' length length' size rest pos pos' le le' =>
    have hall : length = xs.length ↔ length' = ys.length := by
      have hnil := rest.eq_nil_iff
      rw [List.drop_eq_nil_iff, List.drop_eq_nil_iff] at hnil
      omega
    dsimp only
    by_cases hlength : length = xs.length
    · rw [if_pos hlength, if_pos (hall.mp hlength)]
      exact congrArg some size
    · rw [if_neg hlength, if_neg (mt hall.mpr hlength)]

/-- Bytes that read alike spell methods of the same shape. -/
theorem shape_of_alike (h : Alike xs ys) :
    (method? xs).map MethodType.shape = (method? ys).map MethodType.shape := by
  by_cases hopen : ∃ rest, xs = opening :: rest
  · obtain ⟨rest, rfl⟩ := hopen
    obtain ⟨rest', rfl, hrest⟩ := h.of_cons (by decide) (by decide)
    rw [method?_cons, method?_cons]
    rcases agree_readArguments rfl hrest (Nat.lt_succ_self _) (Nat.lt_succ_self _) with
      ⟨hnone, hnone'⟩ | ⟨arguments, arguments', result, result', hread, hread', hsizes, hresult⟩
    · rw [hnone, hnone']
    · rw [hread, hread', Option.bind_some, Option.bind_some]
      -- That there is no result is also spelled with a byte that is alike to itself only.
      have hvoid : result = [void] ↔ result' = [void] := by
        constructor
        · rintro rfl
          obtain ⟨others, rfl, hnil⟩ := hresult.of_cons (by decide) (by decide)
          rw [hnil.eq_nil_iff.mp rfl]
        · rintro rfl
          obtain ⟨others, rfl, hnil⟩ := hresult.symm.of_cons (by decide) (by decide)
          rw [hnil.eq_nil_iff.mp rfl]
      by_cases hresult' : result = [void]
      · rw [if_pos hresult', if_pos (hvoid.mp hresult')]
        exact congrArg (fun sizes => some (sizes, 0)) hsizes
      · rw [if_neg hresult', if_neg (mt hvoid.mpr hresult')]
        have hpair := congrArg (Option.map (Prod.mk (arguments'.map ValueType.size)))
          (agree_field? hresult)
        rw [Option.map_map, Option.map_map, ← hsizes] at hpair
        rw [Option.map_map, Option.map_map]
        exact hpair.trans (by rw [hsizes]; rfl)
  · have hopen' : ¬∃ rest, ys = opening :: rest := by
      rintro ⟨rest, rfl⟩
      obtain ⟨rest', rfl, -⟩ := h.symm.of_cons (by decide) (by decide)
      exact hopen ⟨rest', rfl⟩
    rw [method?_of_ne hopen, method?_of_ne hopen']

/-! ### The two spellings of a text -/

theorem isForeign_ofNat {number : Nat} (h : 128 ≤ number) (hlt : number < 256) :
    IsForeign (UInt8.ofNat number) := by
  refine .inr (UInt8.le_iff_toNat_le.mpr ?_)
  rw [UInt8.toNat_ofNat_of_lt' hlt]
  exact h

theorem isForeign_encodeUnit {unit : Nat} (h : unit < 0x10000) :
    ∀ byte ∈ ModifiedUtf8.encodeUnit unit, IsForeign byte := by
  intro byte hbyte
  simp only [ModifiedUtf8.encodeUnit, List.mem_cons, List.not_mem_nil, or_false] at hbyte
  rcases hbyte with rfl | rfl | rfl
  · exact isForeign_ofNat (by omega) (by omega)
  · exact isForeign_ofNat (by omega) (by omega)
  · exact isForeign_ofNat (by omega) (by omega)

/-- A character that takes more than three bytes has no meaning in descriptors. -/
theorem isForeign_utf8EncodeChar {c : Char} (h : 0x10000 ≤ c.toNat) :
    ∀ byte ∈ String.utf8EncodeChar c, IsForeign byte := by
  have hsame : c.val.toNat = c.toNat := rfl
  intro byte hbyte
  simp only [String.utf8EncodeChar, hsame] at hbyte
  rw [if_neg (by omega), if_neg (by omega), if_neg (by omega)] at hbyte
  simp only [List.mem_cons, List.not_mem_nil, or_false] at hbyte
  rcases hbyte with rfl | rfl | rfl | rfl
  · exact isForeign_ofNat (by omega) (by omega)
  · exact isForeign_ofNat (by omega) (by omega)
  · exact isForeign_ofNat (by omega) (by omega)
  · exact isForeign_ofNat (by omega) (by omega)

/-- The two spellings of a text read alike. -/
theorem alike_encode (text : String) : Alike (Bytes.ofText text) (ModifiedUtf8.encode text) := by
  unfold Bytes.ofText ModifiedUtf8.encode
  induction text.toList with
  | nil => exact .nil
  | cons c rest ih =>
    rw [List.flatMap_cons, List.flatMap_cons]
    unfold ModifiedUtf8.encodeChar
    -- The two spellings differ in zero and in what takes two halves, and descriptors have neither.
    split_ifs with hzero hsmall
    · have hc : c = '\x00' := Char.toNat_inj.mp hzero
      subst hc
      refine .foreign (by decide) (by decide) ?_ ?_ ih
      · intro byte hbyte
        exact .inl (List.mem_singleton.mp hbyte)
      · intro byte hbyte
        rcases List.mem_pair.mp hbyte with rfl | rfl
        · exact .inr (by decide)
        · exact .inr (by decide)
    · exact ih.append _
    · have hlt : c.toNat < 0x110000 := by
        rcases c.valid with hvalid | ⟨-, hvalid⟩
        · exact Nat.lt_trans hvalid (by decide)
        · exact hvalid
      have hhigh : ModifiedUtf8.highHalf c.toNat < 0x10000 := by
        unfold ModifiedUtf8.highHalf
        omega
      have hlow : ModifiedUtf8.lowHalf c.toNat < 0x10000 := by
        unfold ModifiedUtf8.lowHalf
        omega
      refine .foreign ?_ ?_ (isForeign_utf8EncodeChar (by omega)) ?_ ih
      · exact String.utf8EncodeChar_ne_nil
      · exact List.cons_ne_nil _ _
      · intro byte hbyte
        rcases List.mem_append.mp hbyte with hbyte | hbyte
        · exact isForeign_encodeUnit hhigh byte hbyte
        · exact isForeign_encodeUnit hlow byte hbyte

/-- A descriptor has the same shape in modified UTF-8 as it has as a text. -/
theorem shape_encode (text : String) :
    (method? (ModifiedUtf8.encode text)).map MethodType.shape =
      (method? (Bytes.ofText text)).map MethodType.shape :=
  (shape_of_alike (alike_encode text)).symm

end Descriptor

end ClassGraft

import ClassGraft.Descriptor
import Mathlib.Data.List.Forall2
import Mathlib.Data.List.TakeWhile
import Mathlib.Data.Set.Subsingleton
import Mathlib.Tactic.SplitIfs

/-!
# The grammar of descriptors

A field descriptor is the letter of a primitive type, a name between `L` and `;`, or up to 255
brackets before one of these; a method descriptor is a list of them in parentheses, followed by
another one or by `V`.  `SpellsField` and `Parts.Spells` say so, each with the type that is spelled.
Descriptors are read by this grammar, and a method descriptor is made of the same parts however it
is taken apart (`reads_grammar`).

No field descriptor starts another one: what is read from the start of some bytes is the one field
descriptor that they start with (`readType_eq_some_iff`).  So the arguments are read one after the
other, and are all that there are (`exists_parts_of_readArguments`, `readArguments_flatten`).
-/

namespace ClassGraft.Descriptor

/-! ### Grammar -/

/-- The parenthesis before the arguments, `(`. -/
def opening : UInt8 := 0x28

/-- The parenthesis after the arguments, `)`. -/
def closing : UInt8 := 0x29

/-- What stands for the absent result, `V`. -/
def void : UInt8 := 0x56

/-- The letters of the primitive types. -/
inductive IsLetter : UInt8 → ValueType → Prop
  | byte : IsLetter 'B'.toUInt8 .int
  | char : IsLetter 'C'.toUInt8 .int
  | double : IsLetter 'D'.toUInt8 .double
  | float : IsLetter 'F'.toUInt8 .float
  | int : IsLetter 'I'.toUInt8 .int
  | long : IsLetter 'J'.toUInt8 .long
  | short : IsLetter 'S'.toUInt8 .int
  | boolean : IsLetter 'Z'.toUInt8 .int

/-- What an array may have as its innermost elements: a primitive type, or a class by a name in
which anything but `;` may occur. -/
inductive SpellsElement : Bytes → ValueType → Prop
  | primitive {letter : UInt8} {type : ValueType} (h : IsLetter letter type) :
      SpellsElement [letter] type
  | named {name : Bytes} (ne_nil : name ≠ []) (not_mem : nameEnd ∉ name) :
      SpellsElement (classMark :: (name ++ [nameEnd])) (.reference name)

/-- A field descriptor; that of an array type is also its name. -/
inductive SpellsField : Bytes → ValueType → Prop
  | element {bytes : Bytes} {type : ValueType} (h : SpellsElement bytes type) :
      SpellsField bytes type
  | array {dimensions : Nat} {bytes : Bytes} {type : ValueType} (pos : 0 < dimensions)
      (le : dimensions ≤ 255) (h : SpellsElement bytes type) :
      SpellsField (List.replicate dimensions bracket ++ bytes)
        (.reference (List.replicate dimensions bracket ++ bytes))

/-- What follows the arguments of a method. -/
inductive SpellsResult : Bytes → Option ValueType → Prop
  | absent : SpellsResult [void] none
  | value {bytes : Bytes} {type : ValueType} (h : SpellsField bytes type) :
      SpellsResult bytes (some type)

/-- A method descriptor taken apart. -/
@[ext]
structure Parts where
  arguments : List Bytes
  result : Bytes
  deriving DecidableEq, Repr

namespace Parts

/-- The method descriptor that has the parts, in their order. -/
def text (parts : Parts) : Bytes :=
  opening :: (parts.arguments.flatten ++ closing :: parts.result)

/-- Whether each part spells what the type has in its place. -/
structure Spells (parts : Parts) (type : MethodType) : Prop where
  arguments : List.Forall₂ SpellsField parts.arguments type.arguments
  result : SpellsResult parts.result type.result

end Parts

variable {bytes part other rest rest' : Bytes} {type type' : ValueType} {length dimensions : Nat}

/-! ### First bytes -/

theorem primitive?_eq_some_iff {letter : UInt8} : primitive? letter = some type ↔
    IsLetter letter type := by
  constructor
  · intro h
    -- the byte is known from the character that is looked up
    have hback : (Char.ofNat letter.toNat).toUInt8 = letter := by
      have hlt := letter.toNat_lt
      have hvalid : letter.toNat.isValidChar := .inl (by omega)
      rw [← UInt8.toNat_inj, Char.toUInt8, UInt32.toNat_toUInt8, Char.ofNat, dif_pos hvalid]
      exact Nat.mod_eq_of_lt hlt
    unfold primitive? at h
    generalize Char.ofNat letter.toNat = c at h hback
    subst hback
    split at h
    all_goals cases h
    exacts [.byte, .char, .int, .short, .boolean, .float, .long, .double]
  · rintro (_ | _)
    all_goals rfl

theorem IsLetter.ne_classMark {letter : UInt8} (h : IsLetter letter type) : letter ≠ classMark := by
  cases h <;> decide

theorem SpellsElement.head_ne (h : SpellsElement part type) :
    ∃ first others, part = first :: others ∧ first ≠ bracket ∧ first ≠ closing ∧ first ≠ void := by
  cases h with
  | primitive h => exact ⟨_, [], rfl, by cases h <;> decide⟩
  | @named name _ _ => exact ⟨classMark, name ++ [nameEnd], rfl, by decide⟩

/-- A field descriptor starts neither like the end of the arguments nor like the absent result. -/
theorem SpellsField.head_ne (h : SpellsField part type) :
    ∃ first others, part = first :: others ∧ first ≠ closing ∧ first ≠ void := by
  cases h with
  | element h =>
    obtain ⟨first, others, rfl, -, hne⟩ := h.head_ne
    exact ⟨first, others, rfl, hne⟩
  | @array dimensions bytes _ pos _ _ =>
    obtain ⟨count, rfl⟩ := Nat.exists_eq_succ_of_ne_zero pos.ne'
    exact ⟨bracket, List.replicate count bracket ++ bytes, rfl, by decide⟩

theorem SpellsField.append_ne (h : SpellsField part type) (rest after : Bytes) :
    part ++ rest ≠ closing :: after := by
  obtain ⟨first, others, rfl, hne, -⟩ := h.head_ne
  exact fun heq => hne (List.cons.inj heq).1

theorem SpellsField.length_pos (h : SpellsField part type) : 0 < part.length := by
  obtain ⟨first, others, rfl, -⟩ := h.head_ne
  exact Nat.succ_pos _

/-! ### Elements -/

/-- What is read of a class type, in terms of its name and what follows. -/
theorem readElement_class (rest : Bytes) : readElement (classMark :: rest) =
    if rest.takeWhile (· != nameEnd) = [] ∨ rest.dropWhile (· != nameEnd) = [] then none
    else some (.reference (rest.takeWhile (· != nameEnd)),
      (rest.takeWhile (· != nameEnd)).length + 2) := by
  have hlength : (rest.takeWhile (· != nameEnd)).length +
      (rest.dropWhile (· != nameEnd)).length = rest.length := by
    rw [← List.length_append, List.takeWhile_append_dropWhile]
  have hsame : ((rest.takeWhile (· != nameEnd)).length = rest.length) ↔
      rest.dropWhile (· != nameEnd) = [] := by
    rw [← List.length_eq_zero_iff]
    omega
  simp only [readElement, if_true, Bool.or_eq_true, List.isEmpty_iff, beq_iff_eq, hsame]

theorem readElement_of_ne {letter : UInt8} (h : letter ≠ classMark) (rest : Bytes) :
    readElement (letter :: rest) = (primitive? letter).map (·, 1) := by
  rw [readElement, if_neg h]

theorem ne_nameEnd {name : Bytes} (h : nameEnd ∉ name) :
    ∀ byte ∈ name, (byte != nameEnd) = true :=
  fun _ hbyte => bne_iff_ne.mpr (ne_of_mem_of_not_mem hbyte h)

theorem takeWhile_append_nameEnd {name : Bytes} (h : nameEnd ∉ name) :
    (name ++ nameEnd :: rest).takeWhile (· != nameEnd) = name := by
  rw [List.takeWhile_append_of_pos (ne_nameEnd h), List.takeWhile_cons_of_neg (by simp),
    List.append_nil]

theorem dropWhile_append_nameEnd {name : Bytes} (h : nameEnd ∉ name) :
    (name ++ nameEnd :: rest).dropWhile (· != nameEnd) = nameEnd :: rest := by
  rw [List.dropWhile_append_of_pos (ne_nameEnd h), List.dropWhile_cons_of_neg (by simp)]

/-- What is read of a class type whose name ends. -/
theorem readElement_named {name : Bytes} (h : nameEnd ∉ name) :
    readElement (classMark :: (name ++ nameEnd :: rest)) =
      if name = [] then none else some (.reference name, name.length + 2) := by
  rw [readElement_class, takeWhile_append_nameEnd h, dropWhile_append_nameEnd h]
  simp only [List.cons_ne_nil, or_false]

/-- Nothing is read of a class type whose name does not end. -/
theorem readElement_unnamed (h : nameEnd ∉ rest) : readElement (classMark :: rest) = none := by
  rw [readElement_class, if_pos (.inr (List.dropWhile_eq_nil_iff.mpr (ne_nameEnd h)))]

/-- What is read is the element that the bytes start with. -/
theorem readElement_eq_some_iff : readElement bytes = some (type, length) ↔
    ∃ part rest, bytes = part ++ rest ∧ part.length = length ∧ SpellsElement part type := by
  constructor
  · intro h
    cases bytes with
    | nil => nomatch h
    | cons letter rest =>
      by_cases hclass : letter = classMark
      · subst hclass
        by_cases hend : nameEnd ∈ rest
        · -- the name goes up to the first byte that may end it
          obtain ⟨name, others, rfl, hnot⟩ := List.eq_append_cons_of_mem hend
          rw [readElement_named hnot] at h
          split_ifs at h with hname
          obtain ⟨rfl, rfl⟩ := Prod.mk.inj (Option.some.inj h)
          exact ⟨_, others, by simp, by simp, .named hname hnot⟩
        · rw [readElement_unnamed hend] at h
          nomatch h
      · rw [readElement_of_ne hclass] at h
        obtain ⟨found, hletter, hfound⟩ := Option.map_eq_some_iff.mp h
        obtain ⟨rfl, rfl⟩ := Prod.mk.inj hfound
        exact ⟨[letter], rest, rfl, rfl, .primitive (primitive?_eq_some_iff.mp hletter)⟩
  · rintro ⟨part, rest, rfl, rfl, h⟩
    cases h with
    | @primitive letter _ h =>
      rw [List.singleton_append, readElement_of_ne h.ne_classMark, primitive?_eq_some_iff.mpr h]
      rfl
    | @named name ne_nil not_mem =>
      rw [List.cons_append, List.append_assoc, List.singleton_append, readElement_named not_mem,
        if_neg ne_nil]
      simp

/-! ### Types -/

/-- Bytes are brackets and what follows them. -/
theorem exists_brackets (bytes : Bytes) : ∃ dimensions rest,
    bytes = List.replicate dimensions bracket ++ rest ∧ rest.head? ≠ some bracket := by
  induction bytes with
  | nil => exact ⟨0, [], rfl, nofun⟩
  | cons byte bytes ih =>
    by_cases hbracket : byte = bracket
    · obtain ⟨dimensions, rest, rfl, hrest⟩ := ih
      exact ⟨dimensions + 1, rest, by rw [hbracket]; rfl, hrest⟩
    · exact ⟨0, byte :: bytes, rfl, fun h => hbracket (Option.some.inj h)⟩

/-- What is read of a type, in terms of its brackets and what follows them. -/
theorem readType_replicate (dimensions : Nat) (h : rest.head? ≠ some bracket) :
    readType (List.replicate dimensions bracket ++ rest) =
      if dimensions = 0 then readElement rest
      else if 255 < dimensions then none
      else (readElement rest).map fun read =>
        (.reference (List.replicate dimensions bracket ++ rest.take read.2),
          dimensions + read.2) := by
  have hnone : rest.takeWhile (· == bracket) = [] := by
    cases rest with
    | nil => rfl
    | cons byte rest =>
      have hne : byte ≠ bracket := fun heq => h (congrArg some heq)
      exact List.takeWhile_cons_of_neg (by simpa using hne)
  have htake : (List.replicate dimensions bracket ++ rest).takeWhile (· == bracket) =
      List.replicate dimensions bracket := by
    have hall : ∀ byte ∈ List.replicate dimensions bracket, (byte == bracket) = true :=
      fun byte hbyte => beq_iff_eq.mpr (List.eq_of_mem_replicate hbyte)
    rw [List.takeWhile_append_of_pos hall, hnone, List.append_nil]
  have hdrop : (List.replicate dimensions bracket ++ rest).drop dimensions = rest :=
    List.drop_left' List.length_replicate
  have hfirst (length : Nat) : (List.replicate dimensions bracket ++ rest).take
      (dimensions + length) = List.replicate dimensions bracket ++ rest.take length := by
    simp [List.take_append]
  unfold readType
  rw [htake, List.length_replicate]
  dsimp only
  split_ifs with hzero hmany
  · rw [hzero, List.replicate_zero, List.nil_append]
  · rfl
  · rw [hdrop]
    simp only [hfirst]

theorem SpellsElement.head?_append (h : SpellsElement part type) (rest : Bytes) :
    (part ++ rest).head? ≠ some bracket := by
  obtain ⟨first, others, rfl, hne, -⟩ := h.head_ne
  exact fun heq => hne (Option.some.inj heq)

/-- What is read is the field descriptor that the bytes start with. -/
theorem readType_eq_some_iff : readType bytes = some (type, length) ↔
    ∃ part rest, bytes = part ++ rest ∧ part.length = length ∧ SpellsField part type := by
  constructor
  · intro h
    obtain ⟨dimensions, rest, rfl, hrest⟩ := exists_brackets bytes
    rw [readType_replicate dimensions hrest] at h
    split_ifs at h with hzero hmany
    · obtain ⟨part, rest, rfl, rfl, hpart⟩ := readElement_eq_some_iff.mp h
      exact ⟨part, rest, by rw [hzero]; rfl, rfl, .element hpart⟩
    · -- the element is read after the brackets, and the type is all of it with them
      obtain ⟨⟨element, length⟩, hread, hfound⟩ := Option.map_eq_some_iff.mp h
      obtain ⟨part, rest, rfl, rfl, hpart⟩ := readElement_eq_some_iff.mp hread
      obtain ⟨rfl, rfl⟩ := Prod.mk.inj hfound
      dsimp only
      rw [List.take_left]
      exact ⟨_, rest, (List.append_assoc _ _ _).symm, by simp,
        .array (Nat.pos_of_ne_zero hzero) (Nat.le_of_not_lt hmany) hpart⟩
  · rintro ⟨part, rest, rfl, rfl, h⟩
    cases h with
    | element h =>
      have hread := readElement_eq_some_iff.mpr ⟨part, rest, rfl, rfl, h⟩
      exact (readType_replicate 0 (h.head?_append rest)).trans hread
    | @array dimensions element _ pos le h =>
      have hread := readElement_eq_some_iff.mpr ⟨element, rest, rfl, rfl, h⟩
      rw [List.append_assoc, readType_replicate dimensions (h.head?_append rest), hread,
        if_neg pos.ne', if_neg (Nat.not_lt_of_le le), Option.map_some, List.take_left,
        List.length_append, List.length_replicate]

/-- The type that bytes spell is the one that the grammar gives them. -/
theorem field?_eq_some_iff : field? bytes = some type ↔ SpellsField bytes type := by
  constructor
  · intro h
    unfold field? at h
    split at h
    · rename_i found length hread
      split_ifs at h with hlength
      obtain rfl := Option.some.inj h
      obtain ⟨part, rest, rfl, rfl, hpart⟩ := readType_eq_some_iff.mp hread
      rw [List.length_append] at hlength
      obtain rfl := List.length_eq_zero_iff.mp (show rest.length = 0 by omega)
      rwa [List.append_nil]
    · nomatch h
  · intro h
    have hread := readType_eq_some_iff.mpr ⟨bytes, [], (List.append_nil _).symm, rfl, h⟩
    unfold field?
    rw [hread]
    exact if_pos rfl

/-- No field descriptor starts another one. -/
theorem SpellsField.unique (h : SpellsField part type) (h' : SpellsField other type')
    (heq : part ++ rest = other ++ rest') : part = other ∧ rest = rest' := by
  have hread := readType_eq_some_iff.mpr ⟨part, rest, rfl, rfl, h⟩
  have hread' := readType_eq_some_iff.mpr ⟨other, rest', heq, rfl, h'⟩
  have hlength := (Prod.mk.inj (Option.some.inj (hread.symm.trans hread'))).2
  exact List.append_inj heq hlength

/-! ### Arguments -/

/-- Where the arguments do not end, one is read, and then the others. -/
theorem readArguments_succ {fuel : Nat} {found : List ValueType}
    (h : ¬∃ rest, bytes = closing :: rest) : readArguments (fuel + 1) found bytes =
      (readType bytes).bind fun read =>
        readArguments fuel (read.1 :: found) (bytes.drop read.2) := by
  rw [readArguments]
  · cases readType bytes <;> rfl
  · exact fun rest heq => h ⟨rest, heq⟩

/-- What is read is a list of field descriptors up to a closing parenthesis. -/
theorem exists_parts_of_readArguments {fuel : Nat} {found arguments : List ValueType}
    (h : readArguments fuel found bytes = some (arguments, rest)) :
    ∃ parts types, arguments = found.reverse ++ types ∧ List.Forall₂ SpellsField parts types ∧
      bytes = parts.flatten ++ closing :: rest := by
  induction fuel generalizing found bytes with
  | zero => nomatch h
  | succ fuel ih =>
    by_cases hend : ∃ after, bytes = closing :: after
    · obtain ⟨after, rfl⟩ := hend
      obtain ⟨rfl, rfl⟩ := Prod.mk.inj (Option.some.inj h)
      exact ⟨[], [], (List.append_nil _).symm, .nil, rfl⟩
    · rw [readArguments_succ hend] at h
      obtain ⟨⟨type, length⟩, hread, hrest⟩ := Option.bind_eq_some_iff.mp h
      obtain ⟨part, after, rfl, rfl, hpart⟩ := readType_eq_some_iff.mp hread
      rw [List.drop_left] at hrest
      obtain ⟨parts, types, rfl, hparts, rfl⟩ := ih hrest
      refine ⟨part :: parts, type :: types, ?_, .cons hpart hparts, ?_⟩
      · rw [List.reverse_cons, List.append_assoc, List.singleton_append]
      · rw [List.flatten_cons, List.append_assoc]

/-- Any list of field descriptors up to a closing parenthesis is read. -/
theorem readArguments_flatten {fuel : Nat} {found types : List ValueType} {parts : List Bytes}
    (h : List.Forall₂ SpellsField parts types)
    (hfuel : (parts.flatten ++ closing :: rest).length < fuel) :
    readArguments fuel found (parts.flatten ++ closing :: rest) =
      some (found.reverse ++ types, rest) := by
  -- a field descriptor has one byte at least, so there is fuel for each of them
  induction h generalizing fuel found with
  | nil =>
    obtain ⟨fuel, rfl⟩ := Nat.exists_eq_succ_of_ne_zero (Nat.ne_zero_of_lt hfuel)
    rw [List.append_nil]
    rfl
  | @cons part type parts types hpart _ ih =>
    obtain ⟨fuel, rfl⟩ := Nat.exists_eq_succ_of_ne_zero (Nat.ne_zero_of_lt hfuel)
    have hread := readType_eq_some_iff.mpr ⟨part, parts.flatten ++ closing :: rest, rfl, rfl, hpart⟩
    have hpos := hpart.length_pos
    rw [List.flatten_cons, List.append_assoc] at hfuel ⊢
    rw [List.length_append] at hfuel
    rw [readArguments_succ fun ⟨after, heq⟩ => hpart.append_ne _ after heq, hread, Option.bind_some,
      List.drop_left, ih (by omega), List.reverse_cons, List.append_assoc, List.singleton_append]

/-! ### Methods -/

/-- What follows the arguments is `V` or the type of the result. -/
theorem method?_cons (rest : Bytes) : method? (opening :: rest) =
    (readArguments (rest.length + 1) [] rest).bind fun read =>
      if read.2 = [void] then some ⟨read.1, none⟩
      else (field? read.2).map fun result => ⟨read.1, some result⟩ := by
  simp only [method?, opening]
  cases readArguments (rest.length + 1) [] rest with
  | none => rfl
  | some read =>
    obtain ⟨arguments, result⟩ := read
    rw [Option.bind_some]
    by_cases hresult : result = [void]
    · subst hresult
      rfl
    · rw [if_neg hresult]
      split
      · next he => exact absurd (congrArg Prod.snd (Option.some.inj he)) hresult
      · next he => rw [Option.some.inj he]
      · next he => nomatch he

theorem method?_of_ne (h : ¬∃ rest, bytes = opening :: rest) : method? bytes = none := by
  unfold method?
  split
  · next rest => exact absurd ⟨rest, rfl⟩ h
  · rfl

theorem spellsResult_iff {arguments : List ValueType} {method : MethodType} :
    (if bytes = [void] then some (MethodType.mk arguments none)
      else (field? bytes).map fun result => ⟨arguments, some result⟩) = some method ↔
      method.arguments = arguments ∧ SpellsResult bytes method.result := by
  obtain ⟨found, result⟩ := method
  dsimp only
  split_ifs with hvoid
  · subst hvoid
    constructor
    · intro h
      obtain ⟨rfl, rfl⟩ := MethodType.mk.inj (Option.some.inj h)
      exact ⟨rfl, .absent⟩
    · rintro ⟨rfl, hresult⟩
      cases hresult with
      | absent => rfl
      | value h =>
        obtain ⟨first, others, heq, -, hne⟩ := h.head_ne
        exact absurd (List.cons.inj heq).1.symm hne
  · constructor
    · intro h
      obtain ⟨value, hvalue, heq⟩ := Option.map_eq_some_iff.mp h
      obtain ⟨rfl, rfl⟩ := MethodType.mk.inj heq
      exact ⟨rfl, .value (field?_eq_some_iff.mp hvalue)⟩
    · rintro ⟨rfl, hresult⟩
      cases hresult with
      | absent => exact absurd rfl hvoid
      | value h => rw [field?_eq_some_iff.mpr h, Option.map_some]

/-- The method type that bytes spell is the one that the grammar gives them. -/
theorem method?_eq_some_iff {method : MethodType} : method? bytes = some method ↔
    ∃ parts : Parts, parts.text = bytes ∧ parts.Spells method := by
  constructor
  · intro h
    by_cases hopen : ∃ rest, bytes = opening :: rest
    · obtain ⟨rest, rfl⟩ := hopen
      rw [method?_cons] at h
      obtain ⟨⟨arguments, result⟩, hread, hmethod⟩ := Option.bind_eq_some_iff.mp h
      obtain ⟨parts, types, rfl, hparts, rfl⟩ := exists_parts_of_readArguments hread
      obtain ⟨harguments, hresult⟩ := spellsResult_iff.mp hmethod
      exact ⟨⟨parts, result⟩, rfl, harguments ▸ hparts, hresult⟩
    · rw [method?_of_ne hopen] at h
      nomatch h
  · rintro ⟨parts, rfl, harguments, hresult⟩
    rw [Parts.text, method?_cons, readArguments_flatten harguments (Nat.lt_succ_self _),
      Option.bind_some]
    exact spellsResult_iff.mpr ⟨rfl, hresult⟩

/-- Arguments end at the same parenthesis, and are the same up to it. -/
theorem arguments_unique {parts others : List Bytes} {types types' : List ValueType}
    (h : List.Forall₂ SpellsField parts types) (h' : List.Forall₂ SpellsField others types')
    (heq : parts.flatten ++ closing :: rest = others.flatten ++ closing :: rest') :
    parts = others ∧ rest = rest' := by
  induction h generalizing others types' with
  | nil =>
    cases h' with
    | nil => exact ⟨rfl, (List.cons.inj heq).2⟩
    | cons hpart _ =>
      rw [List.flatten_cons, List.append_assoc] at heq
      exact absurd heq.symm (hpart.append_ne _ _)
  | @cons part type parts types hpart _ ih =>
    cases h' with
    | nil =>
      rw [List.flatten_cons, List.append_assoc] at heq
      exact absurd heq (hpart.append_ne _ _)
    | cons hother hothers =>
      rw [List.flatten_cons, List.flatten_cons, List.append_assoc, List.append_assoc] at heq
      obtain ⟨rfl, hafter⟩ := hpart.unique hother heq
      obtain ⟨rfl, hrest⟩ := ih hothers hafter
      exact ⟨rfl, hrest⟩

/-- A method descriptor is taken apart in one way only. -/
theorem Parts.Spells.unique {parts others : Parts} {method method' : MethodType}
    (h : parts.Spells method) (h' : others.Spells method') (heq : parts.text = others.text) :
    parts = others := by
  obtain ⟨hparts, hresult⟩ := arguments_unique h.arguments h'.arguments (List.cons.inj heq).2
  exact Parts.ext hparts hresult

/-- Descriptors are read by their grammar, and by nothing else: bytes have the type that is spelled
by them as a field descriptor, or by the parts that they are made of as a method descriptor.  There
is one way at most to take them apart. -/
theorem reads_grammar (bytes : Bytes) :
    (∀ type, field? bytes = some type ↔ SpellsField bytes type) ∧
      (∀ method, method? bytes = some method ↔
        ∃ parts : Parts, parts.text = bytes ∧ parts.Spells method) ∧
      {parts : Parts | parts.text = bytes ∧ ∃ method, parts.Spells method}.Subsingleton := by
  refine ⟨fun type => field?_eq_some_iff, fun method => method?_eq_some_iff, ?_⟩
  rintro parts ⟨htext, method, h⟩ others ⟨htext', method', h'⟩
  exact h.unique h' (htext.trans htext'.symm)

/-- Brackets, parentheses and `V` may occur in the name of a class. -/
example : method? (Bytes.ofAscii "(IL[)V;)[[J") =
    some ⟨[.int, .reference (Bytes.ofAscii "[)V")], some (.reference (Bytes.ofAscii "[[J"))⟩ := by
  decide +kernel

end ClassGraft.Descriptor

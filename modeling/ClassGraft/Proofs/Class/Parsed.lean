import ClassGraft.Proofs.Bytes.Reading
import ClassGraft.Proofs.Class.Restoring
import ClassGraft.Proofs.Graft.Sites
import ClassGraft.Proofs.Pool.Soundness

/-!
# Classes that were read

What a class is like that was read from a file: its pool is sound, its names are texts, and the
bodies of its methods are those that `Body.read` gave (`ClassFile.isParsed_of_parse`).  A body that
was read has at least one instruction, and its instructions are marked with their positions
(`Body.isInitial_of_read`).
-/

namespace ClassGraft

open Reader

variable {cursor next : Cursor} {pool : Pool}

/-! ### Parts and lists -/

theorem Reader.within_eq_ok {α : Type} {n : Nat} {reader : Reader α} {value : α} :
    within n reader cursor = .ok (value, next) ↔ ∃ part last,
      take n cursor = .ok (part, next) ∧ reader ⟨part, cursor.offset⟩ = .ok (value, last) := by
  unfold within
  cases htake : take n cursor with
  | error fault => simp
  | ok taken =>
    obtain ⟨part, after⟩ := taken
    cases hread : reader ⟨part, cursor.offset⟩ with
    | error fault => simp [hread]
    | ok found =>
      obtain ⟨value', last⟩ := found
      simp only [hread]
      constructor
      · intro h
        obtain ⟨rfl, rfl⟩ := Prod.mk.inj (Except.ok.inj h)
        exact ⟨part, last, rfl, hread⟩
      · rintro ⟨part', last', hpart, hvalue⟩
        obtain ⟨rfl, rfl⟩ := Prod.mk.inj (Except.ok.inj hpart)
        obtain ⟨rfl, rfl⟩ := Prod.mk.inj (Except.ok.inj (hread.symm.trans hvalue))
        rfl

theorem Reader.gives_repeatedFrom {α : Type} {reader : Reader α} {P : α → Prop}
    (h : reader.Gives P) {n : Nat} {found : List α} (hf : ∀ value ∈ found, P value) :
    (repeatedFrom reader n found).Gives fun values => ∀ value ∈ values, P value := by
  intro cursor values next hread
  induction n generalizing found cursor with
  | zero =>
    obtain ⟨rfl, -⟩ := Prod.mk.inj (Except.ok.inj hread)
    simpa using hf
  | succ n ih =>
    unfold repeatedFrom at hread
    split at hread
    · simp at hread
    · rename_i value between hvalue
      exact ih (List.forall_mem_cons.mpr ⟨h _ _ _ hvalue, hf⟩) _ hread

theorem Reader.gives_list {α : Type} {reader : Reader α} {P : α → Prop} (h : reader.Gives P) :
    (list reader).Gives fun values => ∀ value ∈ values, P value :=
  gives_bind fun _ => gives_repeatedFrom h (by simp)

/-! ### Bodies -/

/-- Code that is not empty has an instruction. -/
theorem Bytecode.ne_nil_of_all {rows : List (Nat × Instruction Nat)}
    (h : Bytecode.all cursor = .ok (rows, next)) (hne : cursor.rest ≠ []) : rows ≠ [] := by
  -- Once an instruction was found, it is among the rows in the end.
  have hfrom : ∀ {base fuel : Nat} {found : List (Nat × Instruction Nat)} {cursor : Cursor},
      found ≠ [] → allFrom base fuel found cursor = .ok (rows, next) → rows ≠ [] := by
    intro base fuel
    induction fuel with
    | zero =>
      intro found cursor hfound h
      obtain ⟨rfl, -⟩ := Prod.mk.inj (Except.ok.inj h)
      simpa using hfound
    | succ fuel ih =>
      intro found cursor hfound h
      unfold allFrom at h
      split_ifs at h with hempty
      · obtain ⟨rfl, -⟩ := Prod.mk.inj (Except.ok.inj h)
        simpa using hfound
      · cases hread : instruction base (cursor.offset - base) cursor with
        | error fault => simp [hread] at h
        | ok found' =>
          simp only [hread] at h
          exact ih (List.cons_ne_nil _ _) h
  obtain ⟨first, rest, hrest⟩ := List.exists_cons_of_ne_nil hne
  unfold all at h
  rw [hrest, List.length_cons, allFrom, if_neg (by simp [hrest])] at h
  dsimp only at h
  split at h
  · simp at h
  · exact hfrom (List.cons_ne_nil _ _) h

/-- Instructions that are numbered in order have their numbers for marks. -/
theorem map_mark_zipIdx (instructions : List (Instruction Mark)) :
    (instructions.zipIdx.map fun (instruction, i) => Step.mk ⟨i⟩ instruction).map (·.mark) =
      (List.range instructions.length).map Mark.mk := by
  rw [List.map_map, List.range_eq_range', ← List.zipIdx_map_snd 0 instructions, List.map_map]
  rfl

/-- The instructions of a body that was read are marked with their positions. -/
theorem Body.isInitial_of_read {name : UInt16} {body : Body}
    (h : Body.read name pool cursor = .ok (body, next)) : body.IsInitial ∧ body.steps ≠ [] := by
  obtain ⟨length, rows, instructions, c₁, c₂, -, -, hlength, hread, hinstructions, -, -, hbody⟩ :=
    of_read h
  obtain ⟨part, last, hpart, hall⟩ := within_eq_ok.mp hread
  have hrows : rows ≠ [] := by
    refine Bytecode.ne_nil_of_all hall fun hnil => hlength (.inl ?_)
    rw [← (rest_of_take hpart).1]
    exact List.length_eq_zero_iff.mpr hnil
  have hcount : rows.length = instructions.length :=
    (Except.mapM_eq_ok.mp hinstructions).length_eq
  have hmarks := map_mark_zipIdx instructions
  rw [hbody]
  refine ⟨⟨?_, fun step hstep => ?_, Nat.le_refl _, ?_⟩, ?_⟩
  · exact hmarks ▸ List.nodup_range.map fun a b he => congrArg Mark.number he
  · have hmem := List.mem_map_of_mem (f := (·.mark)) hstep
    rw [hmarks] at hmem
    obtain ⟨number, hnumber, he⟩ := List.mem_map.mp hmem
    exact he ▸ List.mem_range.mp hnumber
  · simp [hcount]
  · refine fun hnil => hrows (List.length_eq_zero_iff.mp ?_)
    simpa [hcount] using hnil

/-! ### Members -/

/-- Whether an attribute of a method is as it was read: a body, or an attribute with another name. -/
def MethodAttribute.IsParsed (pool : Pool) : MethodAttribute → Prop
  | .code body => pool.utf8Is body.name "Code" = true ∧
    ∃ cursor next, Body.read body.name pool cursor = .ok (body, next)
  | .other raw => (pool.utf8 raw.name).isSome ∧ pool.utf8Is raw.name "Code" = false

/-- Whether a method is as it was read. -/
structure Method.IsParsed (pool : Pool) (method : Method) : Prop where
  name : (pool.utf8 method.name).isSome
  descriptor : (pool.utf8 method.descriptor).isSome
  attributes : ∀ item ∈ method.attributes, item.IsParsed pool
  one : (method.attributes.filter (·.body?.isSome)).length ≤ 1

theorem Pool.isSome_of_readTextIndex {role : String} {index : UInt16}
    (h : pool.readTextIndex role cursor = .ok (index, next)) : (pool.utf8 index).isSome := by
  obtain ⟨found, between, -, h⟩ := bind_eq_ok.mp h
  split_ifs at h with hsome
  · obtain ⟨rfl, -⟩ := pure_eq_ok.mp h
    exact hsome
  · exact absurd h malformed_ne_ok

theorem MethodAttribute.isParsed_of_readFrom {method : UInt16} {count : Nat}
    {found attributes : List MethodAttribute}
    (hf : ∀ item ∈ found, item.IsParsed pool)
    (hone : (found.filter (·.body?.isSome)).length ≤ 1)
    (h : readFrom pool method count found cursor = .ok (attributes, next)) :
    (∀ item ∈ attributes, item.IsParsed pool) ∧
      (attributes.filter (·.body?.isSome)).length ≤ 1 := by
  induction count generalizing found cursor with
  | zero =>
    obtain ⟨rfl, -⟩ := pure_eq_ok.mp h
    refine ⟨by simpa using hf, ?_⟩
    rwa [List.filter_reverse, List.length_reverse]
  | succ count ih =>
    obtain ⟨name, c₁, hname, h⟩ := bind_eq_ok.mp h
    obtain ⟨length, c₂, -, h⟩ := bind_eq_ok.mp h
    obtain ⟨start, c₃, -, h⟩ := bind_eq_ok.mp h
    obtain ⟨info, c₄, -, h⟩ := bind_eq_ok.mp h
    split_ifs at h with hcode hsecond
    · obtain ⟨_, _, hm, -⟩ := bind_eq_ok.mp h
      exact absurd hm malformed_ne_ok
    · obtain ⟨⟨body, last⟩, c₅, hlift, hmore⟩ := bind_eq_ok.mp h
      obtain ⟨hbody, rfl⟩ := lift_eq_ok.mp hlift
      obtain ⟨rfl, -⟩ := Body.encoded_of_read hbody
      have hitem : (MethodAttribute.code body).IsParsed pool := ⟨hcode, _, _, hbody⟩
      refine ih (List.forall_mem_cons.mpr ⟨hitem, hf⟩) ?_ hmore
      -- no body was found before this one
      have hnone : found.filter (·.body?.isSome) = [] :=
        List.filter_eq_nil_iff.mpr fun item ha hb =>
          hsecond (List.any_eq_true.mpr ⟨item, ha, hb⟩)
      rw [List.filter_cons_of_pos (by rfl), hnone]
      exact Nat.le_refl 1
    · have hitem : (MethodAttribute.other ⟨name, info⟩).IsParsed pool :=
        ⟨Pool.isSome_of_readTextIndex hname, by simpa using hcode⟩
      refine ih (List.forall_mem_cons.mpr ⟨hitem, hf⟩) ?_ h
      rwa [List.filter_cons_of_neg (by simp [MethodAttribute.body?])]

theorem Method.gives_isParsed (pool : Pool) : (Method.read pool).Gives (Method.IsParsed pool) := by
  intro cursor method next h
  obtain ⟨access, c₁, -, h⟩ := bind_eq_ok.mp h
  obtain ⟨name, c₂, hname, h⟩ := bind_eq_ok.mp h
  obtain ⟨descriptor, c₃, hdescriptor, h⟩ := bind_eq_ok.mp h
  obtain ⟨count, c₄, -, h⟩ := bind_eq_ok.mp h
  obtain ⟨attributes, c₅, hattributes, h⟩ := bind_eq_ok.mp h
  obtain ⟨rfl, -⟩ := pure_eq_ok.mp h
  obtain ⟨hall, hone⟩ :=
    MethodAttribute.isParsed_of_readFrom (List.forall_mem_nil _) (by simp) hattributes
  exact ⟨Pool.isSome_of_readTextIndex hname, Pool.isSome_of_readTextIndex hdescriptor, hall, hone⟩

theorem RawAttribute.gives_name (pool : Pool) :
    (RawAttribute.read pool).Gives fun raw => (pool.utf8 raw.name).isSome := by
  intro cursor raw next h
  obtain ⟨name, c₁, hname, h⟩ := bind_eq_ok.mp h
  obtain ⟨length, c₂, -, h⟩ := bind_eq_ok.mp h
  obtain ⟨info, c₃, -, h⟩ := bind_eq_ok.mp h
  obtain ⟨rfl, -⟩ := pure_eq_ok.mp h
  exact Pool.isSome_of_readTextIndex hname

/-- Whether the names of a field are texts of a pool. -/
structure Field.IsNamed (pool : Pool) (field : Field) : Prop where
  name : (pool.utf8 field.name).isSome
  descriptor : (pool.utf8 field.descriptor).isSome
  attributes : ∀ raw ∈ field.attributes, (pool.utf8 raw.name).isSome

theorem Field.gives_isNamed (pool : Pool) : (Field.read pool).Gives (Field.IsNamed pool) := by
  intro cursor field next h
  obtain ⟨access, c₁, -, h⟩ := bind_eq_ok.mp h
  obtain ⟨name, c₂, hname, h⟩ := bind_eq_ok.mp h
  obtain ⟨descriptor, c₃, hdescriptor, h⟩ := bind_eq_ok.mp h
  obtain ⟨attributes, c₄, hattributes, h⟩ := bind_eq_ok.mp h
  obtain ⟨rfl, -⟩ := pure_eq_ok.mp h
  exact ⟨Pool.isSome_of_readTextIndex hname, Pool.isSome_of_readTextIndex hdescriptor,
    gives_list (RawAttribute.gives_name pool) _ _ _ hattributes⟩

/-! ### The class -/

namespace ClassFile

/-- Whether all that stands in a class outside of its methods is as it was read. -/
structure IsNamed (file : ClassFile) : Prop where
  version : isSupported file.majorVersion = true
  thisClass : file.pool.isClass file.thisClass = true
  superClass : file.superClass = 0 ∨ (file.pool.className file.superClass).isSome
  interfaces : ∀ index ∈ file.interfaces, file.pool.isClass index = true
  fields : ∀ field ∈ file.fields, field.IsNamed file.pool
  attributes : ∀ raw ∈ file.attributes, (file.pool.utf8 raw.name).isSome

/-- Whether a class is as it was read. -/
structure IsParsed (file : ClassFile) : Prop extends IsNamed file where
  sound : file.pool.IsSound
  methods : ∀ method ∈ file.methods, method.IsParsed file.pool

theorem Pool.isClass_of_readClassIndex {role : String} {index : UInt16}
    (h : pool.readClassIndex role cursor = .ok (index, next)) : pool.isClass index = true := by
  obtain ⟨found, between, -, h⟩ := bind_eq_ok.mp h
  split_ifs at h with hclass
  · obtain ⟨rfl, -⟩ := pure_eq_ok.mp h
    exact hclass
  · exact absurd h malformed_ne_ok

theorem isParsed_of_read {file : ClassFile} (h : read cursor = .ok (file, next)) :
    file.IsParsed := by
  obtain ⟨found, c₁, -, h⟩ := bind_eq_ok.mp h
  obtain ⟨-, h⟩ := guard_eq_ok.mp h
  obtain ⟨minor, c₂, -, h⟩ := bind_eq_ok.mp h
  obtain ⟨major, c₃, -, h⟩ := bind_eq_ok.mp h
  obtain ⟨hversion, h⟩ := guard_eq_ok.mp h
  obtain ⟨pool, c₄, hpool, h⟩ := bind_eq_ok.mp h
  obtain ⟨access, c₅, -, h⟩ := bind_eq_ok.mp h
  obtain ⟨thisClass, c₆, hthis, h⟩ := bind_eq_ok.mp h
  obtain ⟨superClass, c₇, -, h⟩ := bind_eq_ok.mp h
  obtain ⟨hsuper, h⟩ := guard_eq_ok.mp h
  obtain ⟨interfaces, c₈, hinterfaces, h⟩ := bind_eq_ok.mp h
  obtain ⟨fields, c₉, hfields, h⟩ := bind_eq_ok.mp h
  obtain ⟨methods, c₁₀, hmethods, h⟩ := bind_eq_ok.mp h
  obtain ⟨attributes, c₁₁, hattributes, h⟩ := bind_eq_ok.mp h
  obtain ⟨_, c₁₂, -, h⟩ := bind_eq_ok.mp h
  obtain ⟨rfl, -⟩ := pure_eq_ok.mp h
  have hclass : (pool.readClassIndex "interface").Gives fun index => pool.isClass index = true :=
    fun _ _ _ h => Pool.isClass_of_readClassIndex h
  -- Each part of the claim is what the reader of that part gives, or a check made after it.
  refine ⟨⟨by simpa using hversion, Pool.isClass_of_readClassIndex hthis, ?_,
    gives_list hclass _ _ _ hinterfaces, gives_list (Field.gives_isNamed pool) _ _ _ hfields,
    gives_list (RawAttribute.gives_name pool) _ _ _ hattributes⟩, Pool.isSound_of_read hpool,
    gives_list (Method.gives_isParsed pool) _ _ _ hmethods⟩
  by_cases hz : superClass = 0
  · exact .inl hz
  · exact .inr (by simpa [hz, Option.isSome_iff_ne_none] using hsuper)

theorem isParsed_of_parse {bytes : Bytes} {file : ClassFile} (h : parse bytes = .ok file) :
    file.IsParsed := by
  obtain ⟨⟨found, next⟩, hread, rfl⟩ := Except.map_eq_ok.mp h
  exact isParsed_of_read hread

end ClassFile

end ClassGraft

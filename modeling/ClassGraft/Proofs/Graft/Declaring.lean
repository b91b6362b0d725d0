import ClassGraft.Proofs.Class.Distinct
import ClassGraft.Proofs.Class.Refreshing
import ClassGraft.Proofs.Graft.Precedence

/-!
# Members that are declared

An edit that adds a member declares it, be it new or put in place of one that is there.  Whatever
else edits do, members keep their names (`ClassFile.KeepsNames`), and so a class has the members
that it had at the start and those that were declared since, by the edits of patches that were not
skipped (`ClassFile.gathers_of_leads`).  No two of them are alike, since a member is only added
where there is none of its name, in either form of it.
-/

namespace ClassGraft

/-- The member that an edit declares. -/
def Edit.declared? : Edit → Option (MemberSort × Signature)
  | addMethod _ method _ _ => some (.method, method)
  | addField _ field _ => some (.field, field)
  | _ => none

/-- Whether the edit puts up with a member that is there already, and overwrites it. -/
def Edit.overwrites : Edit → Bool
  | addMethod _ _ _ overwrite => overwrite
  | addField _ _ overwrite => overwrite
  | _ => false

namespace ClassFile

variable {file between later : ClassFile} {sort : MemberSort} {signature : Signature}
  {declared others : List (MemberSort × Signature)}

/-! ### Members that are told apart by bytes -/

theorem namesMembers_iff : file.NamesMembers ↔
    ∀ sort, ∀ key ∈ file.memberKeys sort, key.1.isSome ∧ key.2.isSome := by
  refine forall_congr' fun sort => ⟨fun h key hkey => ?_, fun h row hrow => ?_⟩
  · obtain ⟨row, hrow, rfl⟩ := List.mem_map.mp hkey
    exact h row hrow
  · exact h _ (List.mem_map_of_mem hrow)

theorem hasMember_iff : file.HasMember sort signature ↔ ∃ name descriptor,
    (some name, some descriptor) ∈ file.memberKeys sort ∧
      ModifiedUtf8.Spells name signature.name ∧
      ModifiedUtf8.Spells descriptor signature.descriptor := by
  constructor
  · rintro ⟨row, hrow, ⟨name, hname, hn⟩, descriptor, hdescriptor, hd⟩
    exact ⟨name, descriptor, List.mem_map.mpr ⟨row, hrow, by rw [hname, hdescriptor]⟩, hn, hd⟩
  · rintro ⟨name, descriptor, hkey, hn, hd⟩
    obtain ⟨row, hrow, hsame⟩ := List.mem_map.mp hkey
    obtain ⟨hname, hdescriptor⟩ := Prod.mk.inj hsame
    exact ⟨row, hrow, ⟨name, hname, hn⟩, descriptor, hdescriptor, hd⟩

/-! ### Members that keep their names -/

/-- Whether a class has the members of another one in the same order, all by the same names. -/
structure KeepsNames (file later : ClassFile) : Prop where
  pool : file.pool.Grows later.pool
  names : ∀ sort, later.memberNames sort = file.memberNames sort

theorem KeepsNames.refl (file : ClassFile) : file.KeepsNames file := ⟨.refl _, fun _ => rfl⟩

theorem KeepsNames.trans (h : file.KeepsNames between) (h' : between.KeepsNames later) :
    file.KeepsNames later :=
  ⟨h.pool.trans h'.pool, fun sort => (h'.names sort).trans (h.names sort)⟩

theorem keeps_withPool {pool : Pool} (h : file.pool.Extends pool) :
    file.KeepsNames { file with pool := pool } :=
  ⟨h.grows, fun sort => by cases sort <;> rfl⟩

theorem keeps_modifyMethod (file : ClassFile) (index : Nat) {change : Method → Method}
    (hc : ∀ method, (change method).name = method.name ∧
      (change method).descriptor = method.descriptor) :
    file.KeepsNames (file.modifyMethod index change) := by
  refine ⟨.refl _, fun sort => ?_⟩
  cases sort with
  | field => rfl
  | method => exact file.members_modifyMethod index hc

theorem keeps_setBody (file : ClassFile) (index : Nat) (body : Body) :
    file.KeepsNames (file.setBody index body) :=
  file.keeps_modifyMethod index fun _ => ⟨rfl, rfl⟩

/-- A field that gets other flags keeps its name. -/
theorem keeps_modifyField (file : ClassFile) (position : Nat) (access : UInt16) :
    file.KeepsNames { file with
      fields := file.fields.modify position fun field => { field with access := access } } := by
  refine ⟨.refl _, fun sort => ?_⟩
  cases sort with
  | method => rfl
  | field =>
    refine map_modify_of_eq (fun _ => ?_) file.fields position
    rfl

/-- Refreshing keeps all names. -/
theorem IsRefreshed.keeps {thisClass : Bytes} {hierarchy : Hierarchy} {now : Nat → Prop}
    (h : file.IsRefreshed thisClass hierarchy now later) : file.KeepsNames later := by
  refine ⟨h.grown.grows, fun sort => ?_⟩
  cases sort with
  | field =>
    rw [h.others]
    rfl
  | method =>
    refine List.ext_getElem? fun i => ?_
    show (later.methods.map _)[i]? = (file.methods.map _)[i]?
    rw [List.getElem?_map, List.getElem?_map]
    by_cases hi : now i ∧ file.isStale i = true
    · obtain ⟨method, method', hmethod, hmethod', body, head, body', before, after, -, -, -, -, -,
        -, rfl⟩ := h.stale i hi.1 hi.2
      rw [hmethod, hmethod']
      rfl
    · rw [h.same i hi]

/-- The texts of members that are there stay what they are. -/
theorem map_utf8_of_grows {pool later : Pool} {rows : List (UInt16 × UInt16)}
    (hg : pool.Grows later)
    (hrows : ∀ row ∈ rows, (pool.utf8 row.1).isSome ∧ (pool.utf8 row.2).isSome) :
    rows.map (fun row => (later.utf8 row.1, later.utf8 row.2)) =
      rows.map fun row => (pool.utf8 row.1, pool.utf8 row.2) := by
  refine List.map_congr_left fun row hrow => ?_
  obtain ⟨name, hname⟩ := Option.isSome_iff_exists.mp (hrows row hrow).1
  obtain ⟨descriptor, hdescriptor⟩ := Option.isSome_iff_exists.mp (hrows row hrow).2
  rw [hname, hdescriptor, hg.utf8 hname, hg.utf8 hdescriptor]

theorem KeepsNames.keys_eq (h : file.KeepsNames later) (hn : file.NamesMembers)
    (sort : MemberSort) : later.memberKeys sort = file.memberKeys sort := by
  rw [memberKeys, h.names sort]
  exact map_utf8_of_grows h.pool (hn sort)

/-! ### Members that are gathered -/

/-- Whether a class has the members of another one and those that were declared, all by names, and
no two that are alike unless the other one has some. -/
structure Gathers (file : ClassFile) (declared : List (MemberSort × Signature))
    (later : ClassFile) : Prop where
  namesMembers : later.NamesMembers
  isDistinct : file.IsDistinct → later.IsDistinct
  hasMember_iff : ∀ sort signature,
    later.HasMember sort signature ↔ file.HasMember sort signature ∨ (sort, signature) ∈ declared

theorem Gathers.trans (h : file.Gathers declared between) (h' : between.Gathers others later) :
    file.Gathers (declared ++ others) later := by
  refine ⟨h'.namesMembers, fun hd => h'.isDistinct (h.isDistinct hd), fun sort signature => ?_⟩
  rw [h'.hasMember_iff, h.hasMember_iff, List.mem_append, or_assoc]

theorem KeepsNames.gathers (h : file.KeepsNames later) (hn : file.NamesMembers) :
    file.Gathers [] later := by
  have hkeys := h.keys_eq hn
  refine ⟨namesMembers_iff.mpr fun sort => hkeys sort ▸ namesMembers_iff.mp hn sort,
    fun hd sort => hkeys sort ▸ hd sort, fun sort signature => ?_⟩
  rw [ClassFile.hasMember_iff, ClassFile.hasMember_iff, hkeys sort]
  simp

/-- A member may be declared that the class has already. -/
theorem KeepsNames.gathers_of_hasMember (h : file.KeepsNames later) (hn : file.NamesMembers)
    (hs : file.HasMember sort signature) : file.Gathers [(sort, signature)] later := by
  obtain ⟨namesMembers, isDistinct, hasMember_iff⟩ := h.gathers hn
  refine ⟨namesMembers, isDistinct, fun other named => ?_⟩
  rw [hasMember_iff, List.mem_singleton, Prod.mk.injEq]
  constructor
  · rintro (hhas | hnone)
    · exact .inl hhas
    · exact absurd hnone List.not_mem_nil
  · rintro (hhas | ⟨rfl, rfl⟩)
    · exact .inl hhas
    · exact .inl hs

/-- A member that the class did not have comes last, with its texts in modified UTF-8. -/
theorem gathers_of_append (hn : file.NamesMembers) (hfree : ¬file.HasMember sort signature)
    (hkeys : later.memberKeys sort = file.memberKeys sort ++
      [(some (ModifiedUtf8.encode signature.name),
        some (ModifiedUtf8.encode signature.descriptor))])
    (hothers : ∀ other, other ≠ sort → later.memberKeys other = file.memberKeys other) :
    file.Gathers [(sort, signature)] later := by
  have hn := namesMembers_iff.mp hn
  refine ⟨namesMembers_iff.mpr fun other key hkey => ?_, fun hd other => ?_, fun other named => ?_⟩
  · by_cases ho : other = sort
    · subst ho
      rw [hkeys, List.mem_append, List.mem_singleton] at hkey
      rcases hkey with hkey | rfl
      · exact hn other key hkey
      · exact ⟨rfl, rfl⟩
    · exact hn other key (hothers other ho ▸ hkey)
  · by_cases ho : other = sort
    · subst ho
      rw [hkeys]
      -- equal bytes would spell the same texts, and the member would have been found
      refine List.nodup_append.mpr ⟨hd other, List.nodup_singleton _, fun key hkey last hlast => ?_⟩
      rintro rfl
      obtain rfl := List.mem_singleton.mp hlast
      exact hfree (ClassFile.hasMember_iff.mpr ⟨_, _, hkey, ModifiedUtf8.decode_encode _,
        ModifiedUtf8.decode_encode _⟩)
    · exact hothers other ho ▸ hd other
  · rw [ClassFile.hasMember_iff, ClassFile.hasMember_iff, List.mem_singleton, Prod.mk.injEq]
    by_cases ho : other = sort
    · subst ho
      simp only [hkeys, List.mem_append, List.mem_singleton, true_and, Prod.mk.injEq,
        Option.some.injEq]
      constructor
      · rintro ⟨name, descriptor, hkey | ⟨rfl, rfl⟩, hname, hdescriptor⟩
        · exact .inl ⟨name, descriptor, hkey, hname, hdescriptor⟩
        · cases named
          cases signature
          rw [Signature.mk.injEq]
          exact .inr ⟨hname.unique (ModifiedUtf8.decode_encode _),
            hdescriptor.unique (ModifiedUtf8.decode_encode _)⟩
      · rintro (⟨name, descriptor, hkey, hname, hdescriptor⟩ | rfl)
        · exact ⟨name, descriptor, .inl hkey, hname, hdescriptor⟩
        · exact ⟨_, _, .inr ⟨rfl, rfl⟩, ModifiedUtf8.decode_encode _,
            ModifiedUtf8.decode_encode _⟩
    · simp [hothers other ho, ho]

/-- A member is added by its texts where there is none of its name. -/
theorem gathers_of_utf8 {pool : Pool} {nameIndex descriptorIndex : UInt16} (hn : file.NamesMembers)
    (hfree : ¬file.HasMember sort signature)
    (hname : Interning.utf8 signature.name file.pool = (.ok nameIndex, pool))
    (hdescriptor : Interning.utf8 signature.descriptor pool = (.ok descriptorIndex, later.pool))
    (hnames : later.memberNames sort = file.memberNames sort ++ [(nameIndex, descriptorIndex)])
    (hothers : ∀ other, other ≠ sort → later.memberNames other = file.memberNames other) :
    file.Gathers [(sort, signature)] later := by
  obtain ⟨hx, hn'⟩ := Interning.utf8Bytes_spec hname
  obtain ⟨hx', hd⟩ := Interning.utf8Bytes_spec hdescriptor
  have hg := (hx.trans hx').grows
  refine gathers_of_append hn hfree ?_ fun other ho => ?_
  · rw [memberKeys, hnames, List.map_append, map_utf8_of_grows hg (hn sort), List.map_singleton,
      hx'.grows.utf8 hn', hd]
    rfl
  · rw [memberKeys, hothers other ho]
    exact map_utf8_of_grows hg (hn other)

end ClassFile

/-! ### Edits -/

namespace Grafting

variable {graft later : Graft} {patch : Patch} {edit : Edit} {note : Note} {index : Nat}

theorem keeps_bodyOf {template : Template} {body : Body}
    (h : bodyOf template graft = (.ok body, later)) : graft.file.KeepsNames later.file := by
  obtain ⟨pool, hpool, rfl⟩ := extends_bodyOf h
  exact ClassFile.keeps_withPool hpool

theorem keeps_bodyOrNew {body : Body} (h : bodyOrNew index graft = (.ok body, later)) :
    graft.file.KeepsNames later.file := by
  rcases bodyOrNew_eq_ok h with ⟨-, rfl⟩ | ⟨name, pool, hname, -, -, rfl⟩
  · exact .refl _
  · exact (ClassFile.keeps_withPool (Interning.onlyAdds_utf8 _ _ _ _ hname)).trans
      (ClassFile.keeps_modifyMethod _ _ fun _ => ⟨rfl, rfl⟩)

theorem keeps_replaceBody {code : Template}
    (h : replaceBody patch edit code graft = (.ok note, later)) :
    graft.file.KeepsNames later.file := by
  obtain ⟨index, method, -, -, h⟩ := replaceBody_eq_ok h
  rcases h with ⟨-, -, -, rfl⟩ | ⟨-, -, body, between, steps, supply, hbody, hsteps, rfl⟩
  · exact .refl _
  · have hbetween := keeps_bodyOrNew hbody
    exact hbetween.trans <| (ClassFile.keeps_withPool (Template.steps_spec hsteps).1).trans
      (ClassFile.keeps_setBody _ _ _)

theorem keeps_insertAt {anchor : Anchor} {code : Template}
    (h : insertAt patch edit anchor code graft = (.ok note, later)) :
    graft.file.KeepsNames later.file := by
  obtain ⟨index, method, -, -, h⟩ := insertAt_eq_ok h
  rcases h with ⟨-, -, -, rfl⟩ | ⟨-, body, body', history, between, -, -, hsites, rfl⟩
  · exact .refl _
  · obtain ⟨pool, hpool, rfl⟩ := extends_insertAtSites hsites
    exact (ClassFile.keeps_withPool hpool).trans (ClassFile.keeps_setBody _ _ _)

theorem keeps_redirectIn {callee replacement : MemberName} {kind : Option CallKind} {count : Nat}
    (h : redirectIn patch edit callee replacement kind index graft = (.ok count, later)) :
    graft.file.KeepsNames later.file := by
  rcases redirectIn_eq_ok h with ⟨-, rfl⟩ | ⟨body, steps, between, -, -, hsteps, rfl⟩
  · exact .refl _
  · obtain ⟨pool, hpool, rfl⟩ := extends_redirectSteps hsteps
    exact (ClassFile.keeps_withPool hpool).trans (ClassFile.keeps_setBody _ _ _)

theorem keeps_redirectInAll {callee replacement : MemberName} {kind : Option CallKind}
    {indices : List Nat} {count count' : Nat}
    (h : redirectInAll patch edit callee replacement kind indices count graft =
      (.ok count', later)) : graft.file.KeepsNames later.file := by
  exact redirectInAll_induction (P := fun last => graft.file.KeepsNames last.file)
    (fun index _ before more after hbefore hstep => hbefore.trans (keeps_redirectIn hstep))
    (.refl _) h

theorem keeps_redirectCall {callee replacement : MemberName} {kind : Option CallKind}
    {required : Bool}
    (h : redirectCall patch edit callee replacement kind required graft = (.ok note, later)) :
    graft.file.KeepsNames later.file := by
  rcases eq_or_of_redirectCall h with rfl | ⟨indices, count, hall⟩
  · exact .refl _
  · exact keeps_redirectInAll hall

theorem gathers_addMethod {access : List Modifier} {method : Signature} {code : Option Template}
    {overwrite : Bool} (hn : graft.file.NamesMembers)
    (h : addMethod patch edit access method code overwrite graft = (.ok note, later)) :
    graft.file.Gathers [(.method, method)] later.file := by
  obtain ⟨body, between, hbody, hlast⟩ := addMethod_eq_ok h
  have hkeeps : graft.file.KeepsNames between.file := by
    rcases hbody with ⟨-, -, rfl⟩ | ⟨template, made, -, -, hmade⟩
    · exact .refl _
    · exact keeps_bodyOf hmade
  rcases hlast with ⟨other, hother, -, hover⟩ | ⟨hnone, -, result, hadd⟩
  · have hkept : between.file.KeepsNames later.file := by
      rw [(overwriteMethod_eq_ok hover).2]
      exact ClassFile.keeps_modifyMethod _ _ Method.names_overwritten
    exact (hkeeps.trans hkept).gathers_of_hasMember hn
      (ClassFile.isSome_memberIndex?.mp (Option.isSome_of_eq_some hother))
  · have hbetween := hkeeps.gathers hn
    have hfree : ¬between.file.HasMember .method method := by
      rw [hbetween.hasMember_iff, ← ClassFile.isSome_memberIndex?]
      simp [ClassFile.memberIndex?, hnone]
    obtain ⟨nameIndex, descriptorIndex, middle, pool, hname, hdescriptor, rfl⟩ :=
      changeAddMethod_eq_ok hadd
    refine hbetween.trans (ClassFile.gathers_of_utf8 hbetween.namesMembers hfree hname
      hdescriptor ?_ fun other ho => ?_)
    · exact List.map_append
    · cases other with
      | field => rfl
      | method => exact absurd rfl ho

theorem gathers_addField {access : List Modifier} {field : Signature} {overwrite : Bool}
    (hn : graft.file.NamesMembers)
    (h : addField edit access field overwrite graft = (.ok note, later)) :
    graft.file.Gathers [(.field, field)] later.file := by
  rcases (addField_eq_ok h).2 with ⟨position, hposition, -, rfl⟩ | ⟨hnone, result, hadd⟩
  · exact (ClassFile.keeps_modifyField _ _ _).gathers_of_hasMember hn
      (ClassFile.isSome_memberIndex?.mp (Option.isSome_of_eq_some hposition))
  · have hfree : ¬graft.file.HasMember .field field := by
      rw [← ClassFile.isSome_memberIndex?]
      simp [ClassFile.memberIndex?, hnone]
    obtain ⟨nameIndex, descriptorIndex, between, pool, hname, hdescriptor, rfl⟩ :=
      changeAddField_eq_ok hadd
    refine ClassFile.gathers_of_utf8 hn hfree hname hdescriptor ?_ fun other ho => ?_
    · exact List.map_append
    · cases other with
      | field => exact absurd rfl ho
      | method => rfl

/-- After an edit the class has the members that it had, and the one that the edit declares. -/
theorem gathers_apply (hn : graft.file.NamesMembers)
    (h : apply patch edit graft = (.ok note, later)) :
    graft.file.Gathers edit.declared?.toList later.file := by
  cases edit with
  | addMethod access method code overwrite => exact gathers_addMethod hn h
  | addField access field overwrite => exact gathers_addField hn h
  | replaceBody code => exact (keeps_replaceBody h).gathers hn
  | insertAt anchor code => exact (keeps_insertAt h).gathers hn
  | redirectCall callee replacement kind required => exact (keeps_redirectCall h).gathers hn

end Grafting

/-! ### Runs -/

namespace ClassFile

variable {file : ClassFile} {graft : Graft}

/-- After turns a class has the members that it had at the start, and those that were declared. -/
theorem gathers_of_leads {turns : List Turn} (hn : file.NamesMembers)
    (hl : (Graft.start file).Leads turns graft) :
    file.Gathers (turns.filterMap (·.edit.declared?)) graft.file := by
  induction hl with
  | refl => exact (KeepsNames.refl file).gathers hn
  | @step past turn _ valid ih =>
    have hturn := ih.trans (Grafting.gathers_apply ih.namesMembers valid)
    rw [List.filterMap_append]
    cases hdeclared : turn.edit.declared? with
    | none => simpa [hdeclared] using hturn
    | some declared => simpa [hdeclared] using hturn

end ClassFile

end ClassGraft

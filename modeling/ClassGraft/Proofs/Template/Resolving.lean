import ClassGraft.Proofs.Template.Reading
import ClassGraft.Proofs.Template.Steps

/-!
# What the instructions of a template refer to

Each line of a template but for labels becomes one instruction, which refers to the constants that the
line names and jumps to the mark of its label (`Template.becomes_of_stepsFrom`).  A label that the
template defines has a mark when the first of its instructions is made
(`Template.exists_mark_of_labelMarks`), that of the instruction that follows it
(`Template.getElem?_labelMarks`).  A label that it does not define (`Template.Misses`) has one mark of
its own (`Labels.Leads`).
-/

namespace ClassGraft

namespace Template

variable {template lines : Template} {labels labels' : Labels}

/-! ### Labels that are defined -/

/-- Whether the template jumps to a label that it does not define. -/
def Misses (template : Template) (name : String) : Prop :=
  (∃ op, .jump op name ∈ template) ∧ .label name ∉ template

theorem eq_label_of_label? {line : Line} {name : String} (h : line.label? = some name) :
    line = .label name := by
  cases line with
  | label found => rw [Option.some.inj h]
  | _ => cases h

/-- A label that has a mark keeps one. -/
theorem exists_foldl_insert {mark : Mark} {names : List String} {name : String}
    (h : (∃ mark, labels[name]? = some mark) ∨ name ∈ names) :
    ∃ found, (names.foldl (fun labels name => labels.insert name mark) labels)[name]? =
      some found := by
  induction names generalizing labels with
  | nil => exact h.resolve_right List.not_mem_nil
  | cons other rest ih =>
    refine ih ?_
    by_cases hname : other = name
    · exact .inl ⟨mark, by rw [hname, Std.HashMap.getElem?_insert_self]⟩
    · rcases h with ⟨found, hfound⟩ | hin
      · refine .inl ⟨found, ?_⟩
        rw [Std.HashMap.getElem?_insert, if_neg (by simpa using hname), hfound]
      · exact .inr ((List.mem_cons.mp hin).resolve_left (Ne.symm hname))

/-- Labels get marks unless no instruction follows them. -/
theorem exists_of_labelMarks {next : Nat} {pending trailing : List String} {name : String}
    (h : labelMarks next pending labels lines = (labels', trailing))
    (hn : (∃ mark, labels[name]? = some mark) ∨ name ∈ pending ∨ .label name ∈ lines) :
    (∃ mark, labels'[name]? = some mark) ∨ name ∈ trailing := by
  induction lines generalizing next pending labels with
  | nil =>
    obtain ⟨rfl, rfl⟩ := Prod.mk.inj h
    simpa using hn
  | cons line rest ih =>
    unfold labelMarks at h
    -- A label waits for the next line that is none, which gives its mark to all that wait.
    cases hlabel : line.label? with
    | some other =>
      simp only [hlabel] at h
      have hline := eq_label_of_label? hlabel
      refine ih h ?_
      rcases hn with hn | hn | hn
      · exact .inl hn
      · exact .inr (.inl (List.mem_cons_of_mem _ hn))
      · rcases List.mem_cons.mp hn with heq | hn
        · rw [hline] at heq
          exact .inr (.inl (List.mem_cons.mpr (.inl (Line.label.inj heq))))
        · exact .inr (.inr hn)
    | none =>
      simp only [hlabel] at h
      refine ih h ?_
      rcases hn with hn | hn | hn
      · exact .inl (exists_foldl_insert (.inl hn))
      · exact .inl (exists_foldl_insert (.inr (List.mem_reverse.mpr hn)))
      · rcases List.mem_cons.mp hn with rfl | hn
        · cases hlabel
        · exact .inr (.inr hn)

/-- At the start the labels that the template defines have marks. -/
theorem exists_mark_of_labelMarks {first : Nat} {name : String}
    (h : labelMarks first [] ∅ template = (labels, [])) (hn : .label name ∈ template) :
    ∃ mark, labels[name]? = some mark :=
  (exists_of_labelMarks h (.inr (.inr hn))).resolve_right List.not_mem_nil

end Template

/-! ### Lines and instructions -/

/-- Whether a constant is the one at an index. -/
def Constant.IsAt (pool : Pool) (index : UInt16) : Constant → Prop
  | int value => pool.get index = some (.integer value)
  | float bits => pool.get index = some (.float bits)
  | long value => pool.get index = some (.long value)
  | double bits => pool.get index = some (.double bits)
  | string value => ∃ text, pool.get index = some (.named .string text) ∧
    pool.utf8 text = some (ModifiedUtf8.encode value)
  | classRef name => pool.className index = some (ModifiedUtf8.encode name)

/-- The member of a kind that is named, as constants hold it. -/
def MemberName.encoded (member : MemberName) (kind : Pool.MemberKind) : Pool.Member :=
  ⟨kind, ModifiedUtf8.encode member.owner, ModifiedUtf8.encode member.name,
    ModifiedUtf8.encode member.descriptor⟩

/-- Whether an instruction is what a line stands for, where labels have the given marks. -/
def Line.Becomes (pool : Pool) (marks : String → Mark) : Line → Instruction Mark → Prop
  | .label _, _ => False
  | .plain op, made => made = .plain op
  | .bytePush value, made => made = .bytePush value
  | .shortPush value, made => made = .shortPush value
  | .constant value, made => ∃ index, value.IsAt pool index ∧ made = .constant index
  | .access op slot, made => made = .access op slot
  | .increment slot delta, made => made = .increment slot delta
  | .jump op name, made => made = .jump op (marks name)
  | .field op member, made =>
    ∃ index, pool.member index = some (member.encoded .field) ∧ made = .field op index
  | .invoke op member interface, made =>
    ∃ index, pool.member index =
        some (member.encoded (if interface then .interfaceMethod else .method)) ∧
      callInstruction op index member.descriptor = .ok made
  | .classOp op name, made =>
    ∃ index, pool.className index = some (ModifiedUtf8.encode name) ∧ made = .classOp op index
  | .newArray element, made => made = .newArray element
  | .newMultiArray name dimensions, made =>
    ∃ index, pool.className index = some (ModifiedUtf8.encode name) ∧
      made = .newMultiArray index dimensions

theorem Constant.isAt_of_intern {value : Constant} {pool later : Pool} {index : UInt16}
    (h : value.intern pool = (.ok index, later)) {last : Pool} (hl : later.Grows last) :
    value.IsAt last index := by
  have hentry {entry : Pool.Entry} (h : Interning.entry entry pool = (.ok index, later)) :
      last.get index = some entry := hl _ _ (Pool.add_spec h).2
  cases value with
  | string text =>
    obtain ⟨-, text, hget, htext⟩ := Interning.named_spec h
    exact ⟨text, hl _ _ hget, hl.utf8 htext⟩
  | classRef name => exact hl.className (Interning.classRef_spec h).2
  | _ => exact hentry h

namespace Template

/-- The lines of a template that are no labels. -/
def instructions (template : Template) : Template := template.filter (·.label?.isNone)

variable {template lines : Template} {labels labels' labels'' : Labels} {supply later : Supply}
  {value : Option (Instruction Mark)} {next next' next'' : Nat}

/-! ### Labels that get marks on the way -/

/-- Whether labels may have become others while marks were given out: those that have marks keep
them, and others got marks of their own. -/
structure Labels.Leads (labels : Labels) (next : Nat) (labels' : Labels) (next' : Nat) : Prop where
  le : next ≤ next'
  kept : ∀ (name : String) (mark : Mark), labels[name]? = some mark → labels'[name]? = some mark
  added : ∀ (name : String) (mark : Mark), labels[name]? = none → labels'[name]? = some mark →
    next ≤ mark.number ∧ mark.number < next'
  distinct : ∀ (name other : String) (mark : Mark), labels[name]? = none → labels[other]? = none →
    labels'[name]? = some mark → labels'[other]? = some mark → name = other

theorem Labels.Leads.refl (labels : Labels) (next : Nat) : labels.Leads next labels next where
  le := Nat.le_refl next
  kept _ _ h := h
  added name mark hn hm := by cases hn.symm.trans hm
  distinct name _ mark hn _ hm _ := by cases hn.symm.trans hm

theorem Labels.Leads.trans (h : labels.Leads next labels' next')
    (h' : labels'.Leads next' labels'' next'') : labels.Leads next labels'' next'' := by
  -- a label that is new in the end was new in the first part or got its mark in the second
  have hnew {name : String} {mark : Mark} (hn : labels[name]? = none)
      (hm : labels''[name]? = some mark) : labels'[name]? = some mark ∨ labels'[name]? = none := by
    cases hbetween : labels'[name]? with
    | none => exact .inr rfl
    | some found => exact .inl ((h'.kept name found hbetween).symm.trans hm)
  refine ⟨Nat.le_trans h.le h'.le, fun name mark hm => h'.kept name mark (h.kept name mark hm),
    fun name mark hn hm => ?_, fun name other mark hn ho hm hm' => ?_⟩
  · rcases hnew hn hm with hfirst | hnone
    · obtain ⟨hge, hlt⟩ := h.added name mark hn hfirst
      exact ⟨hge, Nat.lt_of_lt_of_le hlt h'.le⟩
    · obtain ⟨hge, hlt⟩ := h'.added name mark hnone hm
      exact ⟨Nat.le_trans h.le hge, hlt⟩
  · rcases hnew hn hm with hfirst | hnone <;> rcases hnew ho hm' with hfirst' | hnone'
    · exact h.distinct name other mark hn ho hfirst hfirst'
    · have hlt := (h.added name mark hn hfirst).2
      have hge := (h'.added other mark hnone' hm').1
      omega
    · have hge := (h'.added name mark hnone hm).1
      have hlt := (h.added other mark ho hfirst').2
      omega
    · exact h'.distinct name other mark hnone hnone' hm hm'

/-- Looking a label up gives its mark, a new one if it has none. -/
theorem target_leads {name : String} {mark : Mark}
    (h : target labels name supply = (.ok (mark, labels'), later)) :
    labels.Leads supply.nextMark labels' later.nextMark ∧ labels'[name]? = some mark ∧
      later.pool = supply.pool := by
  rcases target_eq_ok.mp h with ⟨hname, rfl, rfl⟩ | ⟨hname, rfl, rfl, rfl⟩
  · exact ⟨.refl labels _, hname, rfl⟩
  · -- the name is the only one that gets a mark
    have hother {other : String} {found : Mark} (hn : labels[other]? = none)
        (hm : (labels.insert name ⟨supply.nextMark⟩)[other]? = some found) :
        name = other ∧ found = ⟨supply.nextMark⟩ := by
      rw [Std.HashMap.getElem?_insert] at hm
      split_ifs at hm with heq
      · exact ⟨eq_of_beq heq, (Option.some.inj hm).symm⟩
      · cases hn.symm.trans hm
    refine ⟨⟨Nat.le_succ _, fun other found hm => ?_, fun other found hn hm => ?_,
      fun first second found hn hn' hm hm' => ?_⟩, Std.HashMap.getElem?_insert_self, rfl⟩
    · rw [Std.HashMap.getElem?_insert, if_neg, hm]
      rintro heq
      rw [eq_of_beq heq, hm] at hname
      cases hname
    · obtain ⟨-, rfl⟩ := hother hn hm
      exact ⟨Nat.le_refl _, Nat.lt_succ_self _⟩
    · exact (hother hn hm).1.symm.trans (hother hn' hm').1

/-- The labels that a template jumps to. -/
def targetNames (template : Template) : List String :=
  template.filterMap fun
    | .jump _ name => some name
    | _ => none

/-! ### Instructions -/

/-- Whether labels have the marks that a naming gives them. -/
def Labels.Agrees (labels : Labels) (marks : String → Mark) : Prop :=
  ∀ (name : String) (mark : Mark), labels[name]? = some mark → marks name = mark

/-- The marks of labels. -/
def Labels.naming (labels : Labels) (name : String) : Mark := (labels[name]?).getD default

theorem Labels.agrees_naming (labels : Labels) : labels.Agrees labels.naming := by
  intro name mark hm
  rw [naming, hm]
  rfl

theorem leads_of_pure {given : Option (Instruction Mark)}
    (h : (pure (given, labels) : Supplied (Option (Instruction Mark) × Labels)) supply =
      (.ok (value, labels'), later)) : value = given ∧ labels' = labels ∧ later = supply := by
  obtain ⟨hpair, rfl⟩ := ExceptT.pure_eq_ok.mp h
  obtain ⟨rfl, rfl⟩ := Prod.mk.inj hpair
  exact ⟨rfl, rfl, rfl⟩

/-- What is known of the instruction of a line: it is what the line stands for, wherever constants
and labels are those that are known after it. -/
structure IsMade (line : Line) (labels : Labels) (supply : Supply) (labels' : Labels)
    (later : Supply) (value : Option (Instruction Mark)) : Prop where
  isSome : value.isSome = line.label?.isNone
  grows : supply.pool.Grows later.pool
  leads : labels.Leads supply.nextMark labels' later.nextMark
  becomes : ∀ made, value = some made → ∀ (pool : Pool) (marks : String → Mark),
    later.pool.Grows pool → labels'.Agrees marks → line.Becomes pool marks made
  known : ∀ name ∈ targetNames [line], (labels'[name]?).isSome

theorem isMade_of_pure {line : Line} (ht : targetNames [line] = [])
    {given : Option (Instruction Mark)} (hs : given.isSome = line.label?.isNone)
    (hb : ∀ made, given = some made → ∀ pool marks, line.Becomes pool marks made)
    (h : (pure (given, labels) : Supplied (Option (Instruction Mark) × Labels)) supply =
      (.ok (value, labels'), later)) : IsMade line labels supply labels' later value := by
  obtain ⟨rfl, rfl, rfl⟩ := leads_of_pure h
  exact ⟨hs, .refl _, .refl _ _, fun made hm pool marks _ _ => hb made hm pool marks, by simp [ht]⟩

/-- The instruction of a line that adds a constant refers to it. -/
theorem isMade_of_intern {line : Line} (ht : targetNames [line] = [])
    (hl : line.label? = none) {step : Interning UInt16} (hs : Interning.OnlyAdds step)
    {given : UInt16 → Instruction Mark} {p : UInt16 → Pool → Prop}
    (hp : ∀ {pool later : Pool} {index : UInt16}, step pool = (.ok index, later) →
      ∀ last, later.Grows last → p index last)
    (hb : ∀ index pool marks, p index pool → line.Becomes pool marks (given index))
    (h : (Supplied.intern step >>= fun index => pure (some (given index), labels) :
      Supplied (Option (Instruction Mark) × Labels)) supply = (.ok (value, labels'), later)) :
    IsMade line labels supply labels' later value := by
  obtain ⟨index, between, hindex, h⟩ := ExceptT.bind_eq_ok.mp h
  obtain ⟨pool, hstep, rfl⟩ := Supplied.intern_eq_ok.mp hindex
  obtain ⟨rfl, rfl, rfl⟩ := leads_of_pure h
  refine ⟨by rw [hl]; rfl, (hs _ _ _ hstep).grows, .refl _ _, fun made hm last marks hl _ => ?_,
    by simp [ht]⟩
  exact Option.some.inj hm ▸ hb index last marks (hp hstep last hl)

/-- A line that is no label becomes the instruction that it stands for. -/
theorem isMade_of_instruction {line : Line}
    (h : instruction labels line supply = (.ok (value, labels'), later)) :
    IsMade line labels supply labels' later value := by
  cases line with
  | label name => exact isMade_of_pure rfl rfl (by simp) h
  | jump op name =>
    obtain ⟨⟨mark, after⟩, between, hmark, h⟩ := ExceptT.bind_eq_ok.mp h
    obtain ⟨rfl, rfl, rfl⟩ := leads_of_pure h
    obtain ⟨hleads, hname, hpool⟩ := target_leads hmark
    refine ⟨rfl, hpool ▸ .refl _, hleads, fun made hm pool marks _ ha => ?_,
      fun other hother => ?_⟩
    · rw [← Option.some.inj hm]
      exact congrArg _ (ha name mark hname).symm
    · obtain rfl := List.mem_singleton.mp hother
      rw [hname]
      rfl
  | constant value =>
    exact isMade_of_intern rfl rfl value.onlyAdds_intern (fun h _ hl => Constant.isAt_of_intern h hl)
      (fun index pool marks hat => ⟨index, hat, rfl⟩) h
  | field op member =>
    exact isMade_of_intern rfl rfl (Interning.onlyAdds_member _ _ _ _)
      (fun h _ hl => hl.member (Interning.member_spec h).2)
      (fun index pool marks hmember => ⟨index, hmember, rfl⟩) h
  | classOp op name =>
    exact isMade_of_intern rfl rfl (Interning.onlyAdds_classRef name)
      (fun h _ hl => hl.className (Interning.classRef_spec h).2)
      (fun index pool marks hclass => ⟨index, hclass, rfl⟩) h
  | newMultiArray name dimensions =>
    exact isMade_of_intern rfl rfl (Interning.onlyAdds_classRef name)
      (fun h _ hl => hl.className (Interning.classRef_spec h).2)
      (fun index pool marks hclass => ⟨index, hclass, rfl⟩) h
  | invoke op member interface =>
    obtain ⟨index, between, hindex, h⟩ := ExceptT.bind_eq_ok.mp h
    obtain ⟨pool, hstep, rfl⟩ := Supplied.intern_eq_ok.mp hindex
    obtain ⟨made, between', hmade, h⟩ := ExceptT.bind_eq_ok.mp h
    obtain ⟨hcall, rfl⟩ := ExceptT.lift_eq_ok.mp hmade
    obtain ⟨rfl, rfl, rfl⟩ := leads_of_pure h
    refine ⟨rfl, (Interning.onlyAdds_method _ _ _ _ _ _ _ hstep).grows, .refl _ _,
      fun other ho last marks hl _ => ?_, by simp [targetNames]⟩
    obtain rfl := Option.some.inj ho
    exact ⟨index, hl.member (Interning.member_spec hstep).2, hcall⟩
  | _ => exact isMade_of_pure rfl rfl (fun made hm _ _ => (Option.some.inj hm).symm) h

theorem targetNames_cons (line : Line) (template : Template) :
    targetNames (line :: template) = targetNames [line] ++ targetNames template := by
  cases line <;> rfl

/-- The lines that are left become the instructions that they stand for. -/
theorem becomes_of_stepsFrom {mark : Nat} {found steps : List Step}
    (h : stepsFrom mark labels found lines supply = (.ok steps, later)) :
    ∃ labels' made, steps = found.reverse ++ made ∧ supply.pool.Grows later.pool ∧
      labels.Leads supply.nextMark labels' later.nextMark ∧
      (∀ name ∈ targetNames lines, (labels'[name]?).isSome) ∧
      ∀ (pool : Pool) (marks : String → Mark), later.pool.Grows pool → labels'.Agrees marks →
        List.Forall₂ (fun line step => line.Becomes pool marks step.instruction)
          (instructions lines) made := by
  induction lines generalizing mark labels found supply with
  | nil =>
    obtain ⟨rfl, rfl⟩ := ExceptT.pure_eq_ok.mp h
    exact ⟨labels, [], (List.append_nil _).symm, .refl _, .refl _ _, List.forall_mem_nil _,
      fun _ _ _ _ => .nil⟩
  | cons line rest ih =>
    unfold stepsFrom at h
    obtain ⟨⟨value, labels'⟩, between, hline, h⟩ := ExceptT.bind_eq_ok.mp h
    have hmade := isMade_of_instruction hline
    -- a label of this line keeps its mark in what follows
    have hknown {last : Labels} (hl : labels'.Leads between.nextMark last later.nextMark)
        (hr : ∀ name ∈ targetNames rest, (last[name]?).isSome) :
        ∀ name ∈ targetNames (line :: rest), (last[name]?).isSome := by
      intro name hname
      rw [targetNames_cons] at hname
      rcases List.mem_append.mp hname with hname | hname
      · obtain ⟨mark, hmark⟩ := Option.isSome_iff_exists.mp (hmade.known name hname)
        exact Option.isSome_of_eq_some (hl.kept name mark hmark)
      · exact hr name hname
    cases value with
    | none =>
      obtain ⟨last, made, rfl, hgrows, hleads, hrest, hall⟩ := ih h
      refine ⟨last, made, rfl, hmade.grows.trans hgrows, hmade.leads.trans hleads,
        hknown hleads hrest, ?_⟩
      rw [instructions, List.filter_cons_of_neg (by simp [← hmade.isSome])]
      exact hall
    | some instruction =>
      obtain ⟨last, made, rfl, hgrows, hleads, hrest, hall⟩ := ih h
      refine ⟨last, ⟨⟨mark⟩, instruction⟩ :: made, by simp, hmade.grows.trans hgrows,
        hmade.leads.trans hleads, hknown hleads hrest, fun pool marks hp ha => ?_⟩
      rw [instructions, List.filter_cons_of_pos (by simp [← hmade.isSome])]
      refine .cons ?_ (hall pool marks hp ha)
      exact hmade.becomes instruction rfl pool marks (hgrows.trans hp) fun name mark hm =>
        ha name mark (hleads.kept name mark hm)

/-! ### Labels that are defined -/

section Labels

variable {name : String} {pending trailing names : List String} {mark : Mark}

theorem getElem?_foldl_insert_of_not_mem (h : name ∉ names) :
    (names.foldl (fun labels name => labels.insert name mark) labels)[name]? = labels[name]? := by
  induction names generalizing labels with
  | nil => rfl
  | cons other rest ih =>
    obtain ⟨hother, hrest⟩ := not_or.mp (List.mem_cons.not.mp h)
    rw [List.foldl_cons, ih hrest, Std.HashMap.getElem?_insert, if_neg]
    exact fun heq => hother (eq_of_beq heq).symm

theorem getElem?_foldl_insert_of_mem (h : name ∈ names) :
    (names.foldl (fun labels name => labels.insert name mark) labels)[name]? = some mark := by
  induction names generalizing labels with
  | nil => cases h
  | cons other rest ih =>
    by_cases hrest : name ∈ rest
    · exact ih hrest
    · obtain rfl := (List.mem_cons.mp h).resolve_right hrest
      rw [List.foldl_cons, getElem?_foldl_insert_of_not_mem hrest,
        Std.HashMap.getElem?_insert_self]

/-- A label that is not defined gets no mark. -/
theorem getElem?_labelMarks_of_not_mem
    (h : labelMarks next pending labels lines = (labels', trailing)) (hp : name ∉ pending)
    (hl : name ∉ labelNames lines) : labels'[name]? = labels[name]? := by
  induction lines generalizing next pending labels with
  | nil =>
    obtain ⟨rfl, -⟩ := Prod.mk.inj h
    rfl
  | cons line rest ih =>
    rw [labelNames_cons, List.mem_append, not_or] at hl
    unfold labelMarks at h
    cases hlabel : line.label? with
    | some other =>
      simp only [hlabel, Option.mem_toList] at h hl
      refine ih h (fun hin => ?_) hl.2
      rcases List.mem_cons.mp hin with rfl | hin
      · exact hl.1 rfl
      · exact hp hin
    | none =>
      simp only [hlabel] at h
      rw [ih h List.not_mem_nil hl.2, getElem?_foldl_insert_of_not_mem]
      exact fun hin => hp (List.mem_reverse.mp hin)

/-- A label that waits for an instruction gets the mark of the next one. -/
theorem getElem?_labelMarks_of_pending
    (h : labelMarks next pending labels lines = (labels', [])) (hp : name ∈ pending)
    (hl : name ∉ labelNames lines) : labels'[name]? = some ⟨next⟩ := by
  induction lines generalizing pending labels with
  | nil =>
    rw [List.reverse_eq_nil_iff.mp (Prod.mk.inj h).2] at hp
    cases hp
  | cons line rest ih =>
    rw [labelNames_cons, List.mem_append, not_or] at hl
    unfold labelMarks at h
    cases hlabel : line.label? with
    | some other =>
      simp only [hlabel] at h
      exact ih h (List.mem_cons_of_mem _ hp) hl.2
    | none =>
      simp only [hlabel] at h
      rw [getElem?_labelMarks_of_not_mem h List.not_mem_nil hl.2]
      exact getElem?_foldl_insert_of_mem (List.mem_reverse.mpr hp)

/-- A label gets the mark of the instruction that follows it. -/
theorem getElem?_labelMarks {before after : Template}
    (h : labelMarks next pending labels (before ++ .label name :: after) = (labels', []))
    (hn : name ∉ labelNames after) : labels'[name]? = some ⟨next + count before⟩ := by
  induction before generalizing next pending labels with
  | nil =>
    rw [List.nil_append, labelMarks] at h
    exact getElem?_labelMarks_of_pending h List.mem_cons_self hn
  | cons line rest ih =>
    rw [List.cons_append] at h
    unfold labelMarks at h
    cases hlabel : line.label? with
    | some other =>
      simp only [hlabel] at h
      rw [ih h, count, count, List.filter_cons_of_neg (by simp [hlabel])]
    | none =>
      simp only [hlabel] at h
      rw [ih h, count, count, List.filter_cons_of_pos (by simp [hlabel]), List.length_cons,
        Nat.add_assoc, Nat.add_comm 1]

theorem mem_labelNames : name ∈ labelNames template ↔ .label name ∈ template := by
  unfold labelNames
  rw [List.mem_filterMap]
  constructor
  · rintro ⟨line, hline, hlabel⟩
    exact eq_label_of_label? hlabel ▸ hline
  · exact fun h => ⟨_, h, rfl⟩

theorem getElem?_labelMarks_of_misses (h : labelMarks next [] ∅ template = (labels', trailing))
    (hm : template.Misses name) : labels'[name]? = none := by
  rw [getElem?_labelMarks_of_not_mem h List.not_mem_nil (mem_labelNames.not.mpr hm.2)]
  exact Std.HashMap.getElem?_empty

theorem mem_targetNames : name ∈ targetNames template ↔ ∃ op, .jump op name ∈ template := by
  unfold targetNames
  rw [List.mem_filterMap]
  constructor
  · rintro ⟨line, hline, hname⟩
    cases line with
    | jump op target => exact ⟨op, Option.some.inj hname ▸ hline⟩
    | _ => cases hname
  · rintro ⟨op, h⟩
    exact ⟨_, h, rfl⟩

end Labels

/-! ### Templates -/

/-- Whether steps are what a template becomes where marks are given out from a number on and below
another one, and labels have the given marks. -/
structure IsResolved (template : Template) (pool : Pool) (first next : Nat) (marks : String → Mark)
    (steps : List Step) : Prop where
  /-- There is one step for each line that is no label, in order, and it is what the line stands
  for. -/
  becomes : List.Forall₂ (fun line step => line.Becomes pool marks step.instruction)
    (instructions template) steps
  /-- The steps have consecutive marks. -/
  marked : AreMarked first steps
  /-- A label that is defined has the mark of the step that follows it. -/
  defined : ∀ before name after, template = before ++ .label name :: after →
    ∃ step, steps[count before]? = some step ∧ marks name = step.mark
  /-- A label that is not defined has a mark that comes after those of the steps. -/
  reserved : ∀ name, template.Misses name →
    first + steps.length ≤ (marks name).number ∧ (marks name).number < next
  distinct : ∀ name other, template.Misses name → template.Misses other →
    marks name = marks other → name = other

/-- The steps of a template are what its lines stand for, where labels have the marks that they have
after the last of its instructions was made: those that it defines the ones that they get from the
start, and each of the others one of its own that comes after the marks of the steps. -/
theorem exists_marks_of_steps {steps : List Step}
    (h : template.steps supply = (.ok steps, later)) :
    ∃ labels marks, labelMarks supply.nextMark [] ∅ template = (labels, []) ∧
      labels.Agrees marks ∧
      List.Forall₂ (fun line step => line.Becomes later.pool marks step.instruction)
        (instructions template) steps ∧
      (∀ name, template.Misses name → supply.nextMark + steps.length ≤ (marks name).number ∧
        (marks name).number < later.nextMark) ∧
      ∀ name other, template.Misses name → template.Misses other → marks name = marks other →
        name = other := by
  have hlength := length_of_steps h
  obtain ⟨labels, hlabels, h⟩ := steps_eq_ok.mp h
  obtain ⟨last, made, rfl, -, hleads, hknown, hall⟩ := becomes_of_stepsFrom h
  have hagrees := last.agrees_naming
  -- A label that no line defines gets a new mark when it is first referred to, and keeps it.
  have hmissed {name : String} (hm : template.Misses name) :
      labels[name]? = none ∧ last[name]? = some (last.naming name) := by
    refine ⟨getElem?_labelMarks_of_misses hlabels hm, ?_⟩
    obtain ⟨mark, hmark⟩ := Option.isSome_iff_exists.mp (hknown name (mem_targetNames.mpr hm.1))
    rw [hagrees name mark hmark, hmark]
  refine ⟨labels, last.naming, hlabels,
    fun name mark hm => hagrees name mark (hleads.kept name mark hm),
    hall later.pool _ (.refl _) hagrees, fun name hm => ?_, fun name other hm ho heq => ?_⟩
  · obtain ⟨hnone, hmark⟩ := hmissed hm
    rw [hlength]
    exact hleads.added name _ hnone hmark
  · obtain ⟨hnone, hmark⟩ := hmissed hm
    obtain ⟨hnone', hmark'⟩ := hmissed ho
    exact hleads.distinct name other _ hnone hnone' hmark (heq ▸ hmark')

/-- Every template that defines no label twice is resolved. -/
theorem exists_isResolved {steps : List Step} (hn : template.labelNames.Nodup)
    (h : template.steps supply = (.ok steps, later)) :
    ∃ marks, template.IsResolved later.pool supply.nextMark later.nextMark marks steps := by
  obtain ⟨-, -, hmarked, -, -⟩ := steps_spec h
  have hlength := length_of_steps h
  obtain ⟨labels, marks, hlabels, hagrees, hall, hreserved, hdistinct⟩ := exists_marks_of_steps h
  refine ⟨marks, hall, hmarked, fun before name after htemplate => ?_, hreserved, hdistinct⟩
  have hafter : name ∉ labelNames after := by
    rw [htemplate, labelNames, List.filterMap_append] at hn
    exact (List.nodup_cons.mp (List.nodup_append.mp hn).2.1).1
  have hmark := getElem?_labelMarks (htemplate ▸ hlabels) hafter
  have hlt : supply.nextMark + count before < supply.nextMark + count template :=
    (within_start hlabels name _ hmark).2
  have hin : count before < steps.length := by omega
  obtain ⟨step, hstep, hsame⟩ := hmarked.exists_getElem? hin
  refine ⟨step, hstep, ?_⟩
  rw [hagrees name _ hmark, hsame]

/-- The steps of a body have the marks that it gives out next. -/
theorem stepsIn_of_steps {body : Body} {pool later : Pool} {next : Nat}
    {result : Except TemplateFault (List Step)}
    (h : template.steps ⟨body.nextMark, pool⟩ = (result, ⟨next, later⟩)) :
    template.stepsIn body pool = (result, { body with nextMark := next }, later) := by
  unfold stepsIn
  rw [show template.steps.run ⟨body.nextMark, pool⟩ = (result, ⟨next, later⟩) from h]

theorem stepsIn_eq_ok {body body' : Body} {pool later : Pool} {steps : List Step} :
    template.stepsIn body pool = (.ok steps, body', later) ↔
      ∃ next, template.steps ⟨body.nextMark, pool⟩ = (.ok steps, ⟨next, later⟩) ∧
        { body with nextMark := next } = body' := by
  obtain ⟨result, ⟨next, last⟩, h⟩ : ∃ result supply,
      template.steps ⟨body.nextMark, pool⟩ = (result, supply) := ⟨_, _, rfl⟩
  rw [stepsIn_of_steps h, h]
  constructor
  · intro heq
    cases heq
    exact ⟨next, rfl, rfl⟩
  · rintro ⟨other, heq, rfl⟩
    cases heq
    rfl

end Template

end ClassGraft

import ClassGraft.Proofs.Code.Positions
import ClassGraft.Proofs.Code.Renumbering
import Mathlib.Algebra.GroupWithZero.Nat

/-!
# Jumps that are as short as they can be

Where no instruction is a switch, what an instruction takes depends on the distance of its target
only.  A jump is widened only if it has to be: wherever there is room for all instructions
(`Layout.Admits`), no jump takes more bytes in a trial than there (`Draft.Lays.within`), and what is
found to be too far is too far there (`Layout.Widens.erase`).  So instructions are laid out if there
are places for them, and take no more bytes than there (`Layout.exists_of_admits`).
-/

namespace ClassGraft

variable {narrow : Std.HashSet Nat} {pool : Pool}

/-! ### How instructions are written -/

/-- Whether an instruction is a switch, whose size depends on where it stands. -/
def Instruction.isSwitch {τ : Type} : Instruction τ → Bool
  | .tableSwitch .. | .lookupSwitch .. => true
  | _ => false

/-- Whether an instruction is written as the same bytes wherever it stands. -/
def Instruction.IsFixed (pool : Pool) (instruction : Instruction Mark) (content : Bytes) : Prop :=
  ∀ (narrow : Std.HashSet Nat) (site : Site),
    instruction.form pool site = .ok (⟨[.bytes content], false⟩ : Form narrow)

/-- Whether an instruction can be written wherever it stands. -/
def Instruction.IsWritable (pool : Pool) (instruction : Instruction Mark) : Prop :=
  ∀ (narrow : Std.HashSet Nat) (site : Site), ∃ form : Form narrow,
    instruction.form pool site = .ok form

/-- The number of bytes of a form. -/
def Form.size (form : Form narrow) : Nat := (form.pieces.map Piece.size).sum

namespace Opcode

/-- The bytes of a jump whose distance fits into two of them. -/
def near (op : Opcode) (origin target : Nat) : Bytes :=
  op :: shortDistance (distance origin target)

/-- What a jump begins with whose distance takes four bytes. -/
def farHead (op : Opcode) : Bytes :=
  if op = goto then [gotoWide]
  else if op = jsr then [jsrWide]
  else Site.bypass (op.inverse?.getD op)

/-- Where the distance of such a jump counts from. -/
def farOrigin (op : Opcode) (origin : Nat) : Nat :=
  if op = goto ∨ op = jsr then origin else origin + 3

/-- The bytes of a jump whose distance takes four of them. -/
def far (op : Opcode) (origin target : Nat) : Bytes :=
  op.farHead ++ longDistance (distance (op.farOrigin origin) target)

/-- Whether a jump that is far has a bypass. -/
def isConditional (op : Opcode) : Bool := op ≠ goto ∧ op ≠ jsr

/-- The number of bytes of a jump whose distance takes four of them. -/
def farSize (op : Opcode) : Nat := if op.isConditional then 8 else 5

theorem length_near (op : Opcode) (origin target : Nat) : (op.near origin target).length = 3 := rfl

theorem length_farHead (op : Opcode) : op.farHead.length + 4 = op.farSize := by
  unfold farHead farSize isConditional
  split_ifs with hgoto hjsr hc hc <;> first | rfl | simp_all

theorem length_far (op : Opcode) (origin target : Nat) :
    (op.far origin target).length = op.farSize := by
  rw [far, List.length_append]
  exact op.length_farHead

end Opcode

/-- The forms of a jump: the distance is known, or it is not, and it takes two bytes or four. -/
inductive Site.JumpForm (site : Site) (narrow : Std.HashSet Nat) (op : Opcode) (target : Mark) :
    Form narrow → Prop
  | nearBack {position : Nat} (hp : site.placed[target]? = some position)
      (hd : isShortDistance (distance site.position position) = true) :
      JumpForm site narrow op target ⟨[.bytes (op.near site.position position)], false⟩
  | farBack {position : Nat} (hp : site.placed[target]? = some position)
      (hd : isShortDistance (distance site.position position) = false) :
      JumpForm site narrow op target ⟨[.bytes (op.far site.position position)], op.isConditional⟩
  | nearAhead (hp : site.placed[target]? = none) (h : site.index ∈ narrow) :
      JumpForm site narrow op target
        ⟨[.bytes [op], .half site.position target ⟨site.index, h⟩], false⟩
  | farAhead (hp : site.placed[target]? = none) (h : site.index ∉ narrow) :
      JumpForm site narrow op target
        ⟨[.bytes op.farHead, .word (op.farOrigin site.position) target], op.isConditional⟩

/-- A jump without a condition is written in one of these forms. -/
theorem Site.jumpForm_jump {site : Site} {op long : Opcode} {target : Mark}
    (hlong : op.farHead = [long]) (horigin : ∀ origin, op.farOrigin origin = origin)
    (hc : op.isConditional = false) :
    site.JumpForm narrow op target ⟨site.jump op long target, false⟩ := by
  have hfar (position : Nat) :
      long :: longDistance (distance site.position position) = op.far site.position position := by
    rw [Opcode.far, hlong, horigin]
    rfl
  unfold Site.jump
  cases hp : site.placed[target]? with
  | some position =>
    dsimp only
    split_ifs with hd
    · exact .nearBack hp hd
    · rw [hfar, ← hc]
      exact .farBack hp (Bool.eq_false_iff.mpr hd)
  | none =>
    dsimp only
    split_ifs with hn
    · exact .nearAhead hp hn
    · have hform : site.JumpForm narrow op target _ := .farAhead hp hn
      rwa [hlong, horigin, hc] at hform

/-- A jump is written in one of these forms. -/
theorem Instruction.jumpForm_of_form {op : Opcode} {target : Mark} {site : Site} {form : Form narrow}
    (h : (Instruction.jump op target).form pool site = .ok form) :
    site.JumpForm narrow op target form := by
  rw [Instruction.form] at h
  split_ifs at h with hgoto hjsr
  · obtain rfl := eq_of_beq hgoto
    obtain rfl := Except.ok.inj h
    exact Site.jumpForm_jump rfl (fun _ => rfl) rfl
  · obtain rfl := eq_of_beq hjsr
    obtain rfl := Except.ok.inj h
    exact Site.jumpForm_jump rfl (fun _ => rfl) rfl
  · split at h
    · rename_i inverse hinverse
      obtain rfl := Except.ok.inj h
      have hne : op ≠ Opcode.goto ∧ op ≠ Opcode.jsr := ⟨by simpa using hgoto, by simpa using hjsr⟩
      have hhead : op.farHead = Site.bypass inverse := by
        rw [Opcode.farHead, if_neg hne.1, if_neg hne.2, hinverse]
        rfl
      have horigin : op.farOrigin site.position = site.bypassed := if_neg (not_or.mpr hne)
      have hc : op.isConditional = true := by simpa [Opcode.isConditional] using hne
      unfold Site.branch
      cases hp : site.placed[target]? with
      | some position =>
        dsimp only
        split_ifs with hd
        · exact .nearBack hp hd
        · have hform : site.JumpForm narrow op target _ :=
            .farBack hp (Bool.eq_false_iff.mpr hd)
          rwa [Opcode.far, hhead, horigin, hc] at hform
      | none =>
        dsimp only
        split_ifs with hn
        · exact .nearAhead hp hn
        · have hform : site.JumpForm narrow op target _ := .farAhead hp hn
          rwa [hhead, horigin, hc] at hform
    · cases h

/-- All but jumps and switches are written as the same bytes everywhere. -/
theorem Instruction.exists_isFixed {instruction : Instruction Mark}
    (hs : instruction.isSwitch = false) (hj : ∀ op target, instruction ≠ .jump op target) :
    ∃ content, instruction.IsFixed pool content := by
  cases instruction with
  | jump op target => exact absurd rfl (hj op target)
  | tableSwitch | lookupSwitch => cases hs
  | _ => exact ⟨_, fun _ _ => rfl⟩

/-- An instruction that is written at one place can be written at any other one. -/
theorem Instruction.isWritable_of_form {instruction : Instruction Mark} {site : Site}
    {form : Form narrow} (hs : instruction.isSwitch = false)
    (h : instruction.form pool site = .ok form) : instruction.IsWritable pool := by
  cases instruction with
  | jump op target =>
    intro narrow' site'
    rw [Instruction.form] at h ⊢
    split_ifs at h ⊢ with hgoto hjsr
    · exact ⟨_, rfl⟩
    · exact ⟨_, rfl⟩
    · split at h
      · exact ⟨_, rfl⟩
      · cases h
  | tableSwitch | lookupSwitch => cases hs
  | _ => exact fun _ _ => ⟨_, rfl⟩

/-! ### Where instructions stand -/

namespace Form

variable {forms more : List (Form narrow)} {form : Form narrow} {index : Nat}

/-- Where an instruction starts, after those before it. -/
def start (forms : List (Form narrow)) (index : Nat) : Nat :=
  ((forms.take index).map Form.size).sum

theorem start_succ (h : forms[index]? = some form) :
    start forms (index + 1) = start forms index + form.size := by
  rw [start, start, List.take_add_one, h, Option.toList_some, List.map_append, List.sum_append,
    List.map_singleton, List.sum_singleton]

theorem start_append (h : index ≤ forms.length) :
    start (forms ++ more) index = start forms index := by
  rw [start, start, List.take_append_of_le_length h]

theorem start_le_start (forms : List (Form narrow)) {i j : Nat} (h : i ≤ j) :
    start forms i ≤ start forms j := by
  obtain ⟨count, rfl⟩ := Nat.exists_eq_add_of_le h
  rw [start, start, List.take_add, List.map_append, List.sum_append]
  exact Nat.le_add_right _ _

theorem foldl_size (pieces : List (Piece narrow)) (size : Nat) :
    (pieces.map Piece.size).foldl (· + ·) size = size + (pieces.map Piece.size).sum := by
  induction pieces generalizing size with
  | nil => rfl
  | cons piece pieces ih =>
    rw [List.map_cons, List.foldl_cons, ih, List.sum_cons, Nat.add_assoc]

end Form

/-- Whether a site is that of a step, where the steps up to it were placed. -/
structure Site.IsAt (all : List Step) (start : Nat → Nat) (i : Nat) (site : Site) : Prop where
  index : site.index = i
  position : site.position = start i
  placed : ∀ (mark : Mark) position, site.placed[mark]? = some position ↔
    ∃ j ≤ i, ∃ step, all[j]? = some step ∧ step.mark = mark ∧ position = start j

theorem Site.IsAt.congr {all : List Step} {start start' : Nat → Nat} {i : Nat} {site : Site}
    (h : site.IsAt all start i) (hs : ∀ j ≤ i, start' j = start j) : site.IsAt all start' i := by
  refine ⟨h.index, h.position.trans (hs i (Nat.le_refl _)).symm, fun mark position => ?_⟩
  rw [h.placed]
  refine exists_congr fun j => and_congr_right fun hj => ?_
  rw [hs j hj]

namespace Draft

variable {all rest : List Step} {draft draft' : Draft narrow} {forms : List (Form narrow)}

/-- Whether a draft is that of the first of some steps, written in some forms. -/
structure Lays (pool : Pool) (all : List Step) (draft : Draft narrow) (forms : List (Form narrow)) :
    Prop where
  size : draft.size = Form.start forms forms.length
  placed : ∀ (mark : Mark) position, draft.placed[mark]? = some position ↔
    ∃ i < forms.length, ∃ step, all[i]? = some step ∧ step.mark = mark ∧
      position = Form.start forms i
  written : ∀ i step form, all[i]? = some step → forms[i]? = some form → ∃ site : Site,
    site.IsAt all (Form.start forms) i ∧ step.instruction.form pool site = .ok form
  pieces : draft.pieces.reverse = forms.flatMap Form.pieces
  landings : ∀ mark, mark ∈ draft.landings ↔ ∃ (i : Nat) (form : Form narrow) (next : Step),
    forms[i]? = some form ∧ form.bypasses = true ∧ all[i + 1]? = some next ∧ next.mark = mark

theorem lays_empty : Lays pool all (Draft.empty : Draft narrow) [] where
  size := rfl
  placed mark position := by
    constructor
    · intro h
      rw [Draft.empty, Std.HashMap.getElem?_empty] at h
      cases h
    · rintro ⟨i, hi, -⟩
      cases hi
  written i step form _ hform := by cases hform
  pieces := rfl
  landings mark := by
    constructor
    · intro h
      cases h
    · rintro ⟨i, form, next, hform, -⟩
      cases hform

/-- The position of one more step is known. -/
theorem Lays.getElem?_insert (h : Lays pool all draft forms) (hn : (all.map (·.mark)).Nodup)
    {step : Step} (hstep : all[forms.length]? = some step) (mark : Mark) (position : Nat) :
    (draft.placed.insert step.mark draft.size)[mark]? = some position ↔
      ∃ i ≤ forms.length, ∃ other, all[i]? = some other ∧ other.mark = mark ∧
        position = Form.start forms i := by
  rw [Std.HashMap.getElem?_insert]
  split_ifs with hmark
  · obtain rfl := eq_of_beq hmark
    rw [h.size]
    constructor
    · intro hp
      exact ⟨_, Nat.le_refl _, step, hstep, rfl, (Option.some.inj hp).symm⟩
    · rintro ⟨i, -, other, hother, hsame, rfl⟩
      obtain rfl := Step.index_eq hn hother hstep hsame
      rfl
  · rw [h.placed]
    constructor
    · rintro ⟨i, hi, hrest⟩
      exact ⟨i, Nat.le_of_lt hi, hrest⟩
    · rintro ⟨i, hi, other, hother, rfl, hp⟩
      refine ⟨i, Nat.lt_of_le_of_ne hi ?_, other, hother, rfl, hp⟩
      rintro rfl
      obtain rfl := Option.some.inj (hstep.symm.trans hother)
      exact hmark (beq_self_eq_true _)

/-- One more step may have a bypass, which lands at what follows. -/
theorem mem_landings_write {step : Step} {form : Form narrow} {mark : Mark} :
    mark ∈ (draft.write step rest form).landings ↔
      (form.bypasses = true ∧ mark ∈ rest.head?.map (·.mark)) ∨ mark ∈ draft.landings := by
  rw [write]
  split_ifs with hb
  · rw [List.mem_append, Option.mem_toList]
    exact or_congr_left (iff_and_self.mpr fun _ => hb)
  · exact (or_iff_right fun hleft => hb hleft.1).symm

/-- One more step is written. -/
theorem Lays.snoc (h : Lays pool all draft forms) (hn : (all.map (·.mark)).Nodup) {step : Step}
    {form : Form narrow} (hd : all.drop forms.length = step :: rest)
    (hf : step.instruction.form pool (draft.site forms.length step) = .ok form) :
    Lays pool all (draft.write step rest form) (forms ++ [form]) := by
  have hstep : all[forms.length]? = some step := by
    rw [← List.head?_drop, hd]
    rfl
  have hnext : rest.head? = all[forms.length + 1]? := by
    rw [← List.getElem?_drop, hd, List.getElem?_cons_succ, List.head?_eq_getElem?]
  have hstart (i : Nat) (hi : i ≤ forms.length) :
      Form.start (forms ++ [form]) i = Form.start forms i := Form.start_append hi
  have hlast : (forms ++ [form])[forms.length]? = some form := List.getElem?_concat_length
  have hlength : (forms ++ [form]).length = forms.length + 1 := List.length_append
  refine ⟨?_, fun mark position => ?_, fun i other form' hother hform => ?_, ?_, fun mark => ?_⟩
  · rw [hlength, Form.start_succ hlast, hstart _ (Nat.le_refl _), ← h.size]
    exact Form.foldl_size form.pieces draft.size
  · refine (h.getElem?_insert hn hstep mark position).trans ?_
    rw [hlength]
    refine exists_congr fun i => ⟨?_, ?_⟩
    · rintro ⟨hi, other, hother, hmark, rfl⟩
      exact ⟨Nat.lt_succ_of_le hi, other, hother, hmark, (hstart i hi).symm⟩
    · rintro ⟨hi, other, hother, hmark, rfl⟩
      exact ⟨Nat.le_of_lt_succ hi, other, hother, hmark, hstart i (Nat.le_of_lt_succ hi)⟩
  · rcases Nat.lt_or_ge i forms.length with hi | hi
    · rw [List.getElem?_append_left hi] at hform
      obtain ⟨site, hsite, hwritten⟩ := h.written i other form' hother hform
      exact ⟨site, hsite.congr fun j hj => hstart j (Nat.le_trans hj (Nat.le_of_lt hi)), hwritten⟩
    · have hlt := (List.getElem?_eq_some_iff.mp hform).1
      obtain rfl : i = forms.length := by omega
      obtain rfl := Option.some.inj (hlast.symm.trans hform)
      obtain rfl := Option.some.inj (hstep.symm.trans hother)
      refine ⟨_, ⟨rfl, ?_, fun mark position => ?_⟩, hf⟩
      · exact h.size.trans (hstart _ (Nat.le_refl _)).symm
      · refine (h.getElem?_insert hn hstep mark position).trans (exists_congr fun j => ?_)
        refine and_congr_right fun hj => ?_
        rw [hstart j hj]
  · rw [write, List.reverse_append, List.reverse_reverse, h.pieces, List.flatMap_append,
      List.flatMap_singleton]
  · rw [mem_landings_write, hnext, h.landings]
    constructor
    · rintro (⟨hb, hmark⟩ | ⟨i, form', next, hform, hafter⟩)
      · obtain ⟨next, hafter, rfl⟩ := Option.map_eq_some_iff.mp hmark
        exact ⟨forms.length, form, next, hlast, hb, hafter, rfl⟩
      · have hi := (List.getElem?_eq_some_iff.mp hform).1
        exact ⟨i, form', next, (List.getElem?_append_left hi).trans hform, hafter⟩
    · rintro ⟨i, form', next, hform, hb, hafter, rfl⟩
      rcases Nat.lt_or_ge i forms.length with hi | hi
      · rw [List.getElem?_append_left hi] at hform
        exact .inr ⟨i, form', next, hform, hb, hafter, rfl⟩
      · have hlt := (List.getElem?_eq_some_iff.mp hform).1
        obtain rfl : i = forms.length := by omega
        obtain rfl := Option.some.inj (hlast.symm.trans hform)
        exact .inl ⟨hb, Option.map_eq_some_iff.mpr ⟨next, hafter, rfl⟩⟩

/-- What is written goes on in further forms. -/
theorem Lays.exists_of_extend (h : Lays pool all draft forms) (hn : (all.map (·.mark)).Nodup)
    (hl : forms.length + rest.length = all.length) (hd : all.drop forms.length = rest)
    (he : extend pool forms.length rest draft = .ok draft') :
    ∃ forms', Lays pool all draft' forms' ∧ forms'.length = all.length := by
  induction rest generalizing draft forms with
  | nil =>
    obtain rfl := Except.ok.inj he
    exact ⟨forms, h, hl⟩
  | cons step rest ih =>
    obtain ⟨-, form, hform, hrest⟩ := extend_cons_eq_ok.mp he
    have hlength : (forms ++ [form]).length = forms.length + 1 := List.length_append
    refine ih (h.snoc hn hd hform) ?_ ?_ (hlength ▸ hrest)
    · rw [hlength, ← hl, List.length_cons]
      omega
    · rw [hlength, ← List.drop_drop, hd, List.drop_one, List.tail_cons]

end Draft

/-! ### Places that are far enough apart -/

namespace Layout

variable {all : List Step} {place : Nat → Nat}

/-- Whether a jump may be written as three bytes where instructions start at some places, as far as
its target is concerned. -/
def Reaches (place : Nat → Nat) (i j : Nat) : Prop :=
  i < j ∧ place j + 3 ≤ place (i + 1) + 32767 ∨ j ≤ i ∧ place i ≤ place j + 32768

/-- Whether instructions that start at some places have the bytes that they take, where a jump takes
three only if its target is near enough. -/
structure Admits (pool : Pool) (all : List Step) (place : Nat → Nat) : Prop where
  fixed : ∀ i step content, all[i]? = some step → step.instruction.IsFixed pool content →
    content.length + place i ≤ place (i + 1)
  near : ∀ i step op target, all[i]? = some step → step.instruction = .jump op target →
    3 + place i ≤ place (i + 1)
  far : ∀ i step op j other, all[i]? = some step → all[j]? = some other →
    step.instruction = .jump op other.mark →
    op.farSize + place i ≤ place (i + 1) ∨ Reaches place i j

/-- Whether the jumps that may not be short have the bytes for four that tell the distance. -/
def Widens (all : List Step) (place : Nat → Nat) (narrow : Std.HashSet Nat) : Prop :=
  ∀ i step op target, all[i]? = some step → step.instruction = .jump op target → i ∉ narrow →
    op.farSize + place i ≤ place (i + 1)

/-- Whether forms take no more bytes than there are at some places. -/
def Within (place : Nat → Nat) (forms : List (Form narrow)) : Prop :=
  ∀ i form, forms[i]? = some form → form.size + place i ≤ place (i + 1)

/-- Then no two instructions are farther from each other than there. -/
theorem start_le {forms : List (Form narrow)} {i j : Nat}
    (h : ∀ k < j, ∀ form, forms[k]? = some form → form.size + place k ≤ place (k + 1))
    (hj : j ≤ forms.length) (hij : i ≤ j) :
    Form.start forms j + place i ≤ place j + Form.start forms i := by
  obtain ⟨count, rfl⟩ := Nat.exists_eq_add_of_le hij
  induction count with
  | zero => exact Nat.le_of_eq (Nat.add_comm _ _)
  | succ count ih =>
    have hform : forms[i + count]? = some forms[i + count] := List.getElem?_eq_getElem hj
    have hbefore := ih (fun k hk => h k (Nat.lt_succ_of_lt hk)) (Nat.le_of_succ_le hj)
      (Nat.le_add_right i count)
    have hsize := h (i + count) (Nat.lt_succ_self _) _ hform
    rw [← Nat.add_assoc, Form.start_succ hform]
    omega

end Layout

/-- A form of a jump is three bytes if its target is near or may be. -/
theorem Site.JumpForm.size {site : Site} {op : Opcode} {target : Mark} {form : Form narrow}
    (h : site.JumpForm narrow op target form) : form.size = 3 ∨ form.size = op.farSize ∧
      (site.placed[target]? = none → site.index ∉ narrow) ∧
      ∀ position, site.placed[target]? = some position →
        isShortDistance (distance site.position position) = false := by
  cases h with
  | nearBack | nearAhead => exact .inl rfl
  | farBack hp hd =>
    refine .inr ⟨?_, fun hnone => ?_, fun position hposition => ?_⟩
    · exact op.length_far _ _
    · rw [hp] at hnone
      cases hnone
    · obtain rfl := Option.some.inj (hp.symm.trans hposition)
      exact hd
  | farAhead hp hn =>
    refine .inr ⟨op.length_farHead, fun _ => hn, fun position hposition => ?_⟩
    rw [hp] at hposition
    cases hposition

/-- Two bytes for a distance are part of a form of three. -/
theorem Site.JumpForm.of_half {site : Site} {op : Opcode} {target other : Mark} {form : Form narrow}
    {origin : Nat} {jump : { index // index ∈ narrow }} (h : site.JumpForm narrow op target form)
    (hp : Piece.half origin other jump ∈ form.pieces) :
    origin = site.position ∧ other = target ∧ jump.val = site.index ∧
      site.placed[target]? = none ∧ form.size = 3 := by
  cases h with
  | nearAhead hnone =>
    obtain ⟨rfl, rfl, rfl⟩ : origin = site.position ∧ other = target ∧ jump = ⟨site.index, _⟩ := by
      simpa using hp
    exact ⟨rfl, rfl, rfl, hnone, rfl⟩
  | _ => simp at hp

/-- A form of a jump has a bypass if it has eight bytes. -/
theorem Site.JumpForm.bypasses_iff {site : Site} {op : Opcode} {target : Mark} {form : Form narrow}
    (h : site.JumpForm narrow op target form) : form.bypasses = true ↔ form.size = 8 := by
  have hfar : op.isConditional = true ↔ op.farSize = 8 := by
    unfold Opcode.farSize
    split_ifs with hc <;> simp [hc]
  cases h with
  | nearBack | nearAhead => exact iff_of_false Bool.false_ne_true fun (h : 3 = 8) => absurd h (by decide)
  | farBack =>
    rw [hfar]
    exact iff_of_eq (congrArg (· = 8) (op.length_far _ _).symm)
  | farAhead =>
    rw [hfar]
    exact iff_of_eq (congrArg (· = 8) op.length_farHead.symm)

/-- What a form of a jump comes to. -/
theorem Site.JumpForm.bytes_of_resolveTo {site : Site} {op : Opcode} {target : Mark}
    {form : Form narrow} {placed : Std.HashMap Mark Nat} {bytes : Bytes}
    (h : site.JumpForm narrow op target form)
    (hk : ∀ position, site.placed[target]? = some position → placed[target]? = some position)
    (hr : Piece.ResolveTo placed form.pieces bytes) : ∃ position, placed[target]? = some position ∧
      (isShortDistance (distance site.position position) = true ∧
          bytes = op.near site.position position ∨
        bytes = op.far site.position position) := by
  cases h with
  | @nearBack position hp hd => exact ⟨position, hk position hp, .inl ⟨hd, hr.eq_of_only⟩⟩
  | @farBack position hp hd => exact ⟨position, hk position hp, .inr hr.eq_of_only⟩
  | nearAhead hp hn =>
    obtain ⟨more, hmore, rfl⟩ := hr.eq_of_bytes
    obtain ⟨position, rest, hposition, hd, hrest, rfl⟩ := hmore.eq_of_half
    obtain rfl := hrest.eq_of_nil
    exact ⟨position, hposition, .inl ⟨hd, by rw [List.append_nil]; rfl⟩⟩
  | farAhead hp hn =>
    obtain ⟨more, hmore, rfl⟩ := hr.eq_of_bytes
    obtain ⟨position, rest, hposition, hrest, rfl⟩ := hmore.eq_of_word
    obtain rfl := hrest.eq_of_nil
    exact ⟨position, hposition, .inr (by rw [List.append_nil]; rfl)⟩

theorem isShortDistance_iff {origin target : Nat} :
    isShortDistance (distance origin target) = true ↔
      origin ≤ target + 32768 ∧ target ≤ origin + 32767 := by
  unfold isShortDistance distance
  rw [Bool.and_eq_true, decide_eq_true_iff, decide_eq_true_iff]
  omega

namespace Draft.Lays

variable {all : List Step} {place : Nat → Nat} {draft : Draft narrow} {forms : List (Form narrow)}

/-- An instruction takes no more bytes than there are at places that are far enough apart, if those
before it do not. -/
theorem size_le (h : Lays pool all draft forms) (hs : ∀ step ∈ all, step.instruction.isSwitch = false)
    (ha : Layout.Admits pool all place) (hw : Layout.Widens all place narrow) {i : Nat} {step : Step}
    {form : Form narrow} (hstep : all[i]? = some step) (hform : forms[i]? = some form)
    (hb : ∀ k < i, ∀ form, forms[k]? = some form → form.size + place k ≤ place (k + 1)) :
    form.size + place i ≤ place (i + 1) := by
  obtain ⟨site, hsite, hwritten⟩ := h.written i step form hstep hform
  by_cases hj : ∃ op target, step.instruction = .jump op target
  · obtain ⟨op, target, hinstruction⟩ := hj
    rw [hinstruction] at hwritten
    rcases (Instruction.jumpForm_of_form hwritten).size with hsize | ⟨hsize, hnone, hfar⟩
    · rw [hsize]
      exact ha.near i step op target hstep hinstruction
    · rw [hsize]
      cases hp : site.placed[target]? with
      | none => exact hw i step op target hstep hinstruction (hsite.index ▸ hnone hp)
      | some position =>
        -- the target comes before, and is no nearer than it is at those places
        obtain ⟨j, hj, other, hother, rfl, rfl⟩ := (hsite.placed _ _).mp hp
        have hlt := (List.getElem?_eq_some_iff.mp hform).1
        have hle := Layout.start_le hb (Nat.le_of_lt hlt) hj
        have hd := isShortDistance_iff.not.mp (Bool.eq_false_iff.mp (hfar _ hp))
        rw [hsite.position] at hd
        rcases ha.far i step op j other hstep hother hinstruction with hfit | hreach
        · exact hfit
        · have hback := Form.start_le_start forms hj
          unfold Layout.Reaches at hreach
          omega
  · obtain ⟨content, hcontent⟩ : ∃ content, step.instruction.IsFixed pool content :=
      Instruction.exists_isFixed (hs step (List.mem_of_getElem? hstep))
        fun op target he => hj ⟨op, target, he⟩
    obtain rfl := Except.ok.inj ((hcontent narrow site).symm.trans hwritten)
    exact ha.fixed i step content hstep hcontent

/-- No instruction takes more bytes than there are at places that are far enough apart. -/
theorem within (h : Lays pool all draft forms) (hl : forms.length ≤ all.length)
    (hs : ∀ step ∈ all, step.instruction.isSwitch = false) (ha : Layout.Admits pool all place)
    (hw : Layout.Widens all place narrow) : Layout.Within place forms := by
  intro i
  induction i using Nat.strongRecOn with
  | ind i ih =>
    intro form hform
    have hlt := (List.getElem?_eq_some_iff.mp hform).1
    exact h.size_le hs ha hw (List.getElem?_eq_getElem (Nat.lt_of_lt_of_le hlt hl)) hform ih

theorem size_le_place (h : Lays pool all draft forms) (hf : Layout.Within place forms)
    (hz : place 0 = 0) : draft.size ≤ place forms.length := by
  have hle := Layout.start_le (fun k _ => hf k) (Nat.le_refl _) (Nat.zero_le forms.length)
  rw [h.size]
  rw [hz] at hle
  exact hle

/-- What can be written is written, if there are places that fit into code. -/
theorem exists_extend {rest : List Step} (h : Lays pool all draft forms)
    (hn : (all.map (·.mark)).Nodup) (hl : forms.length + rest.length = all.length)
    (hd : all.drop forms.length = rest)
    (hr : ∀ step ∈ all, step.instruction.IsWritable pool)
    (hs : ∀ step ∈ all, step.instruction.isSwitch = false) (ha : Layout.Admits pool all place)
    (hw : Layout.Widens all place narrow) (hz : place 0 = 0)
    (hb : ∀ i ≤ all.length, place i ≤ 65535) :
    ∃ draft', extend pool forms.length rest draft = .ok draft' := by
  induction rest generalizing draft forms with
  | nil => exact ⟨draft, rfl⟩
  | cons step rest ih =>
    have hlength (form : Form narrow) : (forms ++ [form]).length = forms.length + 1 :=
      List.length_append
    have hmem : step ∈ all := List.mem_of_mem_drop (hd ▸ List.mem_cons_self)
    obtain ⟨form, hform⟩ := hr step hmem narrow (draft.site forms.length step)
    have hle : forms.length ≤ all.length := hl ▸ Nat.le_add_right _ _
    have hsize : draft.size ≤ 65535 :=
      Nat.le_trans (h.size_le_place (h.within hle hs ha hw) hz) (hb _ hle)
    obtain ⟨draft', hdraft'⟩ := ih (h.snoc hn hd hform) (by
      rw [hlength, ← hl, List.length_cons]
      omega) (by rw [hlength, ← List.drop_drop, hd, List.drop_one, List.tail_cons])
    refine ⟨draft', (extend_cons hsize hform).trans ?_⟩
    rw [hlength] at hdraft'
    exact hdraft'

end Draft.Lays

/-! ### Code in chunks -/

/-- Whether bytes are an instruction at a position, given the positions of all instructions. -/
inductive Instruction.IsWrittenAs (pool : Pool) (placed : Std.HashMap Mark Nat) (origin : Nat) :
    Instruction Mark → Bytes → Prop
  | fixed {instruction : Instruction Mark} {content : Bytes}
      (h : instruction.IsFixed pool content) : IsWrittenAs pool placed origin instruction content
  | near {op : Opcode} {target : Mark} {position : Nat} (hp : placed[target]? = some position)
      (hd : isShortDistance (distance origin position) = true) :
      IsWrittenAs pool placed origin (.jump op target) (op.near origin position)
  | far {op : Opcode} {target : Mark} {position : Nat} (hp : placed[target]? = some position) :
      IsWrittenAs pool placed origin (.jump op target) (op.far origin position)

/-- Whether the code of a layout consists of chunks, one for each instruction, that stand where the
layout says. -/
structure Layout.IsWritten (pool : Pool) (all : List Step) (layout : Layout) (chunks : List Bytes) :
    Prop where
  code : layout.code = chunks.flatten
  length : chunks.length = all.length
  placed : ∀ (mark : Mark) position, layout.placed[mark]? = some position ↔ ∃ i step,
    all[i]? = some step ∧ step.mark = mark ∧ position = (chunks.take i).flatten.length
  written : ∀ (i : Nat) (step : Step) (chunk : Bytes), all[i]? = some step →
    chunks[i]? = some chunk → step.instruction.IsWrittenAs pool layout.placed (chunks.take i).flatten.length chunk
  landings : ∀ mark, mark ∈ layout.landings ↔ ∃ (i : Nat) (step : Step) (op : Opcode)
    (target : Mark) (chunk : Bytes) (next : Step), all[i]? = some step ∧
    step.instruction = .jump op target ∧ chunks[i]? = some chunk ∧ chunk.length = 8 ∧
    all[i + 1]? = some next ∧ next.mark = mark

/-- What forms come to one after the other. -/
theorem Piece.ResolveTo.exists_chunks {placed : Std.HashMap Mark Nat} {forms : List (Form narrow)}
    {code : Bytes} (h : Piece.ResolveTo placed (forms.flatMap Form.pieces) code) : ∃ chunks,
      List.Forall₂ (fun form chunk => Piece.ResolveTo placed form.pieces chunk) forms chunks ∧
      code = chunks.flatten := by
  induction forms generalizing code with
  | nil =>
    obtain rfl := h.eq_of_nil
    exact ⟨[], .nil, rfl⟩
  | cons form forms ih =>
    rw [List.flatMap_cons] at h
    obtain ⟨front, back, hfront, hback, rfl⟩ := h.append_inv
    obtain ⟨chunks, hchunks, rfl⟩ := ih hback
    exact ⟨front :: chunks, .cons hfront hchunks, rfl⟩

/-- A form has as many bytes as it comes to. -/
theorem Form.size_of_resolveTo {placed : Std.HashMap Mark Nat} {form : Form narrow} {chunk : Bytes}
    (h : Piece.ResolveTo placed form.pieces chunk) : chunk.length = form.size := by
  have hlength := h.length 0
  rw [Form.foldl_size, Nat.zero_add, Nat.zero_add] at hlength
  exact hlength.symm

theorem Form.start_eq {forms : List (Form narrow)} {chunks : List Bytes}
    (h : List.Forall₂ (fun form chunk => chunk.length = form.size) forms chunks) (i : Nat) :
    (chunks.take i).flatten.length = start forms i := by
  induction h generalizing i with
  | nil =>
    rw [List.take_nil, start, List.take_nil]
    rfl
  | cons hchunk _ ih =>
    cases i with
    | zero => rfl
    | succ i =>
      rw [List.take_succ_cons, List.flatten_cons, List.length_append, ih, start, start,
        List.take_succ_cons, List.map_cons, List.sum_cons, hchunk]

namespace Draft.Lays

variable {all : List Step} {draft : Draft narrow} {forms : List (Form narrow)} {i : Nat}
  {step : Step} {form : Form narrow} {chunk : Bytes}

/-- What a form comes to is an instruction where it stands. -/
theorem isWrittenAs (h : Lays pool all draft forms) (hstep : all[i]? = some step)
    (hform : forms[i]? = some form) (hs : step.instruction.isSwitch = false)
    (hr : Piece.ResolveTo draft.placed form.pieces chunk) :
    step.instruction.IsWrittenAs pool draft.placed (Form.start forms i) chunk := by
  obtain ⟨site, hsite, hwritten⟩ := h.written i step form hstep hform
  rw [← hsite.position]
  by_cases hj : ∃ op target, step.instruction = .jump op target
  · obtain ⟨op, target, hinstruction⟩ := hj
    rw [hinstruction] at hwritten ⊢
    have hknown (position : Nat) (hp : site.placed[target]? = some position) :
        draft.placed[target]? = some position := by
      obtain ⟨j, hj, other, hother, hmark, rfl⟩ := (hsite.placed _ _).mp hp
      exact (h.placed _ _).mpr ⟨j, Nat.lt_of_le_of_lt hj (List.getElem?_eq_some_iff.mp hform).1,
        other, hother, hmark, rfl⟩
    obtain ⟨position, hposition, ⟨hd, rfl⟩ | rfl⟩ :=
      (Instruction.jumpForm_of_form hwritten).bytes_of_resolveTo hknown hr
    · exact .near hposition hd
    · exact .far hposition
  · obtain ⟨content, hcontent⟩ : ∃ content, step.instruction.IsFixed pool content :=
      Instruction.exists_isFixed hs fun op target he => hj ⟨op, target, he⟩
    obtain rfl := Except.ok.inj ((hcontent narrow site).symm.trans hwritten)
    obtain rfl := hr.eq_of_only
    exact .fixed hcontent

/-- An instruction is written with a bypass if it is a jump that takes eight bytes. -/
theorem bypasses_iff (h : Lays pool all draft forms) (hstep : all[i]? = some step)
    (hform : forms[i]? = some form) :
    form.bypasses = true ↔ (∃ op target, step.instruction = .jump op target) ∧ form.size = 8 := by
  obtain ⟨site, -, hwritten⟩ := h.written i step form hstep hform
  constructor
  · intro hb
    obtain ⟨op, inverse, target, hinstruction, -, -⟩ := Instruction.exists_of_bypasses hwritten hb
    rw [hinstruction] at hwritten
    exact ⟨⟨op, target, hinstruction⟩, (Instruction.jumpForm_of_form hwritten).bypasses_iff.mp hb⟩
  · rintro ⟨⟨op, target, hinstruction⟩, height⟩
    rw [hinstruction] at hwritten
    exact (Instruction.jumpForm_of_form hwritten).bypasses_iff.mpr height

/-- A draft that was written for all steps comes to code in chunks. -/
theorem exists_isWritten (h : Lays pool all draft forms) (hl : forms.length = all.length)
    (hs : ∀ step ∈ all, step.instruction.isSwitch = false) {layout : Layout}
    (hplaced : layout.placed = draft.placed) (hlandings : layout.landings = draft.landings.reverse)
    (hr : Piece.ResolveTo draft.placed draft.pieces.reverse layout.code) :
    ∃ chunks, layout.IsWritten pool all chunks ∧
      List.Forall₂ (fun form chunk => chunk.length = form.size) forms chunks := by
  rw [h.pieces] at hr
  obtain ⟨chunks, hchunks, hcode⟩ := hr.exists_chunks
  have hsizes := hchunks.imp fun _ _ => Form.size_of_resolveTo
  have hlt {i : Nat} {step : Step} (hstep : all[i]? = some step) : i < forms.length :=
    hl ▸ (List.getElem?_eq_some_iff.mp hstep).1
  have hpair {i : Nat} {form : Form narrow} {chunk : Bytes} (hform : forms[i]? = some form)
      (hchunk : chunks[i]? = some chunk) : Piece.ResolveTo draft.placed form.pieces chunk :=
    (List.forall₂_iff_zip.mp hchunks).2
      (List.mem_of_getElem? (List.getElem?_zip_eq_some.mpr ⟨hform, hchunk⟩))
  refine ⟨chunks, ⟨hcode, hchunks.length_eq.symm.trans hl, fun mark position => ?_,
    fun i step chunk hstep hchunk => ?_, fun mark => ?_⟩, hsizes⟩
  · rw [hplaced, h.placed]
    constructor
    · rintro ⟨i, -, step, hstep, hmark, rfl⟩
      exact ⟨i, step, hstep, hmark, (Form.start_eq hsizes i).symm⟩
    · rintro ⟨i, step, hstep, hmark, rfl⟩
      exact ⟨i, hlt hstep, step, hstep, hmark, Form.start_eq hsizes i⟩
  · have hform := List.getElem?_eq_getElem (hlt hstep)
    rw [Form.start_eq hsizes i, hplaced]
    exact h.isWrittenAs hstep hform (hs step (List.mem_of_getElem? hstep)) (hpair hform hchunk)
  · rw [hlandings, List.mem_reverse, h.landings]
    constructor
    · rintro ⟨i, form, next, hform, hb, hnext, rfl⟩
      have hbound := (List.getElem?_eq_some_iff.mp hform).1
      have hstep : all[i]? = some all[i] := List.getElem?_eq_getElem (hl ▸ hbound)
      have hin : i < chunks.length := hchunks.length_eq ▸ hbound
      have hchunk : chunks[i]? = some chunks[i] := List.getElem?_eq_getElem hin
      obtain ⟨⟨op, target, hinstruction⟩, height⟩ := (h.bypasses_iff hstep hform).mp hb
      exact ⟨i, _, op, target, _, next, hstep, hinstruction, hchunk,
        (Form.size_of_resolveTo (hpair hform hchunk)).trans height, hnext, rfl⟩
    · rintro ⟨i, step, op, target, chunk, next, hstep, hinstruction, hchunk, height, hnext, rfl⟩
      have hform := List.getElem?_eq_getElem (hlt hstep)
      have hsize := Form.size_of_resolveTo (hpair hform hchunk)
      exact ⟨i, _, next, hform, (h.bypasses_iff hstep hform).mpr
        ⟨⟨op, target, hinstruction⟩, hsize.symm.trans height⟩, hnext, rfl⟩

end Draft.Lays

theorem Instruction.IsFixed.unique {instruction : Instruction Mark} {content content' : Bytes}
    (h : instruction.IsFixed pool content) (h' : instruction.IsFixed pool content') :
    content = content' := by
  simpa using (h ∅ ⟨0, 0, ∅⟩).symm.trans (h' ∅ ⟨0, 0, ∅⟩)

/-- A jump is not written as the same bytes everywhere. -/
theorem Instruction.not_isFixed_jump (op : Opcode) (target : Mark) (content : Bytes) :
    ¬(Instruction.jump op target).IsFixed pool content := by
  intro h
  have hform := Instruction.jumpForm_of_form (h ∅ ⟨0, 0, ∅⟩)
  have hnone : (∅ : Std.HashMap Mark Nat)[target]? = none := Std.HashMap.getElem?_empty
  -- a jump to what is not placed has two pieces
  generalize hone : (⟨[.bytes content], false⟩ : Form ∅) = form at hform
  have hpieces := congrArg (·.pieces.length) hone
  cases hform with
  | nearBack hp | farBack hp =>
    rw [hnone] at hp
    cases hp
  | nearAhead | farAhead => cases hpieces

namespace Instruction.IsWrittenAs

variable {placed : Std.HashMap Mark Nat} {origin : Nat} {chunk content : Bytes}

theorem eq_of_isFixed {instruction : Instruction Mark}
    (h : instruction.IsWrittenAs pool placed origin chunk) (hf : instruction.IsFixed pool content) :
    chunk = content := by
  cases h with
  | fixed h => exact h.unique hf
  | near | far => exact absurd hf (not_isFixed_jump _ _ _)

theorem of_jump {op : Opcode} {target : Mark}
    (h : (Instruction.jump op target).IsWrittenAs pool placed origin chunk) :
    ∃ position, placed[target]? = some position ∧
      (isShortDistance (distance origin position) = true ∧ chunk = op.near origin position ∨
        chunk = op.far origin position) := by
  cases h with
  | fixed h => exact absurd h (not_isFixed_jump _ _ _)
  | near hp hd => exact ⟨_, hp, .inl ⟨hd, rfl⟩⟩
  | far hp => exact ⟨_, hp, .inr rfl⟩

end Instruction.IsWrittenAs

namespace Layout.IsWritten

variable {all : List Step} {layout : Layout} {chunks : List Bytes}

theorem start_succ {i : Nat} {chunk : Bytes} (h : chunks[i]? = some chunk) :
    (chunks.take (i + 1)).flatten.length = (chunks.take i).flatten.length + chunk.length := by
  rw [List.take_add_one, h, Option.toList_some, List.flatten_append, List.length_append,
    List.flatten_singleton]

theorem position_eq (h : layout.IsWritten pool all chunks) (hn : (all.map (·.mark)).Nodup) {i : Nat}
    {step : Step} (hstep : all[i]? = some step) {position : Nat} :
    layout.placed[step.mark]? = some position ↔ position = (chunks.take i).flatten.length := by
  rw [h.placed]
  constructor
  · rintro ⟨j, other, hother, hmark, rfl⟩
    rw [Step.index_eq hn hother hstep hmark]
  · rintro rfl
    exact ⟨i, step, hstep, rfl, rfl⟩

theorem exists_chunk (h : layout.IsWritten pool all chunks) {i : Nat} {step : Step}
    (hstep : all[i]? = some step) : ∃ chunk, chunks[i]? = some chunk := by
  have hlt := (List.getElem?_eq_some_iff.mp hstep).1
  exact ⟨_, List.getElem?_eq_getElem (h.length.symm ▸ hlt)⟩

/-- The places at which a layout puts instructions are far enough apart. -/
theorem admits (h : layout.IsWritten pool all chunks) (hn : (all.map (·.mark)).Nodup) :
    Admits pool all fun i => (chunks.take i).flatten.length := by
  refine ⟨fun i step content hstep hcontent => ?_, fun i step op target hstep hjump => ?_,
    fun i step op j other hstep hother hjump => ?_⟩
  · obtain ⟨chunk, hchunk⟩ := h.exists_chunk hstep
    rw [start_succ hchunk, (h.written i step chunk hstep hchunk).eq_of_isFixed hcontent]
    omega
  · obtain ⟨chunk, hchunk⟩ := h.exists_chunk hstep
    have hwritten := h.written i step chunk hstep hchunk
    rw [hjump] at hwritten
    obtain ⟨position, -, ⟨-, rfl⟩ | rfl⟩ := hwritten.of_jump
    · rw [start_succ hchunk, Opcode.length_near]
      omega
    · rw [start_succ hchunk, Opcode.length_far, Opcode.farSize]
      split_ifs <;> omega
  · obtain ⟨chunk, hchunk⟩ := h.exists_chunk hstep
    have hwritten := h.written i step chunk hstep hchunk
    rw [hjump] at hwritten
    obtain ⟨position, hposition, ⟨hd, rfl⟩ | rfl⟩ := hwritten.of_jump
    · obtain rfl := (h.position_eq hn hother).mp hposition
      have hnear := isShortDistance_iff.mp hd
      have hnext := start_succ hchunk
      rw [Opcode.length_near] at hnext
      refine .inr ?_
      unfold Reaches
      dsimp only
      rw [hnext]
      omega
    · rw [start_succ hchunk, Opcode.length_far]
      exact .inl (Nat.le_of_eq (Nat.add_comm _ _))

end Layout.IsWritten

/-! ### The least layout -/

/-- The instruction that a piece refers to. -/
def Piece.target? : Piece narrow → Option Mark
  | bytes _ => none
  | half _ target _ | word _ target => some target

/-- Distances to instructions that have positions are found to fit or not. -/
theorem Draft.exists_resolve {placed : Std.HashMap Mark Nat} {pieces : List (Piece narrow)}
    (h : ∀ piece ∈ pieces, ∀ target, piece.target? = some target →
      ∃ position, placed[target]? = some position) (written : Bytes) :
    ∃ outcome, resolve placed pieces written = .ok outcome := by
  induction pieces generalizing written with
  | nil => exact ⟨_, rfl⟩
  | cons piece pieces ih =>
    have hrest := ih fun other hother => h other (List.mem_cons_of_mem _ hother)
    cases piece with
    | bytes content => exact hrest _
    | word origin target =>
      obtain ⟨position, hp⟩ := h _ List.mem_cons_self target rfl
      rw [resolve, find_eq_ok.mpr hp]
      exact hrest _
    | half origin target jump =>
      obtain ⟨position, hp⟩ := h _ List.mem_cons_self target rfl
      rw [resolve, find_eq_ok.mpr hp]
      dsimp only
      split_ifs
      · exact hrest _
      · exact ⟨_, rfl⟩

/-- A form only refers to targets of its instruction. -/
theorem Instruction.mem_targets_of_form {instruction : Instruction Mark} {site : Site}
    {form : Form narrow} (hs : instruction.isSwitch = false)
    (h : instruction.form pool site = .ok form) {piece : Piece narrow} (hp : piece ∈ form.pieces)
    {target : Mark} (ht : piece.target? = some target) : target ∈ instruction.targets := by
  by_cases hj : ∃ op target, instruction = .jump op target
  · obtain ⟨op, other, rfl⟩ := hj
    refine List.mem_singleton.mpr ?_
    cases Instruction.jumpForm_of_form h with
    | nearBack | farBack =>
      obtain rfl := List.mem_singleton.mp hp
      cases ht
    | nearAhead | farAhead =>
      rcases List.mem_pair.mp hp with rfl | rfl
      · cases ht
      · exact (Option.some.inj ht).symm
  · obtain ⟨content, hcontent⟩ : ∃ content, instruction.IsFixed pool content :=
      exists_isFixed hs fun op target he => hj ⟨op, target, he⟩
    obtain rfl := Except.ok.inj ((hcontent narrow site).symm.trans h)
    obtain rfl := List.mem_singleton.mp hp
    cases ht

/-- Every instruction has a byte. -/
theorem Instruction.IsFixed.length_pos {instruction : Instruction Mark} {content : Bytes}
    (hs : instruction.isSwitch = false) (h : instruction.IsFixed pool content) :
    0 < content.length := by
  have hform := h ∅ ⟨0, 0, ∅⟩
  cases instruction with
  | jump op target => exact absurd h (not_isFixed_jump op target content)
  | tableSwitch | lookupSwitch => cases hs
  | constant index =>
    obtain rfl : constantBytes pool index = content := by simpa using Except.ok.inj hform
    unfold constantBytes
    split_ifs <;> exact Nat.succ_pos _
  | access op slot =>
    obtain rfl : accessBytes op slot = content := by simpa using Except.ok.inj hform
    unfold accessBytes
    split_ifs <;> exact Nat.succ_pos _
  | increment slot delta =>
    obtain rfl : incrementBytes slot delta = content := by simpa using Except.ok.inj hform
    unfold incrementBytes
    split_ifs <;> exact Nat.succ_pos _
  | _ =>
    have hpieces := congrArg Form.pieces (Except.ok.inj hform)
    obtain rfl := Piece.bytes.inj (List.cons.inj hpieces).1
    exact Nat.succ_pos _

theorem Instruction.size_pos_of_form {instruction : Instruction Mark} {site : Site}
    {form : Form narrow} (hs : instruction.isSwitch = false)
    (h : instruction.form pool site = .ok form) : 0 < form.size := by
  by_cases hj : ∃ op target, instruction = .jump op target
  · obtain ⟨op, target, rfl⟩ := hj
    rcases (jumpForm_of_form h).size with hsize | ⟨hsize, -, -⟩
    · rw [hsize]
      decide
    · rw [hsize, Opcode.farSize]
      split_ifs <;> decide
  · obtain ⟨content, hcontent⟩ : ∃ content, instruction.IsFixed pool content :=
      exists_isFixed hs fun op target he => hj ⟨op, target, he⟩
    obtain rfl := Except.ok.inj ((hcontent narrow site).symm.trans h)
    exact hcontent.length_pos hs

namespace Draft.Lays

variable {all : List Step} {draft : Draft narrow} {forms : List (Form narrow)}

theorem size_pos (h : Lays pool all draft forms) (hl : forms.length = all.length) (hne : all ≠ [])
    (hs : ∀ step ∈ all, step.instruction.isSwitch = false) : 0 < draft.size := by
  have hlt : 0 < all.length := List.length_pos_iff.mpr hne
  have hstep : all[0]? = some all[0] := List.getElem?_eq_getElem hlt
  have hform : forms[0]? = some forms[0] := List.getElem?_eq_getElem (hl ▸ hlt)
  obtain ⟨site, -, hwritten⟩ := h.written 0 _ _ hstep hform
  have hpos := Instruction.size_pos_of_form (hs _ (List.mem_of_getElem? hstep)) hwritten
  have hle := Form.start_le_start forms (hl ▸ hlt : 0 + 1 ≤ forms.length)
  rw [Form.start_succ hform] at hle
  rw [h.size]
  omega

/-- All targets have positions. -/
theorem exists_resolve (h : Lays pool all draft forms) (hl : forms.length = all.length)
    (hs : ∀ step ∈ all, step.instruction.isSwitch = false)
    (ht : ∀ step ∈ all, ∀ target ∈ step.instruction.targets, target ∈ all.map (·.mark)) :
    ∃ outcome, resolve draft.placed draft.pieces.reverse [] = .ok outcome := by
  refine Draft.exists_resolve (fun piece hpiece target htarget => ?_) []
  rw [h.pieces] at hpiece
  obtain ⟨form, hform, hin⟩ := List.mem_flatMap.mp hpiece
  obtain ⟨i, hi⟩ := List.mem_iff_getElem?.mp hform
  have hlt := (List.getElem?_eq_some_iff.mp hi).1
  have hstep : all[i]? = some all[i] := List.getElem?_eq_getElem (hl ▸ hlt)
  have hmem := List.mem_of_getElem? hstep
  obtain ⟨site, -, hwritten⟩ := h.written i _ form hstep hi
  obtain ⟨other, hother, hmark⟩ := List.mem_map.mp
    (ht _ hmem target (Instruction.mem_targets_of_form (hs _ hmem) hwritten hin htarget))
  obtain ⟨j, hj⟩ := List.mem_iff_getElem?.mp hother
  exact ⟨_, (h.placed _ _).mpr ⟨j, hl ▸ (List.getElem?_eq_some_iff.mp hj).1, other, hj, hmark, rfl⟩⟩

end Draft.Lays

namespace Layout

variable {all : List Step} {place : Nat → Nat}

/-- What one of some cells adds to a set is in it in the end, if none takes anything away. -/
theorem mem_foldl_of_mem {α : Type} {f : Std.HashSet Nat → α → Std.HashSet Nat}
    (hf : ∀ found cell, ∀ index ∈ found, index ∈ f found cell) {cells : List α} {cell : α}
    (hc : cell ∈ cells) {index : Nat} (hi : ∀ found, index ∈ f found cell)
    (found : Std.HashSet Nat) : index ∈ cells.foldl f found := by
  have hkept (cells : List α) (found : Std.HashSet Nat) (h : index ∈ found) :
      index ∈ cells.foldl f found := by
    induction cells generalizing found with
    | nil => exact h
    | cons cell cells ih => exact ih _ (hf found cell index h)
  obtain ⟨before, after, rfl⟩ := List.append_of_mem hc
  rw [List.foldl_append, List.foldl_cons]
  exact hkept after _ (hi _)

/-- All jumps may be short at first. -/
theorem widens_jumps (all : List Step) (place : Nat → Nat) : Widens all place (jumps all) := by
  intro i step op target hstep hjump hnot
  refine absurd (mem_foldl_of_mem (fun found cell index h => ?_)
    (List.mk_mem_zipIdx_iff_getElem?.mpr hstep) (fun found => ?_) ∅) hnot
  · dsimp only
    split
    · exact Std.HashSet.mem_insert.mpr (.inr h)
    · exact h
  · dsimp only
    rw [hjump]
    exact Std.HashSet.mem_insert_self

/-- What is written in a trial after which a jump is widened: the jump leads ahead, and takes three
bytes, but its target is too far away for them. -/
theorem exists_of_trial_widens (hn : (all.map (·.mark)).Nodup) {jump : Nat}
    (h : trial pool all narrow = .widens jump) :
    ∃ (draft : Draft narrow) (forms : List (Form narrow)) (step other : Step) (op : Opcode) (j : Nat),
      draft.Lays pool all forms ∧ forms.length = all.length ∧
      all[jump]? = some step ∧ all[j]? = some other ∧ step.instruction = .jump op other.mark ∧
      jump < j ∧ Form.start forms jump + 32767 < Form.start forms j ∧
      Form.start forms (jump + 1) = Form.start forms jump + 3 := by
  unfold trial at h
  split at h
  · cases h
  rename_i draft hdraft
  split_ifs at h
  split at h
  · cases h
  · cases h
  rename_i far hfar
  obtain rfl : far.val = jump := Trial.widens.inj h
  obtain ⟨forms, hlays, hlength⟩ := Draft.lays_empty.exists_of_extend hn (by simp) rfl hdraft
  obtain ⟨origin, target, position, hp, hposition, hd⟩ := Draft.exists_of_tooFar hfar
  rw [hlays.pieces] at hp
  obtain ⟨form, hform, hpiece⟩ := List.mem_flatMap.mp hp
  obtain ⟨i, hi⟩ := List.mem_iff_getElem?.mp hform
  have hlt := (List.getElem?_eq_some_iff.mp hi).1
  have hstep : all[i]? = some all[i] := List.getElem?_eq_getElem (hlength ▸ hlt)
  obtain ⟨site, hsite, hwritten⟩ := hlays.written i _ form hstep hi
  obtain ⟨⟨op, hop⟩, -, -⟩ := Instruction.exists_of_half hwritten hpiece
  rw [hop] at hwritten
  obtain ⟨rfl, -, hindex, hnone, hsize⟩ := (Instruction.jumpForm_of_form hwritten).of_half hpiece
  obtain ⟨j, hj, other, hother, rfl, rfl⟩ := (hlays.placed _ _).mp hposition
  -- a target that came before would have had its position
  have hlater : i < j := by
    by_contra hle
    have hknown := (hsite.placed _ _).mpr ⟨j, Nat.le_of_not_lt hle, other, hother, rfl, rfl⟩
    rw [hnone] at hknown
    cases hknown
  rw [hindex, hsite.index]
  have hback := Form.start_le_start forms (Nat.le_of_lt hlater)
  have hfar := isShortDistance_iff.not.mp (Bool.eq_false_iff.mp hd)
  rw [hsite.position] at hfar
  refine ⟨draft, forms, _, other, op, j, hlays, hlength, hstep, hother, hop, hlater, by omega, ?_⟩
  rw [Form.start_succ hi, hsize]

/-- A jump that is too far takes the bytes for four that tell the distance wherever the
instructions start that are far enough apart. -/
theorem Widens.erase (hn : (all.map (·.mark)).Nodup)
    (hs : ∀ step ∈ all, step.instruction.isSwitch = false) (ha : Admits pool all place)
    (hw : Widens all place narrow) {jump : Nat} (h : trial pool all narrow = .widens jump) :
    Widens all place (narrow.erase jump) := by
  obtain ⟨draft, forms, step, other, op, j, hlays, hlength, hstep, hother, hop, hlater, hfar, hsize⟩ :=
    exists_of_trial_widens hn h
  have hwithin := hlays.within (Nat.le_of_eq hlength) hs ha hw
  intro k step' op' target' hk hjump hnarrow
  by_cases hkj : k = jump
  · subst hkj
    obtain rfl := Option.some.inj (hstep.symm.trans hk)
    obtain ⟨rfl, rfl⟩ := Instruction.jump.inj (hop.symm.trans hjump)
    rcases ha.far k _ op j other hk hother hop with hfit | hreach
    · exact hfit
    · have hnext : k + 1 ≤ j := hlater
      have hle := start_le (fun n _ => hwithin n)
        (Nat.le_of_lt (hlength ▸ (List.getElem?_eq_some_iff.mp hother).1)) hnext
      unfold Reaches at hreach
      omega
  · refine hw k step' op' target' hk hjump fun hmem => hnarrow ?_
    exact Std.HashSet.mem_erase.mpr ⟨beq_false_of_ne (Ne.symm hkj), hmem⟩

/-- No trial is refused where there are places for all instructions. -/
theorem exists_of_trial_ends (hn : (all.map (·.mark)).Nodup) (hne : all ≠ [])
    (hr : ∀ step ∈ all, step.instruction.IsWritable pool)
    (hs : ∀ step ∈ all, step.instruction.isSwitch = false)
    (ht : ∀ step ∈ all, ∀ target ∈ step.instruction.targets, target ∈ all.map (·.mark))
    (ha : Admits pool all place) (hw : Widens all place narrow) (hz : place 0 = 0)
    (hb : ∀ i ≤ all.length, place i ≤ 65535) {answer : Except ClassFault Layout}
    (h : trial pool all narrow = .ends answer) :
    ∃ layout chunks, answer = .ok layout ∧ layout.IsWritten pool all chunks ∧
      ∀ (i : Nat) chunk, chunks[i]? = some chunk → List.length chunk + place i ≤ place (i + 1) := by
  obtain ⟨draft, hdraft⟩ := Draft.lays_empty.exists_extend hn (by simp) rfl hr hs ha hw hz hb
  obtain ⟨forms, hlays, hlength⟩ := Draft.lays_empty.exists_of_extend hn (by simp) rfl hdraft
  have hwithin := hlays.within (Nat.le_of_eq hlength) hs ha hw
  have hsize := Nat.le_trans (hlays.size_le_place hwithin hz) (hb _ (Nat.le_of_eq hlength))
  have hpos := hlays.size_pos hlength hne hs
  obtain ⟨outcome, houtcome⟩ := hlays.exists_resolve hlength hs ht
  have hextend : Draft.extend pool 0 all (Draft.empty : Draft narrow) = .ok draft := hdraft
  rw [trial, hextend] at h
  dsimp only at h
  rw [if_neg (by omega), houtcome] at h
  cases outcome with
  | tooFar jump => cases h
  | code code =>
    obtain rfl := Trial.ends.inj h
    obtain ⟨bytes, hresolve, rfl⟩ := Draft.resolveTo_of_resolve houtcome
    have hcode : Piece.ResolveTo draft.placed draft.pieces.reverse
        (Layout.mk code draft.placed draft.landings.reverse).code := hresolve
    obtain ⟨chunks, hchunks, hsizes⟩ := hlays.exists_isWritten hlength hs rfl rfl hcode
    refine ⟨_, chunks, rfl, hchunks, fun i chunk hchunk => ?_⟩
    have hlt : i < forms.length := by
      rw [hsizes.length_eq]
      exact (List.getElem?_eq_some_iff.mp hchunk).1
    have hform : forms[i]? = some forms[i] := List.getElem?_eq_getElem hlt
    rw [(List.forall₂_iff_zip.mp hsizes).2
      (List.mem_of_getElem? (List.getElem?_zip_eq_some.mpr ⟨hform, hchunk⟩))]
    exact hwithin i _ hform

/-- Steps are laid out if there are places for them that are far enough apart, and take no more bytes
than there. -/
theorem exists_of_admits (hn : (all.map (·.mark)).Nodup) (hne : all ≠ [])
    (hr : ∀ step ∈ all, step.instruction.IsWritable pool)
    (hs : ∀ step ∈ all, step.instruction.isSwitch = false)
    (ht : ∀ step ∈ all, ∀ target ∈ step.instruction.targets, target ∈ all.map (·.mark))
    (ha : Admits pool all place) (hz : place 0 = 0) (hb : ∀ i ≤ all.length, place i ≤ 65535) :
    ∃ layout chunks, ofSteps pool all = .ok layout ∧ layout.IsWritten pool all chunks ∧
      ∀ (i : Nat) chunk, chunks[i]? = some chunk → List.length chunk + place i ≤ place (i + 1) := by
  obtain ⟨widened, hdrafts⟩ := exists_drafts pool all (jumps all)
  have hw := widens_jumps all place
  rw [ofSteps]
  generalize within pool all (jumps all) = answer at hdrafts ⊢
  generalize jumps all = narrow at hdrafts hw
  induction hdrafts with
  | last h => exact exists_of_trial_ends hn hne hr hs ht ha hw hz hb h
  | again h _ ih => exact ih (hw.erase hn hs ha h)

/-- Steps that are laid out can be written anywhere, and their code consists of chunks. -/
theorem exists_isWritten (hn : (all.map (·.mark)).Nodup)
    (hs : ∀ step ∈ all, step.instruction.isSwitch = false) {layout : Layout}
    (h : ofSteps pool all = .ok layout) :
    (∀ step ∈ all, step.instruction.IsWritable pool) ∧
      ∃ chunks, layout.IsWritten pool all chunks := by
  obtain ⟨narrow, draft, hdraft, -, -, hresolve, hplaced, hlandings⟩ := exists_draft_of_within h
  obtain ⟨forms, hlays, hlength⟩ := Draft.lays_empty.exists_of_extend hn (by simp) rfl hdraft
  refine ⟨fun step hstep => ?_, ?_⟩
  · obtain ⟨i, hi⟩ := List.mem_iff_getElem?.mp hstep
    have hlt := (List.getElem?_eq_some_iff.mp hi).1
    have hform : forms[i]? = some forms[i] := List.getElem?_eq_getElem (hlength.symm ▸ hlt)
    obtain ⟨site, -, hwritten⟩ := hlays.written i step _ hi hform
    exact Instruction.isWritable_of_form (hs step hstep) hwritten
  · obtain ⟨chunks, hchunks, -⟩ := hlays.exists_isWritten hlength hs hplaced hlandings hresolve
    exact ⟨chunks, hchunks⟩

end Layout

end ClassGraft

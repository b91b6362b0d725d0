import ClassGraft.Proofs.Template.Rereading
import ClassGraft.Proofs.Text.Quoting
import Std.Data.HashMap.Lemmas

/-!
# Templates that read back

A template is what the lines of a text spell that are neither empty nor comments, and no label is in
it twice (`Template.read_eq_ok`).  What a line was read from decides that its own text stands on one
line and is no comment (`Line.isOneLine_of_read`), so a template that was read is read again from its
lines, up to constants that are no number (`Template.exists_ofLines_lines`).
-/

namespace ClassGraft

open Text (IsTrimmed IsWord)

/-! ### Lines of a text -/

section Lines

variable {before line text : List Char} {lines : List (List Char)}

theorem splitLines_append (h : '\n' ∉ line) (rest : List Char) :
    splitLines before (line ++ '\n' :: rest) = (before.reverse ++ line) :: splitLines [] rest := by
  induction line generalizing before with
  | nil => rw [List.nil_append, splitLines, if_pos rfl, List.append_nil]
  | cons c line ih =>
    obtain ⟨hc, hline⟩ := not_or.mp (List.mem_cons.not.mp h)
    rw [List.cons_append, splitLines, if_neg (Ne.symm hc), ih hline, List.reverse_cons,
      List.append_assoc, List.singleton_append]

theorem splitLines_of_not_mem (h : '\n' ∉ line) :
    splitLines before line = [before.reverse ++ line] := by
  induction line generalizing before with
  | nil => rw [splitLines, List.append_nil]
  | cons c line ih =>
    obtain ⟨hc, hline⟩ := not_or.mp (List.mem_cons.not.mp h)
    rw [splitLines, if_neg (Ne.symm hc), ih hline, List.reverse_cons, List.append_assoc,
      List.singleton_append]

/-- Lines that are joined are split again. -/
theorem splitLines_intercalate (hs : lines ≠ []) (h : ∀ line ∈ lines, '\n' ∉ line) :
    splitLines [] (['\n'].intercalate lines) = lines := by
  induction lines with
  | nil => exact absurd rfl hs
  | cons line rest ih =>
    obtain ⟨hline, hrest⟩ := List.forall_mem_cons.mp h
    cases rest with
    | nil =>
      rw [List.intercalate_singleton]
      exact splitLines_of_not_mem hline
    | cons next rest =>
      rw [List.intercalate_cons_cons, List.append_assoc, List.singleton_append,
        splitLines_append hline, ih (List.cons_ne_nil _ _) hrest]
      rfl

theorem newline_not_mem_of_mem_splitLines (hb : '\n' ∉ before)
    (h : line ∈ splitLines before text) : '\n' ∉ line := by
  induction text generalizing before with
  | nil =>
    rw [List.mem_singleton.mp h]
    exact fun hc => hb (List.mem_reverse.mp hc)
  | cons c rest ih =>
    rw [splitLines] at h
    split_ifs at h with hc
    · rcases List.mem_cons.mp h with rfl | h
      · exact fun hc => hb (List.mem_reverse.mp hc)
      · exact ih List.not_mem_nil h
    · exact ih (List.not_mem_cons_of_ne_of_not_mem (Ne.symm hc) hb) h

end Lines

namespace Template

/-! ### What a template is read from -/

/-- Whether a line is passed over. -/
def isSkipped (text : List Char) : Bool := text.isEmpty || text.take 2 == ['/', '/']

/-- The lines that are not passed over. -/
def keptLines (texts : List (List Char)) : List (List Char) :=
  (texts.map Text.trim).filter (!isSkipped ·)

/-- The labels that a template defines. -/
def labelNames (template : Template) : List String := template.filterMap Line.label?

variable {number : Nat} {labels : Std.HashMap String Nat} {found template : Template}
  {text : List Char} {texts : List (List Char)} {line : Line}

theorem keptLines_cons : keptLines (text :: texts) =
    if isSkipped (Text.trim text) then keptLines texts else Text.trim text :: keptLines texts := by
  unfold keptLines
  rw [List.map_cons, List.filter_cons]
  cases isSkipped (Text.trim text) <;> rfl

theorem readFrom_of_skipped (h : isSkipped (Text.trim text) = true) :
    readFrom number labels found (text :: texts) = readFrom (number + 1) labels found texts := by
  rw [readFrom]
  exact if_pos h

/-- A line that is a label is kept if the label is new, and any other line is kept. -/
theorem readFrom_of_read (hs : isSkipped (Text.trim text) = false)
    (h : Line.read (Text.trim text) = .ok line) :
    readFrom number labels found (text :: texts) =
      match line.label? with
      | some name =>
        match labels[name]? with
        | some first => .error (.repeatedLabel number name first)
        | none => readFrom (number + 1) (labels.insert name number) (line :: found) texts
      | none => readFrom (number + 1) labels (line :: found) texts := by
  have hkept : ¬((Text.trim text).isEmpty || (Text.trim text).take 2 == ['/', '/']) = true :=
    Bool.eq_false_iff.mp hs
  rw [readFrom, if_neg hkept, h]
  cases line <;> rfl

theorem readFrom_of_error (hs : isSkipped (Text.trim text) = false) {fault : LineFault}
    (h : Line.read (Text.trim text) = .error fault) :
    readFrom number labels found (text :: texts) = .error (.atLine number fault) := by
  have hkept : ¬((Text.trim text).isEmpty || (Text.trim text).take 2 == ['/', '/']) = true :=
    Bool.eq_false_iff.mp hs
  rw [readFrom, if_neg hkept, h]

theorem labelNames_cons (line : Line) (template : Template) :
    labelNames (line :: template) = line.label?.toList ++ template.labelNames := by
  unfold labelNames
  cases hlabel : line.label? <;> simp [hlabel]

/-- Names are new after one more was entered if they were new and are not that one. -/
theorem forall_getElem?_insert {names : List String} {name : String} :
    (∀ other ∈ names, (labels.insert name number)[other]? = none) ↔
      name ∉ names ∧ ∀ other ∈ names, labels[other]? = none := by
  constructor
  · intro h
    refine ⟨fun hin => ?_, fun other hin => ?_⟩
    · have hnone := h name hin
      rw [Std.HashMap.getElem?_insert_self] at hnone
      cases hnone
    · have hnone := h other hin
      rw [Std.HashMap.getElem?_insert] at hnone
      split_ifs at hnone
      exact hnone
  · rintro ⟨hnot, h⟩ other hin
    have hne : ¬(name == other) = true := fun heq => hnot (eq_of_beq heq ▸ hin)
    rw [Std.HashMap.getElem?_insert, if_neg hne]
    exact h other hin

/-- Whether the lines are read one by one. -/
def AreRead (texts : List (List Char)) (template : Template) : Prop :=
  List.Forall₂ (fun text line => Line.read text = .ok line) texts template

/-- The line that was read is the first one. -/
theorem exists_areRead_cons {p : Template → Prop} (h : Line.read text = .ok line) :
    (∃ lines, AreRead (text :: texts) lines ∧ p lines) ↔
      ∃ lines, AreRead texts lines ∧ p (line :: lines) := by
  constructor
  · rintro ⟨_, hread, hp⟩
    obtain ⟨other, lines, hline, hlines, rfl⟩ := List.forall₂_cons_left_iff.mp hread
    obtain rfl := Except.ok.inj (h.symm.trans hline)
    exact ⟨lines, hlines, hp⟩
  · rintro ⟨lines, hlines, hp⟩
    exact ⟨line :: lines, .cons h hlines, hp⟩

/-- The lines that are kept are read one by one, and their labels are neither there nor twice among
them. -/
theorem readFrom_eq_ok : readFrom number labels found texts = .ok template ↔
    ∃ lines, AreRead (keptLines texts) lines ∧ (labelNames lines).Nodup ∧
      (∀ name ∈ labelNames lines, labels[name]? = none) ∧ template = found.reverse ++ lines := by
  induction texts generalizing number labels found with
  | nil =>
    constructor
    · intro h
      exact ⟨[], .nil, .nil, List.forall_mem_nil _, by simpa using (Except.ok.inj h).symm⟩
    · rintro ⟨lines, hread, -, -, rfl⟩
      obtain rfl := List.forall₂_nil_left_iff.mp hread
      rw [readFrom, List.append_nil]
  | cons text texts ih =>
    rw [keptLines_cons]
    cases hs : isSkipped (Text.trim text) with
    | true => rw [readFrom_of_skipped hs, ih, if_pos rfl]
    | false =>
      rw [if_neg Bool.false_ne_true]
      cases hread : Line.read (Text.trim text) with
      | error fault =>
        rw [readFrom_of_error hs hread]
        refine iff_of_false (by simp) ?_
        rintro ⟨lines, hlines, -⟩
        obtain ⟨line, lines, hline, -, rfl⟩ := List.forall₂_cons_left_iff.mp hlines
        cases hread.symm.trans hline
      | ok line =>
        rw [readFrom_of_read hs hread, exists_areRead_cons hread]
        simp only [labelNames_cons]
        cases hlabel : line.label? with
        | none => simp [ih]
        | some name =>
          simp only [Option.toList_some, List.singleton_append, List.nodup_cons,
            List.forall_mem_cons]
          cases hthere : labels[name]? with
          | some first =>
            -- the label is there already
            refine iff_of_false (by simp) ?_
            rintro ⟨lines, -, -, ⟨hnone, -⟩, -⟩
            cases hnone
          | none =>
            rw [ih]
            refine exists_congr fun lines => and_congr_right fun _ => ?_
            rw [forall_getElem?_insert, List.reverse_cons, List.append_assoc,
              List.singleton_append]
            tauto

/-- A template is read from a text if it is read from the lines that are kept, one by one, and
defines no label twice. -/
theorem read_eq_ok {text : String} : read text = .ok template ↔
    AreRead (keptLines (splitLines [] text.toList)) template ∧ template.labelNames.Nodup := by
  unfold read
  rw [readFrom_eq_ok]
  constructor
  · rintro ⟨lines, hread, hnodup, -, rfl⟩
    exact ⟨hread, hnodup⟩
  · rintro ⟨hread, hnodup⟩
    exact ⟨template, hread, hnodup, fun name _ => Std.HashMap.getElem?_empty, rfl⟩

end Template

/-! ### Texts that stand on one line -/

/-- Whether the text is one that a line of a text, without the blanks at its ends, may be. -/
structure IsPhrase (text : List Char) : Prop where
  trimmed : IsTrimmed text
  ne_nil : text ≠ []
  newline : '\n' ∉ text

section Phrases

variable {text word rest : List Char}

theorem isPhrase_of_isWord (h : IsWord word) : IsPhrase word :=
  ⟨h.isTrimmed, h.ne_nil, fun hin => Bool.noConfusion (h.not_blank _ hin)⟩

/-- A word may stand before a phrase. -/
theorem IsPhrase.cons_word (hw : IsWord word) (hr : IsPhrase rest) :
    IsPhrase (word ++ ' ' :: rest) := by
  refine ⟨⟨fun c hc => ?_, fun c hc => ?_⟩, List.append_ne_nil_of_left_ne_nil hw.ne_nil _,
    fun hin => ?_⟩
  · rw [List.head?_append_of_ne_nil _ hw.ne_nil] at hc
    exact hw.isTrimmed.head c hc
  · rw [List.getLast?_append_of_ne_nil _ (List.cons_ne_nil _ _), ← List.singleton_append,
      List.getLast?_append_of_ne_nil _ hr.ne_nil] at hc
    exact hr.trimmed.last c hc
  · rcases List.mem_append.mp hin with hin | hin
    · exact (isPhrase_of_isWord hw).newline hin
    · exact hr.newline ((List.mem_cons.mp hin).resolve_left (by decide))

end Phrases

/-! ### Constants that were read -/

namespace Constant

variable {value : Constant}

/-- A class that was read from one line has a name on one line. -/
theorem newline_not_mem_of_read {text : List Char} {name : String} (hn : '\n' ∉ text)
    (h : read text = .ok (classRef name)) : '\n' ∉ name.toList := by
  unfold read at h
  extract_lets whole at h
  split at h
  · obtain ⟨text, -, hother⟩ := Except.map_eq_ok.mp (Except.mapError_eq_ok.mp h)
    cases hother
  · rename_i rest
    obtain rfl := Constant.classRef.inj (Except.ok.inj h)
    rw [String.toList_ofList]
    have hrest : '\n' ∉ rest := fun hin => hn (by simp [hin])
    exact fun hin => hrest (Text.mem_of_mem_trim hin)
  · repeat' split at h
    all_goals
      obtain ⟨_, -, hother⟩ := Except.map_eq_ok.mp (Except.mapError_eq_ok.mp h)
      cases hother

/-- The text of a constant stands on one line, if the name of a class does. -/
theorem isPhrase_text (h : value.IsSpellable)
    (hn : ∀ name, value = classRef name → '\n' ∉ name.toList) : IsPhrase value.text.toList := by
  obtain ⟨hsome, htrimmed⟩ := isTrimmed_text h
  refine ⟨htrimmed, hsome, ?_⟩
  cases value with
  | string value => exact Quoted.newline_not_mem_encode value
  | classRef name =>
    show '\n' ∉ ("class " ++ name).toList
    rw [String.toList_append]
    intro hin
    exact hn name rfl ((List.mem_append.mp hin).resolve_left (by decide))
  | _ => exact (isPhrase_of_isWord (isWord_text rfl)).newline

end Constant

/-! ### Lines that were read -/

namespace Line

variable {line : Line} {text : List Char}

/-- The operands of a line stand on one line, if the name of a class that is loaded does. -/
theorem isPhrase_of_written? {op : Opcode} {operands : String} (h : line.IsSpellable)
    (hn : ∀ name, line = constant (.classRef name) → '\n' ∉ name.toList)
    (hw : line.written? = some (op, operands)) :
    op ≤ Opcode.jsrWide ∧ IsPhrase operands.toList := by
  have hnumber (n : Nat) : IsWord (toString n).toList := isWord_natural n
  -- Lines without operands are closed by the first step; the others are words, one or two of them.
  cases line <;> cases hw
  case bytePush value => exact ⟨by decide, isPhrase_of_isWord (isWord_integer _)⟩
  case shortPush value => exact ⟨by decide, isPhrase_of_isWord (isWord_integer _)⟩
  case constant value =>
    exact ⟨by decide, Constant.isPhrase_text h fun name hname => hn name (hname ▸ rfl)⟩
  case access slot =>
    have hop : (op.isLoad || op.isStore) = true := h
    exact ⟨by grind, isPhrase_of_isWord (hnumber slot.toNat)⟩
  case increment slot delta =>
    refine ⟨by decide, ?_⟩
    rw [String.toList_append, String.toList_append]
    exact .cons_word (hnumber slot.toNat) (isPhrase_of_isWord (isWord_integer _))
  case jump =>
    obtain ⟨hop, -, hword⟩ := h
    exact ⟨by grind, isPhrase_of_isWord hword⟩
  case field member =>
    obtain ⟨hop, hmember⟩ := h
    exact ⟨by grind, isPhrase_of_isWord (isWord_memberText hmember)⟩
  case invoke member interface =>
    obtain ⟨hop, hmember, -⟩ := h
    have hword := isPhrase_of_isWord (isWord_memberText hmember)
    refine ⟨by grind, ?_⟩
    unfold ownerMark
    split_ifs
    · have hmark : IsWord "interface".toList :=
        ⟨List.cons_ne_nil _ _, List.all_iff_forall_prop.mp (by decide)⟩
      rw [String.toList_append]
      exact .cons_word hmark hword
    · rwa [String.empty_append]
  case classOp =>
    obtain ⟨hop, hword⟩ := h
    exact ⟨by grind, isPhrase_of_isWord hword⟩
  case newArray element =>
    obtain ⟨name, hname⟩ := h
    exact ⟨by decide, isPhrase_of_isWord (name_of_byName? hname).2⟩
  case newMultiArray name dimensions =>
    refine ⟨by decide, ?_⟩
    rw [String.toList_append, String.toList_append]
    exact .cons_word h (isPhrase_of_isWord (hnumber dimensions.toNat))

/-- A class that is loaded was read from the line, so its name is on one line as well. -/
theorem newline_not_mem_of_read {name : String} (hn : '\n' ∉ text)
    (h : read text = .ok (constant (.classRef name))) : '\n' ∉ name.toList := by
  unfold read at h
  split at h
  · cases h
  · dsimp only at h
    split at h
    · have hread := (isSpellable_of_readOperands (Text.isTrimmed_trim _) h).2.2 _ rfl
      refine Constant.newline_not_mem_of_read (fun hin => hn ?_) hread
      have hrest := Text.mem_of_mem_trim hin
      unfold Text.splitAtBlank at hrest
      split at hrest
      · cases hrest
      · rename_i c rest hdrop
        exact (List.dropWhile_suffix _).subset (hdrop ▸ List.mem_cons_of_mem _ hrest)
    · cases h

/-- Whether the text of the line stands on one line of a text and is not passed over there. -/
structure IsOneLine (line : Line) : Prop where
  phrase : IsPhrase line.text.toList
  kept : Template.isSkipped line.text.toList = false

theorem isSkipped_append {word rest : List Char} (hs : word ≠ []) (h : ∀ c ∈ word, c ≠ '/') :
    Template.isSkipped (word ++ rest) = false := by
  obtain ⟨c, others, rfl⟩ := List.exists_cons_of_ne_nil hs
  have hc : c ≠ '/' := h c List.mem_cons_self
  simp [Template.isSkipped, hc]

theorem ne_slash_of_mem_name {op : Opcode} (h : op ≤ Opcode.jsrWide) :
    ∀ c ∈ op.name.toList, c ≠ '/' := by
  rintro c hc rfl
  rcases (Opcode.letters_name h).2 _ hc with hletter | hother
  · cases hletter
  · cases hother

/-- A label is written as it was read. -/
theorem toList_text_of_read {name : String} (h : read text = .ok (label name)) :
    (label name).text.toList = text := by
  have htext : (label name).text.toList = name.toList ++ [':'] := String.toList_append
  unfold read at h
  split at h
  · rename_i start hstart
    obtain ⟨hlast, -⟩ := Option.filter_eq_some_iff.mp hstart
    unfold withoutLast? at hlast
    split_ifs at hlast with hcolon
    rw [htext, ← Line.label.inj (Except.ok.inj h), String.toList_ofList,
      ← Option.some.inj hlast]
    exact List.dropLast_append_getLast? _ hcolon
  · dsimp only at h
    split at h
    · cases (isSpellable_of_readOperands (Text.isTrimmed_trim _) h).2.1
    · cases h

/-- A line that can be told from its text stands on one line, if it is no label and the name of a
class that it loads does. -/
theorem isOneLine_of_isSpellable (h : line.IsSpellable) (hl : line.label? = none)
    (hn : ∀ name, line = constant (.classRef name) → '\n' ∉ name.toList) : line.IsOneLine := by
  cases hw : line.written? with
  | some parts =>
    obtain ⟨op, operands⟩ := parts
    obtain ⟨hop, hphrase⟩ := isPhrase_of_written? h hn hw
    have hword := Opcode.isWord_name hop
    have htext : line.text.toList = op.name.toList ++ ' ' :: operands.toList := by
      rw [text_of_written? hw, String.toList_append, String.toList_append, List.append_assoc]
      rfl
    constructor <;> rw [htext]
    · exact .cons_word hword hphrase
    · exact isSkipped_append hword.ne_nil (ne_slash_of_mem_name hop)
  | none =>
    cases line with
    | label name => cases hl
    | plain op =>
      have hplain : op.isPlain = true := h
      have hop : op ≤ Opcode.jsrWide := by grind
      have hword := Opcode.isWord_name hop
      refine ⟨isPhrase_of_isWord hword, ?_⟩
      rw [← List.append_nil (plain op).text.toList]
      exact isSkipped_append hword.ne_nil (ne_slash_of_mem_name hop)
    | _ => cases hw

/-- A line that was read from one line stands on one itself. -/
theorem isOneLine_of_read (hp : IsPhrase text) (hk : Template.isSkipped text = false)
    (h : read text = .ok line) : line.IsOneLine := by
  cases line with
  | label name =>
    constructor <;> rw [toList_text_of_read h]
    · exact hp
    · exact hk
  | _ =>
    exact isOneLine_of_isSpellable (isSpellable_of_read h) rfl fun name hname =>
      newline_not_mem_of_read hp.newline (hname ▸ h)

/-- Whether two lines are one, or load values of one type that are no number. -/
inductive IsAlike : Line → Line → Prop where
  | refl (line : Line) : IsAlike line line
  | float {bits bits' : UInt32} (h : (constant (.float bits)).loadsNaN = true)
      (h' : (constant (.float bits')).loadsNaN = true) :
      IsAlike (constant (.float bits)) (constant (.float bits'))
  | double {bits bits' : UInt64} (h : (constant (.double bits)).loadsNaN = true)
      (h' : (constant (.double bits')).loadsNaN = true) :
      IsAlike (constant (.double bits)) (constant (.double bits'))

/-- Of what can be spelled, only values that are no number are read as others. -/
theorem isAlike_quiet (h : line.IsSpellable) : IsAlike line.quiet line := by
  rcases quiet_eq_self_or h with hsame | rfl | rfl
  · rw [hsame]
    exact .refl line
  · exact .float (by decide +kernel) (by decide)
  · exact .double (by decide +kernel) (by decide)

end Line

/-! ### Templates that were read -/

namespace Template

variable {template : Template}

/-- The lines of a template that was read from lines stand on one line each. -/
theorem isOneLine_of_read {text : String} (h : read text = .ok template) :
    ∀ line ∈ template, line.IsOneLine := by
  intro line hline
  obtain ⟨kept, hkept, hread⟩ := exists_of_mem_right (read_eq_ok.mp h).1 hline
  obtain ⟨hin, hskipped⟩ := List.mem_filter.mp hkept
  obtain ⟨source, hsource, rfl⟩ := List.mem_map.mp hin
  have hnot : isSkipped (Text.trim source) = false := by simpa using hskipped
  have hnewline := newline_not_mem_of_mem_splitLines List.not_mem_nil hsource
  refine Line.isOneLine_of_read ⟨Text.isTrimmed_trim source, fun hnil => ?_, fun hc => ?_⟩ hnot hread
  · rw [hnil] at hnot
    cases hnot
  · exact hnewline (Text.mem_of_mem_trim hc)

/-- Lines that stand on one line each are what is kept of them when they are joined. -/
theorem keptLines_intercalate (h : ∀ line ∈ template, line.IsOneLine) :
    keptLines (splitLines [] ("\n".intercalate template.lines).toList) =
      template.map (·.text.toList) := by
  rw [String.toList_intercalate]
  cases template with
  | nil => rfl
  | cons first rest =>
    have hlines : (lines (first :: rest)).map String.toList =
        (first :: rest).map (·.text.toList) := List.map_map
    have hsplit : splitLines [] ("\n".toList.intercalate ((lines (first :: rest)).map String.toList)) =
        (first :: rest).map (·.text.toList) := by
      rw [hlines]
      refine splitLines_intercalate (List.cons_ne_nil _ _) fun line hline => ?_
      obtain ⟨source, hsource, rfl⟩ := List.mem_map.mp hline
      exact (h source hsource).phrase.newline
    rw [hsplit]
    unfold keptLines
    have htrim : ((first :: rest).map (·.text.toList)).map Text.trim =
        (first :: rest).map (·.text.toList) := by
      rw [List.map_map]
      exact List.map_congr_left fun line hline =>
        Text.trim_of_isTrimmed (h line hline).phrase.trimmed
    rw [htrim, List.filter_eq_self]
    intro line hline
    obtain ⟨source, hsource, rfl⟩ := List.mem_map.mp hline
    rw [(h source hsource).kept]
    rfl

theorem labelNames_quiet (template : Template) : template.quiet.labelNames = template.labelNames := by
  unfold quiet labelNames
  rw [List.filterMap_map]
  refine List.filterMap_congr fun line _ => ?_
  cases line <;> rfl

/-- A template is read from its lines if each of these is, with the constants that are read for those
that are no number. -/
theorem ofLines_lines_of_isSpellable (hs : template.IsSpellable)
    (ho : ∀ line ∈ template, line.IsOneLine) (hn : template.labelNames.Nodup) :
    ofLines template.lines = .ok template.quiet := by
  have hread : AreRead (template.map (·.text.toList)) template.quiet := by
    refine List.forall₂_map_left_iff.mpr (List.forall₂_map_right_iff.mpr ?_)
    exact List.forall₂_same.mpr fun line hline => Line.read_text (hs line hline)
  unfold ofLines
  rw [read_eq_ok, keptLines_intercalate ho, labelNames_quiet]
  exact ⟨hread, hn⟩

/-- A template that was read is read again from its lines, with the constants that are read for
those that are no number. -/
theorem ofLines_lines {text : String} (h : read text = .ok template) :
    ofLines template.lines = .ok template.quiet :=
  ofLines_lines_of_isSpellable (isSpellable_of_read h) (isOneLine_of_read h) (read_eq_ok.mp h).2

/-- A template that was read is read again from its lines: these are read, and give the same lines
up to constants that are no number. -/
theorem exists_ofLines_lines {text : String} (h : read text = .ok template) :
    ∃ again, ofLines template.lines = .ok again ∧ List.Forall₂ Line.IsAlike again template := by
  refine ⟨template.quiet, ofLines_lines h, List.forall₂_map_left_iff.mpr ?_⟩
  exact List.forall₂_same.mpr fun line hline => Line.isAlike_quiet (isSpellable_of_read h line hline)

/-- A text with a comment, a label, short forms of instructions and a value that is no number. -/
def loadingText : String :=
  "// loads\ntop:\n  ldc \"a\\nb\"\n\n ldc_w -NaNf\n\tldc class p/A B \niload_1"

/-- What `loadingText` spells. -/
def loading : Template :=
  [.label "top", .constant (.string "a\nb"), .constant (.float 0xFFC00000),
    .constant (.classRef "p/A B"), .access Opcode.iload 1]

theorem exists_ofLines_loading : read loadingText = .ok loading ∧
    ∃ again, ofLines loading.lines = .ok again ∧ List.Forall₂ Line.IsAlike again loading := by
  have hkept : keptLines (splitLines [] loadingText.toList) =
      ["top:", "ldc \"a\\nb\"", "ldc_w -NaNf", "ldc class p/A B", "iload_1"].map
        String.toList := by decide +kernel
  have hread : read loadingText = .ok loading := by
    rw [read_eq_ok, hkept]
    exact ⟨.cons (by decide +kernel) (.cons (by decide +kernel) (.cons (by decide +kernel)
      (.cons (by decide +kernel) (.cons (by decide +kernel) .nil)))), by decide⟩
  exact ⟨hread, exists_ofLines_lines hread⟩

end Template

end ClassGraft

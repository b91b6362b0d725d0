import ClassGraft.Patch.Decoding
import ClassGraft.Patch.Encoding
import ClassGraft.Proofs.Graft.Grafted
import ClassGraft.Proofs.Json.Decoding
import ClassGraft.Proofs.Json.Rereading
import ClassGraft.Proofs.Template.Rereading

/-!
# Patches told apart by their descriptions

The description of a patch as JSON leaves out only entries with the value that a missing one stands
for, and shows templates by their lines.  So patches with templates that were read are told apart
by their descriptions, up to the sign of values that are no number (`Patch.quiet_eq_of_json_eq`).
-/

namespace ClassGraft

/-- Values told apart by `f` are told apart by the list of what `f` makes of them. -/
theorem map_eq_of_map_eq {α β γ : Type} {f : α → β} {g : α → γ} {first second : List α}
    (hg : ∀ a ∈ first, ∀ b ∈ second, f a = f b → g a = g b) (h : first.map f = second.map f) :
    first.map g = second.map g := by
  induction first generalizing second with
  | nil =>
    obtain rfl := List.map_eq_nil_iff.mp h.symm
    rfl
  | cons a first ih =>
    obtain ⟨b, others, rfl, hb, hothers⟩ := List.map_eq_cons_iff.mp h.symm
    rw [List.map_cons, List.map_cons, hg a List.mem_cons_self b List.mem_cons_self hb.symm,
      ih (fun a ha b hb => hg a (List.mem_cons_of_mem _ ha) b (List.mem_cons_of_mem _ hb))
        hothers.symm]

/-! ### Entries that may be missing -/

namespace Json

/-- An entry that may be missing can be told from those that follow it by its key. -/
theorem entry?_append_inj {key : String} {value other : Option Json}
    {rest others : List (String × Json)} (hr : key ∉ rest.map Prod.fst)
    (ho : key ∉ others.map Prod.fst) (h : entry? key value ++ rest = entry? key other ++ others) :
    value = other ∧ rest = others := by
  cases value with
  | none =>
    cases other with
    | none => exact ⟨rfl, h⟩
    | some b =>
      obtain rfl : rest = (key, b) :: others := h
      exact absurd List.mem_cons_self hr
  | some a =>
    cases other with
    | none =>
      obtain rfl : (key, a) :: rest = others := h
      exact absurd List.mem_cons_self ho
    | some b =>
      obtain ⟨hentry, hrest⟩ := List.cons.inj (show (key, a) :: rest = (key, b) :: others from h)
      exact ⟨congrArg some (Prod.mk.inj hentry).2, hrest⟩

theorem not_mem_flagUnless {default value : Bool} {key other : String} (h : other ≠ key) :
    other ∉ (flagUnless default key value).map Prod.fst := by
  unfold flagUnless
  split_ifs
  · exact List.not_mem_nil
  · exact fun hin => h (List.mem_singleton.mp hin)

theorem flagUnless_inj {default value other : Bool} {key : String}
    (h : flagUnless default key value = flagUnless default key other) : value = other := by
  unfold flagUnless at h
  split_ifs at h with hv ho ho
  · exact hv.trans ho.symm
  · exact Json.bool.inj (Prod.mk.inj (List.cons.inj h).1).2

end Json

/-! ### Names -/

theorem Modifier.name_injective : Function.Injective Modifier.name := by
  intro a b h
  cases a <;> cases b <;> first | rfl | exact absurd h (by decide)

theorem CallKind.name_injective : Function.Injective CallKind.name := by
  intro a b h
  cases a <;> cases b <;> first | rfl | exact absurd h (by decide)

theorem Signature.json_injective : Function.Injective Signature.json := by
  rintro ⟨name, descriptor⟩ ⟨name', descriptor'⟩ h
  simpa [json] using h

theorem MemberName.entries_injective : Function.Injective MemberName.entries := by
  rintro ⟨owner, name, descriptor⟩ ⟨owner', name', descriptor'⟩ h
  simpa [entries] using h

theorem CallMatch.json_injective : Function.Injective CallMatch.json := by
  rintro ⟨method, ordinal⟩ ⟨method', ordinal'⟩ h
  obtain ⟨hmethod, hordinal⟩ := List.append_inj (Json.object.inj h) rfl
  obtain rfl := MemberName.entries_injective hmethod
  cases ordinal with
  | none =>
    cases ordinal' with
    | none => rfl
    | some number => cases hordinal
  | some number =>
    cases ordinal' with
    | none => cases hordinal
    | some other =>
      obtain rfl : number = other := by simpa [Json.entry?] using hordinal
      rfl

theorem Anchor.json_injective : Function.Injective Anchor.json := by
  intro a b h
  cases a with
  | methodEntry => cases b <;> first | rfl | simp [json] at h
  | beforeReturn => cases b <;> first | rfl | simp [json] at h
  | beforeCall call =>
    cases b with
    | beforeCall other => exact congrArg beforeCall (CallMatch.json_injective (by simpa [json] using h))
    | _ => simp [json] at h
  | afterCall call =>
    cases b with
    | afterCall other => exact congrArg afterCall (CallMatch.json_injective (by simpa [json] using h))
    | _ => simp [json] at h
  | offset place =>
    cases b with
    | offset other => exact congrArg offset (UInt16.toNat_inj.mp (by simpa [json] using h))
    | _ => simp [json] at h
  | index number =>
    cases b with
    | index other => exact congrArg index (by simpa [json] using h)
    | _ => simp [json] at h

theorem Template.quiet_eq_of_json_eq {first second : Template} (hf : first.IsSpellable)
    (hs : second.IsSpellable) (h : first.json = second.json) : first.quiet = second.quiet :=
  quiet_eq_of_lines_eq hf hs
    (List.map_injective_iff.mpr (fun _ _ => Json.string.inj) (Json.array.inj h))

/-! ### Edits -/

namespace Edit

/-- The edit, with constants of its template that are no number replaced by those that are read. -/
def quiet : Edit → Edit
  | addMethod access method code overwrite =>
    addMethod access method (code.map Template.quiet) overwrite
  | replaceBody code => replaceBody code.quiet
  | insertAt anchor code => insertAt anchor code.quiet
  | edit => edit

/-- Whether the template of the edit, if it has one, was read from a text. -/
def IsRead (edit : Edit) : Prop :=
  ∀ code ∈ edit.code?, ∃ text, Template.read text = .ok code

/-- Whether the template of the edit loads a float or a double that is no number and has the sign
bit. -/
def loadsNegativeNaN (edit : Edit) : Bool :=
  edit.code?.any fun code => code.any Line.loadsNegativeNaN

variable {a b : Edit}

theorem IsRead.isSpellable (h : a.IsRead) : ∀ code ∈ a.code?, code.IsSpellable := by
  intro code hcode
  obtain ⟨text, hread⟩ := h code hcode
  exact Template.isSpellable_of_read hread

theorem entries_eq_of_json_eq (h : a.json = b.json) : a.entries = b.entries := by
  have hentry := (List.cons.inj (Json.object.inj h)).1
  obtain ⟨hname, hentries⟩ := Prod.mk.inj hentry
  exact Prod.ext hname (Json.object.inj hentries)

theorem memberEntries_inj {access access' : List Modifier} {member member' : Signature}
    {rest rest' : List (String × Json)}
    (h : memberEntries access member ++ rest = memberEntries access' member' ++ rest') :
    access = access' ∧ member = member' ∧ rest = rest' := by
  obtain ⟨hmember, hrest⟩ := List.append_inj h rfl
  obtain ⟨name, descriptor⟩ := member
  obtain ⟨name', descriptor'⟩ := member'
  simp only [memberEntries, List.cons.injEq, Prod.mk.injEq, Json.array.injEq, Json.string.injEq,
    true_and, and_true] at hmember
  obtain ⟨haccess, rfl, rfl⟩ := hmember
  refine ⟨List.map_injective_iff.mpr (fun _ _ hm => ?_) haccess, rfl, hrest⟩
  exact Modifier.name_injective (Json.string.inj hm)

theorem map_quiet_eq_of_map_json_eq {code other : Option Template}
    (hf : ∀ template ∈ code, template.IsSpellable) (hs : ∀ template ∈ other, template.IsSpellable)
    (h : code.map Template.json = other.map Template.json) :
    code.map Template.quiet = other.map Template.quiet := by
  cases code with
  | none =>
    cases other with
    | none => rfl
    | some other => cases h
  | some code =>
    cases other with
    | none => cases h
    | some other =>
      exact congrArg some
        (Template.quiet_eq_of_json_eq (hf code rfl) (hs other rfl) (Option.some.inj h))

/-- The entries of an added method tell all of it, but for values of its template that are no
number. -/
theorem addMethod_entries_inj {access access' : List Modifier} {method method' : Signature}
    {code code' : Option Template} {overwrite overwrite' : Bool}
    (hf : ∀ template ∈ code, template.IsSpellable) (hs : ∀ template ∈ code', template.IsSpellable)
    (h : (addMethod access method code overwrite).entries.2 =
      (addMethod access' method' code' overwrite').entries.2) :
    access = access' ∧ method = method' ∧ code.map Template.quiet = code'.map Template.quiet ∧
      overwrite = overwrite' := by
  have hparts : memberEntries access method ++ (Json.entry? "code" (code.map Template.json) ++
      Json.flagUnless false "overwrite" overwrite) =
        memberEntries access' method' ++ (Json.entry? "code" (code'.map Template.json) ++
          Json.flagUnless false "overwrite" overwrite') := by
    simpa only [entries, List.append_assoc] using h
  obtain ⟨haccess, hmethod, hrest⟩ := memberEntries_inj hparts
  -- both entries may be missing, and neither is taken for the other
  obtain ⟨hcode, hflag⟩ := Json.entry?_append_inj (Json.not_mem_flagUnless (by decide))
    (Json.not_mem_flagUnless (by decide)) hrest
  exact ⟨haccess, hmethod, map_quiet_eq_of_map_json_eq hf hs hcode, Json.flagUnless_inj hflag⟩

/-- The entries of a redirection tell all of it. -/
theorem redirectCall_entries_inj {callee callee' replacement replacement' : MemberName}
    {kind kind' : Option CallKind} {required required' : Bool}
    (h : (redirectCall callee replacement kind required).entries.2 =
      (redirectCall callee' replacement' kind' required').entries.2) :
    callee = callee' ∧ replacement = replacement' ∧ kind = kind' ∧ required = required' := by
  have hparts : [("original", Json.object callee.entries),
      ("replacement", .object replacement.entries)] ++
      (Json.entry? "kind" (kind.map fun kind => .string kind.name) ++
        Json.flagUnless true "required" required) =
      [("original", Json.object callee'.entries),
        ("replacement", .object replacement'.entries)] ++
      (Json.entry? "kind" (kind'.map fun kind => .string kind.name) ++
        Json.flagUnless true "required" required') := by
    simpa only [entries, List.append_assoc] using h
  obtain ⟨hmembers, hrest⟩ := List.append_inj hparts rfl
  simp only [List.cons.injEq, Prod.mk.injEq, Json.object.injEq, true_and, and_true] at hmembers
  obtain ⟨hkind, hflag⟩ := Json.entry?_append_inj (Json.not_mem_flagUnless (by decide))
    (Json.not_mem_flagUnless (by decide)) hrest
  have hnames : Function.Injective fun kind : CallKind => Json.string kind.name :=
    fun _ _ h => CallKind.name_injective (Json.string.inj h)
  exact ⟨MemberName.entries_injective hmembers.1, MemberName.entries_injective hmembers.2,
    Option.map_injective hnames hkind, Json.flagUnless_inj hflag⟩

/-- An edit is told from others by its description, up to the sign of values that are no number. -/
theorem quiet_eq_of_json_eq (ha : a.IsRead) (hb : b.IsRead) (h : a.json = b.json) :
    a.quiet = b.quiet := by
  -- the name of the first entry says which kind of edit it is
  obtain ⟨hname, hentries⟩ := Prod.ext_iff.mp (entries_eq_of_json_eq h)
  cases a with
  | addMethod access method code overwrite =>
    cases b with
    | addMethod access' method' code' overwrite' =>
      obtain ⟨rfl, rfl, hcode, rfl⟩ :=
        addMethod_entries_inj ha.isSpellable hb.isSpellable hentries
      exact congrArg (addMethod access method · overwrite) hcode
    | _ => simp [entries] at hname
  | addField access field overwrite =>
    cases b with
    | addField access' field' overwrite' =>
      obtain ⟨rfl, rfl, hflag⟩ := memberEntries_inj hentries
      obtain rfl := Json.flagUnless_inj hflag
      rfl
    | _ => simp [entries] at hname
  | replaceBody code =>
    cases b with
    | replaceBody other =>
      have hcode : code.json = other.json := by simpa [entries] using hentries
      exact congrArg replaceBody (Template.quiet_eq_of_json_eq (ha.isSpellable code rfl)
        (hb.isSpellable other rfl) hcode)
    | _ => simp [entries] at hname
  | insertAt anchor code =>
    cases b with
    | insertAt anchor' other =>
      have hparts : anchor.json = anchor'.json ∧ code.json = other.json := by
        simpa [entries] using hentries
      rw [quiet, quiet, Anchor.json_injective hparts.1,
        Template.quiet_eq_of_json_eq (ha.isSpellable code rfl) (hb.isSpellable other rfl) hparts.2]
    | _ => simp [entries] at hname
  | redirectCall callee replacement kind required =>
    cases b with
    | redirectCall callee' replacement' kind' required' =>
      obtain ⟨rfl, rfl, rfl, rfl⟩ := redirectCall_entries_inj hentries
      rfl
    | _ => simp [entries] at hname

theorem quiet_eq_self (ha : a.IsRead) (hn : a.loadsNegativeNaN = false) : a.quiet = a := by
  have hcode {code : Template} (hcode : a.code? = some code) : code.quiet = code := by
    refine Template.quiet_eq_self (ha.isSpellable code hcode) fun line hline => ?_
    unfold loadsNegativeNaN at hn
    rw [hcode, Option.any_some] at hn
    exact Bool.eq_false_iff.mpr (List.any_eq_false.mp hn line hline)
  cases a with
  | addMethod access method code overwrite =>
    cases code with
    | none => rfl
    | some code =>
      show addMethod access method (some code.quiet) overwrite = _
      rw [hcode rfl]
  | replaceBody code => exact congrArg replaceBody (hcode rfl)
  | insertAt anchor code => exact congrArg (insertAt anchor) (hcode rfl)
  | addField access field overwrite => rfl
  | redirectCall callee replacement kind required => rfl

end Edit

/-! ### Patches -/

namespace Patch

def quiet (patch : Patch) : Patch := { patch with edits := patch.edits.map Edit.quiet }

/-- Whether every template of the patch was read from a text. -/
def IsRead (patch : Patch) : Prop := ∀ edit ∈ patch.edits, edit.IsRead

/-- Whether a template of the patch loads a float or a double that is no number and has the sign
bit. -/
def loadsNegativeNaN (patch : Patch) : Bool := patch.edits.any Edit.loadsNegativeNaN

variable {a b : Patch}

/-- A patch with templates that were read is told from others by its description, up to the sign of
values that are no number. -/
theorem quiet_eq_of_json_eq (ha : a.IsRead) (hb : b.IsRead) (h : a.json = b.json) :
    a.quiet = b.quiet := by
  obtain ⟨id, className, method, priority, edits⟩ := a
  obtain ⟨id', className', method', priority', edits'⟩ := b
  have hparts : [("id", Json.string id), ("class", .string className)] ++
      (Json.entry? "method" (method.map Signature.json) ++
        [("priority", .number priority.toInt), ("edits", .array (edits.map Edit.json))]) =
      [("id", Json.string id'), ("class", .string className')] ++
      (Json.entry? "method" (method'.map Signature.json) ++
        [("priority", .number priority'.toInt), ("edits", .array (edits'.map Edit.json))]) := by
    simpa only [json, List.append_assoc] using Json.object.inj h
  obtain ⟨hnames, hrest⟩ := List.append_inj hparts rfl
  simp only [List.cons.injEq, Prod.mk.injEq, Json.string.injEq, true_and, and_true] at hnames
  obtain ⟨rfl, rfl⟩ := hnames
  obtain ⟨hmethod, hlast⟩ := Json.entry?_append_inj (by simp) (by simp) hrest
  obtain rfl := Option.map_injective Signature.json_injective hmethod
  simp only [List.cons.injEq, Prod.mk.injEq, Json.number.injEq, Json.array.injEq, true_and,
    and_true] at hlast
  obtain ⟨hpriority, hedits⟩ := hlast
  obtain rfl := Int32.toInt_inj.mp hpriority
  have hquiet : edits.map Edit.quiet = edits'.map Edit.quiet :=
    map_eq_of_map_eq (fun edit hedit edit' hedit' =>
      Edit.quiet_eq_of_json_eq (ha edit hedit) (hb edit' hedit')) hedits
  rw [quiet, quiet, hquiet]

theorem quiet_eq_self (ha : a.IsRead) (hn : a.loadsNegativeNaN = false) : a.quiet = a := by
  have hedits : ∀ edit ∈ a.edits, edit.quiet = edit := fun edit hedit =>
    Edit.quiet_eq_self (ha edit hedit) (Bool.eq_false_iff.mpr (List.any_eq_false.mp hn edit hedit))
  have hsame : a.edits.map Edit.quiet = a.edits :=
    (List.map_congr_left hedits).trans (List.map_id' _)
  rw [quiet, hsame]

end Patch

end ClassGraft

/-!
## Patches that were decoded

The templates of a patch that was decoded were read from its lines (`Patch.gives_decode`), so those
of all patches of a file were (`Patch.isRead_of_ofFileText`).
-/

namespace ClassGraft

open Json (Case Decoder Fields)

theorem Template.gives_decode :
    Template.decode.Gives fun code => ∃ text, Template.read text = .ok code := by
  intro outline code hcode
  obtain ⟨lines, -, hread⟩ := Except.bind_eq_ok.mp hcode
  exact ⟨_, Except.mapError_eq_ok.mp hread⟩

namespace Edit

/-- Fields that no template depends on. -/
theorem gives_field {key : String} {α : Type} {decode : PatchDecoder α} {default : Option α} :
    (Fields.one key decode default).Gives fun _ => True :=
  Fields.gives_one Decoder.Gives.trivial fun _ _ => True.intro

/-- The field with a template that must be there. -/
theorem gives_code : (Fields.one "code" Template.decode).Gives
    fun code => ∃ text, Template.read text = .ok code :=
  Fields.gives_one Template.gives_decode fun _ h => by cases h

theorem gives_decodeAddMethod : decodeAddMethod.Gives IsRead := by
  have hcode : (Fields.one "code" (Decoder.option Template.decode) (some none)).Gives
      fun code => ∀ a ∈ code, ∃ text, Template.read text = .ok a := by
    refine Fields.gives_one Template.gives_decode.option fun code h a ha => ?_
    obtain rfl := Option.some.inj h
    cases ha
  refine Fields.Gives.decode (Fields.Gives.map (Fields.Gives.mono (gives_field.and (gives_field.and (gives_field.and
    (hcode.and gives_field)))) fun ⟨_, _, _, _, _⟩ h => ?_)) false
  exact h.2.2.2.1

theorem gives_decodeAddField : decodeAddField.Gives IsRead := by
  refine Fields.Gives.decode (Fields.Gives.map (Fields.Gives.mono (gives_field.and (gives_field.and (gives_field.and gives_field)))
    fun ⟨_, _, _, _⟩ _ code hcode => ?_)) false
  cases hcode

theorem gives_decodeReplaceBody : decodeReplaceBody.Gives IsRead := by
  refine Fields.Gives.decode (Fields.Gives.map (Fields.Gives.mono gives_code fun code h => ?_)) false
  rintro _ ⟨⟩
  exact h

theorem gives_decodeInsertAt : decodeInsertAt.Gives IsRead := by
  refine Fields.Gives.decode (Fields.Gives.map (Fields.Gives.mono (gives_field.and gives_code) fun ⟨anchor, code⟩ h => ?_)) false
  rintro _ ⟨⟩
  exact h.2

theorem gives_decodeRedirectCall : decodeRedirectCall.Gives IsRead := by
  refine Fields.Gives.decode (Fields.Gives.map (Fields.Gives.mono (gives_field.and (gives_field.and (gives_field.and gives_field)))
    fun ⟨_, _, _, _⟩ _ code hcode => ?_)) false
  cases hcode

/-- The template of an edit that was decoded was read. -/
theorem gives_decode : decode.Gives IsRead := by
  refine Case.gives_decode fun entry hentry => ?_
  simp only [List.mem_cons, List.not_mem_nil, or_false] at hentry
  rcases hentry with rfl | rfl | rfl | rfl | rfl
  · exact gives_decodeAddMethod
  · exact gives_decodeAddField
  · exact gives_decodeReplaceBody
  · exact gives_decodeInsertAt
  · exact gives_decodeRedirectCall

end Edit

namespace Patch

/-- The templates of a patch that was decoded were read. -/
theorem gives_decode : decode.Gives IsRead := by
  have hedits : (Fields.one "edits" (Decoder.list Edit.decode)).Gives
      fun edits => ∀ edit ∈ edits, edit.IsRead :=
    Fields.gives_one Edit.gives_decode.list fun _ h => by cases h
  refine Fields.Gives.decode (Fields.Gives.map (Fields.Gives.mono (Edit.gives_field.and (Edit.gives_field.and (Edit.gives_field.and
    (Edit.gives_field.and hedits)))) fun ⟨_, _, _, _, _⟩ h => ?_)) false
  exact h.2.2.2.2

/-- The templates of the patches of a file were read. -/
theorem isRead_of_ofFileText {text : String} {patches : List Patch}
    (h : ofFileText text = .ok patches) : ∀ patch ∈ patches, patch.IsRead := by
  obtain ⟨found, hfound, hrest⟩ := Except.bind_eq_ok.mp h
  have hpatches : (Fields.one "patches" (Decoder.list decode)).Gives
      fun patches => ∀ patch ∈ patches, patch.IsRead :=
    Fields.gives_one gives_decode.list fun _ h => by cases h
  obtain ⟨value, hvalue, hcomplete⟩ := Except.bind_eq_ok.mp (Except.mapError_eq_ok.mp hfound)
  split at hrest
  · cases hrest
  · obtain rfl := Except.pure_eq_ok.mp hrest
    split_ifs at hcomplete
    · obtain rfl := Except.pure_eq_ok.mp hcomplete
      exact hpatches.decode true _ _ hvalue
    · cases hcomplete

end Patch

end ClassGraft

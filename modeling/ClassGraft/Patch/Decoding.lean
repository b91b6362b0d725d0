import ClassGraft.Json.Decoder
import ClassGraft.Patch.Validation
import ClassGraft.Template.Reader

/-!
# Patches from JSON

A file with patches is an object with nothing but the array `patches`.  Records inside may have
entries that are not known; those are ignored.
-/

namespace ClassGraft

open Json (Case Decoder Fields)

/-- A decoder of something that templates are part of. -/
abbrev PatchDecoder (α : Type) := Decoder TemplateFault α

/-- A template, whose lines are joined before they are read. -/
def Template.decode : PatchDecoder Template := fun outline => do
  let lines ← Decoder.list Decoder.string outline
  (Template.ofLines lines).mapError some

def Signature.decode : PatchDecoder Signature :=
  (((Fields.one "name" Decoder.string).and (Fields.one "descriptor" Decoder.string)).map
    fun (name, descriptor) => Signature.mk name descriptor).decode false

namespace MemberName

/-- What was found of the names of a member. -/
abbrev Found := Option String × Option String × Option String

/-- The fields that name a member. -/
def fields : Fields TemplateFault Found MemberName :=
  ((Fields.one "owner" Decoder.string).and
    ((Fields.one "name" Decoder.string).and (Fields.one "descriptor" Decoder.string))).map
    fun (owner, name, descriptor) => ⟨owner, name, descriptor⟩

def decode : PatchDecoder MemberName := fields.decode false

end MemberName

/-- A number below 2^64. -/
def decodeNat : PatchDecoder Nat := fun outline =>
  (Decoder.integer 0 18446744073709551615 outline).map Int.toNat

def CallMatch.decode : PatchDecoder CallMatch :=
  ((MemberName.fields.and (Fields.one "ordinal" (Decoder.option decodeNat) (some none))).map
    fun (method, ordinal) => CallMatch.mk method ordinal).decode false

def Anchor.decode : PatchDecoder Anchor :=
  Case.decode [
    ("method_entry", .unit methodEntry),
    ("before_return", .unit beforeReturn),
    ("before_invoke", .of CallMatch.decode beforeCall),
    ("after_invoke", .of CallMatch.decode afterCall),
    ("offset", .of (Decoder.integer 0 65535) fun n => offset (UInt16.ofNat n.toNat)),
    ("index", .of decodeNat index)]

def Modifier.decode : PatchDecoder Modifier :=
  Case.decode (all.map fun modifier => (modifier.name, .unit modifier))

def CallKind.decode : PatchDecoder CallKind :=
  Case.decode ([.virtual, .special, .static, .interface].map fun kind => (kind.name, .unit kind))

namespace Edit

/-- The field with the modifiers of an added member. -/
def accessField : Fields TemplateFault (Option (List Modifier)) (List Modifier) :=
  .one "access" (Decoder.list Modifier.decode) (some [])

/-- A field with a string. -/
def textField (key : String) : Fields TemplateFault (Option String) String :=
  .one key Decoder.string

/-- A field with a flag that may be missing. -/
def flagField (key : String) (default : Bool) : Fields TemplateFault (Option Bool) Bool :=
  .one key Decoder.bool (some default)

def decodeAddMethod : PatchDecoder Edit :=
  ((accessField.and ((textField "name").and ((textField "descriptor").and
    ((Fields.one "code" (Decoder.option Template.decode) (some none)).and
      (flagField "overwrite" false))))).map
    fun (access, name, descriptor, code, overwrite) =>
      addMethod access ⟨name, descriptor⟩ code overwrite).decode false

def decodeAddField : PatchDecoder Edit :=
  ((accessField.and ((textField "name").and ((textField "descriptor").and
    (flagField "overwrite" false)))).map
    fun (access, name, descriptor, overwrite) =>
      addField access ⟨name, descriptor⟩ overwrite).decode false

def decodeReplaceBody : PatchDecoder Edit :=
  ((Fields.one "code" Template.decode).map replaceBody).decode false

def decodeInsertAt : PatchDecoder Edit :=
  (((Fields.one "anchor" Anchor.decode).and (Fields.one "code" Template.decode)).map
    fun (anchor, code) => insertAt anchor code).decode false

def decodeRedirectCall : PatchDecoder Edit :=
  (((Fields.one "original" MemberName.decode).and ((Fields.one "replacement" MemberName.decode).and
    ((Fields.one "kind" (Decoder.option CallKind.decode) (some none)).and
      (flagField "required" true)))).map
    fun (callee, replacement, kind, required) =>
      redirectCall callee replacement kind required).decode false

def decode : PatchDecoder Edit :=
  Case.decode [
    ("add_method", .content decodeAddMethod),
    ("add_field", .content decodeAddField),
    ("replace_body", .content decodeReplaceBody),
    ("insert_at", .content decodeInsertAt),
    ("redirect_call", .content decodeRedirectCall)]

end Edit

/-- A number of 32 bits with a sign. -/
def decodeInt32 : PatchDecoder Int32 := fun outline =>
  (Decoder.integer (-2147483648) 2147483647 outline).map Int32.ofInt

namespace Patch

def decode : PatchDecoder Patch :=
  (((Edit.textField "id").and ((Edit.textField "class").and
    ((Fields.one "method" (Decoder.option Signature.decode) (some none)).and
      ((Fields.one "priority" decodeInt32 (some 0)).and
        (Fields.one "edits" (Decoder.list Edit.decode)))))).map
    fun (id, className, method, priority, edits) =>
      Patch.mk id className method priority edits).decode false

/-- The patches of a file. -/
def decodeFile : PatchDecoder (List Patch) :=
  (Fields.one "patches" (Decoder.list decode)).decode true

/-- The patches of a file with the given text, none of which has a flaw. -/
def ofFileText (text : String) : Except PatchFlaw (List Patch) := do
  let patches ← (Json.decodeText decodeFile text).mapError .unreadable
  match patches.findSome? Patch.flaw? with
  | some flaw => throw flaw
  | none => return patches

end Patch

end ClassGraft

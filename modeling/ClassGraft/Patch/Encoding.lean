import ClassGraft.Json.Printer
import ClassGraft.Patch.Basic
import ClassGraft.Template.Printer

/-!
# Patches as JSON

Fields that may be missing are left out if they have the value that a missing field stands for,
except for access flags and priorities.  Code is an array with a string for each line.
-/

namespace ClassGraft

/-- An entry, unless its value is missing. -/
def Json.entry? (key : String) (value : Option Json) : List (String × Json) :=
  (value.map fun value => (key, value)).toList

/-- An entry for a flag, unless the flag has the given value. -/
def Json.flagUnless (default : Bool) (key : String) (value : Bool) : List (String × Json) :=
  if value = default then [] else [(key, .bool value)]

/-- The lines of the template. -/
def Template.json (template : Template) : Json := .array (template.lines.map .string)

def Signature.json (signature : Signature) : Json :=
  .object [("name", .string signature.name), ("descriptor", .string signature.descriptor)]

/-- The entries that name a member. -/
def MemberName.entries (member : MemberName) : List (String × Json) :=
  [("owner", .string member.owner), ("name", .string member.name),
    ("descriptor", .string member.descriptor)]

def CallMatch.json (call : CallMatch) : Json :=
  .object (call.method.entries
    ++ Json.entry? "ordinal" (call.ordinal.map fun ordinal => .number ordinal))

def Anchor.json : Anchor → Json
  | methodEntry => .string "method_entry"
  | beforeReturn => .string "before_return"
  | beforeCall call => .object [("before_invoke", call.json)]
  | afterCall call => .object [("after_invoke", call.json)]
  | offset place => .object [("offset", .number place.toNat)]
  | index number => .object [("index", .number number)]

namespace Edit

/-- The entries that every added member has. -/
def memberEntries (access : List Modifier) (member : Signature) : List (String × Json) :=
  [("access", .array (access.map fun modifier => .string modifier.name)),
    ("name", .string member.name), ("descriptor", .string member.descriptor)]

/-- The name of the edit and its entries. -/
def entries : Edit → String × List (String × Json)
  | addMethod access method code overwrite =>
    ("add_method", memberEntries access method ++ Json.entry? "code" (code.map Template.json)
      ++ Json.flagUnless false "overwrite" overwrite)
  | addField access field overwrite =>
    ("add_field", memberEntries access field ++ Json.flagUnless false "overwrite" overwrite)
  | replaceBody code => ("replace_body", [("code", code.json)])
  | insertAt anchor code => ("insert_at", [("anchor", anchor.json), ("code", code.json)])
  | redirectCall callee replacement kind required =>
    ("redirect_call",
      [("original", .object callee.entries), ("replacement", .object replacement.entries)]
      ++ Json.entry? "kind" (kind.map fun kind => .string kind.name)
      ++ Json.flagUnless true "required" required)

def json (edit : Edit) : Json :=
  let (name, entries) := edit.entries
  .object [(name, .object entries)]

end Edit

namespace Patch

def json (patch : Patch) : Json :=
  .object ([("id", .string patch.id), ("class", .string patch.className)]
    ++ Json.entry? "method" (patch.method.map Signature.json)
    ++ [("priority", .number patch.priority.toInt), ("edits", .array (patch.edits.map Edit.json))])

/-- The text of a file with patches. -/
def fileText (patches : List Patch) : String :=
  (Json.object [("patches", .array (patches.map Patch.json))]).indented

end Patch

end ClassGraft

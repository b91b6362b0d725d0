import ClassGraft.Class.Refusal
import ClassGraft.Patch.Basic
import ClassGraft.Template.Fault

/-!
# Faults of patches

Why a patch can never be applied, why it is not applied to a class, and why patches of one class
cannot both have their way.
-/

namespace ClassGraft

/-- What is wrong with an edit, whatever the class. -/
inductive EditFlaw where
  | methodDescriptor (method : Signature)
  /-- A method with code that is abstract or native, or one without code that is neither. -/
  | codeOfMethod (method : Signature)
  | fieldDescriptor (field : Signature)
  | noCode (edit : Edit)
  | callDescriptor (method : MemberName)
  deriving DecidableEq, Repr

/-- The wording of the flaw. -/
def EditFlaw.message : EditFlaw → String
  | methodDescriptor method =>
    "`" ++ method.descriptor ++ "` of method " ++ method.name ++ " is not a method descriptor"
  | codeOfMethod method =>
    "method " ++ method.text ++ " must have code unless it's abstract or native, and not both"
  | fieldDescriptor field =>
    "`" ++ field.descriptor ++ "` of field " ++ field.name ++ " is not a field descriptor"
  | noCode edit => edit.text ++ " has no code"
  | callDescriptor method =>
    "`" ++ method.descriptor ++ "` of " ++ method.text ++ " is not a method descriptor"

/-- Why a patch can never be applied. -/
inductive PatchFlaw where
  /-- A file of patches with a code template that cannot be read, or none at all. -/
  | unreadable (fault : Option TemplateFault)
  | className (patch name : String)
  | methodDescriptor (patch descriptor : String)
  | noEdits (patch : String)
  | needsMethod (patch : String) (edit : Edit)
  | inEdit (patch : String) (flaw : EditFlaw)
  | noMethod (patch : String)
  | template (fault : TemplateFault)
  | notCall (edit : Edit) (position : Nat)
  /-- A call that would take or give other values than the one it replaces. -/
  | unequalCalls (edit : Edit) (replacement : MemberName) (kind : CallKind)
  deriving DecidableEq, Repr

/-- The wording that precedes a flaw. -/
def PatchFlaw.heading : String := "invalid patch: "

/-- The wording of the flaw. -/
def PatchFlaw.message : PatchFlaw → String
  | unreadable none => "cannot read patch file"
  | unreadable (some fault) => "cannot read patch file: " ++ heading ++ fault.message
  | className patch name => "patch " ++ patch ++ ": `" ++ name ++ "` is not an internal class name"
  | methodDescriptor patch descriptor =>
    "patch " ++ patch ++ ": `" ++ descriptor ++ "` is not a method descriptor"
  | noEdits patch => "patch " ++ patch ++ " has no edits"
  | needsMethod patch edit => "patch " ++ patch ++ ": " ++ edit.text ++ " needs a target method"
  | inEdit patch flaw => "patch " ++ patch ++ ": " ++ flaw.message
  | noMethod patch => "patch " ++ patch ++ " has no target method"
  | template fault => fault.message
  | notCall edit position => edit.text ++ s!": not a call at {position}"
  | unequalCalls edit replacement kind =>
    edit.text ++ ": calling " ++ replacement.text ++ " with " ++ kind.name.capitalize
      ++ " doesn't take and return the same values as the call it replaces"

/-- Where calls are redirected: in one method, or in a whole class. -/
inductive Scope where
  | method (method : Signature)
  | wholeClass (name : String)
  deriving DecidableEq, Repr

/-- The scope as messages show it. -/
def Scope.text : Scope → String
  | method signature => "method " ++ signature.text
  | wholeClass name => "class " ++ name

/-- What an edit refers to and a class does not have. -/
inductive Missing where
  | method (method : Signature) (className : String)
  | anchor (anchor : Anchor) (method : Signature)
  | code (anchor : Anchor) (method : Signature)
  | call (callee : MemberName) (scope : Scope)
  deriving DecidableEq, Repr

/-- The wording of what is missing. -/
def Missing.message : Missing → String
  | method signature name => "method " ++ signature.text ++ " in class " ++ name
  | anchor place signature => place.text ++ " in method " ++ signature.text
  | code place signature => place.text ++ " in method " ++ signature.text ++ ", which has no code"
  | call callee scope => "no call of " ++ callee.text ++ " in " ++ scope.text

/-- Why an edit and the edits of other patches cannot both have their way. -/
inductive Conflict where
  /-- A method is overwritten that other patches changed. -/
  | overwrites (edit : Edit) (changedBy : List String)
  /-- The body was replaced before, so it is not replaced again. -/
  | replacedBefore (edit : Edit) (method : Signature) (winner : String)
  /-- The body is replaced, with what other patches changed in it. -/
  | discards (edit : Edit) (method : Signature) (changedBy : List String)
  /-- The body was replaced, so nothing is changed in it. -/
  | dropped (edit : Edit) (method : Signature) (winner : String)
  deriving DecidableEq, Repr

/-- The wording of the conflict. -/
def Conflict.message : Conflict → String
  | overwrites edit changedBy =>
    edit.text ++ " overwrites the method changed by " ++ ", ".intercalate changedBy
  | replacedBefore edit method winner =>
    edit.text ++ " of " ++ method.text ++ " dropped, the body was already replaced by " ++ winner
  | discards edit method changedBy =>
    edit.text ++ " of " ++ method.text ++ " discards the edits of " ++ ", ".intercalate changedBy
  | dropped edit method winner =>
    edit.text ++ " in " ++ method.text ++ " dropped, the body was replaced by " ++ winner

/-- Why a patch or a patched class is not used. -/
inductive PatchFault where
  | duplicateMember (className : String) (member : Signature)
  | notFound (missing : Missing)
  | conflict (conflict : Conflict)
  | invalid (flaw : PatchFlaw)
  | refused (refusal : Refusal)
  | file (fault : ClassFault)
  deriving DecidableEq, Repr

namespace PatchFault

/-- The wording of the fault. -/
def message : PatchFault → String
  | duplicateMember name member =>
    "class " ++ name ++ " already has a member `" ++ member.text ++ "`"
  | notFound missing => "target not found: " ++ missing.message
  | conflict cause => "structural conflict: " ++ cause.message
  | invalid flaw => PatchFlaw.heading ++ flaw.message
  | refused refusal => "verification failed: " ++ refusal.message
  | file fault => fault.message

/-- A fault of a template; what the class has no room for is a fault of the class. -/
def ofTemplate : TemplateFault → PatchFault
  | .file fault => file fault
  | fault => invalid (.template fault)

end PatchFault

end ClassGraft

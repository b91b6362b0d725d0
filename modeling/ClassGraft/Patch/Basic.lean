import ClassGraft.Class.Basic
import ClassGraft.Code.CallKind
import ClassGraft.Template.Basic

/-!
# Patches

A patch is a list of edits of one class, which are applied together or not at all.  Edits of code
apply to the method that the patch names; where they go is said by an anchor.
-/

namespace ClassGraft

/-- A member of the class that a patch is for. -/
structure Signature where
  name : String
  descriptor : String
  deriving DecidableEq, Repr

/-- The member as messages show it. -/
def Signature.text (signature : Signature) : String :=
  signature.name ++ " " ++ signature.descriptor

/-! ### Modifiers -/

/-- A modifier of a member that is added. -/
inductive Modifier where
  | isPublic
  | isPrivate
  | isProtected
  | isStatic
  | isFinal
  | isSynchronized
  | isVolatile
  | isTransient
  | isNative
  | isAbstract
  | isSynthetic
  deriving DecidableEq, Repr

namespace Modifier

/-- All modifiers. -/
def all : List Modifier :=
  [isPublic, isPrivate, isProtected, isStatic, isFinal, isSynchronized, isVolatile, isTransient,
    isNative, isAbstract, isSynthetic]

/-- The access flag of the modifier. -/
def flag : Modifier → UInt16
  | isPublic => 0x0001
  | isPrivate => 0x0002
  | isProtected => 0x0004
  | isStatic => Access.isStatic
  | isFinal => 0x0010
  | isSynchronized => 0x0020
  | isVolatile => 0x0040
  | isTransient => 0x0080
  | isNative => Access.isNative
  | isAbstract => Access.isAbstract
  | isSynthetic => 0x1000

/-- The word for the modifier. -/
def name : Modifier → String
  | isPublic => "public"
  | isPrivate => "private"
  | isProtected => "protected"
  | isStatic => "static"
  | isFinal => "final"
  | isSynchronized => "synchronized"
  | isVolatile => "volatile"
  | isTransient => "transient"
  | isNative => "native"
  | isAbstract => "abstract"
  | isSynthetic => "synthetic"

/-- The access flags of modifiers together. -/
def flags (modifiers : List Modifier) : UInt16 :=
  modifiers.foldl (fun flags modifier => flags ||| modifier.flag) 0

end Modifier

/-! ### Anchors -/

/-- Calls of a method: the one with a number among the calls in the code, counted from 0, or all. -/
structure CallMatch where
  method : MemberName
  ordinal : Option Nat
  deriving DecidableEq, Repr

/-- The calls as messages show them. -/
def CallMatch.text (call : CallMatch) : String :=
  call.method.text ++ match call.ordinal with
    | some ordinal => s!"#{ordinal}"
    | none => ""

/-- Where inserted code goes.  Anchors match only instructions that were there from the start, never
what other patches inserted. -/
inductive Anchor where
  /-- Before the first instruction.  Jumps back to that instruction skip the inserted code. -/
  | methodEntry
  /-- Before each return, on every path to it. -/
  | beforeReturn
  | beforeCall (call : CallMatch)
  | afterCall (call : CallMatch)
  /-- Before the instruction at an offset of the bytes that were read. -/
  | offset (offset : UInt16)
  /-- Before the instruction with a number. -/
  | index (index : Nat)
  deriving DecidableEq, Repr

/-- The anchor as messages show it. -/
def Anchor.text : Anchor → String
  | methodEntry => "method entry"
  | beforeReturn => "before return"
  | beforeCall call => "before call of " ++ call.text
  | afterCall call => "after call of " ++ call.text
  | offset place => s!"offset {place}"
  | index number => s!"instruction {number}"

/-! ### Edits and patches -/

/-- One change of a class. -/
inductive Edit where
  /-- Adds a method.  One without code is abstract or native. -/
  | addMethod (access : List Modifier) (method : Signature) (code : Option Template)
    (overwrite : Bool)
  | addField (access : List Modifier) (field : Signature) (overwrite : Bool)
  /-- Puts other code in place of the code of the method. -/
  | replaceBody (code : Template)
  | insertAt (anchor : Anchor) (code : Template)
  /-- Lets calls of one method call another: in the method of the patch, or in all of the class.
  Each call keeps its kind unless another is given; if `required`, there must be one. -/
  | redirectCall (callee replacement : MemberName) (kind : Option CallKind) (required : Bool)
  deriving DecidableEq, Repr

namespace Edit

/-- The edit as messages show it. -/
def text : Edit → String
  | addMethod _ method _ _ => "add method " ++ method.text
  | addField _ field _ => "add field " ++ field.text
  | replaceBody _ => "replace body"
  | insertAt anchor _ => "insert at " ++ anchor.text
  | redirectCall callee replacement _ _ =>
    "redirect " ++ callee.text ++ " to " ++ replacement.text

/-- The edit that puts up with more: an added member may be there already, and there may be no call
to redirect. -/
def lenient : Edit → Edit
  | addMethod access method code _ => addMethod access method code true
  | addField access field _ => addField access field true
  | redirectCall callee replacement kind _ => redirectCall callee replacement kind false
  | edit => edit

/-- Whether the edit changes the code of the method that its patch names. -/
def needsMethod : Edit → Bool
  | replaceBody _ => true
  | insertAt _ _ => true
  | _ => false

end Edit

/-- A list of edits of one class. -/
structure Patch where
  /-- The name of the patch in reports. -/
  id : String
  className : String
  /-- The method that edits of code apply to. -/
  method : Option Signature
  /-- Patches with smaller numbers are applied first, and win conflicts. -/
  priority : Int32
  edits : List Edit
  deriving DecidableEq, Repr

end ClassGraft

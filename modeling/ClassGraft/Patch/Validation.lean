import ClassGraft.Patch.Fault

/-!
# Checking patches

What can be said against a patch without the class it is for.
-/

namespace ClassGraft

/-- Whether the text is a method descriptor. -/
def isMethodDescriptor (text : String) : Bool := (Descriptor.method? (Bytes.ofText text)).isSome

/-- Whether the text is a field descriptor. -/
def isFieldDescriptor (text : String) : Bool := (Descriptor.field? (Bytes.ofText text)).isSome

/-- What is wrong with the edit, whatever the class. -/
def Edit.flaw? (edit : Edit) : Option EditFlaw :=
  match edit with
  | .addMethod access method code _ =>
    let hasNoBody := Access.has (Modifier.flags access) (Access.isAbstract ||| Access.isNative)
    if !isMethodDescriptor method.descriptor then some (.methodDescriptor method)
    else if code.isSome == hasNoBody then some (.codeOfMethod method)
    else none
  | .addField _ field _ =>
    if isFieldDescriptor field.descriptor then none else some (.fieldDescriptor field)
  | .replaceBody code | .insertAt _ code => if code.isEmpty then some (.noCode edit) else none
  | .redirectCall callee replacement _ _ =>
    ([callee, replacement].find? (!isMethodDescriptor ·.descriptor)).map .callDescriptor

namespace Patch

variable (patch : Patch)

/-- What is wrong with an edit of the patch. -/
def flawOf? (edit : Edit) : Option PatchFlaw :=
  if edit.needsMethod && patch.method.isNone then some (.needsMethod patch.id edit)
  else edit.flaw?.map (.inEdit patch.id)

/-- Why the patch can never be applied, as far as that can be seen without a class. -/
def flaw? : Option PatchFlaw :=
  if patch.className.isEmpty || patch.className.contains '.' then
    some (.className patch.id patch.className)
  else
    match patch.method.filter (!isMethodDescriptor ·.descriptor) with
    | some method => some (.methodDescriptor patch.id method.descriptor)
    | none =>
      if patch.edits.isEmpty then some (.noEdits patch.id) else patch.edits.findSome? patch.flawOf?

end Patch

end ClassGraft

import ClassGraft.Frame.Basic

/-!
# Where paths meet

The type that values of two types both have, and the frame of an instruction that is reached with
two frames.  Distinct classes meet in a common super class, which the hierarchy must know; arrays
meet element by element.  A local whose types do not meet cannot be used, on the stack that is a
fault.

Where the class declares a frame, what arrives must fit it (`Frame.fit`).
-/

namespace ClassGraft

theorem Descriptor.length_of_element? {array element : Bytes}
    (h : Descriptor.element? array = some element) : element.length < array.length := by
  unfold Descriptor.element? at h
  split at h
  · split at h
    · simp_all
    · simp at h
  · simp at h

theorem Descriptor.length_of_className? {element name : Bytes}
    (h : Descriptor.className? element = some name) : name.length ≤ element.length := by
  unfold Descriptor.className? at h
  split at h
  · simp at h
  · split at h
    · simp_all
    · split at h
      · injection h with h
        subst h
        simp
        omega
      · simp at h

namespace Descriptor

/-- The class or array type of the elements of an array type.  Absent for primitive elements. -/
def elementName? (array : Bytes) : Option Bytes :=
  (element? array).bind className?

theorem length_of_elementName? {array name : Bytes} (h : elementName? array = some name) :
    name.length < array.length := by
  obtain ⟨element, he, hn⟩ := Option.bind_eq_some_iff.1 h
  exact Nat.lt_of_le_of_lt (length_of_className? hn) (length_of_element? he)

/-- Whether the name is the descriptor of an array type. -/
def isArray (name : Bytes) : Bool := (element? name).isSome

/-- The array type of elements of a class or array type. -/
def arrayOf (name : Bytes) : Bytes := bracket :: ofClass name

end Descriptor

namespace Hierarchy

variable (hierarchy : Hierarchy)

/-- The most specific class or array type that both are assignable to, if that is known. -/
def commonReference (a b : Bytes) : Option Bytes :=
  if a = b then some a
  else if a = objectName ∨ b = objectName then some objectName
  else if Descriptor.isArray a ∧ Descriptor.isArray b then
    match _h : Descriptor.elementName? a, Descriptor.elementName? b with
    | some x, some y => (commonReference x y).map Descriptor.arrayOf
    | _, _ => some objectName
  else if Descriptor.isArray a ∨ Descriptor.isArray b then some objectName
  else hierarchy.common a b
  termination_by a.length
  decreasing_by exact Descriptor.length_of_elementName? _h

/-- The interfaces that all arrays implement. -/
def arrayInterfaces : List Bytes :=
  [Bytes.ofAscii "java/lang/Cloneable", Bytes.ofAscii "java/io/Serializable"]

/-- Whether a value of one class or array type can be used as another, if that is known. -/
def assignableReference (source target : Bytes) : Option Bool :=
  if source = target ∨ target = objectName then some true
  else if Descriptor.isArray source ∧ Descriptor.isArray target then
    match _h : Descriptor.elementName? source, Descriptor.elementName? target with
    | some x, some y => assignableReference x y
    | _, _ => some false
  else if Descriptor.isArray source then some (arrayInterfaces.contains target)
  else if Descriptor.isArray target then some false
  else hierarchy.assignable source target
  termination_by source.length
  decreasing_by exact Descriptor.length_of_elementName? _h

/-- Whether a value of one type can be kept where another is declared.  Where the hierarchy does not
know, it can. -/
def accepts (source target : FrameType) : Bool :=
  match source, target with
  | _, .top => true
  | .null, .object _ => true
  | .object a, .object b => hierarchy.assignableReference a b != some false
  | a, b => a == b

/-- The type that values of both types have. -/
def meet (a b : FrameType) : Except FrameFault FrameType :=
  if a = b then .ok a
  else
    match a, b with
    | .null, .object x | .object x, .null => .ok (.object x)
    | .object x, .object y =>
      match hierarchy.commonReference x y with
      | some name => .ok (.object name)
      | none => .error (.noCommonClass x y)
    | a, b => .error (.incompatible a b)

/-- The type of a local that is reached with two types. -/
def meetLocal (a b : FrameType) : FrameType :=
  match hierarchy.meet a b with
  | .ok type => type
  | .error _ => .top

end Hierarchy

namespace FrameType

/-- Slots in which a wide value whose second slot got lost cannot be used. -/
def dropHalves : List FrameType → List FrameType
  | [] => []
  | type :: rest =>
    (if type.isWide ∧ rest.head? ≠ some top then top else type) :: dropHalves rest

end FrameType

namespace Frame

/-- The frame of an instruction that is reached with two frames. -/
def merge (hierarchy : Hierarchy) (old new : Frame) : Except FrameFault Frame := do
  if old.stack.length ≠ new.stack.length then
    throw (.heights old.stack.length new.stack.length)
  let words ← (old.fromBottom.zip new.fromBottom).mapM fun (a, b) =>
    (hierarchy.meet a b).mapError .onStack
  let locals := List.zipWith hierarchy.meetLocal old.locals new.locals
  return ⟨FrameType.trim (FrameType.dropHalves locals), words.reverse⟩

/-- What the declared frame has that the arriving one does not fit, the lowest word of the stack
first. -/
def misfit? (hierarchy : Hierarchy) (declared arriving : Frame) : Option FrameFault :=
  if declared.stack.length ≠ arriving.stack.length then
    some (.declaredHeight arriving.stack.length declared.stack.length)
  else
    let word? := ((arriving.fromBottom.zip declared.fromBottom).zipIdx).findSome?
      fun ((found, wanted), slot) =>
        if hierarchy.accepts found wanted then none else some (.declaredStack slot found wanted)
    let arrived := arriving.locals ++
      List.replicate (declared.locals.length - arriving.locals.length) .top
    let local? := ((arrived.zip declared.locals).zipIdx).findSome?
      fun ((found, wanted), slot) =>
        if hierarchy.accepts found wanted then none else some (.declaredLocal slot found wanted)
    word?.or local?

/-- The declared frame in place of an arriving one that fits it, with the locals that it does not
mention. -/
def fit (hierarchy : Hierarchy) (declared arriving : Frame) : Except FrameFault Frame :=
  match misfit? hierarchy declared arriving with
  | some fault => .error fault
  | none =>
    .ok ⟨FrameType.trim (declared.locals ++ arriving.locals.drop declared.locals.length),
      declared.stack⟩

end Frame

end ClassGraft

import ClassGraft.Json.Reader

/-!
# Decoding JSON

A decoder takes an outline for a value of some type.  It goes through the outline in order and stops
at the first fault: either the text has another shape than the type asks for, or a part of the right
shape has contents that are refused.

A record is written as an object, or as an array of its fields in order.  `Fields` says what the
fields are.  One of several cases is written as the name of a case that has no contents, or as an
object with the name and the contents.
-/

namespace ClassGraft.Json

/-- A decoder.  Its fault is nothing for a text of another shape, and a fault of type `ε` for
contents that are refused. -/
abbrev Decoder (ε α : Type) := Outline → Except (Option ε) α

namespace Decoder

variable {ε α : Type}

/-- The text has another shape. -/
def misshapen : Except (Option ε) α := .error none

/-- A value that must be there. -/
def require (value : Option α) : Except (Option ε) α := value.elim misshapen .ok

def string : Decoder ε String
  | .string (some value) => .ok value
  | _ => misshapen

def bool : Decoder ε Bool
  | .bool value => .ok value
  | _ => misshapen

/-- A whole number from `lo` to `hi`. -/
def integer (lo hi : Int) : Decoder ε Int
  | .number (some value) => if lo ≤ value ∧ value ≤ hi then .ok value else misshapen
  | _ => misshapen

/-- The elements of an array. -/
def list (element : Decoder ε α) : Decoder ε (List α)
  | .array elements whole => do
    let found ← elements.mapM element
    if whole then return found else misshapen
  | _ => misshapen

/-- A value, or nothing for null. -/
def option (value : Decoder ε α) : Decoder ε (Option α)
  | .null => .ok none
  | found => (value found).map some

end Decoder

/-! ### Records -/

/-- How the fields of a record are decoded; `σ` holds what was found of them so far. -/
structure Fields (ε σ α : Type) where
  /-- The names of the fields in order. -/
  keys : List String
  /-- No field was found. -/
  start : σ
  /-- Decodes the value of a key, unless no field has that name. -/
  read : String → Outline → σ → Option (Except (Option ε) σ)
  /-- The record, unless a field is missing. -/
  finish : σ → Option α

namespace Fields

variable {ε σ τ α β : Type}

/-- One field, with the value that it has if it is missing. -/
def one (key : String) (decode : Decoder ε α) (default : Option α := none) :
    Fields ε (Option α) α where
  keys := [key]
  start := none
  read found value state :=
    if found = key then
      some (if state.isSome then Decoder.misshapen else (decode value).map some)
    else none
  finish state := state <|> default

/-- The fields of both. -/
def and (first : Fields ε σ α) (second : Fields ε τ β) : Fields ε (σ × τ) (α × β) where
  keys := first.keys ++ second.keys
  start := (first.start, second.start)
  read key value state :=
    match first.read key value state.1 with
    | some result => some (result.map (·, state.2))
    | none => (second.read key value state.2).map (·.map (state.1, ·))
  finish state := do return (← first.finish state.1, ← second.finish state.2)

/-- The fields of a record that is made of what was found. -/
def map (make : α → β) (fields : Fields ε σ α) : Fields ε σ β where
  keys := fields.keys
  start := fields.start
  read := fields.read
  finish state := (fields.finish state).map make

/-- Decodes an entry of an object; in a `closed` record no field has an unknown name. -/
def readEntry (fields : Fields ε σ α) (closed : Bool) (state : σ) :
    Option String × Outline → Except (Option ε) σ
  | (none, _) => Decoder.misshapen
  | (some key, value) =>
    match fields.read key value state with
    | some result => result
    | none => if closed || !value.isWhole then Decoder.misshapen else .ok state

/-- Decodes an element of an array that stands for the field of a name. -/
def readElement (fields : Fields ε σ α) (state : σ) :
    Outline × String → Except (Option ε) σ
  | (value, key) => (fields.read key value state).getD (.ok state)

/-- The record. -/
def decode (fields : Fields ε σ α) (closed : Bool) : Decoder ε α
  | .object entries whole => do
    let state ← entries.foldlM (readEntry fields closed) fields.start
    Decoder.require (if whole then fields.finish state else none)
  | .array elements whole => do
    let state ← (elements.zip fields.keys).foldlM (readElement fields) fields.start
    let fits := whole && elements.length ≤ fields.keys.length
    Decoder.require (if fits then fields.finish state else none)
  | _ => Decoder.misshapen

end Fields

/-! ### Cases -/

/-- One of several cases. -/
inductive Case (ε α : Type) where
  /-- A case without contents. -/
  | unit (value : α)
  | content (decode : Decoder ε α)

namespace Case

variable {ε α β : Type}

/-- A case that is made of its contents. -/
def of (decode : Decoder ε α) (make : α → β) : Case ε β :=
  .content fun value => (decode value).map make

/-- Decodes the contents of a case. -/
def decodeContent : Case ε α → Decoder ε α
  | .unit value, .null => .ok value
  | .unit _, _ => Decoder.misshapen
  | .content decode, value => decode value

/-- One of the named cases. -/
def decode (cases : List (String × Case ε α)) : Decoder ε α
  | .string (some name) =>
    match cases.lookup name with
    | some (.unit value) => .ok value
    | _ => Decoder.misshapen
  | .object ((some name, value) :: rest) whole => do
    let case ← Decoder.require (cases.lookup name)
    let found ← case.decodeContent value
    if rest.isEmpty && whole then return found else Decoder.misshapen
  | _ => Decoder.misshapen

end Case

/-- The value that a text spells. -/
def decodeText {ε α : Type} (decode : Decoder ε α) (text : String) : Except (Option ε) α := do
  let (value, complete) := outline text
  let found ← decode value
  if complete then return found else Decoder.misshapen

end ClassGraft.Json

import ClassGraft.Patch.Fault

/-!
# Reports

What became of the patches of a class, entry by entry.
-/

/-!
## Bytes in hexadecimal

Each byte is written as two lower case digits.
-/

namespace ClassGraft.Bytes

/-- A digit below 16. -/
def hexDigit (n : Nat) : Char :=
  if n < 10 then Char.ofNat ('0'.toNat + n) else Char.ofNat ('a'.toNat + (n - 10))

/-- The bytes as hexadecimal digits, two for each. -/
def hex (bytes : Bytes) : String :=
  String.ofList (bytes.flatMap fun b => [hexDigit (b.toNat / 16), hexDigit (b.toNat % 16)])

end ClassGraft.Bytes

/-! ## What became of patches -/

namespace ClassGraft

/-- What an edit did. -/
inductive Deed where
  | done (edit : Edit)
  | overwroteMethod (edit : Edit)
  | overwroteField (edit : Edit)
  | replaced (edit : Edit) (method : Signature)
  | inserted (edit : Edit) (method : Signature) (sites : Nat)
  /-- Redirected calls, if there were any. -/
  | redirected (edit : Edit) (scope : Scope) (sites : Nat)
  deriving DecidableEq, Repr

/-- The deed as reports show it. -/
def Deed.text : Deed → String
  | done edit => edit.text
  | overwroteMethod edit => edit.text ++ ", overwriting the existing method"
  | overwroteField edit => edit.text ++ ", overwriting the existing field"
  | replaced edit method => edit.text ++ " of " ++ method.text
  | inserted edit method sites => edit.text ++ " of " ++ method.text ++ s!", {sites} site(s)"
  | redirected edit scope 0 => edit.text ++ ", no calls in " ++ scope.text
  | redirected edit scope sites => edit.text ++ " in " ++ scope.text ++ s!", {sites} site(s)"

/-- What a report says. -/
inductive Event where
  | applied (deed : Deed)
  /-- A whole patch was left out because one of its edits failed. -/
  | skipped (fault : PatchFault)
  /-- An edit was dropped, or discarded what other patches did. -/
  | conflict (conflict : Conflict)
  /-- The patched class was refused, so it is not used. -/
  | verificationFailed (refusal : Refusal)
  /-- The class could not be read or written, so no patch is used. -/
  | failed (fault : PatchFault)
  deriving DecidableEq, Repr

namespace Event

/-- The event as reports show it. -/
def text : Event → String
  | applied deed => "applied " ++ deed.text
  | skipped fault => "skipped: " ++ fault.message
  | conflict cause => (PatchFault.conflict cause).message
  | verificationFailed refusal => "verification failed: " ++ refusal.message
  | failed fault => "failed: " ++ fault.message

/-- Whether an edit was applied. -/
def isApplied : Event → Bool
  | applied _ => true
  | _ => false

/-- Whether the patched class is not used. -/
def isFailure : Event → Bool
  | verificationFailed _ => true
  | failed _ => true
  | _ => false

/-- Why a patched class is not used. -/
def ofFault : PatchFault → Event
  | .refused refusal => verificationFailed refusal
  | fault => failed fault

end Event

/-- An event and the patch it belongs to; one that belongs to no patch is about the whole class. -/
structure ReportEntry where
  patch : Option String
  event : Event
  deriving DecidableEq, Repr

/-- The entry as reports show it. -/
def ReportEntry.text (entry : ReportEntry) : String :=
  "[" ++ entry.patch.getD "*" ++ "] " ++ entry.event.text

/-- The report on the patches of a class. -/
structure Report where
  className : String
  /-- The fingerprint of the patches, if it is known. -/
  fingerprint : Option Bytes
  entries : List ReportEntry
  deriving DecidableEq, Repr

namespace Report

variable (report : Report)

/-- The report as it is printed. -/
def text : String :=
  let heading := match report.fingerprint with
    | some fingerprint => report.className ++ " (" ++ Bytes.hex fingerprint ++ ")"
    | none => report.className
  String.intercalate "\n  " (heading :: report.entries.map ReportEntry.text)

/-- The report with more entries. -/
def add (entries : List ReportEntry) : Report :=
  { report with entries := report.entries ++ entries }

/-- How many edits were applied. -/
def appliedCount : Nat := report.entries.countP (·.event.isApplied)

/-- Whether all edits were applied without conflicts, and the class is used. -/
def isClean : Bool := report.entries.all (·.event.isApplied)

/-- Whether the patched class is not used. -/
def hasFailed : Bool := report.entries.any (·.event.isFailure)

end Report

end ClassGraft

import ClassGraft.Command.Apply
import ClassGraft.Command.Check
import ClassGraft.Command.Verify

/-!
# Command lines

A command line names a command, followed by what it works on.  `Invocation.ofArguments` reads it,
and `Request.task` is what is then to be done.
-/

namespace ClassGraft

/-- What a command line asks for. -/
inductive Request where
  | apply (application : Application)
  | verify (path : String)
  | dump (path : String)
  | check (paths : List String)
  deriving DecidableEq, Repr

/-- What is done for a request. -/
def Request.task {m : Type → Type} [Monad m] [Workplace m] : Request → Task m Unit
  | apply application => Task.apply application
  | verify path => Task.verify path
  | dump path => Task.dump path
  | check paths => Task.check paths

/-- A command line. -/
structure Invocation where
  /-- Whether nothing but errors is logged. -/
  isQuiet : Bool
  request : Request
  deriving DecidableEq, Repr

/-- Why a command line cannot be understood. -/
inductive UsageFault where
  | noCommand
  | unknownCommand (word : String)
  | unexpected (word : String)
  | noValue (option : String)
  | missing (what : String)
  /-- Both more and less is to be logged. -/
  | quietAndVerbose
  deriving DecidableEq, Repr

/-- The wording of the fault. -/
def UsageFault.message : UsageFault → String
  | noCommand => "no command given"
  | unknownCommand word => "unknown command " ++ Quoted.encode word
  | unexpected word => "unexpected argument " ++ Quoted.encode word
  | noValue option => "a value is required for " ++ option
  | missing what => what ++ " is required"
  | quietAndVerbose => "--quiet cannot be used with --verbose"

/-- How the commands are used. -/
def usageText : String :=
  "usage:\n"
    ++ "  apply --input PATH --output PATH [--patches FILE...] [--config FILE] [--no-verify]\n"
    ++ "  verify PATH\n"
    ++ "  dump FILE\n"
    ++ "  check-patches FILE...\n"
    ++ "options: -v/--verbose, -q/--quiet"

/-! ### Applying patches -/

/-- What is known so far of what to apply. -/
structure Application.Draft where
  patches : List String
  config : Option String
  input : Option String
  output : Option String
  verifies : Bool

namespace Application.Draft

/-- The draft of which nothing is known. -/
def empty : Draft := ⟨[], none, none, none, true⟩

/-- The application, if all that it needs is known. -/
def finish (draft : Draft) : Except UsageFault Application :=
  match draft.input, draft.output with
  | none, _ => .error (.missing "--input")
  | _, none => .error (.missing "--output")
  | some input, some output => .ok ⟨draft.patches, draft.config, input, output, draft.verifies⟩

/-- The draft with what some words say.  Words that are no options are patch files where `inPatches`
says so. -/
def addWords (inPatches : Bool) (draft : Draft) : List String → Except UsageFault Draft
  | [] => .ok draft
  | word :: rest =>
    if ["-p", "--patches"].contains word then draft.addWords true rest
    else if word = "--no-verify" then { draft with verifies := false }.addWords false rest
    else if ["-c", "--config", "-i", "--input", "-o", "--output"].contains word then
      match rest with
      | [] => .error (.noValue word)
      | value :: rest =>
        let draft :=
          if ["-c", "--config"].contains word then { draft with config := some value }
          else if ["-i", "--input"].contains word then { draft with input := some value }
          else { draft with output := some value }
        draft.addWords false rest
    else if inPatches && !word.startsWith "-" then
      { draft with patches := draft.patches ++ [word] }.addWords true rest
    else .error (.unexpected word)

end Application.Draft

/-! ### All commands -/

/-- What words after the name of a command ask for, with options that hold for all commands taken
out. -/
def Request.ofWords (command : String) (words : List String) : Except UsageFault Request :=
  match command, words with
  | "apply", words => do
    return .apply (← (← Application.Draft.empty.addWords false words).finish)
  | "verify", [path] => .ok (.verify path)
  | "verify", [] => .error (.missing "a path")
  | "dump", [path] => .ok (.dump path)
  | "dump", [] => .error (.missing "a class file")
  | "check-patches", [] => .error (.missing "a patch file")
  | "check-patches", paths => .ok (.check paths)
  | "verify", _ :: word :: _ | "dump", _ :: word :: _ => .error (.unexpected word)
  | _, _ => .error (.unknownCommand command)

/-- What a command line says. -/
def Invocation.ofArguments (arguments : List String) : Except UsageFault Invocation := do
  let isVerbose (word : String) := ["-v", "-vv", "--verbose"].contains word
  let isQuiet (word : String) := ["-q", "--quiet"].contains word
  if arguments.any isVerbose && arguments.any isQuiet then throw .quietAndVerbose
  match arguments.filter fun word => !isVerbose word && !isQuiet word with
  | [] => throw .noCommand
  | command :: words => return ⟨arguments.any isQuiet, ← Request.ofWords command words⟩

end ClassGraft

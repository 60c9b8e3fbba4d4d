import EcmaScript.Inspect.Value
import EcmaScript.Session.Repl

/-! The command line: what its arguments ask for, what becomes of the lines of a session, and what
is shown for a result. -/
namespace EcmaScript

/-- What a run of the program is to do. Without a script or a file it is a session. -/
structure Command where
  script : Option String := none
  file : Option String := none
  repl : Repl := {}

namespace Command

/-- Why arguments were refused. -/
inductive Refusal where
  | missing (option : String)
  | notNumber (text : String)
  | unknown (argument : String)
deriving DecidableEq

def Refusal.message : Refusal → String
  | .missing option => "a value is required for '" ++ option ++ "' but none was supplied"
  | .notNumber text => "invalid value '" ++ text ++ "' for '--timeout-ms <N>'"
  | .unknown argument => "unexpected argument '" ++ argument ++ "' found"

def millis? (text : String) : Option Nat :=
  let cs := text.toList
  if cs ≠ [] ∧ cs.all Char.isDigit then some (Number.natOfDigits cs) else none

def withTimeout (c : Command) (text : String) : Except Refusal Command :=
  match millis? text with
  | some n => .ok { c with repl.timeoutMillis := some n }
  | none => .error (.notNumber text)

def withFile (c : Command) (name : String) : Except Refusal Command :=
  if c.file.isNone ∧ ¬ (name.startsWith "-" ∧ name ≠ "-") then .ok { c with file := some name }
  else .error (.unknown name)

def read (c : Command) : List String → Except Refusal Command
  | [] => .ok c
  | "-e" :: script :: rest | "--eval" :: script :: rest => read { c with script := some script } rest
  | "--timeout-ms" :: n :: rest => do read (← c.withTimeout n) rest
  | ["-e"] | ["--eval"] => .error (.missing "--eval <EVAL>")
  | ["--timeout-ms"] => .error (.missing "--timeout-ms <N>")
  | "--dry-run" :: rest => read { c with repl.dryRun := true } rest
  | "--strict" :: rest => read { c with repl.strict := true } rest
  | name :: rest => do read (← c.withFile name) rest

def ofArguments (args : List String) : Except Refusal Command := read {} args

end Command

/-- What becomes of a line that was entered. -/
inductive Entry where
  | leave
  | ignore
  /-- The text is unfinished, and the next line goes on with it. -/
  | more (text : String)
  | evaluate (text : String)
deriving DecidableEq

def Entry.ofLine (before line : String) : Entry :=
  let text := if before = "" then line else before ++ "\n" ++ line
  let word := String.ofList (Number.trimEnd (Number.trimStart line.toList))
  if before = "" ∧ (word = "exit" ∨ word = ".exit") then .leave
  else if ¬ isCompleteInput text then .more text
  else if text.toList.all Text.isBlank then .ignore
  else .evaluate text

def Condition.report (c : Condition) : String :=
  match c with
  | .unsupported _ => "Unsupported operation: " ++ c.message
  | .sideEffect _ => "Possible side effect: " ++ c.message
  | .internal _ => "Internal error: " ++ c.message
  | .timeout _ | .interrupted | .stalled | .crash => c.message

def EvaluationError.report : EvaluationError → String
  | .failure f =>
    f.kind.name ++ ": " ++ f.message ++
      if f.kind = .syntaxError then
        " (" ++ Number.natText f.line ++ ":" ++ Number.natText f.column ++ ")"
      else ""
  | .condition c => c.report
  | .uncaught _ description => "Uncaught " ++ description

abbrev Shown := Except (List String) (Option String)

namespace Run

def entry (m : Machine) (r : Repl) (source : String) : Run Shown := do
  match ← outcomeOf (r.eval m source) with
  | .ok v => return .ok (← look (·.inspect? v))
  | .error e => return .error [e.report]

/-- Evaluates a whole script and all the work it leaves, and gives what is shown for it. -/
def script (m : Machine) (r : Repl) (filename source : String) : Run Shown := do
  let begun := do finish m (← evaluate m source { r.options with filename })
  match ← outcomeOf begun with
  | .error e =>
    match e with
    | .failure ⟨.syntaxError, _, line, column⟩ =>
      return .error [e.report, "  in file: " ++ filename ++ ":" ++ Number.natText line ++ ":" ++
        Number.natText column]
    | _ => return .error [e.report]
  | .ok v =>
    match ← outcomeOf (runEventLoop m) with
    | .error e => return .error [e.report]
    | .ok _ => if v.isUndefined then return .ok none else return .ok (← look (·.inspect? v))

end Run
end EcmaScript

import EcmaScript.Json.Reader
import EcmaScript.Realm.Globals
import EcmaScript.Realm.Loop

/-! Evaluating a text in a realm. -/
namespace EcmaScript

/-- The settings of one evaluation. -/
structure EvaluateOptions where
  filename : String := defaultFilename
  strict : Bool := false
  /-- Stop instead of changing anything that is older than the evaluation. -/
  dryRun : Bool := false
  timeoutMillis : Option Nat := none
  /-- Where names are declared, unless in the global scope of the realm. -/
  scope : Option ScopeId := none
  /-- The table a dry run goes by. -/
  table : Nat := 0
  sink : Option Nat := none

namespace EvaluateOptions

def refuse {α : Type} (message : String) : Except EvaluationError α :=
  .error (.failure ⟨.type, message, 0, 0⟩)

def setting {α : Type} (document : Json) (name : String) (read : Json → Option α) (default : α)
    (expected : String) : Except EvaluationError α :=
  match document.member? name with
  | none => .ok default
  | some v =>
    match read v with
    | some a => .ok a
    | none => refuse (name ++ " must be " ++ expected)

/-- Reads settings from a document. What it does not name keeps its default. -/
def ofJson (document : Json) : Except EvaluationError EvaluateOptions := do
  match document with
  | .object _ => pure ()
  | _ => refuse "evaluation options must be a JSON object"
  let timeoutMillis ← setting document "timeoutMillis"
    (fun
      | .null => some none
      | v => v.natural?.map some)
    none "a non-negative integer"
  let dryRun ← setting document "throwOnSideEffect" Json.boolean? false "a boolean"
  let filename ← setting document "filename" Json.string? defaultFilename "a string"
  let strict ← setting document "strict" Json.boolean? false "a boolean"
  return { filename, strict, dryRun, timeoutMillis }

end EvaluateOptions

/-- What an evaluation has come to when its text has been read through once. -/
inductive Evaluation where
  | complete (v : Value)
  /-- It waits, and its result will be in the slot. -/
  | pending (context : Context) (slot : Nat)

def Evaluation.isPending : Evaluation → Bool
  | .pending .. => true
  | .complete _ => false

namespace Exec

def evaluateScript (scope : ScopeId) (body : List Statement) : Exec Value := do
  if (← look (·.scope scope)).isGlobal then hoistGlobal scope body else hoistVars scope body []
  match ← evaluateStatements scope body none with
  | .normal v => return v.getD .undefined
  | .return v => return v
  | _ => return .undefined

def record (slot : Nat) (result : Except EvaluationError Value) : Exec Unit :=
  change fun s => { s with outcomes := s.outcomes.setIfInBounds slot (some result) }

def evaluateInto (slot : Nat) (scope : ScopeId) (body : List Statement) : Exec Unit := do
  match ← attempt (evaluateScript scope body) with
  | .ok v => record slot (.ok v)
  | .error e =>
    let e ← uncaught (← onFrameExit e)
    record slot (.error e)

end Exec

/-- How much work was waiting at some moment. -/
structure Marks where
  jobs : Nat
  firstTimer : Nat
  rejections : Nat

namespace State

def marks (s : State) : Marks := ⟨s.jobs.size, s.timers.lastId + 1, s.rejections.size⟩

def discardAfter (s : State) (m : Marks) : State :=
  { s with
    jobs := s.jobs.truncate m.jobs
    timers := s.timers.discardFrom m.firstTimer
    rejections := s.rejections.shrink m.rejections }

def enter (s : State) (source : String) (strict : Bool) (o : EvaluateOptions) : Context × State :=
  ({ script := ⟨s.scripts.size⟩
     strict := o.strict || strict
     globalScope := o.scope.getD s.globalScope
     effects := if o.dryRun then some o.table else none
     firstObject := s.heap.size
     firstScope := s.scopes.size
     sink := o.sink
     deadline := o.timeoutMillis.map fun millis => ⟨s.clock + millis * 1000000, millis⟩ },
    { s with interrupted := false, scripts := s.scripts.push ⟨source, o.filename⟩ })

end State

namespace Run

def enterScript (source : String) (strict : Bool) (o : EvaluateOptions) : Run Context :=
  update (·.enter source strict o)

def throwawayScope (parent : ScopeId) : Run ScopeId := update fun s =>
  (⟨s.scopes.size⟩, { s with
    scopes := s.scopes.push
      { kind := .function
          { this := some (.object s.globalObject), newTarget := .undefined, function := none
            home := none, isArrow := false }
        parent := some parent } })

def newOutcome : Run Nat := update fun s =>
  (s.outcomes.size, { s with outcomes := s.outcomes.push none })

/-- Evaluates a text as far as it goes without waiting. -/
def evaluate (m : Machine) (source : String) (o : EvaluateOptions) : Run Evaluation := do
  match parseScript source with
  | .error e => stop e.toEvaluationError
  | .ok script =>
    let c ← enterScript source script.strict o
    let scope ← if o.dryRun then throwawayScope c.globalScope else pure c.globalScope
    let marks ← look (·.marks)
    let slot ← newOutcome
    let frame : Frame := ⟨"", none, .script o.filename 1 1⟩
    let spawned ← attempt m c (Exec.spawn frame (Exec.evaluateInto slot scope script.body))
    if o.dryRun then change (·.discardAfter marks)
    match spawned with
    | .error e => stopFor e
    | .ok _ => pure ()
    raiseFatal
    match ← look fun s => (s.outcomes[slot]?).join with
    | none => return .pending c slot
    | some (.error e) => stop e
    | some (.ok v) =>
      if !o.dryRun then runJobs m c m.fuel
      return .complete v

def finish (m : Machine) : Evaluation → Run Value
  | .complete v => return v
  | .pending c slot => awaitOutcome m c slot m.fuel

def runEventLoop (m : Machine) : Run Unit := do
  runAll m (← look (·.baseContext)) m.fuel

end Run
end EcmaScript

import EcmaScript.Heap.Native
import EcmaScript.Source.Fault

/-! How an evaluation can fail. -/
namespace EcmaScript

/-- Conditions of the evaluation itself. A script cannot catch them. -/
inductive Condition where
  | unsupported (what : String)
  | sideEffect (what : String)
  | timeout (millis : Nat)
  | interrupted
  | stalled
  | internal (what : String)
  /-- An invariant of the evaluation itself was broken, and nothing can be said. -/
  | crash
deriving DecidableEq, Inhabited

def Condition.message : Condition → String
  | .unsupported what => what
  | .sideEffect what => what
  | .timeout millis => "Evaluation timed out after " ++ Number.natText millis ++ "ms"
  | .interrupted => "Evaluation interrupted"
  | .stalled => "Evaluation stalled: no pending jobs, tasks or timers can settle the result"
  | .internal what => what
  | .crash => ""

/-- An error of the language for which no error object has been made yet. -/
structure Failure where
  kind : ErrorKind
  message : String
  line : Nat := 0
  column : Nat := 0
deriving DecidableEq, Inhabited

/-- Why a computation did not come to a value. -/
inductive Abrupt where
  | condition (c : Condition)
  | failure (f : Failure)
  | thrown (v : Value)
deriving Inhabited

def Abrupt.isCatchable : Abrupt → Bool
  | .condition _ => false
  | .failure _ => true
  | .thrown _ => true

/-- How an evaluation failed, as its caller sees it. -/
inductive EvaluationError where
  | failure (f : Failure)
  | condition (c : Condition)
  | uncaught (value : Value) (description : String)
deriving Inhabited

def ReadError.toEvaluationError : ReadError → EvaluationError
  | .fault what line column => .failure ⟨.syntaxError, what.message, line, column⟩
  | .unsupported construct => .condition (.unsupported construct)
  | .stuck => .condition .crash

def ReadError.toAbrupt : ReadError → Abrupt
  | .fault what line column => .failure ⟨.syntaxError, what.message, line, column⟩
  | .unsupported construct => .condition (.unsupported construct)
  | .stuck => .condition .crash

end EcmaScript

import EcmaScript.Realm.Evaluate

/-! A console session: entries that are evaluated one after the other in one realm. -/
namespace EcmaScript

structure Repl where
  timeoutMillis : Option Nat := none
  strict : Bool := false
  dryRun : Bool := false

def previewMillis : Nat := 500

namespace Repl

def options (r : Repl) : EvaluateOptions :=
  { strict := r.strict, dryRun := r.dryRun, timeoutMillis := r.timeoutMillis }

def eval (r : Repl) (m : Machine) (source : String) : Run Value := do
  Run.finish m (← Run.evaluate m source r.options)

def preview (r : Repl) (m : Machine) (source : String) : Run (Option Value) := do
  let options := { r.options with
    dryRun := true, timeoutMillis := some (r.timeoutMillis.getD previewMillis) }
  match ← Run.outcomeOf (Run.evaluate m source options) with
  | .ok (.complete v) => return some v
  | _ => return none

end Repl

namespace State

def keysFrom (s : State) : (fuel : Nat) → ObjectId → List String
  | 0, _ => []
  | fuel + 1, id =>
    let o := s.object id
    o.properties.keys.filterMap PropertyKey.string? ++
      match o.prototype with
      | some parent => s.keysFrom fuel parent
      | none => []

def completions (s : State) (start : String) : List String :=
  let names := (s.scope s.globalScope).names ++ s.keysFrom (s.heap.size + 1) s.globalObject
  ((names.filter (·.startsWith start)).mergeSort (· ≤ ·)).eraseReps

end State
end EcmaScript

import EcmaScript.Object.Array

/-! The protocol of iteration. -/
namespace EcmaScript.Exec

def getIterator (v : Value) : Exec IteratorRecord := do
  let f ← if v.isNullish then pure .undefined else getOf v (.symbol .iterator)
  if !(← isCallable f) then throwType ((← describe v) ++ " is not iterable")
  let iterator ← call f v #[]
  if !iterator.isObject then throwType "Result of the Symbol.iterator method is not an object"
  return ⟨iterator, ← getOf iterator (.name "next")⟩

def notAResult {α : Type} (v : Value) : Exec α := do
  throwType ("Iterator result " ++ (← describe v) ++ " is not an object")

def readResult (v : Value) : Exec (Option Value) := do
  match v with
  | .object id =>
    if (← getNamed id "done").truthy then return none
    return some (← getNamed id "value")
  | _ => notAResult v

def step (r : IteratorRecord) : Exec (Option Value) := do
  checkInterrupts
  readResult (← call r.next r.iterator #[])

def close (r : IteratorRecord) : Exec Unit := do
  match r.iterator with
  | .object id =>
    let f ← getNamed id "return"
    if f.isNullish then return
    let result ← call f r.iterator #[]
    if !result.isObject then notAResult result
  | _ => return

/-- Abandons what items come from after an error and goes on with that error. What comes of it is
dropped. Conditions of the evaluation abandon nothing. -/
def closeOnError {α : Type} (source : ItemSource) (e : Abrupt) : Exec α := do
  if e.isCatchable then
    let _ ← attempt (request (.abandon source))
  raise e

def listFromIterable (v : Value) : Exec (Array Value) := do
  let r ← getIterator v
  loop (#[] : Array Value) fun out => do
    match ← step r with
    | some v => return .inl (out.push v)
    | none => return .inr out

/-- Does `f` for every item. When `f` fails the iterator is closed. -/
def forEachItem (v : Value) (f : Value → Exec Unit) : Exec Unit := do
  let r ← getIterator v
  loop () fun _ => do
    match ← step r with
    | none => return .inr ()
    | some v =>
      match ← attempt (f v) with
      | .ok _ => return .inl ()
      | .error e => closeOnError (.plain r) e

end EcmaScript.Exec

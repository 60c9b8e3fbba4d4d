import EcmaScript.Object.Array

/-! Error objects. An error that arises inside the evaluation becomes an object when it leaves the
frame it arose in, or when it is caught; it then shows the call stack of that moment. -/
namespace EcmaScript.Exec

def stampStack (id : ObjectId) (skip : Nat) : Exec Unit := do
  if (← object id).stamped then return
  let stack ← look fun s => s.renderStack ((s.errorHeader? id).getD "Error") skip none
  modifyObject id fun o => { o with stamped := true }.put (.name "stack") (.standard (.string stack))

def newError (kind : ErrorKind) (message : String) : Exec ObjectId := do
  let i ← intrinsics
  let id ← allocate
    { prototype := some (i.errorPrototypeFor kind), kind := .error
      properties := ({} : PropertyTable).put (.name "message") (.standard (.string message)) }
  stampStack id 0
  return id

/-- The value that a catch clause binds. Conditions of the evaluation are passed on. -/
def thrownValue : Abrupt → Exec Value
  | .condition c => raise (.condition c)
  | .failure f => return .object (← newError f.kind f.message)
  | .thrown v => return v

/-- What an error becomes on leaving a frame that is still on the stack. -/
def onFrameExit : Abrupt → Exec Abrupt
  | .condition c => return .condition c
  | .failure f => return .thrown (.object (← newError f.kind f.message))
  | .thrown v => do
    match v with
    | .object id =>
      let c ← context
      match (← object id).kind with
      | .error => if !(c.isDryRun && id.index < c.firstObject) then stampStack id 0
      | _ => pure ()
    | _ => pure ()
    return .thrown v

def uncaught (e : Abrupt) : Exec EvaluationError := do
  match ← attempt (thrownValue e) with
  | .ok v => return .uncaught v (← look (·.describeThrown v))
  | .error (.condition c) => return .condition c
  | .error (.failure f) => return .failure f
  | .error (.thrown v) => return .uncaught v (← look (·.describeThrown v))

def enterFrame (frame : Frame) : Exec Unit := fun _ _ s =>
  if s.maxDepth ≤ s.stack.length then
    .abrupt (.failure ⟨.range, "Maximum call stack size exceeded", 0, 0⟩) s
  else .value () { s with stack := frame :: s.stack }

def leaveFrames (depth : Nat) : Exec Unit :=
  change (·.leaveFrames depth)

def inFrame {α : Type} (frame : Frame) (x : Exec α) : Exec α := do
  let depth ← look (·.stack.length)
  enterFrame frame
  match ← attempt x with
  | .ok a =>
    leaveFrames depth
    return a
  | .error e =>
    let e ← onFrameExit e
    leaveFrames depth
    raise e

end EcmaScript.Exec

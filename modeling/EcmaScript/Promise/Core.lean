import EcmaScript.Function.Create
import EcmaScript.Object.Iterate

/-! Promises. A promise is settled once; from then on its value stays, and each reaction that was
registered runs as one job. -/
namespace EcmaScript.Exec

def newPromise : Exec ObjectId := do
  newOfKind (← intrinsics).promisePrototype (.promise {})

/-- Settles a promise that is pending. The reactions of the other kind are dropped. -/
def settle (id : ObjectId) (state : PromiseState) : Exec Unit := do
  checkObjectWrite id "settling a promise"
  match (← object id).kind with
  | .promise { state := .pending, onFulfilled, onRejected, handled } =>
    let put (reactions : List Reaction) (argument : Value) (untracked : Bool) : Exec Unit :=
      change fun s => { s with
        heap := s.heap.modify id.index fun o => { o with kind := .promise { state, handled } }
        rejections := if untracked then s.rejections.push id else s.rejections
        jobs := reactions.foldl (fun jobs r => jobs.push (.react r argument)) s.jobs }
    match state with
    | .pending => return
    | .fulfilled v => put onFulfilled v false
    | .rejected v => put onRejected v (!handled)
  | _ => return

def fulfill (id : ObjectId) (v : Value) : Exec Unit := settle id (.fulfilled v)

def reject (id : ObjectId) (reason : Value) : Exec Unit := settle id (.rejected reason)

/-- Resolves a promise: what has a `then` method is asked for its outcome later, all else is the
value. -/
def resolve (id : ObjectId) (v : Value) : Exec Unit := do
  match v with
  | .object o =>
    if o == id then
      reject id (.object (← newError .type "Chaining cycle detected for promise #<Promise>"))
    else
      match ← attempt (getNamed o "then") with
      | .error e => reject id (← thrownValue e)
      | .ok f =>
        if ← isCallable f then enqueue (.adopt id v f) else fulfill id v
  | _ => fulfill id v

def newResolvers (id : ObjectId) : Exec (Value × Value) := do
  let latch ← newLatch
  let onResolve ← newCapturing 1 (.resolvePromise id latch)
  let onReject ← newCapturing 1 (.rejectPromise id latch)
  return (onResolve, onReject)

/-- Registers what to do when a promise is settled. -/
def performThen (id : ObjectId) (onFulfilled onRejected : Value) (capability : Option Capability) :
    Exec Unit := do
  let handler (f : Value) : Exec Value := return if ← isCallable f then f else .undefined
  let onValue : Reaction := ⟨capability, true, ← handler onFulfilled⟩
  let onReason : Reaction := ⟨capability, false, ← handler onRejected⟩
  match (← object id).kind with
  | .promise p =>
    let p := { p with handled := true }
    match p.state with
    | .pending =>
      modifyObject id fun o => { o with
        kind := .promise { p with
          onFulfilled := p.onFulfilled ++ [onValue]
          onRejected := p.onRejected ++ [onReason] } }
    | .fulfilled v =>
      enqueue (.react onValue v)
      modifyObject id fun o => { o with kind := .promise p }
    | .rejected v =>
      enqueue (.react onReason v)
      modifyObject id fun o => { o with kind := .promise p }
  | _ => throwType "then called on a non-promise"

def isPromise (id : ObjectId) : Exec Bool := look fun s =>
  match (s.object id).kind with
  | .promise _ => true
  | _ => false

def promiseConstructor : Exec Value := look fun s =>
  match (s.object s.intrinsics.promisePrototype).ownValue? (.name "constructor") with
  | some (.object c) => .object c
  | _ => .undefined

def isPromiseConstructor (c : Value) : Exec Bool := do
  return c.isObject && c.strictEq (← promiseConstructor)

/-- A promise made by a constructor, and the functions that settle it. -/
def newCapability (constructor : Value) : Exec Capability := do
  if ← isPromiseConstructor constructor then
    let id ← newPromise
    let (onResolve, onReject) ← newResolvers id
    return ⟨.object id, onResolve, onReject⟩
  if !(← isConstructor constructor) then
    throwType ((← describe constructor) ++ " is not a constructor")
  let cell ← update fun s =>
    (s.resolvers.size, { s with resolvers := s.resolvers.push (.undefined, .undefined) })
  let executor ← newCapturing 2 (.takeResolvers cell)
  let promise ← construct constructor #[executor] constructor
  let (onResolve, onReject) ← look fun s => s.resolvers.getD cell (.undefined, .undefined)
  if !(← isCallable onResolve) then throwType "Promise resolve function is not callable"
  if !(← isCallable onReject) then throwType "Promise reject function is not callable"
  return ⟨promise, onResolve, onReject⟩

def promiseFor (v : Value) : Exec ObjectId := do
  let fresh : Exec ObjectId := do
    let id ← newPromise
    resolve id v
    return id
  match v with
  | .object id =>
    if ← isPromise id then
      if ← isPromiseConstructor (← getNamed id "constructor") then return id
    fresh
  | _ => fresh

/-- A promise for a value, made by a constructor; one of that constructor stands for itself. -/
def promiseOf (constructor v : Value) : Exec Value := do
  if ← isPromiseConstructor constructor then return .object (← promiseFor v)
  let make : Exec Value := do
    let c ← newCapability constructor
    let _ ← call c.resolve .undefined #[v]
    return c.promise
  match v with
  | .object id =>
    if ← isPromise id then
      if (← getNamed id "constructor").same constructor then return v
    make
  | _ => make

/-- A slot that is filled with the outcome of a value. A dry run never waits, for what comes after
would run when it is over. -/
def slotFor (v : Value) : Exec Nat := do
  if (← context).isDryRun then refuseEffect "await"
  let id ← promiseFor v
  let slot ← update fun s => (s.awaits.size, { s with awaits := s.awaits.push {} })
  let onFulfilled ← newCapturing 1 (.wake slot true)
  let onRejected ← newCapturing 1 (.wake slot false)
  performThen id onFulfilled onRejected none
  return slot

/-- Waits for a slot. A rejection goes on as an error. -/
def waitFor (slot : Nat) : Exec Value := fun _ _ s => .waiting slot s fun
  | .ok v, s => .value v s
  | .error reason, s => .abrupt (.thrown reason) s

def awaitValue (v : Value) : Exec Value := do waitFor (← slotFor v)

def fillSlot (slot : Nat) (outcome : Outcome) : Exec Unit := change fun s =>
  match s.awaits[slot]? with
  | some { outcome := none, waiter } =>
    { s with
      awaits := s.awaits.setIfInBounds slot { outcome := some outcome }
      ready := match waiter with
        | some task => s.ready.push task
        | none => s.ready }
  | _ => s

/-- Starts a task in a frame of its own. It runs at once until it ends or has to wait. The value is
the condition that it ended with, if it did. -/
def spawn (frame : Frame) (body : Exec Unit) : Exec (Option Condition) := fun m c s =>
  let id := s.lastTask + 1
  let s := { s with lastTask := id }
  if s.maxDepth ≤ s.stack.length then
    .abrupt (.failure ⟨.range, "Maximum call stack size exceeded", 0, 0⟩) s
  else (body m c { s with stack := frame :: s.stack }).detach id s.stack.length

def takeFatal : Exec (Option Condition) := update fun s => (s.fatal, { s with fatal := none })

def settleBy (id : ObjectId) (body : Exec Value) : Exec Unit := do
  match ← attempt body with
  | .ok v => resolve id v
  | .error e => reject id (← thrownValue (← onFrameExit e))

/-- Runs the body of a function whose caller does not wait. Only a condition comes of it. -/
def settleFrom (id : ObjectId) (body : Exec Value) : Exec Unit := do
  match ← attempt (settleBy id body) with
  | .ok _ => return
  | .error (.condition c) => raise (.condition c)
  | .error (.failure _) => return
  | .error (.thrown v) =>
    halt (.internal ("settling a promise threw " ++ (← look (·.describeThrown v))))

/-! Jobs: what runs when the running code has ended. -/

/-- Hands the outcome of a promise to a handler, and the handler's own outcome on. -/
def runReaction (r : Reaction) (v : Value) : Exec Unit := do
  let outcome : Outcome ← if r.handler.isUndefined then
      pure (if r.fulfilled then .ok v else .error v)
    else
      match ← attempt (call r.handler .undefined #[v]) with
      | .ok v => pure (.ok v)
      | .error e => do pure (.error (← thrownValue e))
  match r.capability, outcome with
  | none, _ => return
  | some c, .ok v =>
    let _ ← call c.resolve .undefined #[v]
  | some c, .error reason =>
    let _ ← call c.reject .undefined #[reason]

def runJob : Job → Exec Unit
  | .react reaction v => runReaction reaction v
  | .adopt promise thenable f => do
    let (onResolve, onReject) ← newResolvers promise
    match ← attempt (call f thenable #[onResolve, onReject]) with
    | .ok _ => return
    | .error e =>
      let reason ← thrownValue e
      let _ ← call onReject .undefined #[reason]
  | .callback f => do
    let _ ← call f .undefined #[]

def reportRejections : Exec Unit := do
  let tracked ← update fun s => (s.rejections, { s with rejections := #[] })
  tracked.toList.forM fun id => do
    match (← object id).kind with
    | .promise { state := .rejected reason, handled := false, .. } =>
      console .error ("Uncaught (in promise) " ++ (← look (·.describeThrown reason)))
    | _ => return

end EcmaScript.Exec

import EcmaScript.Library.Feature
import EcmaScript.Promise.Core

/-! `Promise`. -/
namespace EcmaScript

def promiseStatics : List Feature :=
  [.named "resolve" 1 (.promise .resolve), .named "reject" 1 (.promise .reject),
    .named "withResolvers" 0 (.promise .withResolvers),
    .named "all" 1 (.promise (.combine .all)),
    .named "allSettled" 1 (.promise (.combine .allSettled)),
    .named "any" 1 (.promise (.combine .any)), .named "race" 1 (.promise (.combine .race)),
    .getter (.symbol .species) (.promise .species)]

def promiseMethods : List Feature :=
  [.named "then" 2 (.promise .then), .named "catch" 1 (.promise .catch),
    .named "finally" 1 (.promise .finally), .tag "Promise"]

namespace Aggregate

def decrement (n : Nat) : Nat := if n = 0 then 0xFFFFFFFFFFFFFFFF else n - 1

def reportOne (a : Aggregate) : Aggregate := { a with remaining := decrement a.remaining }

def addElement (a : Aggregate) : Aggregate :=
  { a with values := a.values.push .undefined, remaining := a.remaining + 1 }

end Aggregate

namespace Exec

def incompatiblePromise {α : Type} (name : String) (this : Value) : Exec α := do
  throwType ("Method Promise.prototype." ++ name ++ " called on incompatible receiver " ++
    (← describe this))

def speciesOf (promise : ObjectId) : Exec Value := do
  let default ← promiseConstructor
  match ← getNamed promise "constructor" with
  | .undefined => return default
  | .object c =>
    let species ← get c (.symbol .species)
    if species.isNullish then return default
    if ← isConstructor species then return species
    throwType "object.constructor[Symbol.species] is not a constructor"
  | _ => throwType "The .constructor property is not an object"

def promiseThen (this : Value) (args : Array Value) : Exec Value := do
  match this with
  | .object id =>
    if !(← isPromise id) then incompatiblePromise "then" this
    let capability ← newCapability (← speciesOf id)
    performThen id (argument args 0) (argument args 1) (some capability)
    return capability.promise
  | _ => incompatiblePromise "then" this

def invokeThen (this onFulfilled onRejected : Value) : Exec Value := do
  call (← getOf this (.name "then")) this #[onFulfilled, onRejected]

def promiseFinally (this : Value) (args : Array Value) : Exec Value := do
  match this with
  | .object id =>
    let callback := argument args 0
    if !(← isCallable callback) then invokeThen this callback callback
    else
      let constructor ← speciesOf id
      let onFulfilled ← newCapturing 1 (.passAfter callback constructor true)
      let onRejected ← newCapturing 1 (.passAfter callback constructor false)
      invokeThen this onFulfilled onRejected
  | _ => incompatiblePromise "finally" this

def passAfter (callback constructor : Value) (fulfilled : Bool) (outcome : Value) :
    Exec Value := do
  let result ← call callback .undefined #[]
  let settled ← promiseOf constructor result
  let next ← newCapturing 0 (if fulfilled then .giveBack outcome else .throwBack outcome)
  invokeThen settled next .undefined

def aggregateError (errors : Value) : Exec Value := do
  let id ← newError .error "All promises were rejected"
  modifyObject id fun o =>
    (o.put (.name "name") (.standard (.string "AggregateError"))).put (.name "errors")
      (.standard errors)
  return .object id

/-- Counts a report. After the last one the whole is settled. -/
def finishOne (aggregate : Nat) (how : Combinator) : Exec Unit := do
  change fun s => { s with aggregates := s.aggregates.modify aggregate (·.reportOne) }
  match ← look (·.aggregates[aggregate]?) with
  | none => return
  | some a =>
    if a.remaining = 0 then
      let values := Value.object (← newArray a.values)
      if how = .any then
        let _ ← call a.capability.reject .undefined #[← aggregateError values]
      else
        let _ ← call a.capability.resolve .undefined #[values]

def settledRecord (fulfilled : Bool) (v : Value) : Exec Value := do
  let id ← newObject (if fulfilled then [("status", .string "fulfilled"), ("value", v)]
    else [("status", .string "rejected"), ("reason", v)])
  return .object id

def reportElement (aggregate index latch : Nat) (how : Combinator) (fulfilled : Bool) (v : Value) :
    Exec Unit := do
  if ← turnLatch latch then return
  let v ← if how = .allSettled then settledRecord fulfilled v else pure v
  change fun s => { s with
    aggregates := s.aggregates.modify aggregate fun a => { a with
      values := a.values.setIfInBounds index v } }
  finishOne aggregate how

def elementReporter (aggregate index : Nat) (how : Combinator) (fulfilled : Bool) :
    Exec Value := do
  newCapturing 1 (.reportElement aggregate index (← newLatch) how fulfilled)

def elementHandlers (aggregate index : Nat) (how : Combinator) (capability : Capability) :
    Exec (Value × Value) := do
  if how = .race then return (capability.resolve, capability.reject)
  change fun s => { s with aggregates := s.aggregates.modify aggregate (·.addElement) }
  match how with
  | .all => return (← elementReporter aggregate index how true, capability.reject)
  | .any => return (capability.resolve, ← elementReporter aggregate index how false)
  | _ =>
    let onFulfilled ← elementReporter aggregate index how true
    return (onFulfilled, ← elementReporter aggregate index how false)

/-- Asks every item of an iterable for its outcome. -/
def askElements (constructor iterable : Value) (how : Combinator) (capability : Capability) :
    Exec Unit := do
  let toPromise ← getOf constructor (.name "resolve")
  if !(← isCallable toPromise) then
    throwType "Promise resolve or reject function is not callable"
  let aggregate ← update fun s =>
    (s.aggregates.size, { s with aggregates := s.aggregates.push ⟨#[], 1, capability⟩ })
  let r ← getIterator iterable
  loop 0 fun index => do
    match ← step r with
    | none => return .inr ()
    | some item =>
      let asked ← attempt do
        let promise ← call toPromise constructor #[item]
        let (onFulfilled, onRejected) ← elementHandlers aggregate index how capability
        invokeThen promise onFulfilled onRejected
      match asked with
      | .ok _ => return .inl (index + 1)
      | .error e => closeOnError (.plain r) e
  if how != .race then finishOne aggregate how

/-- Joins promises into one. An error on the way rejects it. -/
def combine (constructor iterable : Value) (how : Combinator) : Exec Value := do
  let capability ← newCapability constructor
  match ← attempt (askElements constructor iterable how capability) with
  | .ok _ => return capability.promise
  | .error e =>
    let reason ← thrownValue e
    let _ ← call capability.reject .undefined #[reason]
    return capability.promise

def constructPromise (args : Array Value) (newTarget : ObjectId) : Exec Value := do
  let executor := argument args 0
  if !(← isCallable executor) then
    throwType ("Promise resolver " ++ (← describe executor) ++ " is not a function")
  let prototype ← prototypeFor newTarget (← intrinsics).promisePrototype
  let id ← newOfKind prototype (.promise {})
  let (onResolve, onReject) ← newResolvers id
  match ← attempt (call executor .undefined #[onResolve, onReject]) with
  | .ok _ => return .object id
  | .error e =>
    let reason ← thrownValue e
    let _ ← call onReject .undefined #[reason]
    return .object id

def promiseFunction (f : PromiseFunction) (this : Value) (args : Array Value) : Exec Value := do
  let first := argument args 0
  match f with
  | .construct => throwType "Promise constructor cannot be invoked without 'new'"
  | .then => promiseThen this args
  | .catch => invokeThen this .undefined first
  | .finally => promiseFinally this args
  | .resolve =>
    if !this.isObject then throwType "PromiseResolve called on non-object"
    promiseOf this first
  | .reject =>
    let capability ← newCapability this
    let _ ← call capability.reject .undefined #[first]
    return capability.promise
  | .withResolvers =>
    let c ← newCapability this
    let id ← newObject [("promise", c.promise), ("resolve", c.resolve), ("reject", c.reject)]
    return .object id
  | .combine how => combine this first how
  | .species => return this

def takeResolvers (cell : Nat) (args : Array Value) : Exec Value := do
  let (onResolve, onReject) ← look fun s => s.resolvers.getD cell (.undefined, .undefined)
  if !onResolve.isUndefined || !onReject.isUndefined then
    throwType "Promise executor has already been invoked with non-undefined arguments"
  change fun s => { s with
    resolvers := s.resolvers.setIfInBounds cell (argument args 0, argument args 1) }
  return .undefined

def revokeProxy (id : ObjectId) : Exec Unit := do
  match (← object id).kind with
  | .proxy (some _) =>
    checkObjectWrite id "Proxy revoke"
    modifyObject id fun o => { o with kind := .proxy none }
  | _ => return

def capturingFunction (f : CapturingFunction) (args : Array Value) : Exec Value := do
  let first := argument args 0
  match f with
  | .resolvePromise promise latch =>
    if !(← turnLatch latch) then resolve promise first
    return .undefined
  | .rejectPromise promise latch =>
    if !(← turnLatch latch) then reject promise first
    return .undefined
  | .takeResolvers cell => takeResolvers cell args
  | .passAfter callback constructor fulfilled => passAfter callback constructor fulfilled first
  | .giveBack v => return v
  | .throwBack v => raise (.thrown v)
  | .reportElement aggregate index latch how fulfilled =>
    reportElement aggregate index latch how fulfilled first
    return .undefined
  | .wake slot fulfilled =>
    fillSlot slot (if fulfilled then .ok first else .error first)
    return .undefined
  | .revokeProxy proxy =>
    revokeProxy proxy
    return .undefined
  | .refuseCallee =>
    throwType "'caller', 'callee', and 'arguments' properties may not be accessed on strict mode functions or the arguments objects for calls to them"

end Exec
end EcmaScript

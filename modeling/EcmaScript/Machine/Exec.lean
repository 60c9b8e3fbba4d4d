import EcmaScript.Machine.Step

/-! The language computations are written in. Whatever recurs goes through a request, so that every
computation is a function of the machine that answers requests. -/
namespace EcmaScript

/-- How a statement ended. A missing value is the empty completion. -/
inductive Completion where
  | normal (value : Option Value)
  | return (value : Value)
  | break (label : Option String) (value : Option Value)
  | continue (label : Option String) (value : Option Value)
deriving Inhabited

/-- How the names of a pattern get their values. -/
inductive BindingMode where
  /-- Through the scopes, as assignment does. -/
  | assign
  /-- As the first value of a name that the scope has declared. -/
  | first
deriving DecidableEq, Inhabited

/-- An iterator in use. -/
structure IteratorRecord where
  iterator : Value
  next : Value
deriving Inhabited

/-- What a loop over items takes them from. -/
inductive ItemSource where
  | plain (r : IteratorRecord)
  /-- Every item of a plain iterator is awaited. -/
  | awaited (r : IteratorRecord)
  /-- Every answer of the iterator is awaited. -/
  | asynchronous (r : IteratorRecord)
deriving Inhabited

/-- A computation that refers to others. -/
inductive Request where
  /-- Ends the evaluation for a condition. -/
  | halt (c : Condition)
  | call (f this : Value) (args : Array Value)
  | construct (f : Value) (args : Array Value) (newTarget : Value)
  | native (f : Native) (this : Value) (args : Array Value)
  | nativeConstruct (f : Native) (args : Array Value) (newTarget : ObjectId)
  | expression (scope : ScopeId) (e : Expr)
  /-- The value of a chain of members and calls with the `this` of a call on it; nothing when the
  chain broke off. -/
  | chain (scope : ScopeId) (e : Expr)
  | statement (scope : ScopeId) (st : Statement) (labels : List String)
  | bind (scope : ScopeId) (pattern : Pattern) (value : Value) (mode : BindingMode)
  | classDefinition (scope : ScopeId) (node : ClassNode) (name : String)
  | instanceOf (value target : Value)
  /-- Tells what items come from that an error has ended their use. -/
  | abandon (source : ItemSource)
  | proxyGetOwn (p : ProxyData) (key : PropertyKey)
  | proxyDefine (p : ProxyData) (key : PropertyKey) (d : Descriptor)
  | proxyHas (p : ProxyData) (key : PropertyKey)
  | proxyGet (p : ProxyData) (key : PropertyKey) (receiver : Value)
  | proxySet (p : ProxyData) (key : PropertyKey) (value receiver : Value)
  | proxyDelete (p : ProxyData) (key : PropertyKey)
  | proxyOwnKeys (p : ProxyData)
  | proxyGetPrototype (p : ProxyData)
  | proxySetPrototype (p : ProxyData) (prototype : Option ObjectId)
  | proxyIsExtensible (p : ProxyData)
  | proxyPreventExtensions (p : ProxyData)

@[reducible] def Request.Result : Request → Type
  | .halt _ => Empty
  | .call .. => Value
  | .construct .. => Value
  | .native .. => Value
  | .nativeConstruct .. => Value
  | .expression .. => Value
  | .chain .. => Option (Value × Value)
  | .statement .. => Completion
  | .bind .. => Unit
  | .classDefinition .. => ObjectId
  | .instanceOf .. => Bool
  | .abandon _ => Unit
  | .proxyGetOwn .. => Option Property
  | .proxyDefine .. => Bool
  | .proxyHas .. => Bool
  | .proxyGet .. => Value
  | .proxySet .. => Bool
  | .proxyDelete .. => Bool
  | .proxyOwnKeys .. => List PropertyKey
  | .proxyGetPrototype .. => Option ObjectId
  | .proxySetPrototype .. => Bool
  | .proxyIsExtensible .. => Bool
  | .proxyPreventExtensions .. => Bool

/-- What answers requests, and how often a loop may turn. -/
structure Machine where
  fuel : Nat
  run : (r : Request) → Context → State → Step r.Result

def Exec (α : Type) : Type := Machine → Context → State → Step α

namespace Exec
variable {α β : Type}

@[always_inline, inline] protected def pure (a : α) : Exec α := fun _ _ s => .value a s

@[always_inline, inline] protected def bind (x : Exec α) (f : α → Exec β) : Exec β :=
  fun m c s => (x m c s).bind fun a s => f a m c s

instance : Monad Exec where
  pure := Exec.pure
  bind := Exec.bind

instance : Inhabited (Exec α) := ⟨fun _ _ _ => .exhausted⟩

@[inline] def raise (e : Abrupt) : Exec α := fun _ _ s => .abrupt e s

@[inline] def look (f : State → α) : Exec α := fun _ _ s => .value (f s) s

@[inline] def change (f : State → State) : Exec Unit := fun _ _ s => .value () (f s)

@[inline] def update (f : State → α × State) : Exec α := fun _ _ s =>
  let (a, s) := f s
  .value a s

@[inline] def context : Exec Context := fun _ c s => .value c s

@[inline] def within (f : Context → Context) (x : Exec α) : Exec α := fun m c s => x m (f c) s

@[inline] def request (r : Request) : Exec r.Result := fun m c s => m.run r c s

@[inline] def attempt (x : Exec α) : Exec (Except Abrupt α) := fun m c s =>
  (x m c s).handle fun r s => .value r s

@[inline] def now (x : Exec α) : Exec (Option α) := fun m c s => (x m c s).now

@[inline] def ofExcept : Except Abrupt α → Exec α
  | .ok a => pure a
  | .error e => raise e

@[inline] def loop (start : β) (body : β → Exec (β ⊕ α)) : Exec α := fun m c s =>
  Step.loop (fun b s => body b m c s) m.fuel start s

@[inline] def fuel : Exec Nat := fun m _ s => .value m.fuel s

def exhausted : Exec α := fun _ _ _ => .exhausted

def fail (kind : ErrorKind) (message : String) : Exec α := raise (.failure ⟨kind, message, 0, 0⟩)

def throwType (message : String) : Exec α := fail .type message

def throwRange (message : String) : Exec α := fail .range message

def throwReference (message : String) : Exec α := fail .reference message

def throwSyntaxAt (span : Span) (message : String) : Exec α :=
  raise (.failure ⟨.syntaxError, message, span.line, span.column⟩)

def halt (c : Condition) : Exec α := request (.halt c) >>= nofun

def unsupported (what : String) : Exec α := halt (.unsupported what)

def refuseEffect (what : String) : Exec α := halt (.sideEffect what)

@[inline] def call (f this : Value) (args : Array Value) : Exec Value := request (.call f this args)

@[inline] def construct (f : Value) (args : Array Value) (newTarget : Value) : Exec Value :=
  request (.construct f args newTarget)

@[inline] def evaluate (scope : ScopeId) (e : Expr) : Exec Value := request (.expression scope e)

def checkInterrupts : Exec Unit := do
  change fun s => { s with clock := s.clock + checkNanos }
  if ← look (·.interrupted) then halt .interrupted
  match (← context).deadline with
  | none => return
  | some d => if d.due ≤ (← look (·.clock)) then halt (.timeout d.millis)

def object (id : ObjectId) : Exec Object := look (·.object id)

@[inline] def intrinsics : Exec Intrinsics := look (·.intrinsics)

@[inline] def globalObject : Exec ObjectId := look (·.globalObject)

def isCallable (v : Value) : Exec Bool := look (·.callableValue v)

def isConstructor (v : Value) : Exec Bool := look (·.constructorValue v)

def describe (v : Value) : Exec String := look (·.describe v)

def allocate (o : Object) : Exec ObjectId := fun _ _ s =>
  .value ⟨s.heap.size⟩ { s with heap := s.heap.push o }

def newObject (properties : List (String × Value)) : Exec ObjectId := do
  let i ← intrinsics
  allocate
    { prototype := some i.objectPrototype
      properties := properties.foldl (fun t (n, v) => t.put (.name n) (.plain v)) {} }

def newOfKind (prototype : ObjectId) (kind : ObjectKind) : Exec ObjectId :=
  allocate { prototype := some prototype, kind := kind }

@[inline] def modifyObject (id : ObjectId) (f : Object → Object) : Exec Unit :=
  change fun s => { s with heap := s.heap.modify id.index f }

def newScope (scope : Scope) : Exec ScopeId := fun _ _ s =>
  .value ⟨s.scopes.size⟩ { s with scopes := s.scopes.push scope }

def newBlock (parent : ScopeId) : Exec ScopeId := newScope { kind := .block, parent := some parent }

@[inline] def modifyScope (id : ScopeId) (f : Scope → Scope) : Exec Unit :=
  change fun s => { s with scopes := s.scopes.modify id.index f }

def checkObjectWrite (id : ObjectId) (what : String) : Exec Unit := do
  let c ← context
  if c.isDryRun && id.index < c.firstObject then
    refuseEffect (what ++ " on an object that outlives the evaluation")

def checkScopeWrite (id : ScopeId) (name : String) : Exec Unit := do
  let c ← context
  if c.isDryRun && id.index < c.firstScope then
    refuseEffect ("assignment to '" ++ name ++ "' declared outside the evaluation")

def atSpan (span : Span) : Exec Unit := change fun s =>
  match s.stack with
  | { name, function, location := .script filename _ _ } :: rest =>
    { s with stack := ⟨name, function, .script filename span.line span.column⟩ :: rest }
  | _ => s

def console (level : ConsoleLevel) (message : String) : Exec Unit := do
  match (← context).sink with
  | none => return
  | some i => change fun s =>
    let hit := match s.sinks[i]? with
      | some sink => sink.interruptOn == some message
      | none => false
    { s with
      interrupted := s.interrupted || hit
      sinks := s.sinks.modify i fun sink => { sink with console := sink.console.push (level, message) } }

def newLatch : Exec Nat := fun _ _ s =>
  .value s.latches.size { s with latches := s.latches.push false }

def turnLatch (latch : Nat) : Exec Bool := fun _ _ s =>
  .value (s.latches.getD latch true) { s with latches := s.latches.setIfInBounds latch true }

def enqueue (job : Job) : Exec Unit := change fun s => { s with jobs := s.jobs.push job }

end Exec
end EcmaScript

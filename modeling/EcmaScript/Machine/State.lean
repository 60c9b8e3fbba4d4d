import EcmaScript.Collection.Queue
import EcmaScript.Machine.Error
import EcmaScript.Scope.Basic
import EcmaScript.Timer.Queue

/-! Everything an evaluation can change. -/
namespace EcmaScript

/-- A text that is evaluated, with the name it goes by. -/
structure ScriptText where
  text : String
  filename : String
deriving Inhabited

/-- Where a frame of the call stack stands. -/
inductive Location where
  | script (filename : String) (line column : Nat)
  | native
deriving DecidableEq, Inhabited

structure Frame where
  name : String
  /-- The function that runs in the frame. -/
  function : Option ObjectId
  location : Location
deriving DecidableEq, Inhabited

def Frame.text (f : Frame) : String :=
  let name := if f.name = "" then "<anonymous>" else f.name
  "    at " ++ name ++ " (" ++ (match f.location with
    | .script filename line column =>
      filename ++ ":" ++ Number.natText line ++ ":" ++ Number.natText column
    | .native => "native") ++ ")"

/-- Work that waits for the running code to end. -/
inductive Job where
  | react (reaction : Reaction) (argument : Value)
  | adopt (promise : ObjectId) (thenable then_ : Value)
  | callback (f : Value)
deriving Inhabited

/-- What a suspended task waits for: the outcome, once there is one, and the task to wake. -/
structure AwaitSlot where
  outcome : Option (Except Value Value) := none
  waiter : Option Nat := none
deriving Inhabited

/-- The elements of a combination of promises, and how many have not reported. -/
structure Aggregate where
  values : Array Value
  remaining : Nat
  capability : Capability
deriving Inhabited

/-- What an observer of an evaluation has seen. -/
structure Sink where
  console : Array (ConsoleLevel × String) := #[]
  statements : Array Span := #[]
  breakpoints : Array (String × Span) := #[]
  /-- A message that interrupts the evaluation. -/
  interruptOn : Option String := none
deriving Inhabited

/-- Indentation, counters and running clocks of the console. -/
structure ConsoleData where
  indent : Nat := 0
  counts : List (String × Nat) := []
  clocks : List (String × Nat) := []
deriving Inhabited

/-- What a dry run may rely on when it calls a function of the library. -/
structure EffectFlags where
  /-- Nothing changes beyond what the other flags name. -/
  pure : Bool := false
  /-- The receiver changes. -/
  changesReceiver : Bool := false
  /-- The first argument changes. -/
  changesArgument : Bool := false
  /-- The first argument is called. -/
  callsArgument : Bool := false
  /-- The receiver is called. -/
  callsReceiver : Bool := false
deriving DecidableEq, Inhabited

abbrev EffectTable := List (ObjectId × EffectFlags)

/-- The objects that the rules of the language refer to by themselves. -/
structure Intrinsics where
  objectPrototype : ObjectId
  functionPrototype : ObjectId
  arrayPrototype : ObjectId
  stringPrototype : ObjectId
  numberPrototype : ObjectId
  booleanPrototype : ObjectId
  symbolPrototype : ObjectId
  errorPrototype : ObjectId
  typeErrorPrototype : ObjectId
  rangeErrorPrototype : ObjectId
  referenceErrorPrototype : ObjectId
  syntaxErrorPrototype : ObjectId
  evalErrorPrototype : ObjectId
  uriErrorPrototype : ObjectId
  promisePrototype : ObjectId
  mapPrototype : ObjectId
  setPrototype : ObjectId
  weakMapPrototype : ObjectId
  weakSetPrototype : ObjectId
  weakRefPrototype : ObjectId
  iteratorPrototype : ObjectId
  arrayIteratorPrototype : ObjectId
  stringIteratorPrototype : ObjectId
  mapIteratorPrototype : ObjectId
  setIteratorPrototype : ObjectId
deriving Inhabited

def Intrinsics.errorPrototypeFor (i : Intrinsics) : ErrorKind → ObjectId
  | .error => i.errorPrototype
  | .type => i.typeErrorPrototype
  | .range => i.rangeErrorPrototype
  | .reference => i.referenceErrorPrototype
  | .syntaxError => i.syntaxErrorPrototype
  | .eval => i.evalErrorPrototype
  | .uri => i.uriErrorPrototype

def defaultMaxDepth : Nat := 256

def defaultFilename : String := "<console>"

structure State where
  heap : Array Object := #[]
  scopes : Array Scope := #[]
  scripts : Array ScriptText := #[]
  intrinsics : Intrinsics := default
  globalObject : ObjectId := default
  globalScope : ScopeId := default
  /-- Active frames, the innermost first. -/
  stack : List Frame := []
  maxDepth : Nat := defaultMaxDepth
  jobs : Queue Job := {}
  timers : TimerQueue := {}
  /-- Promises that were rejected while nothing handled them, in that order. -/
  rejections : Array ObjectId := #[]
  /-- A condition that arose where it could not be passed on. -/
  fatal : Option Condition := none
  awaits : Array AwaitSlot := #[]
  /-- Tasks that can go on. -/
  ready : Queue Nat := {}
  lastTask : Nat := 0
  /-- The results of the evaluations begun so far. -/
  outcomes : Array (Option (Except EvaluationError Value)) := #[]
  /-- Switches that turn once. -/
  latches : Array Bool := #[]
  /-- Pairs of functions handed over by constructors of promises. -/
  resolvers : Array (Value × Value) := #[]
  aggregates : Array Aggregate := #[]
  interrupted : Bool := false
  /-- Nanoseconds since the beginning. -/
  clock : Nat := 0
  sinks : Array Sink := #[]
  console : ConsoleData := {}
  nextSymbol : Nat := 6
  /-- The symbols that are known by a name. -/
  registry : List (String × Symbol) := []
  nextPrivateName : Nat := 0
  /-- The objects that tagged templates share, by script and place. -/
  templates : List ((ScriptId × Nat) × ObjectId) := []
  effectTables : Array EffectTable := #[]
  random : UInt64 := 88172645463325252
deriving Inhabited

def checkNanos : Nat := 250

/-- When an evaluation has to end. -/
structure Deadline where
  due : Nat
  millis : Nat
deriving Inhabited

/-- What an evaluation goes by. Code of a function runs by what its caller goes by, except for the
script and the mode it was written in. -/
structure Context where
  script : ScriptId
  strict : Bool
  globalScope : ScopeId
  /-- The table a dry run goes by. -/
  effects : Option Nat := none
  /-- Objects and scopes from here on were created by the evaluation itself. -/
  firstObject : Nat := 0
  firstScope : Nat := 0
  sink : Option Nat := none
  deadline : Option Deadline := none
deriving Inhabited

def Context.isDryRun (c : Context) : Bool := c.effects.isSome

namespace State

def object (s : State) (id : ObjectId) : Object := s.heap.getD id.index default

def scope (s : State) (id : ScopeId) : Scope := s.scopes.getD id.index default

def script (s : State) (id : ScriptId) : ScriptText := s.scripts.getD id.index default

/-- Looks for an own data property along the prototypes, without running any code. Stops at
accessors and at proxies. -/
def peekFrom (s : State) (key : PropertyKey) : (fuel : Nat) → ObjectId → Option Value
  | 0, _ => none
  | fuel + 1, id =>
    let o := s.object id
    if o.isProxy then none
    else
      match o.own? key with
      | some p => p.value?
      | none =>
        match o.prototype with
        | some parent => s.peekFrom key fuel parent
        | none => none

def peek (s : State) (id : ObjectId) (key : PropertyKey) : Option Value :=
  s.peekFrom key (s.heap.size + 1) id

def isCallable (s : State) (id : ObjectId) : Bool :=
  match (s.object id).kind with
  | .function _ => true
  | .proxy (some p) => p.callable
  | _ => false

def isConstructorFrom (s : State) : (fuel : Nat) → ObjectId → Bool
  | 0, _ => false
  | fuel + 1, id =>
    match (s.object id).kind with
    | .function (.closure c) => c.constructable
    | .function (.native _ f) => f.constructs
    | .function (.bound target _ _) => s.isConstructorFrom fuel target
    | .proxy (some p) => p.constructable
    | _ => false

/-- Whether `new` accepts an object. A bound function is as its target, which is older. -/
def isConstructor (s : State) (id : ObjectId) : Bool := s.isConstructorFrom (s.heap.size + 1) id

def callableValue (s : State) : Value → Bool
  | .object id => s.isCallable id
  | _ => false

def constructorValue (s : State) : Value → Bool
  | .object id => s.isConstructor id
  | _ => false

def isArrayFrom (s : State) : (fuel : Nat) → ObjectId → Bool
  | 0, _ => false
  | fuel + 1, id =>
    match (s.object id).kind with
    | .array => true
    | .proxy (some p) => s.isArrayFrom fuel p.target
    | _ => false

def isArray (s : State) : Value → Bool
  | .object id => s.isArrayFrom (s.heap.size + 1) id
  | _ => false

def typeOf (s : State) : Value → String
  | .undefined => "undefined"
  | .null => "object"
  | .boolean _ => "boolean"
  | .number _ => "number"
  | .string _ => "string"
  | .symbol _ => "symbol"
  | .object id => if s.isCallable id then "function" else "object"

def constructorName? (s : State) (id : ObjectId) : Option String :=
  match s.peek id (.name "constructor") with
  | some (.object c) =>
    match s.peek c (.name "name") with
    | some (.string name) => if name = "" then none else some name
    | _ => none
  | _ => none

def describeObject (s : State) (id : ObjectId) : String :=
  match (s.object id).kind with
  | .array => "[object Array]"
  | .function _ => "function"
  | kind => "#<" ++ (s.constructorName? id).getD kind.name ++ ">"

def describe (s : State) : Value → String
  | .string text => "\"" ++ text ++ "\""
  | .object id => s.describeObject id
  | v => v.primitiveText

/-- A frame for every line, under a header. Leaves out the `skip` innermost frames, and those up to
the innermost one that runs `stop`. -/
def renderStack (s : State) (header : String) (skip : Nat) (stop : Option ObjectId) : String :=
  let frames : List Frame := s.stack.drop skip
  let frames : List Frame := match stop with
    | none => frames
    | some f =>
      match frames.findIdx? (·.function == some f) with
      | some i => frames.drop (i + 1)
      | none => frames
  frames.foldl (fun out f => out ++ "\n" ++ f.text) header

/-- The name and message of an error, from data properties only. -/
def errorHeader? (s : State) (id : ObjectId) : Option String :=
  let isError := match (s.object id).kind with
    | .error => true
    | _ => false
  let name := match s.peek id (.name "name") with
    | some (.string name) => some name
    | some _ => none
    | none => if isError then some "Error" else none
  name.map fun name =>
    let message := match s.peek id (.name "message") with
      | some (.string m) => m
      | _ => ""
    if message = "" then name else if name = "" then message else name ++ ": " ++ message

def describeThrown (s : State) : Value → String
  | .object id =>
    match (s.object id).ownValue? (.name "stack") with
    | some (.string stack) => stack
    | _ => (s.errorHeader? id).getD "[object Object]"
  | v => v.primitiveText

def findScope (s : State) (p : Scope → Bool) : (fuel : Nat) → ScopeId → Option ScopeId
  | 0, _ => none
  | fuel + 1, id =>
    let scope := s.scope id
    if p scope then some id
    else
      match scope.parent with
      | some parent => s.findScope p fuel parent
      | none => none

def resolve (s : State) (id : ScopeId) (name : String) : Option ScopeId :=
  s.findScope (·.binds name) (s.scopes.size + 1) id

def varScope (s : State) (id : ScopeId) : ScopeId :=
  (s.findScope (fun scope => match scope.kind with
    | .block => scope.parent.isNone
    | _ => true) (s.scopes.size + 1) id).getD id

def thisScope (s : State) (id : ScopeId) : ScopeId :=
  (s.findScope (fun scope => match scope.kind with
    | .block => scope.parent.isNone
    | .function a => !a.isArrow || scope.parent.isNone
    | .global _ => true) (s.scopes.size + 1) id).getD id

def resolvePrivate (s : State) (id : ScopeId) (name : String) : Option PrivateName :=
  match s.findScope (fun scope => (scope.privateNames.lookup name).isSome) (s.scopes.size + 1) id with
  | some found => (s.scope found).privateNames.lookup name
  | none => none

end State
end EcmaScript

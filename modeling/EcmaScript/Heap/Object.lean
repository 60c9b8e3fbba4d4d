import EcmaScript.Collection.KeyedTable
import EcmaScript.Heap.Native
import EcmaScript.Property.Basic
import EcmaScript.Syntax.Tree

/-! Objects and what distinguishes their kinds. -/
namespace EcmaScript

/-- The identity of a private name. Each evaluation of a class has names of its own. -/
structure PrivateName where
  id : Nat
  /-- The spelling, with the leading number sign. -/
  description : String
deriving DecidableEq, Inhabited

inductive PrivateElement where
  | field (value : Value)
  | method (function : Value)
  | accessor (getter setter : Option Value)
deriving Inhabited

inductive ClassKind where
  | base | derived
deriving DecidableEq, Inhabited

inductive FieldKey where
  | shared (key : PropertyKey)
  | hidden (name : PrivateName)
deriving Inhabited

/-- What a class does to an instance as soon as there is one. -/
inductive InstanceElement where
  | field (key : FieldKey) (initializer : Option Value)
  | method (name : PrivateName) (element : PrivateElement)
deriving Inhabited

/-- The identity of a text that is evaluated. -/
structure ScriptId where
  index : Nat
deriving DecidableEq, Inhabited

/-- A function written in a script. -/
structure Closure where
  node : FunctionNode
  /-- Where the function was created. -/
  scope : ScopeId
  script : ScriptId
  strict : Bool
  /-- The text the function shows as its own. -/
  source : Span
  constructable : Bool
  classKind : Option ClassKind := none
  /-- The object whose prototype `super` means. -/
  home : Option ObjectId := none
  elements : List InstanceElement := []
deriving Inhabited

inductive Callable where
  | closure (c : Closure)
  | native (name : String) (f : Native)
  | bound (target : ObjectId) (this : Value) (args : Array Value)
deriving Inhabited

/-- What becomes of a promise. -/
inductive PromiseState where
  | pending
  | fulfilled (value : Value)
  | rejected (reason : Value)
deriving Inhabited

/-- A promise and the functions that settle it. -/
structure Capability where
  promise : Value
  resolve : Value
  reject : Value
deriving Inhabited

/-- What to do when a promise is settled one way. Without a capability the result is dropped. -/
structure Reaction where
  capability : Option Capability
  fulfilled : Bool
  /-- Undefined passes the outcome on. -/
  handler : Value
deriving Inhabited

structure PromiseData where
  state : PromiseState := .pending
  onFulfilled : List Reaction := []
  onRejected : List Reaction := []
  /-- A reaction was registered at some time. -/
  handled : Bool := false
deriving Inhabited

structure ProxyData where
  target : ObjectId
  handler : ObjectId
  callable : Bool
  constructable : Bool
deriving Inhabited

/-- The progress of a built-in iterator. -/
inductive IteratorState where
  | array (target : Value) (index : Nat) (kind : IterationKind) (done : Bool)
  | string (rest : List Char)
  | keyed (target : ObjectId) (index : Nat) (kind : IterationKind) (done : Bool)
deriving Inhabited

namespace IteratorState

def ended : IteratorState → IteratorState
  | .array target index kind _ => .array target index kind true
  | state => state

def movedTo (place : Nat) : IteratorState → IteratorState
  | .array target _ kind done => .array target place kind done
  | state => state

end IteratorState

/-- The parameters that an arguments object shares with its function: for each index the name it is
still mapped to. -/
structure ArgumentMap where
  scope : ScopeId
  names : Array (Option String)
deriving Inhabited

inductive ObjectKind where
  | ordinary
  | array
  | function (c : Callable)
  | error
  | boolean (b : Bool)
  | number (x : Float)
  | string (s : String)
  | symbol (s : Symbol)
  | arguments (shared : Option ArgumentMap)
  | promise (p : PromiseData)
  /-- A revoked proxy holds nothing. -/
  | proxy (p : Option ProxyData)
  | map (t : KeyedTable)
  | set (t : KeyedTable)
  | weakMap (t : KeyedTable)
  | weakSet (t : KeyedTable)
  | weakRef (target : ObjectId)
  | iterator (s : IteratorState)
deriving Inhabited

def ObjectKind.name : ObjectKind → String
  | .ordinary => "Object"
  | .array => "Array"
  | .function _ => "Function"
  | .error => "Error"
  | .boolean _ => "Boolean"
  | .number _ => "Number"
  | .string _ => "String"
  | .symbol _ => "Symbol"
  | .arguments _ => "Arguments"
  | .promise _ => "Promise"
  | .proxy _ => "Proxy"
  | .map _ => "Map"
  | .set _ => "Set"
  | .weakMap _ => "WeakMap"
  | .weakSet _ => "WeakSet"
  | .weakRef _ => "WeakRef"
  | .iterator _ => "Iterator"

structure Object where
  kind : ObjectKind := .ordinary
  prototype : Option ObjectId
  properties : PropertyTable := {}
  extensible : Bool := true
  privates : List (PrivateName × PrivateElement) := []
  /-- The call stack at its creation was recorded. -/
  stamped : Bool := false
deriving Inhabited

namespace Object

def own? (o : Object) (key : PropertyKey) : Option Property := o.properties.get? key

def put (o : Object) (key : PropertyKey) (p : Property) : Object :=
  { o with properties := o.properties.put key p }

def ownValue? (o : Object) (key : PropertyKey) : Option Value := (o.own? key).bind Property.value?

@[inline] def modifyKind (f : ObjectKind → ObjectKind) : Object → Object
  | ⟨kind, prototype, properties, extensible, privates, stamped⟩ =>
    ⟨f kind, prototype, properties, extensible, privates, stamped⟩

def isArray (o : Object) : Bool :=
  match o.kind with
  | .array => true
  | _ => false

def isProxy (o : Object) : Bool :=
  match o.kind with
  | .proxy _ => true
  | _ => false

def callable? (o : Object) : Option Callable :=
  match o.kind with
  | .function c => some c
  | _ => none

def lengthKey : PropertyKey := .name "length"

def arrayLength (o : Object) : Nat :=
  match o.ownValue? lengthKey with
  | some (.number x) => x.toUInt32.toNat
  | _ => 0

def functionName (o : Object) : String :=
  match o.ownValue? (.name "name") with
  | some (.string s) => s
  | _ => ""

def private? (o : Object) (name : PrivateName) : Option PrivateElement := o.privates.lookup name

def hasPrivate (o : Object) (name : PrivateName) : Bool := (o.private? name).isSome

def putPrivate (o : Object) (name : PrivateName) (element : PrivateElement) : Object :=
  if o.hasPrivate name then
    { o with privates := o.privates.map fun e => if e.1 == name then (name, element) else e }
  else { o with privates := o.privates ++ [(name, element)] }

end Object
end EcmaScript

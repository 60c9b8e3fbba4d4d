import EcmaScript.Heap.Object

/-! Scopes and the names they bind. -/
namespace EcmaScript

inductive BindingKind where
  | var | let | const | classDecl
  /-- The own name of a function expression, inside it. -/
  | functionName
  | parameter
deriving DecidableEq, Inhabited

def BindingKind.isLexical : BindingKind → Bool
  | .let => true
  | .const => true
  | .classDecl => true
  | _ => false

structure Binding where
  /-- Nothing yet, before the declaration has run. -/
  value : Option Value
  kind : BindingKind
deriving Inhabited

/-- What `this`, `new.target` and `super` mean in an activation of a function. -/
structure Activation where
  /-- Nothing until a derived constructor has called `super`. -/
  this : Option Value
  newTarget : Value
  function : Option ObjectId
  home : Option ObjectId
  /-- Arrow functions take all of these from outside. -/
  isArrow : Bool
deriving Inhabited

inductive ScopeKind where
  | global (object : ObjectId)
  | function (activation : Activation)
  | block
deriving Inhabited

structure Scope where
  kind : ScopeKind
  parent : Option ScopeId
  bindings : List (String × Binding) := []
  privateNames : List (String × PrivateName) := []
deriving Inhabited

namespace Scope

def binding? (s : Scope) (name : String) : Option Binding := s.bindings.lookup name

def binds (s : Scope) (name : String) : Bool := (s.binding? name).isSome

def replace (name : String) (b : Binding) : List (String × Binding) → List (String × Binding)
  | [] => []
  | (n, c) :: rest => if n = name then (n, b) :: rest else (n, c) :: replace name b rest

def bind (s : Scope) (name : String) (b : Binding) : Scope :=
  if s.binds name then { s with bindings := replace name b s.bindings }
  else { s with bindings := (name, b) :: s.bindings }

def fill (s : Scope) (name : String) (value : Value) : Scope :=
  match s.binding? name with
  | some b => { s with bindings := replace name { b with value := some value } s.bindings }
  | none => s

/-- Declares a name that is not yet initialized. None when a lexical name would be bound twice. -/
def declare? (s : Scope) (name : String) (kind : BindingKind) : Option Scope :=
  match s.binding? name with
  | some b => if kind.isLexical || b.kind.isLexical then none else some s
  | none => some { s with bindings := (name, ⟨none, kind⟩) :: s.bindings }

/-- Why a bound name cannot be assigned. -/
inductive Refusal where
  | unbound | uninitialized | constant
deriving DecidableEq

/-- Assigns to a bound name. The own name of a function cannot change; outside strict mode the
attempt is passed over. -/
def assign (s : Scope) (name : String) (value : Value) (strict : Bool) : Except Refusal Scope :=
  match s.binding? name with
  | none => .error .unbound
  | some ⟨none, _⟩ => .error .uninitialized
  | some ⟨some _, .const⟩ => .error .constant
  | some ⟨some _, .functionName⟩ => if strict then .error .constant else .ok s
  | some ⟨some _, kind⟩ => .ok { s with bindings := replace name ⟨some value, kind⟩ s.bindings }

def copyForIteration (s : Scope) : Scope := { s with kind := .block }

def activation? (s : Scope) : Option Activation :=
  match s.kind with
  | .function a => some a
  | _ => none

def isGlobal (s : Scope) : Bool :=
  match s.kind with
  | .global _ => true
  | _ => false

def names (s : Scope) : List String := (s.bindings.map (·.1)).mergeSort (· ≤ ·)

end Scope
end EcmaScript

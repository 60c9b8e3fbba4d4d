import EcmaScript.Machine.Exec
import EcmaScript.Property.Define

/-! Reading objects. Proxies hand every operation to their traps. -/
namespace EcmaScript

/-- The own property of an object that is no proxy. A string has elements, and an index that an
arguments object shares has the value of the parameter. -/
def State.ownProperty? (s : State) (id : ObjectId) (key : PropertyKey) : Option Property :=
  let o := s.object id
  match o.kind, key with
  | .string text, .index _ => (stringElement? text key).or (o.own? key)
  | .arguments (some shared), .index n =>
    match (shared.names[n.val]?).join, o.own? key with
    | some name, some p =>
      match ((s.scope shared.scope).binding? name).bind (·.value), p.slot with
      | some v, .data _ writable => some { p with slot := .data v writable }
      | _, _ => some p
    | _, p => p
  | _, _ => o.own? key

def Intrinsics.prototypeOf (i : Intrinsics) : Value → ObjectId
  | .string _ => i.stringPrototype
  | .number _ => i.numberPrototype
  | .boolean _ => i.booleanPrototype
  | _ => i.symbolPrototype

/-- What is met first on the way along the prototypes. -/
inductive Lookup where
  | found (p : Property)
  | proxy (p : Option ProxyData)
  | absent
deriving Inhabited

namespace State

/-- Walks along the prototypes to the first object that has a key, or to the first proxy. -/
def lookupFrom (s : State) (key : PropertyKey) : (fuel : Nat) → ObjectId → Lookup
  | 0, _ => .absent
  | fuel + 1, id =>
    let o := s.object id
    match o.kind with
    | .proxy p => .proxy p
    | _ =>
      match s.ownProperty? id key with
      | some p => .found p
      | none =>
        match o.prototype with
        | some parent => s.lookupFrom key fuel parent
        | none => .absent

def lookup (s : State) (id : ObjectId) (key : PropertyKey) : Lookup :=
  s.lookupFrom key (s.heap.size + 1) id

end State

namespace Exec

def revoked {α : Type} (operation : String) : Exec α :=
  throwType ("Cannot perform '" ++ operation ++ "' on a proxy that has been revoked")

def proxyOf (id : ObjectId) (operation : String) : Exec (Option ProxyData) := do
  match (← object id).kind with
  | .proxy (some p) => return some p
  | .proxy none => revoked operation
  | _ => return none

def getOwn (id : ObjectId) (key : PropertyKey) : Exec (Option Property) := do
  match ← proxyOf id "getOwnPropertyDescriptor" with
  | some p => request (.proxyGetOwn p key)
  | none => look (·.ownProperty? id key)

def hasOwn (id : ObjectId) (key : PropertyKey) : Exec Bool := return (← getOwn id key).isSome

def has (id : ObjectId) (key : PropertyKey) : Exec Bool := do
  match ← look (·.lookup id key) with
  | .found _ => return true
  | .absent => return false
  | .proxy (some p) => request (.proxyHas p key)
  | .proxy none => revoked "has"

def getFor (id : ObjectId) (key : PropertyKey) (receiver : Value) : Exec Value := do
  match ← look (·.lookup id key) with
  | .found p =>
    match p.slot with
    | .data v _ => return v
    | .accessor (some getter) _ => call getter receiver #[]
    | .accessor none _ => return .undefined
  | .absent => return .undefined
  | .proxy (some p) => request (.proxyGet p key receiver)
  | .proxy none => revoked "get"

def get (id : ObjectId) (key : PropertyKey) : Exec Value := getFor id key (.object id)

def getNamed (id : ObjectId) (name : String) : Exec Value := get id (.name name)

def getOf (base : Value) (key : PropertyKey) : Exec Value := do
  match base with
  | .object id => getFor id key base
  | .undefined | .null =>
    throwType ("Cannot read properties of " ++ base.primitiveText ++ " (reading '" ++ key.text ++ "')")
  | .string s =>
    if key = .name "length" then return .ofNat (Text.length16 s)
    match (stringElement? s key).bind Property.value? with
    | some v => return v
    | none => getFor (← intrinsics).stringPrototype key base
  | _ => getFor ((← intrinsics).prototypeOf base) key base

def methodOf (base : Value) (key : PropertyKey) : Exec (Option Value) := do
  let f ← getOf base key
  if f.isNullish then return none
  if ← isCallable f then return some f
  throwType ((← describe f) ++ " is not a function")

def prototypeOf (id : ObjectId) : Exec (Option ObjectId) := do
  match ← proxyOf id "getPrototypeOf" with
  | some p => request (.proxyGetPrototype p)
  | none => return (← object id).prototype

def isExtensible (id : ObjectId) : Exec Bool := do
  match ← proxyOf id "isExtensible" with
  | some p => request (.proxyIsExtensible p)
  | none => return (← object id).extensible

def ownKeys (id : ObjectId) : Exec (List PropertyKey) := do
  match ← proxyOf id "ownKeys" with
  | some p => request (.proxyOwnKeys p)
  | none => return (← object id).ownKeys

def enumerableKeys (id : ObjectId) : Exec (List PropertyKey) := do
  let keys ← ownKeys id
  (keys.filter (!·.isSymbol)).filterM fun key => do
    return ((← getOwn id key).map (·.enumerable)).getD false

end Exec
end EcmaScript

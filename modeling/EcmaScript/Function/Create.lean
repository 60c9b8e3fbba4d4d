import EcmaScript.Error.Object

/-! Function objects. -/
namespace EcmaScript

def functionProperties (name : String) (length : Nat) : PropertyTable :=
  (({} : PropertyTable).put (.name "length") (.data (.ofNat length) false false true)).put
    (.name "name") (.data (.string name) false false true)

def nativeObject (i : Intrinsics) (name : String) (length : Nat) (f : Native) : Object where
  prototype := some i.functionPrototype
  kind := .function (.native name f)
  properties := functionProperties name length

def closureObject (i : Intrinsics) (name : String) (closure : Closure) : Object where
  prototype := some i.functionPrototype
  kind := .function (.closure closure)
  properties := functionProperties name closure.node.expectedArguments

namespace Exec

def newNative (name : String) (length : Nat) (f : Native) : Exec ObjectId := do
  allocate (nativeObject (← intrinsics) name length f)

def newCapturing (length : Nat) (f : CapturingFunction) : Exec Value :=
  return .object (← newNative "" length (.capturing f))

def closureOf (c : Context) (node : FunctionNode) (scope : ScopeId) (home : Option ObjectId) :
    Closure where
  node := node
  scope := scope
  script := c.script
  strict := c.strict || node.strict
  source := node.span
  constructable := node.kind == .normal && !node.isAsync && !node.isGenerator
  home := home

/-- The object of a closure. One that can be constructed, and is no class, gets an object for its
instances to inherit from. -/
def newClosure (closure : Closure) (name : String) : Exec ObjectId := do
  let i ← intrinsics
  let id ← allocate (closureObject i name closure)
  if closure.constructable && closure.classKind.isNone then
    let prototype ← allocate
      { prototype := some i.objectPrototype
        properties := ({} : PropertyTable).put (.name "constructor") (.standard (.object id)) }
    modifyObject id (·.put (.name "prototype") (.data (.object prototype) true false false))
  return id

def newFunction (node : FunctionNode) (scope : ScopeId) (name : String) (home : Option ObjectId) :
    Exec ObjectId := do
  newClosure (closureOf (← context) node scope home) name

def nameFunction (id : ObjectId) (key : PropertyKey) (kind : MethodKind) : Exec Unit :=
  let name := match kind with
    | .method => key.functionName
    | .getter => "get " ++ key.functionName
    | .setter => "set " ++ key.functionName
  modifyObject id (·.put (.name "name") (.data (.string name) false false true))

def prototypeFor (newTarget : ObjectId) (fallback : ObjectId) : Exec ObjectId := do
  match ← getNamed newTarget "prototype" with
  | .object id => return id
  | _ => return fallback

def defineMethod (target : ObjectId) (key : PropertyKey) (kind : MethodKind) (f : ObjectId)
    (enumerable : Bool) : Exec Unit :=
  match kind with
  | .method => defineOrThrow target key (.data (.object f) true enumerable true)
  | .getter => defineOrThrow target key
    { getter := some (.object f), enumerable := some enumerable, configurable := some true }
  | .setter => defineOrThrow target key
    { setter := some (.object f), enumerable := some enumerable, configurable := some true }

end Exec
end EcmaScript

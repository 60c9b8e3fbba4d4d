import EcmaScript.Library.Object

/-! `Reflect` and `Proxy`. -/
namespace EcmaScript

def reflectFeatures : List Feature :=
  [.named "apply" 3 (.reflect .apply), .named "construct" 2 (.reflect .construct),
    .named "defineProperty" 3 (.reflect .defineProperty),
    .named "deleteProperty" 2 (.reflect .deleteProperty), .named "get" 2 (.reflect .get),
    .named "getOwnPropertyDescriptor" 2 (.reflect .getOwnPropertyDescriptor),
    .named "getPrototypeOf" 1 (.reflect .getPrototypeOf), .named "has" 2 (.reflect .has),
    .named "isExtensible" 1 (.reflect .isExtensible), .named "ownKeys" 1 (.reflect .ownKeys),
    .named "preventExtensions" 1 (.reflect .preventExtensions), .named "set" 3 (.reflect .set),
    .named "setPrototypeOf" 2 (.reflect .setPrototypeOf), .tag "Reflect"]

def proxyStatics : List Feature := [.named "revocable" 2 (.proxy .revocable)]

/-- The name that messages give a function. -/
def ReflectFunction.name : ReflectFunction → String
  | .apply => "apply"
  | .construct => "construct"
  | .defineProperty => "defineProperty"
  | .deleteProperty => "deleteProperty"
  | .get => "get"
  | .getOwnPropertyDescriptor => "getOwnPropertyDescriptor"
  | .getPrototypeOf => "getPrototypeOf"
  | .has => "has"
  | .isExtensible => "isExtensible"
  | .ownKeys => "ownKeys"
  | .preventExtensions => "preventExtensions"
  | .set => "set"
  | .setPrototypeOf => "setPrototypeOf"

namespace Exec

def reflectTarget (f : ReflectFunction) (args : Array Value) : Exec ObjectId := do
  match argument args 0 with
  | .object id => return id
  | v => throwType ("Reflect." ++ f.name ++ " called on non-object " ++ (← describe v))

def requireConstructor (v : Value) : Exec Unit := do
  if !(← isConstructor v) then throwType ((← describe v) ++ " is not a constructor")

def reflectFunction (f : ReflectFunction) (args : Array Value) : Exec Value := do
  match f with
  | .apply =>
    let target := argument args 0
    if !(← isCallable target) then throwType ((← describe target) ++ " is not a function")
    call target (argument args 1) (← listFromArrayLike (argument args 2))
  | .construct =>
    let target := argument args 0
    requireConstructor target
    let newTarget := (args[2]?).getD target
    requireConstructor newTarget
    construct target (← listFromArrayLike (argument args 1)) newTarget
  | .defineProperty =>
    let id ← reflectTarget f args
    let key ← toKey (argument args 1)
    match argument args 2 with
    | .object d => return .boolean (← define id key (← toDescriptor d))
    | _ => throwType "Property description must be an object"
  | .deleteProperty =>
    let id ← reflectTarget f args
    return .boolean (← delete id (← toKey (argument args 1)))
  | .get =>
    let id ← reflectTarget f args
    let key ← toKey (argument args 1)
    getFor id key ((args[2]?).getD (.object id))
  | .getOwnPropertyDescriptor =>
    let id ← reflectTarget f args
    describeOwn id (← toKey (argument args 1))
  | .getPrototypeOf => return .ofObject? (← prototypeOf (← reflectTarget f args))
  | .has =>
    let id ← reflectTarget f args
    return .boolean (← has id (← toKey (argument args 1)))
  | .isExtensible => return .boolean (← isExtensible (← reflectTarget f args))
  | .ownKeys =>
    let keys ← ownKeys (← reflectTarget f args)
    return .object (← newArray (keys.map (·.toValue)).toArray)
  | .preventExtensions => return .boolean (← preventExtensions (← reflectTarget f args))
  | .set =>
    let id ← reflectTarget f args
    let key ← toKey (argument args 1)
    let receiver := (args[3]?).getD (.object id)
    return .boolean ((← setFor id key (argument args 2) receiver) == .done)
  | .setPrototypeOf =>
    let id ← reflectTarget f args
    match argument args 1 with
    | .object p => return .boolean (← setPrototype id (some p))
    | .null => return .boolean (← setPrototype id none)
    | _ => throwType "Object prototype may only be an Object or null"

/-- A proxy. Whether it can be called or constructed is settled here. -/
def newProxy (args : Array Value) : Exec ObjectId := do
  match argument args 0, argument args 1 with
  | .object target, .object handler =>
    let callable ← look (·.isCallable target)
    let constructable ← look (·.isConstructor target)
    allocate { prototype := none, kind := .proxy (some ⟨target, handler, callable, constructable⟩) }
  | _, _ => throwType "Cannot create proxy with a non-object as target or handler"

def proxyFunction (f : ProxyFunction) (args : Array Value) : Exec Value := do
  match f with
  | .construct => throwType "Constructor Proxy requires 'new'"
  | .revocable =>
    let proxy ← newProxy args
    let revoke ← newCapturing 0 (.revokeProxy proxy)
    return .object (← newObject [("proxy", .object proxy), ("revoke", revoke)])

end Exec
end EcmaScript

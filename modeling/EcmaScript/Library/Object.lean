import EcmaScript.Library.Feature
import EcmaScript.Object.Descriptor
import EcmaScript.Object.Iterate

/-! `Object`: functions on the properties of objects. -/
namespace EcmaScript

def objectStatics : List Feature :=
  [.named "keys" 1 (.object .keys), .named "values" 1 (.object .values),
    .named "entries" 1 (.object .entries), .named "getPrototypeOf" 1 (.object .getPrototypeOf),
    .named "setPrototypeOf" 2 (.object .setPrototypeOf),
    .named "getOwnPropertyNames" 1 (.object .getOwnPropertyNames),
    .named "getOwnPropertySymbols" 1 (.object .getOwnPropertySymbols),
    .named "getOwnPropertyDescriptor" 2 (.object .getOwnPropertyDescriptor),
    .named "getOwnPropertyDescriptors" 1 (.object .getOwnPropertyDescriptors),
    .named "defineProperty" 3 (.object .defineProperty),
    .named "defineProperties" 2 (.object .defineProperties), .named "create" 2 (.object .create),
    .named "assign" 2 (.object .assign), .named "fromEntries" 1 (.object .fromEntries),
    .named "freeze" 1 (.object .freeze), .named "seal" 1 (.object .seal),
    .named "preventExtensions" 1 (.object .preventExtensions),
    .named "isFrozen" 1 (.object .isFrozen), .named "isSealed" 1 (.object .isSealed),
    .named "isExtensible" 1 (.object .isExtensible), .named "is" 2 (.object .is),
    .named "hasOwn" 2 (.object .hasOwn)]

def objectMethods : List Feature :=
  [.named "hasOwnProperty" 1 (.object .hasOwnProperty),
    .named "isPrototypeOf" 1 (.object .isPrototypeOf),
    .named "propertyIsEnumerable" 1 (.object .propertyIsEnumerable),
    .named "toString" 0 (.object .toString), .named "toLocaleString" 0 (.object .toLocaleString),
    .named "valueOf" 0 (.object .valueOf),
    .accessor (.name "__proto__") (.object .getProto) (.object .setProto)]

/-- The word that describes an object that has no tag of its own. -/
def State.defaultTag (s : State) (id : ObjectId) : String :=
  if s.isArray (.object id) then "Array"
  else
    match (s.object id).kind with
    | .function _ => "Function"
    | .proxy (some p) => if p.callable then "Function" else "Object"
    | .error => "Error"
    | .boolean _ => "Boolean"
    | .number _ => "Number"
    | .string _ => "String"
    | .arguments _ => "Arguments"
    | _ => "Object"

namespace Exec

def objectArgument (args : Array Value) (name : String) : Exec ObjectId := do
  match argument args 0 with
  | .object id => return id
  | v => throwType ("Object." ++ name ++ " called on non-object " ++ (← describe v))

def prototypeArgument (v : Value) : Exec (Option ObjectId) := do
  match v with
  | .object id => return some id
  | .null => return none
  | _ => throwType ("Object prototype may only be an Object or null: " ++ (← describe v))

def ownEntries (v : Value) (kind : IterationKind) : Exec Value := do
  let id ← toObject v
  let items ← (← enumerableKeys id).mapM fun key => do
    match kind with
    | .keys => return key.toValue
    | .values => get id key
    | .entries => newPair key.toValue (← get id key)
  return .object (← newArray items.toArray)

def descriptorArgument (v : Value) : Exec Descriptor := do
  match v with
  | .object d => toDescriptor d
  | _ => throwType ("Property description must be an object: " ++ (← describe v))

/-- Defines properties by the descriptions that an object holds. All are read before the first is
used. -/
def defineAll (target : ObjectId) (descriptions : Value) : Exec Unit := do
  let id ← toObject descriptions
  let found ← (← ownKeys id).filterMapM fun key => do
    match ← getOwn id key with
    | some p =>
      if p.enumerable then return some (key, ← descriptorArgument (← get id key)) else return none
    | none => return none
  found.forM fun (key, d) => defineOrThrow target key d

def describeOwn (id : ObjectId) (key : PropertyKey) : Exec Value := do
  match ← getOwn id key with
  | some p => return .object (← fromDescriptor p.toDescriptor)
  | none => return .undefined

def assignAll (target : Value) : List Value → Exec Unit
  | [] => return
  | source :: rest => do
    if !source.isNullish then
      let id ← toObject source
      (← ownKeys id).forM fun key => do
        match ← getOwn id key with
        | some p => if p.enumerable then putOf target key (← getFor id key source) true
        | none => pure ()
    assignAll target rest

def readEntry (entry : Value) : Exec (Value × Value) := do
  if !entry.isObject then
    throwType ("Iterator value " ++ (← describe entry) ++ " is not an entry object")
  let key ← getOf entry (.index 0)
  return (key, ← getOf entry (.index 1))

def describeTag (this : Value) : Exec Value := do
  match this with
  | .undefined => return .string "[object Undefined]"
  | .null => return .string "[object Null]"
  | _ =>
    let id ← toObject this
    let word ← match ← get id (.symbol .toStringTag) with
      | .string word => pure word
      | _ => look (·.defaultTag id)
    return .string ("[object " ++ word ++ "]")

def setPrototypeOrThrow (id : ObjectId) (prototype : Option ObjectId) : Exec Unit := do
  if !(← setPrototype id prototype) then
    throwType "Cyclic __proto__ value or object is not extensible"

def constructObject (args : Array Value) (newTarget : Option ObjectId) : Exec Value := do
  let base := (← intrinsics).objectPrototype
  let prototype ← match newTarget with
    | some target => prototypeFor target base
    | none => pure base
  if prototype != base then return .object (← allocate { prototype := some prototype })
  let v := argument args 0
  if v.isNullish then return .object (← newObject [])
  return .object (← toObject v)

/-- Closes an object so far. What is no object is closed already. -/
def closeObject (v : Value) (level : Integrity) (message : String) : Exec Value := do
  match v with
  | .object id => if !(← setIntegrity id level) then throwType message
  | _ => pure ()
  return v

def isClosed (v : Value) (level : Integrity) : Exec Value := do
  match v with
  | .object id => return .boolean (← testIntegrity id level)
  | _ => return .boolean true

def objectFunction (f : ObjectFunction) (this : Value) (args : Array Value) : Exec Value := do
  let first := argument args 0
  match f with
  | .construct => constructObject args none
  | .keys => ownEntries first .keys
  | .values => ownEntries first .values
  | .entries => ownEntries first .entries
  | .getPrototypeOf => return .ofObject? (← prototypeOf (← toObject first))
  | .setPrototypeOf =>
    if first.isNullish then throwType "Object.setPrototypeOf called on null or undefined"
    let prototype ← prototypeArgument (argument args 1)
    match first with
    | .object id => setPrototypeOrThrow id prototype
    | _ => pure ()
    return first
  | .getOwnPropertyNames =>
    let keys ← ownKeys (← toObject first)
    return .object (← newArray ((keys.filter (!·.isSymbol)).map (·.toValue)).toArray)
  | .getOwnPropertySymbols =>
    let keys ← ownKeys (← toObject first)
    return .object (← newArray ((keys.filter (·.isSymbol)).map (·.toValue)).toArray)
  | .getOwnPropertyDescriptor =>
    let id ← toObject first
    describeOwn id (← toKey (argument args 1))
  | .getOwnPropertyDescriptors =>
    let id ← toObject first
    let out ← newObject []
    (← ownKeys id).forM fun key => do
      match ← getOwn id key with
      | some p => createOrThrow out key (.object (← fromDescriptor p.toDescriptor))
      | none => pure ()
    return .object out
  | .defineProperty =>
    let id ← objectArgument args "defineProperty"
    let key ← toKey (argument args 1)
    defineOrThrow id key (← descriptorArgument (argument args 2))
    return .object id
  | .defineProperties =>
    let id ← objectArgument args "defineProperties"
    defineAll id (argument args 1)
    return .object id
  | .create =>
    let id ← allocate { prototype := ← prototypeArgument first }
    let descriptions := argument args 1
    if !descriptions.isUndefined then defineAll id descriptions
    return .object id
  | .assign =>
    let target := Value.object (← toObject first)
    assignAll target (args.toList.drop 1)
    return target
  | .fromEntries =>
    if first.isNullish then throwType ((← describe first) ++ " is not iterable")
    let out ← newObject []
    forEachItem first fun entry => do
      let (key, v) ← readEntry entry
      createOrThrow out (← toKey key) v
    return .object out
  | .freeze => closeObject first .frozen "Cannot freeze"
  | .seal => closeObject first .sealed "Cannot seal"
  | .preventExtensions =>
    match first with
    | .object id => if !(← preventExtensions id) then throwType "Cannot prevent extensions"
    | _ => pure ()
    return first
  | .isFrozen => isClosed first .frozen
  | .isSealed => isClosed first .sealed
  | .isExtensible =>
    match first with
    | .object id => return .boolean (← isExtensible id)
    | _ => return .boolean false
  | .is => return .boolean (first.same (argument args 1))
  | .hasOwn =>
    let id ← toObject first
    return .boolean (← hasOwn id (← toKey (argument args 1)))
  | .hasOwnProperty =>
    let key ← toKey first
    return .boolean (← hasOwn (← toObject this) key)
  | .isPrototypeOf =>
    match first with
    | .object id => return .boolean (← inheritsFrom (← toObject this) id)
    | _ => return .boolean false
  | .propertyIsEnumerable =>
    let key ← toKey first
    return .boolean (((← getOwn (← toObject this) key).map (·.enumerable)).getD false)
  | .toString => describeTag this
  | .toLocaleString => call (← getOf this (.name "toString")) this #[]
  | .valueOf => return .object (← toObject this)
  | .getProto => return .ofObject? (← prototypeOf (← toObject this))
  | .setProto =>
    if this.isNullish then throwType "Object.prototype.__proto__ called on null or undefined"
    match this, first with
    | .object id, .object p => setPrototypeOrThrow id (some p)
    | .object id, .null => setPrototypeOrThrow id none
    | _, _ => pure ()
    return .undefined

end Exec
end EcmaScript

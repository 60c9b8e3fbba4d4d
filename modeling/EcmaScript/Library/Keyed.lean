import EcmaScript.Library.Iterator
import EcmaScript.Library.Object

/-! `Map`, `Set` and the collections that do not keep their keys alive. -/
namespace EcmaScript

def mapMethods : List Feature :=
  [.named "get" 1 (.map .get), .named "has" 1 (.map .has), .named "set" 2 (.map .set),
    .named "delete" 1 (.map .delete), .named "clear" 0 (.map .clear),
    .getter (.name "size") (.map .size), .named "forEach" 1 (.map .forEach),
    .named "keys" 0 (.map (.iterate .keys)), .named "values" 0 (.map (.iterate .values)),
    .named "entries" 0 (.map (.iterate .entries)),
    .synonym (.symbol .iterator) (.name "entries"), .tag "Map"]

def setMethods : List Feature :=
  [.named "has" 1 (.set .has), .named "add" 1 (.set .add), .named "delete" 1 (.set .delete),
    .named "clear" 0 (.set .clear), .getter (.name "size") (.set .size),
    .named "forEach" 1 (.set .forEach), .named "entries" 0 (.set (.iterate .entries)),
    .named "values" 0 (.set (.iterate .values)), .synonym (.name "keys") (.name "values"),
    .synonym (.symbol .iterator) (.name "values"), .tag "Set"]

def weakMapMethods : List Feature :=
  [.named "get" 1 (.weakMap .get), .named "has" 1 (.weakMap .has),
    .named "set" 2 (.weakMap .set), .named "delete" 1 (.weakMap .delete), .tag "WeakMap"]

def weakSetMethods : List Feature :=
  [.named "add" 1 (.weakSet .add), .named "has" 1 (.weakSet .has),
    .named "delete" 1 (.weakSet .delete), .tag "WeakSet"]

def weakRefMethods : List Feature := [.named "deref" 0 (.weakRef .deref), .tag "WeakRef"]

/-- The collections of entries. -/
inductive CollectionKind where
  | map | set | weakMap | weakSet
deriving DecidableEq, Inhabited

namespace CollectionKind

def name : CollectionKind → String
  | .map => "Map"
  | .set => "Set"
  | .weakMap => "WeakMap"
  | .weakSet => "WeakSet"

def wrap (t : KeyedTable) : CollectionKind → ObjectKind
  | .map => .map t
  | .set => .set t
  | .weakMap => .weakMap t
  | .weakSet => .weakSet t

def table? : CollectionKind → ObjectKind → Option KeyedTable
  | .map, .map t => some t
  | .set, .set t => some t
  | .weakMap, .weakMap t => some t
  | .weakSet, .weakSet t => some t
  | _, _ => none

def adder : CollectionKind → String
  | .map => "set"
  | .set => "add"
  | .weakMap => "set"
  | .weakSet => "add"

def hasValues : CollectionKind → Bool
  | .map => true
  | .set => false
  | .weakMap => true
  | .weakSet => false

end CollectionKind

def Intrinsics.collectionPrototype (i : Intrinsics) : CollectionKind → ObjectId
  | .map => i.mapPrototype
  | .set => i.setPrototype
  | .weakMap => i.weakMapPrototype
  | .weakSet => i.weakSetPrototype

namespace Exec

/-- The receiver of a method of a collection, and its entries. -/
def tableOf (kind : CollectionKind) (this : Value) (name : String) :
    Exec (ObjectId × KeyedTable) := do
  match this with
  | .object id =>
    match kind.table? (← object id).kind with
    | some t => return (id, t)
    | none => refuse
  | _ => refuse
where
  refuse : Exec (ObjectId × KeyedTable) := do
    throwType ("Method " ++ kind.name ++ ".prototype." ++ name ++
      " called on incompatible receiver " ++ (← describe this))

def changeTable (kind : CollectionKind) (id : ObjectId) (name : String)
    (f : KeyedTable → KeyedTable) : Exec Unit := do
  checkObjectWrite id (kind.name ++ ".prototype." ++ name)
  modifyObject id (·.modifyKind fun k =>
    match kind.table? k with
    | some t => kind.wrap (f t)
    | none => k)

def adderMissing {α : Type} (kind : CollectionKind) (f : Value) : Exec α := do
  match kind with
  | .map | .set =>
    throwType ("'" ++ (← describe f) ++ "' returned for property '" ++ kind.adder ++
      "' of object '#<" ++ kind.name ++ ">' is not a function")
  | _ => throwType (kind.name ++ " constructor: '" ++ kind.adder ++ "' is not a function")

/-- A new collection with the items of an iterable, which are added by the collection's own
method. -/
def constructCollection (kind : CollectionKind) (args : Array Value) (newTarget : ObjectId) :
    Exec Value := do
  let prototype ← prototypeFor newTarget ((← intrinsics).collectionPrototype kind)
  let this := Value.object (← newOfKind prototype (kind.wrap {}))
  let iterable := argument args 0
  if iterable.isNullish then return this
  let add ← getOf this (.name kind.adder)
  if !(← isCallable add) then adderMissing kind add
  forEachItem iterable fun item => do
    let entry ← if kind.hasValues then do
        let (key, v) ← readEntry item
        pure #[key, v]
      else pure #[item]
    let _ ← call add this entry
  return this

def forEachEntry (id : ObjectId) (f : Value → Value → Exec Unit) : Exec Unit :=
  loop 0 fun index => do
    match (((← object id).table?).getD {}).entryFrom? index with
    | none => return .inr ()
    | some (place, key, value) =>
      checkInterrupts
      f key value
      return .inl (place + 1)

def collectionCallback (args : Array Value) : Exec Value := do
  let f := argument args 0
  if !(← isCallable f) then throwType ((← describe f) ++ " is not a function")
  return f

def iterationName : IterationKind → String
  | .keys => "keys"
  | .values => "values"
  | .entries => "entries"

def mapFunction (f : MapFunction) (this : Value) (args : Array Value) : Exec Value := do
  let key := argument args 0
  match f with
  | .construct => throwType "Constructor Map requires 'new'"
  | .get =>
    let (_, t) ← tableOf .map this "get"
    return (t.get? key).getD .undefined
  | .has =>
    let (_, t) ← tableOf .map this "has"
    return .boolean (t.contains key)
  | .set =>
    let (id, _) ← tableOf .map this "set"
    changeTable .map id "set" (·.insert key (argument args 1))
    return this
  | .delete =>
    let (id, t) ← tableOf .map this "delete"
    let found := t.contains key
    changeTable .map id "delete" (·.erase key)
    return .boolean found
  | .clear =>
    let (id, _) ← tableOf .map this "clear"
    changeTable .map id "clear" (·.clear)
    return .undefined
  | .size =>
    let (_, t) ← tableOf .map this "size"
    return .ofNat t.size
  | .forEach =>
    let (id, _) ← tableOf .map this "forEach"
    let callback ← collectionCallback args
    forEachEntry id fun key v => do
      let _ ← call callback (argument args 1) #[v, key, this]
    return .undefined
  | .iterate kind =>
    let (id, _) ← tableOf .map this (iterationName kind)
    newMapIterator id kind

def setFunction (f : SetFunction) (this : Value) (args : Array Value) : Exec Value := do
  let key := argument args 0
  match f with
  | .construct => throwType "Constructor Set requires 'new'"
  | .has =>
    let (_, t) ← tableOf .set this "has"
    return .boolean (t.contains key)
  | .add =>
    let (id, _) ← tableOf .set this "add"
    changeTable .set id "add" fun t => if t.contains key then t else t.insert key key
    return this
  | .delete =>
    let (id, t) ← tableOf .set this "delete"
    let found := t.contains key
    changeTable .set id "delete" (·.erase key)
    return .boolean found
  | .clear =>
    let (id, _) ← tableOf .set this "clear"
    changeTable .set id "clear" (·.clear)
    return .undefined
  | .size =>
    let (_, t) ← tableOf .set this "size"
    return .ofNat t.size
  | .forEach =>
    let (id, _) ← tableOf .set this "forEach"
    let callback ← collectionCallback args
    forEachEntry id fun key _ => do
      let _ ← call callback (argument args 1) #[key, key, this]
    return .undefined
  | .iterate kind =>
    let (id, _) ← tableOf .set this (iterationName kind)
    newSetIterator id kind

def weakMapFunction (f : WeakMapFunction) (this : Value) (args : Array Value) : Exec Value := do
  let key := argument args 0
  match f with
  | .construct => throwType "Constructor WeakMap requires 'new'"
  | .get =>
    let (_, t) ← tableOf .weakMap this "get"
    return (t.get? key).getD .undefined
  | .has =>
    let (_, t) ← tableOf .weakMap this "has"
    return .boolean (t.contains key)
  | .set =>
    let (id, _) ← tableOf .weakMap this "set"
    if !key.isObject then
      throwType ("Invalid value used as weak map key: " ++ (← describe key))
    changeTable .weakMap id "set" (·.insert key (argument args 1))
    return this
  | .delete =>
    let (id, t) ← tableOf .weakMap this "delete"
    if !key.isObject then return .boolean false
    changeTable .weakMap id "delete" (·.erase key)
    return .boolean (t.contains key)

def weakSetFunction (f : WeakSetFunction) (this : Value) (args : Array Value) : Exec Value := do
  let key := argument args 0
  match f with
  | .construct => throwType "Constructor WeakSet requires 'new'"
  | .add =>
    let (id, _) ← tableOf .weakSet this "add"
    if !key.isObject then throwType ("Invalid value used in weak set: " ++ (← describe key))
    changeTable .weakSet id "add" (·.insert key (.boolean true))
    return this
  | .has =>
    let (_, t) ← tableOf .weakSet this "has"
    return .boolean (t.contains key)
  | .delete =>
    let (id, t) ← tableOf .weakSet this "delete"
    if !key.isObject then return .boolean false
    changeTable .weakSet id "delete" (·.erase key)
    return .boolean (t.contains key)

def constructWeakRef (args : Array Value) (newTarget : ObjectId) : Exec Value := do
  match argument args 0 with
  | .object target =>
    let prototype ← prototypeFor newTarget (← intrinsics).weakRefPrototype
    return .object (← newOfKind prototype (.weakRef target))
  | v => throwType ("WeakRef: invalid target " ++ (← describe v))

def weakRefFunction (f : WeakRefFunction) (this : Value) : Exec Value := do
  match f with
  | .construct => throwType "Constructor WeakRef requires 'new'"
  | .deref =>
    match this with
    | .object id =>
      match (← object id).kind with
      | .weakRef target => return .object target
      | _ => throwType "WeakRef.prototype.deref: 'this' is not a WeakRef"
    | _ => throwType "WeakRef.prototype.deref: 'this' is not a WeakRef"

end Exec
end EcmaScript

import EcmaScript.Library.Feature

/-! The iterators of arrays, strings, maps and sets. -/
namespace EcmaScript

def iteratorMethods : List Feature := [.method (.symbol .iterator) 0 (.iterator .self)]

def arrayIteratorMethods : List Feature :=
  [.tag "Array Iterator", .named "next" 0 (.iterator .arrayNext)]

def stringIteratorMethods : List Feature :=
  [.tag "String Iterator", .named "next" 0 (.iterator .stringNext)]

def mapIteratorMethods : List Feature :=
  [.tag "Map Iterator", .named "next" 0 (.iterator .keyedNext)]

def setIteratorMethods : List Feature :=
  [.tag "Set Iterator", .named "next" 0 (.iterator .keyedNext)]

def KeyedTable.entryFrom? (t : KeyedTable) (start : Nat) : Option (Nat × Value × Value) :=
  go (t.slots.size - start) start
where
  go : (count i : Nat) → Option (Nat × Value × Value)
    | 0, _ => none
    | count + 1, i =>
      match (t.slots[i]?).join with
      | some (key, value) => some (i, key, value)
      | none => go count (i + 1)

namespace Object

def table? (o : Object) : Option KeyedTable :=
  match o.kind with
  | .map t => some t
  | .set t => some t
  | _ => none

def isSet (o : Object) : Bool :=
  match o.kind with
  | .set _ => true
  | _ => false

end Object

namespace Exec

def newArrayIterator (target : Value) (kind : IterationKind) : Exec Value := do
  let i ← intrinsics
  return .object (← newOfKind i.arrayIteratorPrototype (.iterator (.array target 0 kind false)))

def newStringIterator (s : String) : Exec Value := do
  let i ← intrinsics
  return .object (← newOfKind i.stringIteratorPrototype (.iterator (.string s.toList)))

def newMapIterator (target : ObjectId) (kind : IterationKind) : Exec Value := do
  let i ← intrinsics
  return .object (← newOfKind i.mapIteratorPrototype (.iterator (.keyed target 0 kind false)))

def newSetIterator (target : ObjectId) (kind : IterationKind) : Exec Value := do
  let i ← intrinsics
  return .object (← newOfKind i.setIteratorPrototype (.iterator (.keyed target 0 kind false)))

def iterationResult (item : Option Value) : Exec Value := do
  return .object (← newObject [("value", item.getD .undefined), ("done", .boolean item.isNone)])

def iteratorState (this : Value) (name : String) : Exec (ObjectId × IteratorState) := do
  match this with
  | .object id =>
    match (← object id).kind with
    | .iterator state => return (id, state)
    | _ => refuse
  | _ => refuse
where
  refuse : Exec (ObjectId × IteratorState) := do
    throwType ("Method " ++ name ++ ".prototype.next called on incompatible receiver " ++
      (← describe this))

def modifyIterator (id : ObjectId) (f : IteratorState → IteratorState) : Exec Unit :=
  modifyObject id (·.modifyKind fun
    | .iterator state => .iterator (f state)
    | kind => kind)

def setIteratorState (id : ObjectId) (state : IteratorState) : Exec Unit :=
  modifyIterator id fun _ => state

def otherIterator {α : Type} : Exec α := throwType "next method called on incompatible iterator"

/-- The next element of what is indexed like an array. The end, once reached, is kept. -/
def nextElement (this : Value) : Exec Value := do
  match ← iteratorState this "Array Iterator" with
  | (_, .array _ _ _ true) => iterationResult none
  | (id, .array target index kind false) =>
    -- To read the length may run code that uses the iterator.
    let length ← toLength (← getOf target (.name "length"))
    if length ≤ index then
      modifyIterator id .ended
      iterationResult none
    else
      modifyIterator id (.movedTo (index + 1))
      let item ← match kind with
        | .keys => pure (Value.ofNat index)
        | .values => getOf target (.ofNat index)
        | .entries => newPair (.ofNat index) (← getOf target (.ofNat index))
      iterationResult (some item)
  | _ => otherIterator

def nextCharacter (this : Value) : Exec Value := do
  match ← iteratorState this "String Iterator" with
  | (_, .string []) => iterationResult none
  | (id, .string (c :: rest)) =>
    setIteratorState id (.string rest)
    iterationResult (some (.string (String.singleton c)))
  | _ => otherIterator

/-- The next entry of a map or a set. Entries that are added meanwhile are still met. -/
def nextEntry (this : Value) : Exec Value := do
  match ← iteratorState this "Map Iterator" with
  | (_, .keyed _ _ _ true) => iterationResult none
  | (id, .keyed target index kind false) =>
    let o ← object target
    match (o.table?.getD {}).entryFrom? index with
    | none =>
      setIteratorState id (.keyed target index kind true)
      iterationResult none
    | some (place, key, value) =>
      setIteratorState id (.keyed target (place + 1) kind false)
      let value := if o.isSet then key else value
      let item ← match kind with
        | .keys => pure key
        | .values => pure value
        | .entries => newPair key value
      iterationResult (some item)
  | _ => otherIterator

def iteratorFunction (f : IteratorFunction) (this : Value) : Exec Value :=
  match f with
  | .self => return this
  | .arrayNext => nextElement this
  | .stringNext => nextCharacter this
  | .keyedNext => nextEntry this

end Exec
end EcmaScript

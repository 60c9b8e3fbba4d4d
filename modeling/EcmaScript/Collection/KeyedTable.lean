import EcmaScript.Value.Basic
import Std.Data.HashMap

/-! The entries of maps and sets, in the order of insertion. A deleted entry leaves its slot empty,
so that an iteration that holds a slot number keeps its place. -/
namespace EcmaScript

/-- What makes two keys of a collection the same. -/
inductive TableKey where
  | undefined
  | null
  | boolean (b : Bool)
  | number (bits : UInt64)
  | string (s : String)
  | symbol (s : Symbol)
  | object (id : ObjectId)
deriving DecidableEq, Hashable

def TableKey.of : Value → TableKey
  | .undefined => .undefined
  | .null => .null
  | .boolean b => .boolean b
  | .number x => .number (if x.isNaN then Number.nan.toBits else (x + 0.0).toBits)
  | .string s => .string s
  | .symbol s => .symbol s
  | .object id => .object id

structure KeyedTable where
  slots : Array (Option (Value × Value)) := #[]
  places : Std.HashMap TableKey Nat := {}
deriving Inhabited

namespace KeyedTable

def size (t : KeyedTable) : Nat := t.places.size

def isEmpty (t : KeyedTable) : Bool := t.places.isEmpty

def get? (t : KeyedTable) (key : Value) : Option Value :=
  match t.places[TableKey.of key]? with
  | some i => ((t.slots[i]?).join).map (·.2)
  | none => none

def contains (t : KeyedTable) (key : Value) : Bool := t.places.contains (TableKey.of key)

def storedKey : Value → Value
  | .number x => .number (if x == 0.0 then 0.0 else x)
  | key => key

def insert (t : KeyedTable) (key value : Value) : KeyedTable :=
  let entry := some (storedKey key, value)
  match t.places[TableKey.of key]? with
  | some i => { t with slots := t.slots.setIfInBounds i entry }
  | none =>
    let place := t.slots.size
    { slots := t.slots.push entry, places := t.places.insert (TableKey.of key) place }

def erase (t : KeyedTable) (key : Value) : KeyedTable :=
  match t.places[TableKey.of key]? with
  | some i =>
    { slots := t.slots.setIfInBounds i none, places := t.places.erase (TableKey.of key) }
  | none => t

def clear (t : KeyedTable) : KeyedTable := { slots := t.slots.map fun _ => none }

def entries (t : KeyedTable) : List (Value × Value) := t.slots.toList.filterMap id

end KeyedTable
end EcmaScript

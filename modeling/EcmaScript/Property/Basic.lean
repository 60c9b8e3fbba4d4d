import EcmaScript.Value.Basic
import Std.Data.TreeMap

/-! Properties, and the partial descriptions that define them. -/
namespace EcmaScript

/-- What a property holds: a value, or functions that read and write it. -/
inductive Slot where
  | data (value : Value) (writable : Bool)
  | accessor (getter setter : Option Value)
deriving Inhabited

structure Property where
  slot : Slot
  enumerable : Bool
  configurable : Bool
deriving Inhabited

namespace Property

def data (value : Value) (writable enumerable configurable : Bool) : Property :=
  ⟨.data value writable, enumerable, configurable⟩

def plain (value : Value) : Property := data value true true true

def standard (value : Value) : Property := data value true false true

def constant (value : Value) : Property := data value false false false

def isAccessor (p : Property) : Bool :=
  match p.slot with
  | .accessor .. => true
  | .data .. => false

def value? (p : Property) : Option Value :=
  match p.slot with
  | .data v _ => some v
  | .accessor .. => none

end Property

/-- A description of a property in which every field may be missing. A function field that is
present and undefined asks for no function. -/
structure Descriptor where
  value : Option Value := none
  writable : Option Bool := none
  getter : Option Value := none
  setter : Option Value := none
  enumerable : Option Bool := none
  configurable : Option Bool := none
deriving Inhabited

namespace Descriptor

def data (value : Value) (writable enumerable configurable : Bool) : Descriptor :=
  { value := some value, writable := some writable, enumerable := some enumerable,
    configurable := some configurable }

def plain (value : Value) : Descriptor := data value true true true

def isAccessor (d : Descriptor) : Bool := d.getter.isSome || d.setter.isSome

def isData (d : Descriptor) : Bool := d.value.isSome || d.writable.isSome

def isGeneric (d : Descriptor) : Bool := !d.isAccessor && !d.isData

def functionOf (v : Value) : Option Value := if v.isUndefined then none else some v

def toProperty (d : Descriptor) : Property where
  slot :=
    if d.isAccessor then .accessor (d.getter.bind functionOf) (d.setter.bind functionOf)
    else .data (d.value.getD .undefined) (d.writable.getD false)
  enumerable := d.enumerable.getD false
  configurable := d.configurable.getD false

end Descriptor

def Property.toDescriptor (p : Property) : Descriptor :=
  match p.slot with
  | .data value writable => .data value writable p.enumerable p.configurable
  | .accessor getter setter =>
    { getter := some (getter.getD .undefined), setter := some (setter.getD .undefined),
      enumerable := some p.enumerable, configurable := some p.configurable }

/-! The own properties of an object. Indices are kept by size and all other keys in the order of
their creation. -/

structure PropertyTable where
  indexed : Std.TreeMap ArrayIndex Property := {}
  named : Array (PropertyKey × Property) := #[]
deriving Inhabited

namespace PropertyTable

def empty : PropertyTable := {}

def place? (t : PropertyTable) (key : PropertyKey) : Option Nat :=
  t.named.findIdx? fun e => e.1 == key

def get? (t : PropertyTable) : PropertyKey → Option Property
  | .index n => t.indexed[n]?
  | key => (t.named.find? fun e => e.1 == key).map (·.2)

def put (t : PropertyTable) (key : PropertyKey) (p : Property) : PropertyTable :=
  match key with
  | .index n => { t with indexed := t.indexed.insert n p }
  | key =>
    match t.place? key with
    | some i => { t with named := t.named.setIfInBounds i (key, p) }
    | none => { t with named := t.named.push (key, p) }

def erase (t : PropertyTable) : PropertyKey → PropertyTable
  | .index n => { t with indexed := t.indexed.erase n }
  | key => { t with named := t.named.filter fun e => e.1 != key }

def keys (t : PropertyTable) : List PropertyKey :=
  let named := t.named.toList.map (·.1)
  t.indexed.keys.map .index ++ named.filter (!·.isSymbol) ++ named.filter (·.isSymbol)

def indicesFrom (t : PropertyTable) (n : Nat) : List ArrayIndex :=
  (t.indexed.keys.filter (n ≤ ·.val)).reverse

def ofItems (items : Array Value) : PropertyTable :=
  (items.foldl (fun (t, n) v => (t.put (.ofNat n) (.plain v), n + 1))
    (({} : PropertyTable), 0)).1

end PropertyTable
end EcmaScript

import EcmaScript.Heap.Object

/-! Defining own properties: which changes an object allows, and what they make of it. -/
namespace EcmaScript

namespace Descriptor

def keepsFunction (current new : Option Value) : Bool :=
  match new with
  | none => true
  | some v => (current.getD .undefined).same v

def allowedOn (d : Descriptor) (p : Property) : Bool :=
  d.configurable != some true
    && (d.enumerable.getD p.enumerable == p.enumerable)
    && (d.isGeneric || d.isAccessor == p.isAccessor)
    && match p.slot with
      | .accessor getter setter => keepsFunction getter d.getter && keepsFunction setter d.setter
      | .data value writable =>
        writable || (d.writable != some true
          && match d.value with
            | some v => v.same value
            | none => true)

/-- The slot after a description is applied to it. Fields that are missing stay. -/
def applySlot (d : Descriptor) (slot : Slot) : Slot :=
  if d.isAccessor then
    let (getter, setter) := match slot with
      | .accessor getter setter => (getter, setter)
      | .data .. => (none, none)
    .accessor
      (match d.getter with
        | some v => functionOf v
        | none => getter)
      (match d.setter with
        | some v => functionOf v
        | none => setter)
  else if d.isData then
    let (value, writable) := match slot with
      | .data value writable => (value, writable)
      | .accessor .. => (.undefined, false)
    .data (d.value.getD value) (d.writable.getD writable)
  else slot

def apply (d : Descriptor) (p : Property) : Property where
  slot := d.applySlot p.slot
  enumerable := d.enumerable.getD p.enumerable
  configurable := d.configurable.getD p.configurable

end Descriptor

namespace Object

def define? (o : Object) (key : PropertyKey) (d : Descriptor) : Option Object :=
  match o.own? key with
  | none => if o.extensible then some (o.put key d.toProperty) else none
  | some p => if p.configurable || d.allowedOn p then some (o.put key (d.apply p)) else none

def lengthWritable (o : Object) : Bool :=
  match o.own? lengthKey with
  | some ⟨.data _ writable, _, _⟩ => writable
  | _ => false

/-- Defines an element of an array. The length grows to hold it. -/
def defineElement? (o : Object) (index : ArrayIndex) (d : Descriptor) : Option Object :=
  let length := o.arrayLength
  if length ≤ index.val && !o.lengthWritable then none
  else
    match o.define? (.index index) d with
    | none => none
    | some o =>
      if length ≤ index.val then
        some (o.put lengthKey (.data (.ofNat (index.val + 1)) true false false))
      else some o

/-- Removes elements, the first of the list first, up to one that is not configurable. Gives the
length that is left when all elements from `length` on were to go. -/
def dropElements (length : Nat) : List ArrayIndex → Object → Nat × Object
  | [], o => (length, o)
  | i :: rest, o =>
    match o.own? (.index i) with
    | some p =>
      if p.configurable then
        dropElements length rest { o with properties := o.properties.erase (.index i) }
      else (i.val + 1, o)
    | none => dropElements length rest o

/-- Sets the length of an array to `length`, which the description gives as its value. Elements
beyond it are removed from the end; one that cannot be removed stops this, and then the answer is
no. -/
def defineLength (o : Object) (length : Nat) (d : Descriptor) : Bool × Object :=
  let d := { d with value := some (.ofNat length) }
  if o.arrayLength ≤ length then
    match o.define? lengthKey d with
    | some o => (true, o)
    | none => (false, o)
  else if !o.lengthWritable then (false, o)
  else
    let (left, o) := dropElements length (o.properties.indicesFrom length) o
    let writable := if d.writable == some false then some false else none
    let d := { d with value := some (.ofNat left), writable := writable }
    (left == length, (o.define? lengthKey d).getD o)

end Object

def stringElement? (s : String) (key : PropertyKey) : Option Property :=
  match key with
  | .index n =>
    ((Text.units s)[n.val]?).map fun u => .data (.string (Text.ofUnits #[u])) false true false
  | _ => none

def Descriptor.agreesWithElement (d : Descriptor) (p : Property) : Bool :=
  d.configurable != some true && d.enumerable != some false && !d.isAccessor
    && d.writable != some true
    && match d.value, p.slot with
      | none, _ => true
      | some v, .data value _ => v.same value
      | some _, .accessor .. => false

/-- The own keys: indices by their size, strings and symbols. The elements of a string object are told
apart by the low 32 bits of their places, so that no more than `2 ^ 32` of them are listed. -/
def Object.ownKeys (o : Object) : List PropertyKey :=
  match o.kind with
  | .string s =>
    let length := Text.length16 s
    let elements := (List.range (min length (indexLimit + 1))).map PropertyKey.ofNat
    elements ++ o.properties.keys.filter fun
      | .index n => length ≤ n.val
      | _ => true
  | _ => o.properties.keys

end EcmaScript

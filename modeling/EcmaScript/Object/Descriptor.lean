import EcmaScript.Object.Array
import EcmaScript.Text.Shown

/-! Descriptions of properties as objects. -/
namespace EcmaScript

def Descriptor.fields (d : Descriptor) : List (String × Value) :=
  [("value", d.value), ("writable", d.writable.map .boolean), ("get", d.getter), ("set", d.setter),
    ("enumerable", d.enumerable.map .boolean), ("configurable", d.configurable.map .boolean)].filterMap
    fun (name, v) => v.map fun v => (name, v)

namespace Exec

def field? (id : ObjectId) (name : String) : Exec (Option Value) := do
  if ← has id (.name name) then return some (← getNamed id name)
  return none

def shownValue : Value → Exec String
  | .string s => return Text.escaped s
  | .object id => return "[object " ++ (← object id).kind.name ++ "]"
  | v => return v.primitiveText

def functionField? (id : ObjectId) (name role : String) : Exec (Option Value) := do
  match ← field? id name with
  | none => return none
  | some v =>
    if v.isUndefined || (← isCallable v) then return some v
    throwType (role ++ " must be a function: " ++ (← shownValue v))

/-- The description that an object holds. -/
def toDescriptor (id : ObjectId) : Exec Descriptor := do
  let enumerable ← field? id "enumerable"
  let configurable ← field? id "configurable"
  let value ← field? id "value"
  let writable ← field? id "writable"
  let getter ← functionField? id "get" "Getter"
  let setter ← functionField? id "set" "Setter"
  let d : Descriptor :=
    { value := value, writable := writable.map Value.truthy, getter := getter, setter := setter
      enumerable := enumerable.map Value.truthy, configurable := configurable.map Value.truthy }
  if d.isAccessor && d.isData then
    throwType "Invalid property descriptor. Cannot both specify accessors and a value or writable attribute"
  return d

def fromDescriptor (d : Descriptor) : Exec ObjectId := newObject d.fields

end Exec
end EcmaScript

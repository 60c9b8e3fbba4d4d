import EcmaScript.Object.Read

/-! Conversions between the types of the language. -/
namespace EcmaScript

/-- What a conversion to a primitive value is made for. -/
inductive Hint where
  | default | number | string
deriving DecidableEq, Inhabited

def Hint.name : Hint → String
  | .default => "default"
  | .number => "number"
  | .string => "string"

def Hint.methods : Hint → List String
  | .string => ["toString", "valueOf"]
  | _ => ["valueOf", "toString"]

namespace Exec

def firstPrimitive (id : ObjectId) : List String → Exec Value
  | [] => throwType "Cannot convert object to primitive value"
  | name :: rest => do
    let f ← getNamed id name
    if ← isCallable f then
      let v ← call f (.object id) #[]
      if !v.isObject then return v
    firstPrimitive id rest

def toPrimitive (v : Value) (hint : Hint) : Exec Value := do
  match v with
  | .object id =>
    let custom ← get id (.symbol .toPrimitive)
    if custom.isNullish then firstPrimitive id hint.methods
    else
      if !(← isCallable custom) then throwType "Symbol.toPrimitive is not a function"
      let result ← call custom v #[.string hint.name]
      if result.isObject then throwType "Cannot convert object to primitive value"
      return result
  | _ => return v

def primitiveToNumber : Value → Exec Float
  | .symbol _ => throwType "Cannot convert a Symbol value to a number"
  | v => return v.primitiveNumber

def toNumber (v : Value) : Exec Float := do
  match v with
  | .number x => return x
  | .object _ => primitiveToNumber (← toPrimitive v .number)
  | _ => primitiveToNumber v

def primitiveToText : Value → Exec String
  | .symbol _ => throwType "Cannot convert a Symbol value to a string"
  | v => return v.primitiveText

def toText (v : Value) : Exec String := do
  match v with
  | .string s => return s
  | .object _ => primitiveToText (← toPrimitive v .string)
  | _ => primitiveToText v

def primitiveKey : Value → PropertyKey
  | .string s => .ofString s
  | .symbol s => .symbol s
  | .number x => .ofNumber x
  | v => .name v.primitiveText

def toKey (v : Value) : Exec PropertyKey := do
  match v with
  | .object _ => return primitiveKey (← toPrimitive v .string)
  | _ => return primitiveKey v

/-- The object of a value; primitive values are wrapped. -/
def toObject (v : Value) : Exec ObjectId := do
  let i ← intrinsics
  match v with
  | .object id => return id
  | .undefined | .null => throwType "Cannot convert undefined or null to object"
  | .boolean b => newOfKind i.booleanPrototype (.boolean b)
  | .number x => newOfKind i.numberPrototype (.number x)
  | .symbol s => newOfKind i.symbolPrototype (.symbol s)
  | .string s =>
    allocate
      { prototype := some i.stringPrototype, kind := .string s
        properties := ({} : PropertyTable).put (.name "length")
          (.constant (.ofNat (Text.length16 s))) }

def toInt32 (v : Value) : Exec Int32 := return Number.toInt32 (← toNumber v)

def toUInt32 (v : Value) : Exec UInt32 := return Number.toUInt32 (← toNumber v)

def toIntegerOrInfinity (v : Value) : Exec Float := return Number.toIntegerOrInfinity (← toNumber v)

def maxLength : Float := 9007199254740991.0

def toLength (v : Value) : Exec Nat := do
  let n ← toIntegerOrInfinity v
  if n ≤ 0.0 then return 0
  return Number.toNat (if maxLength < n then maxLength else n)

/-- The operator `==` on values of which none is an object. -/
def primitiveLooseEq : Value → Value → Bool
  | .undefined, b => b.isNullish
  | .null, b => b.isNullish
  | _, .undefined => false
  | _, .null => false
  | .number x, .string s => x == Number.ofText s
  | .string s, .number y => Number.ofText s == y
  | .boolean a, .boolean b => a == b
  | .boolean a, .number y => (Value.boolean a).primitiveNumber == y
  | .boolean a, .string s => (Value.boolean a).primitiveNumber == Number.ofText s
  | .number x, .boolean b => x == (Value.boolean b).primitiveNumber
  | .string s, .boolean b => Number.ofText s == (Value.boolean b).primitiveNumber
  | a, b => a.strictEq b

/-- The operator `==`. Booleans count as numbers before an object is asked for its value. -/
def looseEq (a b : Value) : Exec Bool := do
  match a, b with
  | .object _, .object _ => return a.strictEq b
  | .object _, _ =>
    if b.isNullish then return false
    return primitiveLooseEq (← toPrimitive a .default) b
  | _, .object _ =>
    if a.isNullish then return false
    return primitiveLooseEq a (← toPrimitive b .default)
  | _, _ => return primitiveLooseEq a b

end Exec
end EcmaScript

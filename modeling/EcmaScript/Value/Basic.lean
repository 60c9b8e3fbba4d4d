import EcmaScript.Number.Text
import EcmaScript.Text.Utf16

/-! Values that scripts compute with. -/
namespace EcmaScript

/-- The identity of an object: its place in the heap, in order of creation. -/
structure ObjectId where
  index : Nat
deriving DecidableEq, Hashable, Inhabited

/-- The identity of a scope, in order of creation. -/
structure ScopeId where
  index : Nat
deriving DecidableEq, Inhabited

/-- A symbol. Two symbols are the same when they were created together. -/
structure Symbol where
  id : Nat
  description : Option String
  /-- It belongs to the registry that all scripts share. -/
  registered : Bool := false
deriving DecidableEq, Hashable, Inhabited

namespace Symbol

def iterator : Symbol := ⟨0, some "Symbol.iterator", false⟩
def asyncIterator : Symbol := ⟨1, some "Symbol.asyncIterator", false⟩
def hasInstance : Symbol := ⟨2, some "Symbol.hasInstance", false⟩
def toPrimitive : Symbol := ⟨3, some "Symbol.toPrimitive", false⟩
def toStringTag : Symbol := ⟨4, some "Symbol.toStringTag", false⟩
def species : Symbol := ⟨5, some "Symbol.species", false⟩

def wellKnown : List (String × Symbol) :=
  [("iterator", iterator), ("asyncIterator", asyncIterator), ("hasInstance", hasInstance),
    ("toPrimitive", toPrimitive), ("toStringTag", toStringTag), ("species", species)]

def text (s : Symbol) : String := "Symbol(" ++ s.description.getD "" ++ ")"

end Symbol

inductive Value where
  | undefined
  | null
  | boolean (b : Bool)
  | number (x : Float)
  | string (s : String)
  | symbol (s : Symbol)
  | object (id : ObjectId)
deriving Inhabited

namespace Value

def isUndefined : Value → Bool
  | .undefined => true
  | _ => false

def isNullish : Value → Bool
  | .undefined => true
  | .null => true
  | _ => false

def isObject : Value → Bool
  | .object _ => true
  | _ => false

def object? : Value → Option ObjectId
  | .object id => some id
  | _ => none

def ofObject? : Option ObjectId → Value
  | some id => .object id
  | none => .null

def ofNat (n : Nat) : Value := .number (Float.ofNat n)

def truthy : Value → Bool
  | .undefined => false
  | .null => false
  | .boolean b => b
  | .number x => !(x == 0.0 || x.isNaN)
  | .string s => s != ""
  | .symbol _ => true
  | .object _ => true

def strictEq : Value → Value → Bool
  | .undefined, .undefined => true
  | .null, .null => true
  | .boolean a, .boolean b => a == b
  | .number x, .number y => x == y
  | .string a, .string b => a == b
  | .symbol a, .symbol b => a == b
  | .object a, .object b => a == b
  | _, _ => false

def sameZero : Value → Value → Bool
  | .number x, .number y => Number.sameZero x y
  | a, b => strictEq a b

def same : Value → Value → Bool
  | .number x, .number y => Number.same x y
  | a, b => strictEq a b

def primitiveText : Value → String
  | .undefined => "undefined"
  | .null => "null"
  | .boolean true => "true"
  | .boolean false => "false"
  | .number x => Number.text x
  | .string s => s
  | .symbol s => s.text
  | .object _ => "[object Object]"

def primitiveNumber : Value → Float
  | .null => 0.0
  | .boolean true => 1.0
  | .boolean false => 0.0
  | .number x => x
  | .string s => Number.ofText s
  | _ => Number.nan

end Value

def argument (args : Array Value) (i : Nat) : Value := (args[i]?).getD .undefined

/-! Names of properties. A string that writes an array index stands for that index, so each key has
one form. -/

def indexLimit : Nat := 4294967295

abbrev ArrayIndex := Fin indexLimit

instance : @NeZero Nat Zero.ofOfNat0 indexLimit := ⟨by decide⟩

/-- A name of a property. A key made by `ofString` is never `name s` for the decimal digits of an
index. -/
inductive PropertyKey where
  | index (n : ArrayIndex)
  | name (s : String)
  | symbol (s : Symbol)
deriving DecidableEq, Hashable, Inhabited

namespace PropertyKey

def index? (s : String) : Option ArrayIndex :=
  let cs := s.toList
  if cs.isEmpty || 10 < cs.length || (1 < cs.length && cs.head? == some '0')
    || !cs.all Char.isDigit then none
  else
    let n := Number.natOfDigits cs
    if h : n < indexLimit then some ⟨n, h⟩ else none

def ofString (s : String) : PropertyKey :=
  match index? s with
  | some n => .index n
  | none => .name s

def ofNat (n : Nat) : PropertyKey :=
  if h : n < indexLimit then .index ⟨n, h⟩ else .name (Number.natText n)

def ofNumber (x : Float) : PropertyKey :=
  if 0.0 ≤ x && x < 4294967295.0 && x.floor == x then .ofNat x.toUInt64.toNat
  else ofString (Number.text x)

def string? : PropertyKey → Option String
  | .index n => some (Number.natText n.val)
  | .name s => some s
  | .symbol _ => none

def isSymbol : PropertyKey → Bool
  | .symbol _ => true
  | _ => false

def text : PropertyKey → String
  | .index n => Number.natText n.val
  | .name s => s
  | .symbol s => s.text

def toValue : PropertyKey → Value
  | .index n => .string (Number.natText n.val)
  | .name s => .string s
  | .symbol s => .symbol s

def functionName : PropertyKey → String
  | .index n => Number.natText n.val
  | .name s => s
  | .symbol s => (s.description.map fun d => "[" ++ d ++ "]").getD ""

end PropertyKey
end EcmaScript

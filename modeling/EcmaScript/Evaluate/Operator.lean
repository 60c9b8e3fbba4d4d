import EcmaScript.Object.Write

/-! The binary operators. -/
namespace EcmaScript

def Number.power (x y : Float) : Float :=
  if y.isNaN || (x.abs == 1.0 && y.isInf) then Number.nan else x.pow y

def Text.before (a b : String) : Bool := Text.unitsLt (Text.units a).toList (Text.units b).toList

namespace Exec

def primitiveLess (a b : Value) : Exec (Option Bool) := do
  match a, b with
  | .string x, .string y => return some (Text.before x y)
  | _, _ =>
    let x ← primitiveToNumber a
    let y ← primitiveToNumber b
    return if x.isNaN || y.isNaN then none else some (x < y)

def less (a b : Value) : Exec (Option Bool) := do
  let x ← toPrimitive a .number
  primitiveLess x (← toPrimitive b .number)

def greater (a b : Value) : Exec (Option Bool) := do
  let x ← toPrimitive a .number
  primitiveLess (← toPrimitive b .number) x

def arithmetic (f : Float → Float → Float) (a b : Value) : Exec Value := do
  let x ← toNumber a
  return .number (f x (← toNumber b))

def bitwise (f : Int32 → Int32 → Int32) (a b : Value) : Exec Value := do
  let x ← toInt32 a
  return .number (Float.ofInt (f x (← toInt32 b)).toInt)

def add (a b : Value) : Exec Value := do
  let x ← toPrimitive a .default
  let y ← toPrimitive b .default
  match x, y with
  | .string s, _ => return .string (s ++ (← primitiveToText y))
  | _, .string t => return .string ((← primitiveToText x) ++ t)
  | _, _ =>
    let m ← primitiveToNumber x
    return .number (m + (← primitiveToNumber y))

def shiftBy (v : Value) : Exec UInt32 := return (← toUInt32 v) &&& 31

def applyBinary (op : BinaryOp) (a b : Value) : Exec Value := do
  match op with
  | .add => add a b
  | .sub => arithmetic (· - ·) a b
  | .mul => arithmetic (· * ·) a b
  | .div => arithmetic (· / ·) a b
  | .mod => arithmetic Number.remainder a b
  | .exp => arithmetic Number.power a b
  | .shl =>
    let x ← toInt32 a
    return .number (Float.ofInt (x <<< (← shiftBy b).toInt32).toInt)
  | .shr =>
    let x ← toInt32 a
    return .number (Float.ofInt (x >>> (← shiftBy b).toInt32).toInt)
  | .ushr =>
    let x ← toUInt32 a
    return .number (x >>> (← shiftBy b)).toFloat
  | .bitAnd => bitwise (· &&& ·) a b
  | .bitOr => bitwise (· ||| ·) a b
  | .bitXor => bitwise (· ^^^ ·) a b
  | .equal => return .boolean (← looseEq a b)
  | .notEqual => return .boolean !(← looseEq a b)
  | .strictEqual => return .boolean (a.strictEq b)
  | .strictNotEqual => return .boolean !(a.strictEq b)
  | .less => return .boolean ((← less a b) == some true)
  | .greater => return .boolean ((← greater a b) == some true)
  | .lessEqual => return .boolean ((← greater a b) == some false)
  | .greaterEqual => return .boolean ((← less a b) == some false)
  | .instanceOf => return .boolean (← instanceOf a b)
  | .isIn => return .boolean (← hasIn a b)

end Exec
end EcmaScript

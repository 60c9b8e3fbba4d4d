import EcmaScript.Evaluate.Operator
import EcmaScript.Library.Feature
import EcmaScript.Number.Elementary

/-! `Number`, `Boolean` and the global functions on numbers. -/
namespace EcmaScript

def maxSafeInteger : Float := 9007199254740991.0

def numberStatics : List Feature :=
  [.constant (.name "MAX_SAFE_INTEGER") (.number maxSafeInteger),
    .constant (.name "MIN_SAFE_INTEGER") (.number (-maxSafeInteger)),
    .constant (.name "EPSILON") (.number (Float.scaleB 1.0 (-52))),
    .constant (.name "MAX_VALUE") (.number (Float.ofBits 0x7FEFFFFFFFFFFFFF)),
    .constant (.name "MIN_VALUE") (.number (Float.ofBits 1)),
    .constant (.name "NaN") (.number Number.nan),
    .constant (.name "POSITIVE_INFINITY") (.number Number.infinity),
    .constant (.name "NEGATIVE_INFINITY") (.number (-Number.infinity)),
    .named "isFinite" 1 (.number .isFinite), .named "isNaN" 1 (.number .isNaN),
    .named "isInteger" 1 (.number .isInteger),
    .named "isSafeInteger" 1 (.number .isSafeInteger), .named "parseInt" 2 (.number .parseInt),
    .named "parseFloat" 1 (.number .parseFloat)]

def numberMethods : List Feature :=
  [.named "valueOf" 0 (.number .valueOf), .named "toString" 1 (.number .toString),
    .named "toLocaleString" 0 (.number .toLocaleString), .named "toFixed" 1 (.number .toFixed),
    .named "toExponential" 1 (.number .toExponential),
    .named "toPrecision" 1 (.number .toPrecision)]

def booleanMethods : List Feature :=
  [.named "toString" 0 (.boolean .toString), .named "valueOf" 0 (.boolean .valueOf)]

/-- A number with `places` digits after the point. No sign is written before zeros alone. -/
def Number.roundedText (x : Float) (places : Nat) : String :=
  let body := fixedText x.abs places
  if x < 0.0 && body.toList.any fun c => c.isDigit && c != '0' then "-" ++ body else body

namespace Exec

def wrappedNumber (name : String) (this : Value) : Exec Float := do
  match this with
  | .number x => return x
  | .object id =>
    match (← object id).kind with
    | .number x => return x
    | _ => refuse
  | _ => refuse
where
  refuse : Exec Float :=
    throwType ("Number.prototype." ++ name ++ " requires that 'this' be a Number")

def wrappedBoolean (name : String) (this : Value) : Exec Bool := do
  match this with
  | .boolean b => return b
  | .object id =>
    match (← object id).kind with
    | .boolean b => return b
    | _ => refuse
  | _ => refuse
where
  refuse : Exec Bool :=
    throwType ("Boolean.prototype." ++ name ++ " requires that 'this' be a Boolean")

def digitsArgument (args : Array Value) (least : Nat) (name : String) : Exec Nat := do
  let n ← toIntegerOrInfinity (argument args 0)
  if n < Float.ofNat least || 100.0 < n then
    throwRange (name ++ "() argument must be between " ++ Number.natText least ++ " and 100")
  return Number.toNat n

def integer? : Value → Option Float
  | .number x => if !x.isNaN && !x.isInf && Number.trunc x == x then some x else none
  | _ => none

def numberArgument (args : Array Value) : Exec Float :=
  match args[0]? with
  | some v => toNumber v
  | none => return 0.0

def constructNumber (args : Array Value) (newTarget : ObjectId) : Exec Value := do
  let x ← numberArgument args
  let prototype ← prototypeFor newTarget (← intrinsics).numberPrototype
  return .object (← newOfKind prototype (.number x))

def constructBoolean (args : Array Value) (newTarget : ObjectId) : Exec Value := do
  let prototype ← prototypeFor newTarget (← intrinsics).booleanPrototype
  return .object (← newOfKind prototype (.boolean (argument args 0).truthy))

def isFiniteNumber (x : Float) : Bool := !x.isNaN && !x.isInf

def numberFunction (f : NumberFunction) (this : Value) (args : Array Value) : Exec Value := do
  let first := argument args 0
  match f with
  | .construct => return .number (← numberArgument args)
  | .isFinite =>
    match first with
    | .number x => return .boolean (isFiniteNumber x)
    | _ => return .boolean false
  | .isNaN =>
    match first with
    | .number x => return .boolean x.isNaN
    | _ => return .boolean false
  | .isInteger => return .boolean (integer? first).isSome
  | .isSafeInteger =>
    return .boolean (((integer? first).map fun x => (x.abs ≤ maxSafeInteger : Bool)).getD false)
  | .parseInt =>
    let s ← toText first
    let radix ← toInt32 (argument args 1)
    return .number (Number.integerPrefix s radix.toInt)
  | .parseFloat => return .number (Number.ofPrefix (← toText first))
  | .valueOf => return .number (← wrappedNumber "valueOf" this)
  | .toString =>
    let x ← wrappedNumber "toString" this
    let radix ← match first with
      | .undefined => pure 10.0
      | v => toIntegerOrInfinity v
    if !(2.0 ≤ radix && radix ≤ 36.0) then
      throwRange "toString() radix must be between 2 and 36"
    if radix == 10.0 then return .string (Number.text x)
    return .string (Number.radixText x (Number.toNat radix))
  | .toLocaleString => return .string (Number.text (← wrappedNumber "toLocaleString" this))
  | .toFixed =>
    let x ← wrappedNumber "toFixed" this
    let places ← digitsArgument args 0 "toFixed"
    if !isFiniteNumber x || 1e21 ≤ x.abs then return .string (Number.text x)
    return .string (Number.roundedText x places)
  | .toExponential =>
    let x ← wrappedNumber "toExponential" this
    if !isFiniteNumber x then return .string (Number.text x)
    if first.isUndefined then return .string (Number.shortestExponentialText x)
    return .string (Number.exponentialText x (← digitsArgument args 0 "toExponential"))
  | .toPrecision =>
    let x ← wrappedNumber "toPrecision" this
    if first.isUndefined || !isFiniteNumber x then return .string (Number.text x)
    return .string (Number.precisionText x (← digitsArgument args 1 "toPrecision"))
  | .globalIsNaN => return .boolean (← toNumber first).isNaN
  | .globalIsFinite => return .boolean (isFiniteNumber (← toNumber first))

def booleanFunction (f : BooleanFunction) (this : Value) (args : Array Value) : Exec Value := do
  match f with
  | .construct => return .boolean (argument args 0).truthy
  | .toString => return .string (if ← wrappedBoolean "toString" this then "true" else "false")
  | .valueOf => return .boolean (← wrappedBoolean "valueOf" this)

end Exec

/-! `Math`. -/

def mathFeatures : List Feature :=
  [.constant (.name "E") (.number 2.718281828459045),
    .constant (.name "LN10") (.number 2.302585092994046),
    .constant (.name "LN2") (.number 0.6931471805599453),
    .constant (.name "LOG10E") (.number 0.4342944819032518),
    .constant (.name "LOG2E") (.number 1.4426950408889634),
    .constant (.name "PI") (.number 3.141592653589793),
    .constant (.name "SQRT1_2") (.number 0.7071067811865476),
    .constant (.name "SQRT2") (.number 1.4142135623730951), .tag "Math",
    .named "abs" 1 (.math .abs), .named "acos" 1 (.math .acos), .named "acosh" 1 (.math .acosh),
    .named "asin" 1 (.math .asin), .named "asinh" 1 (.math .asinh), .named "atan" 1 (.math .atan),
    .named "atanh" 1 (.math .atanh), .named "cbrt" 1 (.math .cbrt), .named "ceil" 1 (.math .ceil),
    .named "cos" 1 (.math .cos), .named "cosh" 1 (.math .cosh), .named "exp" 1 (.math .exp),
    .named "expm1" 1 (.math .expm1), .named "floor" 1 (.math .floor),
    .named "fround" 1 (.math .fround), .named "log" 1 (.math .log),
    .named "log1p" 1 (.math .log1p), .named "log10" 1 (.math .log10),
    .named "log2" 1 (.math .log2), .named "round" 1 (.math .round), .named "sign" 1 (.math .sign),
    .named "sin" 1 (.math .sin), .named "sinh" 1 (.math .sinh), .named "sqrt" 1 (.math .sqrt),
    .named "tan" 1 (.math .tan), .named "tanh" 1 (.math .tanh), .named "trunc" 1 (.math .trunc),
    .named "atan2" 2 (.math .atan2), .named "pow" 2 (.math .pow), .named "max" 2 (.math .max),
    .named "min" 2 (.math .min), .named "hypot" 2 (.math .hypot),
    .named "clz32" 1 (.math .clz32), .named "imul" 2 (.math .imul),
    .named "random" 0 (.math .random)]

namespace Number

def roundUp (x : Float) : Float :=
  if x.isNaN || x.isInf || x == 0.0 then x
  else if -0.5 ≤ x && x < 0.0 then -0.0
  else (x + 0.5).floor

def sign (x : Float) : Float :=
  if x.isNaN || x == 0.0 then x else if 0.0 < x then 1.0 else -1.0

def maximum (xs : List Float) : Float :=
  if xs.any Float.isNaN then nan
  else xs.foldl (fun m x => if m < x || (x == 0.0 && m == 0.0 && isNegative m) then x else m)
    (-infinity)

def minimum (xs : List Float) : Float :=
  if xs.any Float.isNaN then nan
  else xs.foldl (fun m x => if x < m || (x == 0.0 && m == 0.0 && isNegative x) then x else m)
    infinity

def hypotenuse (xs : List Float) : Float :=
  if xs.any Float.isInf then infinity
  else if xs.any Float.isNaN then nan
  else
    let largest := xs.foldl (fun m x => if m < x.abs then x.abs else m) 0.0
    if largest == 0.0 then 0.0
    else
      let sum := xs.foldl (fun s x => s + (x / largest) * (x / largest)) 0.0
      largest * sum.sqrt

def leadingZeros (n : UInt32) : Nat := if n = 0 then 32 else 31 - Nat.log2 n.toNat

end Number

def nextRandom (x : UInt64) : UInt64 :=
  let x := x ^^^ (x >>> 12)
  let x := x ^^^ (x <<< 25)
  x ^^^ (x >>> 27)

def randomNumber (x : UInt64) : Float :=
  ((x * 0x2545F4914F6CDD1D) >>> 11).toFloat / 9007199254740992.0

namespace Exec

def mathFunction (f : MathFunction) (args : Array Value) : Exec Value := do
  let of (g : Float → Float) : Exec Value := return .number (g (← toNumber (argument args 0)))
  let ofTwo (g : Float → Float → Float) : Exec Value := do
    let x ← toNumber (argument args 0)
    return .number (g x (← toNumber (argument args 1)))
  let ofAll (g : List Float → Float) : Exec Value :=
    return .number (g (← args.toList.mapM toNumber))
  match f with
  | .abs => of Float.abs
  | .acos => of Float.acos
  | .acosh => of Float.acosh
  | .asin => of Float.asin
  | .asinh => of Float.asinh
  | .atan => of Float.atan
  | .atanh => of Float.atanh
  | .cbrt => of Number.cubeRoot
  | .ceil => of Float.ceil
  | .cos => of Float.cos
  | .cosh => of Float.cosh
  | .exp => of Float.exp
  | .expm1 => of Number.expm1
  | .floor => of Float.floor
  | .fround => of fun x => x.toFloat32.toFloat
  | .log => of Float.log
  | .log1p => of Number.log1p
  | .log10 => of Float.log10
  | .log2 => of Float.log2
  | .round => of Number.roundUp
  | .sign => of Number.sign
  | .sin => of Float.sin
  | .sinh => of Float.sinh
  | .sqrt => of Float.sqrt
  | .tan => of Float.tan
  | .tanh => of Float.tanh
  | .trunc => of Number.trunc
  | .atan2 => ofTwo Float.atan2
  | .pow => ofTwo Number.power
  | .max => ofAll Number.maximum
  | .min => ofAll Number.minimum
  | .hypot => ofAll Number.hypotenuse
  | .clz32 => return .ofNat (Number.leadingZeros (← toUInt32 (argument args 0)))
  | .imul =>
    let x ← toUInt32 (argument args 0)
    let y ← toUInt32 (argument args 1)
    return .number (Float.ofInt (x * y).toInt32.toInt)
  | .random => update fun s =>
    let x := nextRandom s.random
    (.number (randomNumber x), { s with random := x })

end Exec
end EcmaScript

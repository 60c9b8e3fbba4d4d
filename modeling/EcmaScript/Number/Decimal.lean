/-! Finite numbers as exact binary fractions. -/
namespace EcmaScript.Number

/-- The value `mantissa * 2 ^ exponent`. -/
structure Binary where
  mantissa : Nat
  exponent : Int

def nan : Float := 0.0 / 0.0

def infinity : Float := 1.0 / 0.0

def isNegative (x : Float) : Bool := x.toBits >>> 63 == 1

def magnitude (x : Float) : Binary :=
  let bits := x.toBits
  let exponent := ((bits >>> 52) &&& 0x7FF).toNat
  let fraction := (bits &&& 0xFFFFFFFFFFFFF).toNat
  if exponent = 0 then ⟨fraction, -1074⟩ else ⟨fraction + 0x10000000000000, (exponent : Int) - 1075⟩

def Binary.ratio (b : Binary) : Nat × Nat :=
  match b.exponent with
  | .ofNat e => (b.mantissa <<< e, 1)
  | .negSucc e => (b.mantissa, 1 <<< (e + 1))

def toInt (x : Float) : Int :=
  if x.isNaN || x.isInf then 0
  else if x.abs < 4611686018427387904.0 then x.toInt64.toInt
  else
    let (n, d) := (magnitude x).ratio
    if isNegative x then -((n / d : Nat) : Int) else (n / d : Nat)

/-- Rounds toward zero, keeping the sign of zero. From `2 ^ 52` on all numbers are whole. -/
def trunc (x : Float) : Float :=
  if 0.0 < x && x < 4503599627370496.0 then x.toUInt64.toFloat
  else if x < 0.0 && -4503599627370496.0 < x then -(-x).toUInt64.toFloat
  else x

def toIntegerOrInfinity (x : Float) : Float := if x.isNaN then 0.0 else trunc x + 0.0

def toUInt32 (x : Float) : UInt32 :=
  if 0.0 ≤ x && x < 4294967296.0 then x.toUInt32
  else UInt32.ofNat ((toInt x).emod 4294967296).toNat

def toInt32 (x : Float) : Int32 := (toUInt32 x).toInt32

def toNat (x : Float) : Nat := x.toUInt64.toNat

def remainder (x y : Float) : Float :=
  if x.isNaN || y.isNaN || x.isInf || y == 0.0 then nan
  else if y.isInf || x == 0.0 then x
  else
    let a := magnitude x
    let b := magnitude y
    let e := min a.exponent b.exponent
    let r := (a.mantissa <<< (a.exponent - e).toNat) % (b.mantissa <<< (b.exponent - e).toNat)
    let m := Float.scaleB (Float.ofNat r) e
    if isNegative x then -m else m

def relativeIndex (x : Float) (length : Nat) : Nat :=
  let n := toIntegerOrInfinity x
  if n < 0.0 then
    let m := Float.ofNat length + n
    if m < 0.0 then 0 else toNat m
  else if n < Float.ofNat length then toNat n
  else length

def sameZero (x y : Float) : Bool := x == y || (x.isNaN && y.isNaN)

def same (x y : Float) : Bool :=
  if x.isNaN && y.isNaN then true else x == y && isNegative x == isNegative y

/-! Decimal digits of numbers: the fewest digits that read back, and a given number of places. -/

/-- The value `digits * 10 ^ exponent`. -/
structure Decimal where
  digits : Nat
  exponent : Int

def digitCount (n : Nat) : Nat := (Nat.toDigits 10 n).length

def Decimal.strip : Nat → Decimal → Decimal
  | 0, d => d
  | fuel + 1, d =>
    if d.digits ≠ 0 ∧ d.digits % 10 = 0 then strip fuel ⟨d.digits / 10, d.exponent + 1⟩ else d

def scale10 (num den : Nat) (e : Int) : Nat × Nat :=
  match e with
  | .ofNat k => (num * Nat.pow 10 k, den)
  | .negSucc k => (num, den * Nat.pow 10 (k + 1))

def pointFrom (num den : Nat) : (fuel : Nat) → (p : Int) → Int
  | 0, p => p
  | fuel + 1, p =>
    let (n, d) := scale10 num den (-p)
    if n < d then p else pointFrom num den fuel (p + 1)

def decimalPoint (num den : Nat) : Int :=
  let bits := (Nat.log2 num : Int) - (Nat.log2 den : Int)
  pointFrom num den 4 ((bits - 1) * 30103 / 100000)

/-- The positive values `num / den` whose nearest number is the one in the middle: from
`(num - below) / den` to `(num + above) / den`, ends included or not. -/
structure RoundingInterval where
  num : Nat
  den : Nat
  below : Nat
  above : Nat
  closed : Bool

/-- The rounding interval of a positive finite number. The gap below a power of two is half the gap
above it. -/
def roundingInterval (b : Binary) : RoundingInterval :=
  let (widen, below, above) := if b.mantissa = 0x10000000000000 then (4, 1, 2) else (2, 1, 1)
  let e := b.exponent - (if b.mantissa = 0x10000000000000 then 2 else 1)
  let closed := b.mantissa % 2 = 0
  match e with
  | .ofNat k => ⟨(b.mantissa * widen) <<< k, 1, below <<< k, above <<< k, closed⟩
  | .negSucc k => ⟨b.mantissa * widen, 1 <<< (k + 1), below, above, closed⟩

def RoundingInterval.holds (i : RoundingInterval) (d : Nat) (e : Int) : Bool :=
  let (n, m) := scale10 d 1 e
  let x := n * i.den
  let lo := (i.num - i.below) * m
  let hi := (i.num + i.above) * m
  if i.closed then decide (lo ≤ x) && decide (x ≤ hi) else decide (lo < x) && decide (x < hi)

/-- The decimal with `n` digits, its point at `p`, that rounds to the number of the interval and is
nearest to it; of two as near the larger. -/
def RoundingInterval.onGrid? (i : RoundingInterval) (p : Int) (n : Nat) : Option Decimal :=
  let e := p - n
  let (x, y) := scale10 i.num i.den (-e)
  let d := x / y
  let down := i.holds d e
  let up := i.holds (d + 1) e
  if up && (!down || decide (y ≤ 2 * (x % y))) then some ⟨d + 1, e⟩
  else if down then some ⟨d, e⟩
  else none

def RoundingInterval.shortestFrom (i : RoundingInterval) (p : Int) : (fuel n : Nat) → Decimal
  | 0, _ => ⟨0, 0⟩
  | fuel + 1, n =>
    match i.onGrid? p n with
    | some d => d
    | none => shortestFrom i p fuel (n + 1)

def shortest (x : Float) : Decimal :=
  if x < 9007199254740992.0 && trunc x == x then
    Decimal.strip 16 ⟨x.toUInt64.toNat, 0⟩
  else
    let i := roundingInterval (magnitude x)
    Decimal.strip 18 (i.shortestFrom (decimalPoint i.num i.den) 18 1)

def divRound (num den : Nat) : Nat :=
  let q := num / den
  let r := num % den
  if den < 2 * r ∨ (den = 2 * r ∧ q % 2 = 1) then q + 1 else q

def roundScaled (x : Float) (e : Int) : Nat :=
  let (n, d) := (magnitude x).ratio
  let (n, d) := scale10 n d e
  divRound n d

def roundedDigits (x : Float) (n : Nat) : Nat × Int :=
  let (num, den) := (magnitude x).ratio
  let p := decimalPoint num den
  let d := roundScaled x (n - p)
  if Nat.pow 10 n ≤ d then (Nat.pow 10 (n - 1), p + 1) else (d, p)

/-- The number nearest to `d`. Exponents beyond the range of numbers need no exact arithmetic. -/
def Decimal.toFloat (d : Decimal) : Float :=
  if d.digits = 0 then 0.0
  else
    let point := (digitCount d.digits : Int) + d.exponent
    if 400 < point then infinity
    else if point < -400 then 0.0
    else match d.exponent with
      | .ofNat e => Float.ofScientific d.digits false e
      | .negSucc e => Float.ofScientific d.digits true (e + 1)

end EcmaScript.Number

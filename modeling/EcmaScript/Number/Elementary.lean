import EcmaScript.Number.Decimal

/-! Elementary functions: cube roots, and near zero those whose plain formulas lose their digits. -/
namespace EcmaScript.Number

/-! Cube roots, rounded to the nearest number. -/

def cubeRootFrom (n : Nat) : (bits : Nat) → (r : Nat) → Nat
  | 0, r => r
  | bits + 1, r =>
    let c := r + (1 <<< bits)
    cubeRootFrom n bits (if c * c * c ≤ n then c else r)

/-- The cube root of a positive binary fraction. The mantissa is stretched until its root has more
bits than a number; whatever is cut off leaves a last bit behind, so that rounding sees it. -/
def Binary.cubeRoot (b : Binary) : Float :=
  let stretch : Int := 168 - (Nat.log2 b.mantissa + 1)
  let shift := stretch + (b.exponent - stretch) % 3
  let n := b.mantissa <<< shift.toNat
  let r := cubeRootFrom n 58 0
  let rest := if r * r * r = n then 0 else 1
  (Float.ofNat (2 * r + rest)).scaleB ((b.exponent - shift) / 3 - 1)

def cubeRoot (x : Float) : Float :=
  if x.isNaN || x.isInf || x == 0.0 then x
  else
    let root := (magnitude x).cubeRoot
    if isNegative x then -root else root

/-! Logarithms and exponentials. -/

def ln2High : Float := Float.ofBits 0x3FE62E42FEE00000
def ln2Low : Float := Float.ofBits 0x3DEA39EF35793C76

def highWord (x : Float) : Nat := (x.toBits >>> 32).toNat

def withHighWord (x : Float) (high : Nat) : Float :=
  Float.ofBits ((UInt64.ofNat high <<< 32) ||| (x.toBits &&& 0xFFFFFFFF))

/-- A sum of a polynomial and the terms of the logarithm around it, for `1 + f = u * 2 ^ -k`. -/
def logarithmTail (f c : Float) (k : Int) (hu : Nat) : Float :=
  let half := 0.5 * f * f
  let n := Float.ofInt k
  if hu = 0 && f == 0.0 then
    if k = 0 then 0.0 else n * ln2High + (c + n * ln2Low)
  else if hu = 0 then
    let r := half * (1.0 - 0.66666666666666666 * f)
    if k = 0 then f - r else n * ln2High - ((r - (n * ln2Low + c)) - f)
  else
    let s := f / (2.0 + f)
    let z := s * s
    let r := z * (6.666666666666735130e-01 + z * (3.999999999940941908e-01
      + z * (2.857142874366239149e-01 + z * (2.222219843214978396e-01
      + z * (1.818357216161805012e-01 + z * (1.531383769920937332e-01
      + z * 1.479819860511658591e-01))))))
    if k = 0 then f - (half - s * (half + r))
    else n * ln2High - ((half - (s * (half + r) + (n * ln2Low + c))) - f)

/-- The logarithm of `1 + x`. -/
def log1p (x : Float) : Float :=
  if x.isNaN then x
  else if x ≤ -1.0 then (if x == -1.0 then -infinity else nan)
  else if x.isInf then x
  else if x.abs < Float.ofBits 0x3C90000000000000 then x
  else if x.abs < Float.ofBits 0x3E20000000000000 then x - x * x * 0.5
  else if -0.2929 < x && x < 0.41422 then logarithmTail x 0.0 0 1
  else
    let wide := x.abs < Float.ofBits 0x4340000000000000
    let u := if wide then 1.0 + x else x
    let hu := highWord u
    let k : Int := ((hu / 0x100000 : Nat) : Int) - 1023
    let c := if !wide then 0.0
      else (if 0 < k then 1.0 - (u - x) else x - (u - 1.0)) / u
    let low := hu % 0x100000
    if low < 0x6a09e then
      let f := withHighWord u (low + 0x3ff00000) - 1.0
      logarithmTail f c k low
    else
      let f := withHighWord u (low + 0x3fe00000) - 1.0
      logarithmTail f c (k + 1) ((0x100000 - low) / 4)

def expTail (x : Float) : Float :=
  let hfx := 0.5 * x
  let hxs := x * hfx
  let r := 1.0 + hxs * (-3.33333333333331316428e-02 + hxs * (1.58730158725481460165e-03
    + hxs * (-7.93650757867487942473e-05 + hxs * (4.00821782732936239552e-06
    + hxs * -2.01099218183624371326e-07))))
  let t := 3.0 - r * hfx
  hxs * ((r - t) / (6.0 - x * t))

/-- The exponential of `x`, less one. -/
def expm1 (x : Float) : Float :=
  if x.isNaN then x
  else if 709.782712893383973096 < x then infinity
  else if x < -38.816242 then -1.0
  else if x.abs < Float.ofBits 0x3C90000000000000 then x
  else
    let half := 0.5 * 0.6931471805599453
    let k : Int := if x.abs ≤ half then 0
      else if x.abs < 1.5 * 0.6931471805599453 then (if 0.0 < x then 1 else -1)
      else toInt (x * 1.44269504088896338700 + (if x < 0.0 then -0.5 else 0.5))
    let n := Float.ofInt k
    let high := x - n * ln2High
    let low := n * ln2Low
    let y := high - low
    let c := (high - y) - low
    let e := expTail y
    if k = 0 then y - (y * e - y * y * 0.5)
    else
      let e := (y * (e - c) - c) - y * y * 0.5
      if k = -1 then 0.5 * (y - e) - 0.5
      else if k = 1 then
        (if y < -0.25 then -2.0 * (e - (y + 0.5)) else 1.0 + 2.0 * (y - e))
      else if k ≤ -2 || 56 < k then Float.scaleB (1.0 - (e - y)) k - 1.0
      else if k < 20 then Float.scaleB ((1.0 - Float.scaleB 1.0 (-k)) - (e - y)) k
      else Float.scaleB ((y - (e + Float.scaleB 1.0 (-k))) + 1.0) k

end EcmaScript.Number

import EcmaScript.Number.Decimal
import EcmaScript.Text.Unicode

/-! How numbers are written: the fewest digits, fixed places, exponents and other radices. -/
namespace EcmaScript.Number

def zeros (n : Nat) : String := String.ofList (List.replicate n '0')

def natText (n : Nat) : String := String.ofList (Nat.toDigits 10 n)

def positionalText (d : Nat) (p : Int) : String :=
  let s := natText d
  let k : Int := s.length
  if k ≤ p then s ++ zeros (p - k).toNat
  else if 0 < p then
    String.ofList (s.toList.take p.toNat) ++ "." ++ String.ofList (s.toList.drop p.toNat)
  else "0." ++ zeros (-p).toNat ++ s

def mantissaText (s : String) : String :=
  match s.toList with
  | [] => s
  | [_] => s
  | c :: rest => String.ofList (c :: '.' :: rest)

def exponentText (e : Int) : String :=
  (if e < 0 then "e-" else "e+") ++ natText e.natAbs

def positiveText (x : Float) : String :=
  let d := shortest x
  let p := (digitCount d.digits : Int) + d.exponent
  if -6 < p ∧ p ≤ 21 then positionalText d.digits p
  else mantissaText (natText d.digits) ++ exponentText (p - 1)

def text (x : Float) : String :=
  if x.isNaN then "NaN"
  else if x == 0.0 then "0"
  else if x.isInf then (if 0.0 < x then "Infinity" else "-Infinity")
  else if x < 0.0 then "-" ++ positiveText (-x)
  else positiveText x

def plainText (x : Float) : String :=
  if x.isNaN then "NaN"
  else
    let body :=
      if x == 0.0 then "0"
      else if x.isInf then "inf"
      else
        let d := shortest x.abs
        positionalText d.digits ((digitCount d.digits : Int) + d.exponent)
    if isNegative x then "-" ++ body else body

/-- A magnitude with `places` digits after the point, a half upward. The expansion is first cut
thirty places further on. -/
def fixedText (x : Float) (places : Nat) : String :=
  let n := roundScaled x (places + 30)
  let d := n / Nat.pow 10 30 + (if 5 ≤ n / Nat.pow 10 29 % 10 then 1 else 0)
  let s := natText d
  let s := if s.length ≤ places then zeros (places + 1 - s.length) ++ s else s
  if places = 0 then s
  else
    let cut := s.length - places
    String.ofList (s.toList.take cut) ++ "." ++ String.ofList (s.toList.drop cut)

def withSign (x : Float) (body : String) : String := if x < 0.0 then "-" ++ body else body

def exponentialText (x : Float) (places : Nat) : String :=
  if x == 0.0 then mantissaText ("0" ++ zeros places) ++ exponentText 0
  else
    let (d, p) := roundedDigits x.abs (places + 1)
    withSign x (mantissaText (natText d) ++ exponentText (p - 1))

def shortestExponentialText (x : Float) : String :=
  if x == 0.0 then "0e+0"
  else
    let d := shortest x.abs
    let p := (digitCount d.digits : Int) + d.exponent
    withSign x (mantissaText (natText d.digits) ++ exponentText (p - 1))

def precisionText (x : Float) (n : Nat) : String :=
  if x == 0.0 then (if 1 < n then "0." ++ zeros (n - 1) else "0")
  else
    let e := (roundedDigits x.abs n).2 - 1
    if e < -6 ∨ (n : Int) ≤ e then exponentialText x (n - 1)
    else withSign x (fixedText x.abs ((n : Int) - 1 - e).toNat)

def digitChar (d : Nat) : Char :=
  if d < 10 then Char.ofNat (48 + d) else if d < 36 then Char.ofNat (87 + d) else '0'

/-- Digits of an integer part, least first. Division rounds as numbers do. -/
def radixIntegerDigits (radix : Float) : (fuel : Nat) → Float → List Char
  | 0, _ => []
  | fuel + 1, x =>
    if 1.0 ≤ x then
      digitChar (toNat (remainder x radix)) :: radixIntegerDigits radix fuel (trunc (x / radix))
    else []

def radixFractionDigits (radix : Float) : (fuel : Nat) → Float → List Char
  | 0, _ => []
  | fuel + 1, x =>
    let y := x * radix
    let d := toNat (trunc y)
    let rest := y - Float.ofNat d
    digitChar d :: (if rest == 0.0 then [] else radixFractionDigits radix fuel rest)

def radixText (x : Float) (radix : Nat) : String :=
  if x.isNaN || x.isInf || x == 0.0 then text x
  else
    let r := Float.ofNat radix
    let whole := trunc x.abs
    let fraction := x.abs - whole
    let integer := if whole == 0.0 then ['0'] else (radixIntegerDigits r 1100 whole).reverse
    let tail := if 0.0 < fraction then '.' :: radixFractionDigits r 52 fraction else []
    withSign x (String.ofList (integer ++ tail))

/-! How numbers are read from text. -/

open EcmaScript.Text

def digitValue? (radix : Nat) (c : Char) : Option Nat :=
  let v :=
    if '0' ≤ c ∧ c ≤ '9' then c.toNat - 48
    else if 'a' ≤ c ∧ c ≤ 'z' then c.toNat - 87
    else if 'A' ≤ c ∧ c ≤ 'Z' then c.toNat - 55
    else 36
  if v < radix then some v else none

def ofDigits (radix : Nat) (cs : List Char) : Float :=
  cs.foldl (fun x c => x * Float.ofNat radix + Float.ofNat ((digitValue? radix c).getD 0)) 0.0

def natOfDigits (cs : List Char) : Nat := cs.foldl (fun n c => n * 10 + (c.toNat - 48)) 0

/-- A decimal literal cut into its parts. -/
structure Literal where
  whole : List Char
  fraction : List Char
  exponent : Int

def Literal.toFloat (l : Literal) : Float :=
  Decimal.toFloat ⟨natOfDigits (l.whole ++ l.fraction), l.exponent - l.fraction.length⟩

/-- An exponent `e5`, `E+5` or `e-5` and what follows it. -/
def exponent? : List Char → Option (Int × List Char)
  | c :: rest =>
    if c = 'e' ∨ c = 'E' then
      let (negative, rest) := match rest with
        | '-' :: r => (true, r)
        | '+' :: r => (false, r)
        | r => (false, r)
      let digits := rest.takeWhile Char.isDigit
      if digits.isEmpty then none
      else
        let n : Int := natOfDigits digits
        some (if negative then -n else n, rest.dropWhile Char.isDigit)
    else none
  | [] => none

/-- The longest decimal literal without sign at the start of the text. At least one digit stands
before the exponent. -/
def literal? (cs : List Char) : Option (Literal × List Char) :=
  let whole := cs.takeWhile Char.isDigit
  let rest := cs.dropWhile Char.isDigit
  let (fraction, rest) := match rest with
    | '.' :: r => (r.takeWhile Char.isDigit, r.dropWhile Char.isDigit)
    | r => ([], r)
  if whole.isEmpty && fraction.isEmpty then none
  else match exponent? rest with
    | some (e, rest) => some (⟨whole, fraction, e⟩, rest)
    | none => some (⟨whole, fraction, 0⟩, rest)

def takeSign : List Char → Bool × List Char
  | '-' :: rest => (true, rest)
  | '+' :: rest => (false, rest)
  | rest => (false, rest)

def negateIf (negative : Bool) (x : Float) : Float := if negative then -x else x

def trimStart (cs : List Char) : List Char := cs.dropWhile isBlank

def trimEnd (cs : List Char) : List Char := (cs.reverse.dropWhile isBlank).reverse

def ofRadixText (radix : Nat) (cs : List Char) : Float :=
  if !cs.isEmpty && cs.all (fun c => (digitValue? radix c).isSome) then ofDigits radix cs else nan

/-- The number a whole text stands for, blanks around it aside; none is not a number. -/
def ofText (s : String) : Float :=
  let cs := trimEnd (trimStart s.toList)
  match cs with
  | [] => 0.0
  | '0' :: 'x' :: rest | '0' :: 'X' :: rest => ofRadixText 16 rest
  | '0' :: 'o' :: rest | '0' :: 'O' :: rest => ofRadixText 8 rest
  | '0' :: 'b' :: rest | '0' :: 'B' :: rest => ofRadixText 2 rest
  | cs =>
    let (negative, body) := takeSign cs
    if body = "Infinity".toList then negateIf negative infinity
    else match literal? body with
      | some (l, []) => negateIf negative l.toFloat
      | _ => nan

def ofPrefix (s : String) : Float :=
  let (negative, body) := takeSign (trimStart s.toList)
  if "Infinity".toList.isPrefixOf body then negateIf negative infinity
  else match literal? body with
    | some (l, _) => negateIf negative l.toFloat
    | none => nan

/-- The longest prefix of a text that is an integer in a radix. Radix zero means ten, or sixteen
after `0x`. -/
def integerPrefix (s : String) (radix : Int) : Float :=
  let (negative, body) := takeSign (trimStart s.toList)
  let unmarked := match body with
    | '0' :: 'x' :: rest | '0' :: 'X' :: rest => some rest
    | _ => none
  let radix := if radix = 0 then (if unmarked.isSome then 16 else 10) else radix
  if radix < 2 ∨ 36 < radix then nan
  else
    let radix := radix.toNat
    let body := if radix = 16 then unmarked.getD body else body
    let digits := body.takeWhile fun c => (digitValue? radix c).isSome
    if digits.isEmpty then nan else negateIf negative (ofDigits radix digits)

end EcmaScript.Number

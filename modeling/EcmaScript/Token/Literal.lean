import EcmaScript.Number.Text
import EcmaScript.Text.Unicode
import EcmaScript.Text.Utf16
import EcmaScript.Token.Basic
import EcmaScript.Token.Cursor

/-! Names, numbers, strings and regular expressions: the tokens that hold no other tokens. -/
namespace EcmaScript
open EcmaScript.Text

def isNameStart (c : Char) : Bool := c == '$' || c == '_' || isAlphabetic c

def isNamePart (c : Char) : Bool :=
  c == '$' || c == '_' || c == '\u200C' || c == '\u200D' || isAlphabetic c || isNumeric c

namespace Scan

def hexDigits (span : Span) : (count : Nat) → (value : Nat) → Scan Nat
  | 0, value => return value
  | count + 1, value => do
    match (← peek).bind (Number.digitValue? 16) with
    | some d =>
      skip 1
      hexDigits span count (value * 16 + d)
    | none => fail span .invalidHexEscape

def lowSurrogate (span : Span) (high : Nat) : Scan Char := do
  let before ← get
  match before.rest with
  | '\\' :: 'u' :: _ =>
    skip 2
    let low ← hexDigits span 4 0
    if 0xDC00 ≤ low ∧ low < 0xE000 then
      return charOfCode (0x10000 + (high - 0xD800) * 0x400 + (low - 0xDC00))
    set before
    return charOfCode high
  | _ => return charOfCode high

def unicodeEscape (span : Span) : Scan Char := do
  if (← peek) = some '{' then
    skip 1
    let digits ← takeWhile fun c => (Number.digitValue? 16 c).isSome
    if digits.isEmpty then fail span .invalidUnicodeEscape
    let close ← next
    let value := digits.foldl (fun v c => v * 16 + (Number.digitValue? 16 c).getD 0) 0
    if close ≠ some '}' ∨ 0x10FFFF < value then fail span .invalidUnicodeEscape
    return charOfCode value
  let high ← hexDigits span 4 0
  if 0xD800 ≤ high ∧ high < 0xDC00 then lowSurrogate span high else return charOfCode high

def octalDigits : (count : Nat) → (value : Nat) → Scan Nat
  | 0, value => return value
  | count + 1, value => do
    match (← peek).bind (Number.digitValue? 8) with
    | some d =>
      if value * 8 + d ≤ 0o377 then
        skip 1
        octalDigits count (value * 8 + d)
      else return value
    | none => return value

/-- An escape after its backslash. A line continuation stands for no character. -/
def escape (span : Span) : Scan (Option Char) := do
  match ← next with
  | none => fail span .invalidToken
  | some 'n' => return some '\n'
  | some 't' => return some '\t'
  | some 'r' => return some '\r'
  | some 'b' => return some '\x08'
  | some 'f' => return some '\x0c'
  | some 'v' => return some '\x0b'
  | some 'x' => return some (charOfCode (← hexDigits span 2 0))
  | some 'u' => return some (← unicodeEscape span)
  | some '\r' =>
    if (← peek) = some '\n' then skip 1
    return none
  | some '\n' => return none
  | some '\u2028' => return none
  | some '\u2029' => return none
  | some c =>
    if c = '0' ∧ !(← peek).any Char.isDigit then return some '\x00'
    match Number.digitValue? 8 c with
    | some d => return some (charOfCode (← octalDigits 2 d))
    | none => return some c

/-- The rest of a name, after `name`. Escaped characters are not checked. -/
def nameRest : (fuel : Nat) → (name : String) → Scan String
  | 0, _ => stuck
  | fuel + 1, name => do
    match ← peek with
    | some '\\' =>
      let span ← here
      skip 1
      if (← next) ≠ some 'u' then fail span .invalidUnicodeEscape
      nameRest fuel (name.push (← unicodeEscape span))
    | some c =>
      if isNamePart c then
        skip 1
        nameRest fuel (name.push c)
      else return name
    | none => return name

def name : Scan String := do nameRest (← bound) ""

def finishNumber (start : Span) (value : Float) : Scan Token := do
  if (← peek).any isNameStart then fail start .invalidToken
  return .number value

def separatedDigits (radix : Nat) : Scan (List Char) := do
  let run ← takeWhile fun c => c == '_' || (Number.digitValue? radix c).isSome
  return run.filter (· != '_')

def radixNumber (start : Span) (radix : Nat) : Scan Token := do
  skip 2
  let digits ← separatedDigits radix
  if digits.isEmpty then fail start .invalidToken
  if (← peek) = some 'n' then
    skip 1
    return .bigInt (String.ofList digits)
  finishNumber start (Number.ofDigits radix digits)

def exponent : Scan Int := do
  let c ← get
  match Number.exponent? c.rest with
  | some (e, rest) =>
    skip (c.rest.length - rest.length)
    return e
  | none => return 0

/-- A decimal number. Several octal digits after a zero are read as octal, unless a point follows. -/
def decimalNumber (start : Span) : Scan Token := do
  let whole ← separatedDigits 10
  let following ← peek
  if 1 < whole.length ∧ whole.head? = some '0' ∧ following ≠ some '.'
      ∧ whole.all (fun c => (Number.digitValue? 8 c).isSome) then
    finishNumber start (Number.ofDigits 8 whole)
  else if following = some 'n' then
    skip 1
    return .bigInt (String.ofList whole)
  else
    let fraction ←
      if following = some '.' then
        skip 1
        separatedDigits 10
      else pure []
    let e ← exponent
    finishNumber start (Number.Literal.toFloat ⟨whole, fraction, e⟩)

def number : Scan Token := do
  let start ← here
  match (← get).rest with
  | '0' :: 'x' :: _ | '0' :: 'X' :: _ => radixNumber start 16
  | '0' :: 'o' :: _ | '0' :: 'O' :: _ => radixNumber start 8
  | '0' :: 'b' :: _ | '0' :: 'B' :: _ => radixNumber start 2
  | _ => decimalNumber start

/-- The rest of a string up to its closing quote, after `value`. -/
def stringRest (start : Span) (quote : Char) : (fuel : Nat) → (value : String) → Scan String
  | 0, _ => stuck
  | fuel + 1, value => do
    match ← peek with
    | none => fail start .invalidToken
    | some c =>
      if c = quote then
        skip 1
        return value
      else if c = '\\' then
        let span ← here
        skip 1
        match ← escape span with
        | some d => stringRest start quote fuel (value.push d)
        | none => stringRest start quote fuel value
      else if c = '\n' ∨ c = '\r' then fail start .invalidToken
      else
        skip 1
        stringRest start quote fuel (value.push c)

def string (quote : Char) : Scan Token := do
  let start ← here
  skip 1
  return .string (← stringRest start quote (← bound) "")

/-- The rest of a regular expression up to its closing slash, which does not count inside a class. -/
def regExpRest (start : Span) : (fuel : Nat) → (inClass : Bool) → (pattern : String) → Scan String
  | 0, _, _ => stuck
  | fuel + 1, inClass, pattern => do
    match ← next with
    | none => fail start .unterminatedRegExp
    | some c =>
      if isLineTerminator c then fail start .unterminatedRegExp
      else if c = '\\' then
        match ← next with
        | some d => regExpRest start fuel inClass ((pattern.push '\\').push d)
        | none => regExpRest start fuel inClass (pattern.push '\\')
      else if c = '[' then regExpRest start fuel true (pattern.push c)
      else if c = ']' then regExpRest start fuel false (pattern.push c)
      else if c = '/' ∧ !inClass then return pattern
      else regExpRest start fuel inClass (pattern.push c)

def regExp : Scan Token := do
  let start ← here
  skip 1
  let pattern ← regExpRest start (← bound) false ""
  let flags ← takeWhile isNamePart
  return .regExp pattern (String.ofList flags)

end Scan
end EcmaScript

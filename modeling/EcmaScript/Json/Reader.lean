import EcmaScript.Number.Text
import EcmaScript.Text.Utf16

/-! JSON documents and their text. -/
namespace EcmaScript

/-- A number of a document, by how it was written: without fraction and exponent it stays an integer
as long as it fits 64 bits. -/
inductive JsonNumber where
  | natural (n : Nat)
  | negative (n : Int)
  | real (x : Float)
deriving Inhabited

def JsonNumber.toFloat : JsonNumber → Float
  | .natural n => Float.ofNat n
  | .negative n => Float.ofInt n
  | .real x => x

/-- A document. The members of an object keep their order. -/
inductive Json where
  | null
  | boolean (b : Bool)
  | number (n : JsonNumber)
  | string (s : String)
  | array (items : List Json)
  | object (members : List (String × Json))
deriving Inhabited

namespace Json

/-- Adds a member. A second member of one name replaces the value of the first. -/
def putMember (name : String) (value : Json) : List (String × Json) → List (String × Json)
  | [] => [(name, value)]
  | (n, v) :: rest => if n = name then (n, value) :: rest else (n, v) :: putMember name value rest

def member? (name : String) : Json → Option Json
  | .object members => members.lookup name
  | _ => none

def string? : Json → Option String
  | .string s => some s
  | _ => none

def boolean? : Json → Option Bool
  | .boolean b => some b
  | _ => none

def natural? : Json → Option Nat
  | .number (.natural n) => some n
  | _ => none

def hexDigit (n : Nat) : Char := Number.digitChar n

def quoteChar (c : Char) : String :=
  if c = '\x22' then "\\\""
  else if c = '\\' then "\\\\"
  else if c = '\n' then "\\n"
  else if c = '\r' then "\\r"
  else if c = '\t' then "\\t"
  else if c = '\x08' then "\\b"
  else if c = '\x0c' then "\\f"
  else if c.toNat < 0x20 then
    "\\u00" ++ String.ofList [hexDigit (c.toNat / 16), hexDigit (c.toNat % 16)]
  else String.singleton c

def quote (s : String) : String :=
  (s.foldl (fun out c => out ++ quoteChar c) "\"").push '\x22'

end Json
end EcmaScript

/-! Reading JSON documents. Faults carry a byte index, from which line and column follow. Numbers
with a fraction or an exponent are scaled by one power of ten in floating point, digits beyond 64
bits being dropped. -/
namespace EcmaScript.Json
open EcmaScript.Text

/-- Where reading stopped, and whether the document ended too early. -/
structure Fault where
  index : Nat
  atEnd : Bool
deriving DecidableEq, Inhabited

/-- The characters left, and the byte index of the first of them. -/
structure Input where
  rest : List Char
  index : Nat

abbrev Read := StateT Input (Except Fault)

namespace Read

def fail {α : Type} : Read α := do throw ⟨(← get).index, false⟩

def failEnd {α : Type} : Read α := do throw ⟨(← get).index, true⟩

def failNext {α : Type} : Read α := do
  let input ← get
  throw ⟨if input.rest.isEmpty then input.index else input.index + 1, false⟩

def peek : Read (Option Char) := return (← get).rest.head?

def skip : Read Unit :=
  modify fun input => match input.rest with
    | c :: rest => ⟨rest, input.index + c.utf8Size⟩
    | [] => input

def next : Read (Option Char) := do
  let c ← peek
  skip
  return c

def skipWhile (p : Char → Bool) : Read (List Char) := do
  let input ← get
  let run := input.rest.takeWhile p
  set (⟨input.rest.dropWhile p, run.foldl (fun n c => n + c.utf8Size) input.index⟩ : Input)
  return run

def isSpace (c : Char) : Bool := c == ' ' || c == '\n' || c == '\t' || c == '\r'

def peekToken : Read (Option Char) := do
  let _ ← skipWhile isSpace
  peek

def word : List Char → Read Unit
  | [] => return ()
  | expected :: rest => do
    match ← next with
    | none => failEnd
    | some c => if c = expected then word rest else failAfter c
where
  /-- A fault one byte behind the start of the character just read. -/
  failAfter (c : Char) : Read Unit := do throw ⟨(← get).index + 1 - c.utf8Size, false⟩

def maxNatural : Nat := 0xFFFFFFFFFFFFFFFF

def fitDigits (value : Nat) : List Char → Nat × Nat × List Char
  | [] => (value, 0, [])
  | c :: rest =>
    let v := value * 10 + (c.toNat - 48)
    if maxNatural < v then (value, 0, c :: rest)
    else
      let (v, n, rest) := fitDigits v rest
      (v, n + 1, rest)

/-- `m * 10 ^ e` by repeated division for small exponents; a value out of range is a fault. -/
def scaled : (fuel : Nat) → (m : Float) → (e : Int) → Read Float
  | 0, m, _ => return m
  | fuel + 1, m, e => do
    if 0 ≤ e then
      if e ≤ 308 then
        let x := m * Float.ofScientific 1 false e.toNat
        if x.isInf then fail else return x
      else if m == 0.0 then return m
      else fail
    else if -308 ≤ e then return m / Float.ofScientific 1 false e.natAbs
    else if m == 0.0 then return m
    else scaled fuel (m / 1e308) (e + 308)

def signed (negative : Bool) (x : Float) : Float := if negative then -x else x

def maxExponent : Nat := 0x7FFFFFFF

/-- An exponent after its mark was seen, applied to `m * 10 ^ e`. -/
def exponent (negative : Bool) (m : Nat) (e : Int) : Read Float := do
  skip
  let positive ← match ← peek with
    | some '+' => do skip; pure true
    | some '-' => do skip; pure false
    | _ => pure true
  match ← peek with
  | none => failEnd
  | some c =>
    if !c.isDigit then
      throw ⟨(← get).index + 1, false⟩
    let digits ← skipWhile Char.isDigit
    let n := Number.natOfDigits digits
    if maxExponent < n then
      if m ≠ 0 ∧ positive then
        let extra := digits.length - overflowLength digits
        throw ⟨(← get).index - extra, false⟩
      return signed negative 0.0
    let e := if positive then e + n else e - n
    return signed negative (← scaled 8000000 (Float.ofNat m) e)
where
  /-- How many digits are read when the exponent leaves its range. -/
  overflowLength (digits : List Char) : Nat :=
    ((List.range digits.length).find? fun k =>
      maxExponent < Number.natOfDigits (digits.take (k + 1))).elim digits.length (· + 1)

def afterDigits (negative : Bool) (m : Nat) (e : Int) : Read Float := do
  match ← peek with
  | some 'e' | some 'E' => exponent negative m e
  | _ => return signed negative (← scaled 8000000 (Float.ofNat m) e)

def fraction (negative : Bool) (m : Nat) (e : Int) : Read Float := do
  skip
  let digits ← skipWhile Char.isDigit
  if digits.isEmpty then
    match ← peek with
    | some _ => failNext
    | none => failEnd
  let (m, taken, _) := fitDigits m digits
  afterDigits negative m (e - taken)

/-- A number, after its sign. -/
def number (negative : Bool) : Read JsonNumber := do
  match ← peek with
  | none => failEnd
  | some c =>
    if !c.isDigit then
      throw ⟨(← get).index + 1, false⟩
    let digits ← if c = '0' then do skip; pure ['0'] else skipWhile Char.isDigit
    if c = '0' ∧ (← peek).any Char.isDigit then failNext
    let (m, _, dropped) := fitDigits 0 digits
    let e := dropped.length
    match ← peek with
    | some '.' => return .real (← fraction negative m e)
    | some 'e' | some 'E' => return .real (← exponent negative m e)
    | _ =>
      if e ≠ 0 then return .real (← afterDigits negative m e)
      else if !negative then return .natural m
      else if m = 0 ∨ 0x8000000000000000 < m then return .real (-(Float.ofNat m))
      else return .negative (-(m : Int))

/-- Four hexadecimal digits. They are counted in bytes when they are not digits. -/
def hexEscape : Read Nat := do
  let input ← get
  match input.rest with
  | a :: b :: c :: d :: rest =>
    match Number.digitValue? 16 a, Number.digitValue? 16 b, Number.digitValue? 16 c,
        Number.digitValue? 16 d with
    | some a, some b, some c, some d =>
      set (⟨rest, input.index + 4⟩ : Input)
      return ((a * 16 + b) * 16 + c) * 16 + d
    | _, _, _, _ => throw ⟨input.index + 4, false⟩
  | short =>
    let bytes := short.foldl (fun n c => n + c.utf8Size) 0
    if 4 ≤ bytes then throw ⟨input.index + 4, false⟩
    else throw ⟨input.index + bytes, true⟩

def require (c : Char) : Read Unit := do
  match ← peek with
  | none => failEnd
  | some d => if d = c then skip else throw ⟨(← get).index + 1, false⟩

def unicodeEscape : Read Char := do
  let n ← hexEscape
  if 0xDC00 ≤ n ∧ n ≤ 0xDFFF then fail
  else if 0xD800 ≤ n ∧ n ≤ 0xDBFF then
    require '\\'
    require 'u'
    let m ← hexEscape
    if m < 0xDC00 ∨ 0xDFFF < m then fail
    else return charOfCode (0x10000 + (n - 0xD800) * 0x400 + (m - 0xDC00))
  else return charOfCode n

/-- An escape after its backslash. -/
def escape : Read Char := do
  match ← peek with
  | none => failEnd
  | some c =>
    let index := (← get).index
    skip
    match c with
    | '\x22' => return '\x22'
    | '\\' => return '\\'
    | '/' => return '/'
    | 'b' => return '\x08'
    | 'f' => return '\x0c'
    | 'n' => return '\n'
    | 'r' => return '\r'
    | 't' => return '\t'
    | 'u' => unicodeEscape
    | _ => throw ⟨index + 1, false⟩

def stringRest : (fuel : Nat) → (value : String) → Read String
  | 0, _ => failEnd
  | fuel + 1, value => do
    match ← next with
    | none => failEnd
    | some c =>
      if c = '\x22' then return value
      else if c = '\\' then stringRest fuel (value.push (← escape))
      else if c.toNat < 0x20 then fail
      else stringRest fuel (value.push c)

def string : Read String := do stringRest ((← get).rest.length + 1) ""

/-- The items of an array up to its closing bracket, after `items`, last first. -/
def items (item : Read Json) : (fuel : Nat) → (first : Bool) → List Json → Read (List Json)
  | 0, _, _ => failEnd
  | fuel + 1, first, before => do
    match ← peekToken with
    | none => failEnd
    | some ']' =>
      skip
      return before.reverse
    | some c =>
      if first then items item fuel false ((← item) :: before)
      else if c = ',' then
        skip
        match ← peekToken with
        | none => failEnd
        | some ']' => failNext
        | some _ => items item fuel false ((← item) :: before)
      else failNext

def nameAndValue (item : Read Json) : Read (String × Json) := do
  skip
  let name ← string
  match ← peekToken with
  | none => failEnd
  | some ':' =>
    skip
    return (name, ← item)
  | some _ => failNext

/-- The members of an object up to its closing brace. -/
def members (item : Read Json) :
    (fuel : Nat) → (first : Bool) → List (String × Json) → Read (List (String × Json))
  | 0, _, _ => failEnd
  | fuel + 1, first, before => do
    match ← peekToken with
    | none => failEnd
    | some '\x7d' =>
      skip
      return before
    | some c =>
      if first then
        if c = '\x22' then
          let (name, value) ← nameAndValue item
          members item fuel false (putMember name value before)
        else failNext
      else if c = ',' then
        skip
        match ← peekToken with
        | none => failEnd
        | some d =>
          if d = '\x22' then
            let (name, value) ← nameAndValue item
            members item fuel false (putMember name value before)
          else failNext
      else failNext

/-- A value. Arrays and objects nest less than `depth` deep. -/
def value : (depth : Nat) → Read Json
  | 0 => failNext
  | depth + 1 => do
    match ← peekToken with
    | none => failEnd
    | some 'n' => do skip; word "ull".toList; return .null
    | some 't' => do skip; word "rue".toList; return .boolean true
    | some 'f' => do skip; word "alse".toList; return .boolean false
    | some '-' => do skip; return .number (← number true)
    | some '\x22' => do skip; return .string (← string)
    | some '[' =>
      if depth = 0 then failNext
      skip
      return .array (← items (value depth) ((← get).rest.length + 1) true [])
    | some '\x7b' =>
      if depth = 0 then failNext
      skip
      return .object (← members (value depth) ((← get).rest.length + 1) true [])
    | some c => if c.isDigit then return .number (← number false) else failNext

def document : Read Json := do
  let json ← value 128
  match ← peekToken with
  | some _ => failNext
  | none => return json

end Read

def parse (s : String) : Except Fault Json := (Read.document.run ⟨s.toList, 0⟩).map (·.1)

def position (s : String) (index : Nat) : Nat × Nat :=
  let (_, line, start) := s.foldl (fun (i, line, start) c =>
    let i := i + c.utf8Size
    if c = '\n' ∧ i ≤ index then (i, line + 1, i) else (i, line, start)) (0, 1, 0)
  (line, index - start)

end EcmaScript.Json

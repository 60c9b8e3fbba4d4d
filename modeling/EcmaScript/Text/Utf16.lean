/-! Texts as sequences of UTF-16 code units. Indices that scripts see count code units, so a
character outside the basic plane takes two places. -/
namespace EcmaScript.Text

abbrev Units := Array UInt16

def replacement : Char := '\uFFFD'

def charOfCode (n : Nat) : Char := if n.isValidChar then Char.ofNat n else replacement

def isHighSurrogate (u : UInt16) : Bool := 0xD800 ≤ u && u < 0xDC00

def isLowSurrogate (u : UInt16) : Bool := 0xDC00 ≤ u && u < 0xE000

def pairCode (high low : UInt16) : Nat :=
  0x10000 + (high.toNat - 0xD800) * 0x400 + (low.toNat - 0xDC00)

def unitsOfChar (c : Char) : List UInt16 :=
  let n := c.toNat
  if n < 0x10000 then [n.toUInt16]
  else [(0xD800 + (n - 0x10000) / 0x400).toUInt16, (0xDC00 + (n - 0x10000) % 0x400).toUInt16]

def unitCount (c : Char) : Nat := if c.toNat < 0x10000 then 1 else 2

def length16 (s : String) : Nat := s.foldl (fun n c => n + unitCount c) 0

def units (s : String) : Units := (s.toList.flatMap unitsOfChar).toArray

/-- Characters of a unit sequence. Surrogates that are not part of a pair become replacements. -/
def charsOfUnits : List UInt16 → List Char
  | [] => []
  | [u] => [charOfCode u.toNat]
  | u :: v :: rest =>
    if isHighSurrogate u && isLowSurrogate v then charOfCode (pairCode u v) :: charsOfUnits rest
    else charOfCode u.toNat :: charsOfUnits (v :: rest)

def ofUnits (us : Units) : String := String.ofList (charsOfUnits us.toList)

def sliceUnits (us : Units) (start stop : Nat) : Units := us.extract start stop

def occursAt (us pattern : Units) (i : Nat) : Bool :=
  i + pattern.size ≤ us.size && (List.range pattern.size).all fun k => us[i + k]? == pattern[k]?

def firstIndex (p : Nat → Bool) : (n i : Nat) → Option Nat
  | 0, _ => none
  | n + 1, i => if p i then some i else firstIndex p n (i + 1)

def lastIndex (p : Nat → Bool) : (n : Nat) → Option Nat
  | 0 => none
  | n + 1 => if p n then some n else lastIndex p n

def find? (us pattern : Units) (start : Nat) : Option Nat :=
  if us.size < start then none
  else if pattern.isEmpty then some start
  else if us.size < pattern.size then none
  else firstIndex (occursAt us pattern) (us.size - pattern.size + 1 - start) start

def findLast? (us pattern : Units) (start : Nat) : Option Nat :=
  if us.size < pattern.size then none
  else lastIndex (occursAt us pattern) (min (us.size - pattern.size) start + 1)

def codePointAt? (us : Units) (i : Nat) : Option Nat :=
  match us[i]? with
  | none => none
  | some u =>
    match us[i + 1]? with
    | some v => if isHighSurrogate u && isLowSurrogate v then some (pairCode u v) else some u.toNat
    | none => some u.toNat

def unitsLt : List UInt16 → List UInt16 → Bool
  | _, [] => false
  | [], _ :: _ => true
  | a :: as, b :: bs => if a == b then unitsLt as bs else a < b

/-! Replacing, padding and splitting texts. -/

/-- A replacement in which `$$`, `$&`, `$` with a backquote and `$` with a quote stand for a dollar
sign, the match, and what is before and behind it. -/
def expand (found : Units) (before behind : Units) : List UInt16 → List UInt16
  | [] => []
  | [u] => [u]
  | u :: v :: rest =>
    if u == 0x24 then
      if v == 0x24 then u :: expand found before behind rest
      else if v == 0x26 then found.toList ++ expand found before behind rest
      else if v == 0x60 then before.toList ++ expand found before behind rest
      else if v == 0x27 then behind.toList ++ expand found before behind rest
      else u :: expand found before behind (v :: rest)
    else u :: expand found before behind (v :: rest)

def occurrences (us pattern : Units) : (fuel start : Nat) → List Nat
  | 0, _ => []
  | fuel + 1, start =>
    match find? us pattern start with
    | none => []
    | some i =>
      let next := i + max pattern.size 1
      if us.size < next then [i] else i :: occurrences us pattern fuel next

def allOccurrences (us pattern : Units) : List Nat := occurrences us pattern (us.size + 1) 0

def fill (filler : Units) (count : Nat) : Units :=
  Array.ofFn fun i : Fin count => filler.getD (i.val % filler.size) 0

def pieces (us separator : Units) : (limit start : Nat) → List Units
  | 0, _ => []
  | limit + 1, start =>
    match find? us separator start with
    | some i => sliceUnits us start i :: pieces us separator limit (i + separator.size)
    | none => [sliceUnits us start us.size]

def split (us separator : Units) (limit : Nat) : List Units :=
  if separator.isEmpty then (us.toList.take limit).map fun u => #[u]
  else pieces us separator (min limit (us.size + 1)) 0

end EcmaScript.Text

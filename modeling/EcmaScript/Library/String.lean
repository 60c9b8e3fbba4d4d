import EcmaScript.Library.Iterator
import EcmaScript.Text.Unicode
import EcmaScript.Text.Utf16

/-! `String`. Places and lengths count code units. -/
namespace EcmaScript

def stringStatics : List Feature :=
  [.named "fromCharCode" 1 (.string .fromCharCode),
    .named "fromCodePoint" 1 (.string .fromCodePoint), .named "raw" 1 (.string .raw)]

def stringMethods : List Feature :=
  [.named "toString" 0 (.string .toString), .named "valueOf" 0 (.string .valueOf),
    .named "at" 1 (.string .at), .named "charAt" 1 (.string .charAt),
    .named "charCodeAt" 1 (.string .charCodeAt), .named "codePointAt" 1 (.string .codePointAt),
    .named "concat" 1 (.string .concat), .named "includes" 1 (.string .includes),
    .named "startsWith" 1 (.string .startsWith), .named "endsWith" 1 (.string .endsWith),
    .named "indexOf" 1 (.string .indexOf), .named "lastIndexOf" 1 (.string .lastIndexOf),
    .named "padStart" 2 (.string .padStart), .named "padEnd" 2 (.string .padEnd),
    .named "repeat" 1 (.string .repeat), .named "replace" 2 (.string .replace),
    .named "replaceAll" 2 (.string .replaceAll), .named "slice" 2 (.string .slice),
    .named "substring" 2 (.string .substring), .named "substr" 2 (.string .substr),
    .named "split" 2 (.string .split), .named "toLowerCase" 0 (.string .toLowerCase),
    .named "toUpperCase" 0 (.string .toUpperCase), .named "trim" 0 (.string .trim),
    .named "trimStart" 0 (.string .trimStart), .named "trimEnd" 0 (.string .trimEnd),
    .named "localeCompare" 1 (.string .localeCompare),
    .method (.symbol .iterator) 0 (.string .iterator)]

def maxTextLength : Nat := 536870888

/-- The name that messages give a method. -/
def StringFunction.name : StringFunction → String
  | .construct => "String"
  | .fromCharCode => "fromCharCode"
  | .fromCodePoint => "fromCodePoint"
  | .raw => "raw"
  | .toString => "toString"
  | .valueOf => "valueOf"
  | .at => "at"
  | .charAt => "charAt"
  | .charCodeAt => "charCodeAt"
  | .codePointAt => "codePointAt"
  | .concat => "concat"
  | .includes => "includes"
  | .startsWith => "startsWith"
  | .endsWith => "endsWith"
  | .indexOf => "indexOf"
  | .lastIndexOf => "lastIndexOf"
  | .padStart => "padStart"
  | .padEnd => "padEnd"
  | .repeat => "repeat"
  | .replace => "replace"
  | .replaceAll => "replaceAll"
  | .slice => "slice"
  | .substring => "substring"
  | .substr => "substr"
  | .split => "split"
  | .toLowerCase => "toLowerCase"
  | .toUpperCase => "toUpperCase"
  | .trim => "trim"
  | .trimStart => "trimStart"
  | .trimEnd => "trimEnd"
  | .localeCompare => "localeCompare"
  | .iterator => "[Symbol.iterator]"

namespace Exec

def wrappedString (f : StringFunction) (this : Value) : Exec Value := do
  match this with
  | .string _ => return this
  | .object id =>
    match (← object id).kind with
    | .string s => return .string s
    | _ => refuse
  | _ => refuse
where
  refuse : Exec Value :=
    throwType ("String.prototype." ++ f.name ++ " requires that 'this' be a String")

def receiverText (f : StringFunction) (this : Value) : Exec String := do
  if this.isNullish then
    throwType ("String.prototype." ++ f.name ++ " called on null or undefined")
  toText this

def receiverUnits (f : StringFunction) (this : Value) : Exec Text.Units := do
  return Text.units (← receiverText f this)

def unitsArgument (args : Array Value) (i : Nat) : Exec Text.Units := do
  return Text.units (← toText (argument args i))

def unitsValue (us : Text.Units) : Value := .string (Text.ofUnits us)

def clampPlace (n : Float) (length : Nat) : Nat :=
  if n < 0.0 then 0 else min (Number.toNat n) length

def placeArgument (args : Array Value) (i default length : Nat) : Exec Nat := do
  match argument args i with
  | .undefined => return default
  | v => return clampPlace (← toIntegerOrInfinity v) length

def unitAt? (us : Text.Units) (n : Float) : Option Nat :=
  if n < 0.0 || Float.ofNat us.size ≤ n then none else some (Number.toNat n)

def padText (f : StringFunction) (this : Value) (args : Array Value) (atStart : Bool) :
    Exec Value := do
  let us ← receiverUnits f this
  let length ← toLength (argument args 0)
  if length ≤ us.size then return unitsValue us
  if maxTextLength < length then throwRange "Invalid string length"
  let filler ← match argument args 1 with
    | .undefined => pure #[0x20]
    | v => do pure (Text.units (← toText v))
  if filler.isEmpty then return unitsValue us
  let pad := Text.fill filler (length - us.size)
  return unitsValue (if atStart then pad ++ us else us ++ pad)

def replacementFor (subject pattern : Text.Units) (replacer : Value)
    (template : Option Text.Units) (place : Nat) : Exec Text.Units := do
  match template with
  | some r =>
    let before := Text.sliceUnits subject 0 place
    let behind := Text.sliceUnits subject (place + pattern.size) subject.size
    return (Text.expand pattern before behind r.toList).toArray
  | none =>
    let result ← call replacer .undefined
      #[unitsValue pattern, .ofNat place, unitsValue subject]
    return Text.units (← toText result)

def replaceText (f : StringFunction) (this : Value) (args : Array Value) (all : Bool) :
    Exec Value := do
  let subject ← receiverUnits f this
  let pattern ← unitsArgument args 0
  let replacer := argument args 1
  let template ← if ← isCallable replacer then pure none else some <$> unitsArgument args 1
  let places := Text.allOccurrences subject pattern
  let places := if all then places else places.take 1
  let (out, last) ← places.foldlM (fun (out, last) place => do
    let piece ← replacementFor subject pattern replacer template place
    return (out ++ Text.sliceUnits subject last place ++ piece, place + pattern.size)) (#[], 0)
  return unitsValue (out ++ Text.sliceUnits subject last subject.size)

def splitText (f : StringFunction) (this : Value) (args : Array Value) : Exec Value := do
  let us ← receiverUnits f this
  let limit ← match argument args 1 with
    | .undefined => pure 4294967295
    | v => do pure (← toUInt32 v).toNat
  let separator := argument args 0
  if limit = 0 then return .object (← newArray #[])
  if separator.isUndefined then return .object (← newArray #[unitsValue us])
  let pieces := Text.split us (Text.units (← toText separator)) limit
  return .object (← newArray (pieces.map unitsValue).toArray)

def rawText (args : Array Value) : Exec Value := do
  let cooked ← toObject (argument args 0)
  let raw ← toObject (← getNamed cooked "raw")
  let length ← lengthOf raw
  let text ← loop (0, "") fun (i, out) => do
    if length ≤ i then return .inr out
    let out := out ++ (← toText (← getIndex raw i))
    let between ← if i + 1 < length && i + 1 < args.size then toText (argument args (i + 1))
      else pure ""
    return .inl (i + 1, out ++ between)
  return .string text

def isIntegral (n : Float) : Bool := !n.isNaN && !n.isInf && Number.trunc n == n

def charOfPoint (v : Value) : Exec Char := do
  let n ← toNumber v
  if isIntegral n && 0.0 ≤ n && n ≤ 1114111.0 then return Text.charOfCode (Number.toNat n)
  throwRange ("Invalid code point " ++ Number.text n)

def repeatText (this : Value) (args : Array Value) : Exec Value := do
  let s ← receiverText .repeat this
  let n ← toIntegerOrInfinity (argument args 0)
  if n < 0.0 || n.isInf then throwRange ("Invalid count value: " ++ Number.text n)
  if s = "" || n == 0.0 then return .string ""
  if Float.ofNat maxTextLength < Float.ofNat (Text.length16 s) * n then
    throwRange "Invalid string length"
  return .string (String.join (List.replicate (Number.toNat n) s))

def trimText (f : StringFunction) (this : Value) (atStart atEnd : Bool) : Exec Value := do
  let cs := (← receiverText f this).toList
  let cs := if atStart then Number.trimStart cs else cs
  return .string (String.ofList (if atEnd then Number.trimEnd cs else cs))

def stringArgument (args : Array Value) : Exec String :=
  match args[0]? with
  | none => return ""
  | some v => toText v

def constructString (args : Array Value) (newTarget : ObjectId) : Exec Value := do
  let s ← stringArgument args
  let prototype ← prototypeFor newTarget (← intrinsics).stringPrototype
  let id ← allocate
    { prototype := some prototype, kind := .string s
      properties := ({} : PropertyTable).put (.name "length")
        (.constant (.ofNat (Text.length16 s))) }
  return .object id

def lastIndexIn (this : Value) (args : Array Value) : Exec Value := do
  let us ← receiverUnits .lastIndexOf this
  let pattern ← unitsArgument args 0
  let start ← match argument args 1 with
    | .undefined => pure us.size
    | v =>
      let n ← toNumber v
      pure (if n.isNaN then us.size else clampPlace (Number.trunc n) us.size)
  return match Text.findLast? us pattern start with
    | some i => .ofNat i
    | none => .number (-1.0)

def stringFunction (f : StringFunction) (this : Value) (args : Array Value) : Exec Value := do
  match f with
  | .construct =>
    match argument args 0 with
    | .symbol s => return .string s.text
    | _ => return .string (← stringArgument args)
  | .fromCharCode =>
    let us ← args.mapM fun v => return (← toUInt32 v).toUInt16
    return unitsValue us
  | .fromCodePoint =>
    let cs ← args.toList.mapM charOfPoint
    return .string (String.ofList cs)
  | .raw => rawText args
  | .toString => wrappedString f this
  | .valueOf => wrappedString f this
  | .at =>
    let us ← receiverUnits f this
    let n ← toIntegerOrInfinity (argument args 0)
    match unitAt? us (if n < 0.0 then Float.ofNat us.size + n else n) with
    | some i => return unitsValue (Text.sliceUnits us i (i + 1))
    | none => return .undefined
  | .charAt =>
    let us ← receiverUnits f this
    match unitAt? us (← toIntegerOrInfinity (argument args 0)) with
    | some i => return unitsValue (Text.sliceUnits us i (i + 1))
    | none => return .string ""
  | .charCodeAt =>
    let us ← receiverUnits f this
    match unitAt? us (← toIntegerOrInfinity (argument args 0)) with
    | some i => return .ofNat (us.getD i 0).toNat
    | none => return .number Number.nan
  | .codePointAt =>
    let us ← receiverUnits f this
    match unitAt? us (← toIntegerOrInfinity (argument args 0)) with
    | some i => return ((Text.codePointAt? us i).map Value.ofNat).getD .undefined
    | none => return .undefined
  | .concat =>
    let s ← receiverText f this
    return .string (← args.foldlM (fun out v => return out ++ (← toText v)) s)
  | .includes =>
    let us ← receiverUnits f this
    let pattern ← unitsArgument args 0
    return .boolean (Text.find? us pattern (← placeArgument args 1 0 us.size)).isSome
  | .startsWith =>
    let us ← receiverUnits f this
    let pattern ← unitsArgument args 0
    return .boolean (Text.occursAt us pattern (← placeArgument args 1 0 us.size))
  | .endsWith =>
    let us ← receiverUnits f this
    let pattern ← unitsArgument args 0
    let stop ← placeArgument args 1 us.size us.size
    return .boolean (pattern.size ≤ stop && Text.occursAt us pattern (stop - pattern.size))
  | .indexOf =>
    let us ← receiverUnits f this
    let pattern ← unitsArgument args 0
    match Text.find? us pattern (← placeArgument args 1 0 us.size) with
    | some i => return .ofNat i
    | none => return .number (-1.0)
  | .lastIndexOf => lastIndexIn this args
  | .padStart => padText f this args true
  | .padEnd => padText f this args false
  | .repeat => repeatText this args
  | .replace => replaceText f this args false
  | .replaceAll => replaceText f this args true
  | .slice =>
    let us ← receiverUnits f this
    let start := Number.relativeIndex (← toNumber (argument args 0)) us.size
    let stop ← match argument args 1 with
      | .undefined => pure us.size
      | v => do pure (Number.relativeIndex (← toNumber v) us.size)
    return unitsValue (Text.sliceUnits us start stop)
  | .substring =>
    let us ← receiverUnits f this
    let a ← placeArgument args 0 0 us.size
    let b ← placeArgument args 1 us.size us.size
    return unitsValue (Text.sliceUnits us (min a b) (max a b))
  | .substr =>
    let us ← receiverUnits f this
    let start := Number.relativeIndex (← toNumber (argument args 0)) us.size
    let count ← placeArgument args 1 us.size us.size
    return unitsValue (Text.sliceUnits us start (start + count))
  | .split => splitText f this args
  | .toLowerCase => return .string (Text.toLower (← receiverText f this))
  | .toUpperCase => return .string (Text.toUpper (← receiverText f this))
  | .trim => trimText f this true true
  | .trimStart => trimText f this true false
  | .trimEnd => trimText f this false true
  | .localeCompare =>
    let s ← receiverText f this
    let t ← toText (argument args 0)
    return .number (if s < t then -1.0 else if s = t then 0.0 else 1.0)
  | .iterator => newStringIterator (← receiverText f this)

end Exec
end EcmaScript

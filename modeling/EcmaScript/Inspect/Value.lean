import EcmaScript.Machine.Exec
import EcmaScript.Text.Shown

/-! Values as a console shows them. Showing a value runs no code of the script. -/
namespace EcmaScript

def inspectDepth : Nat := 2

def inspectItems : Nat := 100

namespace Inspect

def keyText : PropertyKey → String
  | .index n => Number.natText n.val
  | .name s => if Text.isWord s then s else Text.quoted s
  | .symbol s => "[" ++ s.text ++ "]"

def primitiveText : Value → String
  | .number x => if x == 0.0 && Number.isNegative x then "-0" else Number.text x
  | .string s => Text.quoted s
  | v => v.primitiveText

def emptyItems (n : Nat) : String :=
  if n = 1 then "<1 empty item>" else "<" ++ Number.natText n ++ " empty items>"

def wrap (opening closing : String) : List String → String
  | [] => opening ++ closing
  | items => opening ++ " " ++ ", ".intercalate items ++ " " ++ closing

def braced (items : List String) : String := wrap "\x7b" "\x7d" items

def accessorText (getter setter : Option Value) : String :=
  match getter, setter with
  | some _, some _ => "[Getter/Setter]"
  | some _, none => "[Getter]"
  | none, _ => "[Setter]"

def functionText (isClass : Bool) (name : String) : String :=
  match isClass, name.isEmpty with
  | true, true => "[class (anonymous)]"
  | true, false => "[class " ++ name ++ "]"
  | false, true => "[Function (anonymous)]"
  | false, false => "[Function: " ++ name ++ "]"

def errorText (o : Object) : String :=
  match o.ownValue? (.name "stack") with
  | some (.string stack) => stack
  | _ =>
    match o.ownValue? (.name "message") with
    | some (.string m) => if m = "" then "Error" else "Error: " ++ m
    | _ => "Error"

/-- What there is to show of an object. -/
inductive Shape where
  | text (t : String)
  /-- Shown as the object behind it. -/
  | proxy (target : ObjectId)
  | promise (state : PromiseState)
  | keyed (entries : List (Value × Value)) (isMap : Bool)
  | plain (label : String) (fields : List (PropertyKey × Slot)) (length : Option Nat)

end Inspect

namespace State
open Inspect

def constructorLabel (s : State) (prototype : Option ObjectId) (isArray : Bool) : String :=
  match prototype with
  | none => "[Object: null prototype] "
  | some p =>
    match (s.object p).ownValue? (.name "constructor") with
    | some (.object c) =>
      let name := (s.object c).functionName
      if c == p || name = "" || name = "Object" || (isArray && name = "Array") then ""
      else name ++ " "
    | _ => ""

def shownFields (o : Object) : List (PropertyKey × Slot) :=
  o.properties.keys.filterMap fun key =>
    match o.own? key with
    | some p => if p.enumerable then some (key, p.slot) else none
    | none => none

def shape (s : State) (id : ObjectId) : Shape :=
  let o := s.object id
  match o.kind with
  | .function (.closure c) => .text (functionText c.classKind.isSome o.functionName)
  | .function _ => .text (functionText false o.functionName)
  | .error => .text (errorText o)
  | .proxy (some p) => .proxy p.target
  | .proxy none => .text "<Revoked Proxy>"
  | .number x => .text ("[Number: " ++ Number.text x ++ "]")
  | .boolean b => .text ("[Boolean: " ++ (Value.boolean b).primitiveText ++ "]")
  | .string t => .text ("[String: " ++ Text.quoted t ++ "]")
  | .symbol t => .text ("[Symbol: " ++ t.text ++ "]")
  | .weakMap _ => .text "WeakMap \x7b <items unknown> \x7d"
  | .weakSet _ => .text "WeakSet \x7b <items unknown> \x7d"
  | .weakRef _ => .text "WeakRef \x7b <target> \x7d"
  | .iterator _ => .text "Object [Iterator] \x7b\x7d"
  | .promise p => .promise p.state
  | .map t => .keyed t.entries true
  | .set t => .keyed t.entries false
  | .array => .plain (s.constructorLabel o.prototype true) (shownFields o) (some o.arrayLength)
  | .ordinary => .plain (s.constructorLabel o.prototype false) (shownFields o) none
  | .arguments _ => .plain (s.constructorLabel o.prototype false) (shownFields o) none

end State

namespace Inspect

/-- A property. Elements of an array go without their key, and after the gap before them. -/
def fieldItems (show? : Value → Option String) (isArray : Bool) (next : Nat) (key : PropertyKey)
    (slot : Slot) : Option (List String × Nat) := do
  let text ← match slot with
    | .data v _ => show? v
    | .accessor getter setter => some (accessorText getter setter)
  match key, isArray with
  | .index i, true =>
    return (if next < i.val then [emptyItems (i.val - next), text] else [text], i.val + 1)
  | key, _ => return ([keyText key ++ ": " ++ text], next)

def fieldTexts (show? : Value → Option String) (isArray : Bool) :
    List (PropertyKey × Slot) → (items : List String) → (next : Nat) →
      Option (List String × Nat)
  | [], items, next => some (items, next)
  | (key, slot) :: rest, items, next =>
    if inspectItems ≤ items.length then some (items ++ ["..."], next)
    else
      match fieldItems show? isArray next key slot with
      | some (more, next) => fieldTexts show? isArray rest (items ++ more) next
      | none => none

def plainText (show? : Value → Option String) (label : String)
    (fields : List (PropertyKey × Slot)) (length : Option Nat) : Option String := do
  let (items, next) ← fieldTexts show? length.isSome fields [] 0
  match length with
  | none => return label ++ braced items
  | some length =>
    let items := if next < length && items.length < inspectItems then
        items ++ [emptyItems (length - next)]
      else items
    return label ++ wrap "[" "]" items

def entryText (show? : Value → Option String) (isMap : Bool) (entry : Value × Value) :
    Option String := do
  let key ← show? entry.1
  if isMap then return key ++ " => " ++ (← show? entry.2) else return key

def keyedText (show? : Value → Option String) (entries : List (Value × Value)) (isMap : Bool) :
    Option String := do
  let items ← (entries.take inspectItems).mapM (entryText show? isMap)
  return (if isMap then "Map(" else "Set(") ++ Number.natText entries.length ++ ") " ++
    braced items

end Inspect

namespace State
open Inspect

/-- The text of a value inside the objects `seen`. Nothing when the fuel does not suffice. -/
def inspectFrom (s : State) : (fuel : Nat) → (seen : List ObjectId) → (depth : Nat) → Value →
    Option String
  | 0, _, _, _ => none
  | fuel + 1, seen, depth, .object id =>
    if seen.contains id then some "[Circular]"
    else
      match s.shape id with
      | .text t => some t
      | .proxy target => s.inspectFrom fuel seen depth (.object target)
      | .promise .pending => some ("Promise " ++ braced ["<pending>"])
      | .promise (.fulfilled v) =>
        (s.inspectFrom fuel seen (depth + 1) v).map fun t => "Promise " ++ braced [t]
      | .promise (.rejected v) =>
        (s.inspectFrom fuel seen (depth + 1) v).map fun t =>
          "Promise " ++ braced ["<rejected> " ++ t]
      | .keyed entries isMap =>
        if inspectDepth < depth then some "[Object]"
        else keyedText (s.inspectFrom fuel (id :: seen) (depth + 1)) entries isMap
      | .plain label fields length =>
        if inspectDepth < depth then some (if length.isSome then "[Array]" else "[Object]")
        else plainText (s.inspectFrom fuel (id :: seen) (depth + 1)) label fields length
  | _ + 1, _, _, v => some (primitiveText v)

/-- Fuel for every value that has a text. Only objects that count against the depth are remembered,
and between two of them no promise or proxy is met twice. -/
def inspectFuel (s : State) : Nat := (inspectDepth + 2) * (s.heap.size + 2)

/-- The text of a value. A promise that is settled with itself through a proxy has none. -/
def inspect? (s : State) (v : Value) : Option String := s.inspectFrom s.inspectFuel [] 0 v

def display? (s : State) : Value → Option String
  | .string t => some t
  | v => s.inspect? v

end State

/-! Messages made of several values. The first may be a text with places for the others. -/

/-- How a place shows the value that is put there. -/
inductive Directive where
  | text | integer | number | inspection | style
deriving DecidableEq

def Directive.of? (c : Char) : Option Directive :=
  if c = 's' then some .text
  else if c = 'd' || c = 'i' then some .integer
  else if c = 'f' then some .number
  else if c = 'o' || c = 'O' || c = 'j' then some .inspection
  else if c = 'c' then some .style
  else none

namespace State

/-- A value at a place. Styles are not shown. -/
def fillPlace (s : State) (d : Directive) (v : Value) : Option String :=
  match d with
  | .text => s.display? v
  | .integer =>
    let x := v.primitiveNumber
    some (Number.text (if x.isNaN || x.isInf then x else Number.trunc x))
  | .number => some (Number.text v.primitiveNumber)
  | .inspection => s.inspect? v
  | .style => some ""

/-- Fills the places of a text, and gives the values that are left over. -/
def fillPlaces (s : State) : List Char → List Value → (out : String) →
    Option (String × List Value)
  | [], args, out => some (out, args)
  | ['%'], args, out => some (out.push '%', args)
  | '%' :: '%' :: cs, args, out => s.fillPlaces cs args (out.push '%')
  | '%' :: c :: cs, v :: args, out =>
    match Directive.of? c with
    | some d =>
      match s.fillPlace d v with
      | some t => s.fillPlaces cs args (out ++ t)
      | none => none
    | none => s.fillPlaces (c :: cs) (v :: args) (out.push '%')
  | c :: cs, args, out => s.fillPlaces cs args (out.push c)

def displayAll (s : State) (args : List Value) : Option String :=
  (args.mapM s.display?).map (" ".intercalate ·)

def messageText (s : State) : List Value → Option String
  | .string form :: v :: args =>
    if form.toList.contains '%' then do
      let (out, rest) ← s.fillPlaces form.toList (v :: args) ""
      let tail ← s.displayAll rest
      return if rest.isEmpty then out else out ++ " " ++ tail
    else s.displayAll (.string form :: v :: args)
  | args => s.displayAll args

end State

namespace Exec

def shown : Option String → Exec String
  | some t => return t
  | none => halt .crash

def inspect (v : Value) : Exec String := do shown (← look (·.inspect? v))

def display (v : Value) : Exec String := do shown (← look (·.display? v))

end Exec
end EcmaScript

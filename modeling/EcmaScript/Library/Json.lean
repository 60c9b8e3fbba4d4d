import EcmaScript.Json.Reader
import EcmaScript.Library.Feature
import EcmaScript.Text.Unicode

/-! `JSON`: documents as values and values as documents. -/
namespace EcmaScript

def jsonFeatures : List Feature :=
  [.named "parse" 2 (.json .parse), .named "stringify" 3 (.json .stringify), .tag "JSON"]

/-- What decides how a value is written. -/
structure JsonStyle where
  /-- Is asked for every value before it is written. -/
  replacer : Option Value := none
  /-- Only these members of objects are written. -/
  allowed : Option (List PropertyKey) := none
  /-- What a level is indented by. -/
  gap : String := ""

def JsonStyle.wrap (style : JsonStyle) (opening closing : String) (indent : String)
    (parts : List String) : String :=
  if parts.isEmpty then opening ++ closing
  else if style.gap = "" then opening ++ ",".intercalate parts ++ closing
  else
    let inner := indent ++ style.gap
    opening ++ "\n" ++ inner ++ (",\n" ++ inner).intercalate parts ++ "\n" ++ indent ++ closing

namespace Exec

def createProperty (id : ObjectId) (key : PropertyKey) (v : Value) : Exec Unit := do
  let _ ← define id key (.plain v)

mutual

def fromJson : Json → Exec Value
  | .null => return .null
  | .boolean b => return .boolean b
  | .number n => return .number n.toFloat
  | .string s => return .string s
  | .array items => do return .object (← newArray (← fromJsonItems items #[]))
  | .object members => do
    let id ← newObject []
    fromJsonMembers id members
    return .object id

def fromJsonItems : List Json → Array Value → Exec (Array Value)
  | [], out => return out
  | item :: rest, out => do fromJsonItems rest (out.push (← fromJson item))

def fromJsonMembers (id : ObjectId) : List (String × Json) → Exec Unit
  | [] => return
  | (name, item) :: rest => do
    createProperty id (.ofString name) (← fromJson item)
    fromJsonMembers id rest

end

def revivedKeys (id : ObjectId) : Exec (List PropertyKey) := do
  if ← look (·.isArray (.object id)) then
    return (List.range (← lengthOf id)).map .ofNat
  enumerableKeys id

/-- Lets a function replace every value of a tree, the inner ones first. -/
def revive (reviver : Value) : (fuel : Nat) → ObjectId → PropertyKey → Exec Value
  | 0, _, _ => exhausted
  | fuel + 1, holder, key => do
    let v ← get holder key
    match v with
    | .object id =>
      (← revivedKeys id).forM fun k => do
        let revived ← revive reviver fuel id k
        if revived.isUndefined then
          let _ ← delete id k
        else createProperty id k revived
    | _ => pure ()
    call reviver (.object holder) #[key.toValue, v]

def jsonFault {α : Type} (text : String) (fault : Json.Fault) : Exec α :=
  let (line, column) := Json.position text fault.index
  let message :=
    if fault.atEnd || text.toList.all (Text.whiteSpaceTable.holds ·.toNat) then
      "Unexpected end of JSON input"
    else "Unexpected token in JSON at line " ++ Number.natText line ++ " column " ++
      Number.natText column
  raise (.failure ⟨.syntaxError, message, line, column⟩)

def jsonParse (args : Array Value) : Exec Value := do
  let text ← toText (argument args 0)
  match Json.parse text with
  | .error fault => jsonFault text fault
  | .ok json =>
    let v ← fromJson json
    let reviver := argument args 1
    if ← isCallable reviver then
      let root ← newObject [("", v)]
      revive reviver (← fuel) root (.name "")
    else return v

/-- A value before it is written: `toJSON` and the replacer are asked, and wrappers opened. -/
def preparedValue (style : JsonStyle) (holder : Value) (key : PropertyKey) : Exec Value := do
  let v ← getOf holder key
  let v ← if v.isObject then do
      let f ← getOf v (.name "toJSON")
      if ← isCallable f then call f v #[key.toValue] else pure v
    else pure v
  let v ← match style.replacer with
    | some f => call f holder #[key.toValue, v]
    | none => pure v
  match v with
  | .object id =>
    match (← object id).kind with
    | .number _ => return .number (← toNumber v)
    | .string _ => return .string (← toText v)
    | .boolean b => return .boolean b
    | _ => return v
  | _ => return v

def memberText (style : JsonStyle) (key : PropertyKey) (text : String) : String :=
  Json.quote key.text ++ (if style.gap = "" then ":" else ": ") ++ text

/-- The text of a property, or nothing for what documents cannot hold. The objects around it must
not hold themselves. -/
def serialize (style : JsonStyle) : (fuel : Nat) → (indent : String) → (around : List ObjectId) →
    (holder : Value) → (key : PropertyKey) → Exec (Option String)
  | 0, _, _, _, _ => exhausted
  | fuel + 1, indent, around, holder, key => do
    let v ← preparedValue style holder key
    match v with
    | .null => return some "null"
    | .boolean b => return some (if b then "true" else "false")
    | .string s => return some (Json.quote s)
    | .number x => return some (if x.isNaN || x.isInf then "null" else Number.text x)
    | .object id =>
      if ← isCallable v then return none
      if around.contains id then throwType "Converting circular structure to JSON"
      let inner := indent ++ style.gap
      if ← look (·.isArray v) then
        let parts ← collect (← lengthOf id) fun i => do
          checkInterrupts
          return (← serialize style fuel inner (id :: around) v (.ofNat i)).getD "null"
        return some (style.wrap "[" "]" indent parts.toList)
      else
        let keys ← match style.allowed with
          | some keys => pure keys
          | none => enumerableKeys id
        let parts ← keys.filterMapM fun k => do
          return (← serialize style fuel inner (id :: around) v k).map (memberText style k)
        return some (style.wrap "\x7b" "\x7d" indent parts)
    | _ => return none

/-- The members that an array names. -/
def allowedKeys (v : Value) : Exec (List PropertyKey) := do
  let length ← toLength (← getOf v (.name "length"))
  let keys ← loop (0, ([] : List PropertyKey)) fun (i, keys) => do
    if length ≤ i then return .inr keys
    let item ← getOf v (.ofNat i)
    let key ← match item with
      | .string _ | .number _ => some <$> toKey item
      | .object id =>
        match (← object id).kind with
        | .string _ | .number _ => do pure (some (PropertyKey.ofString (← toText item)))
        | _ => pure none
      | _ => pure none
    match key with
    | some key => return .inl (i + 1, if keys.contains key then keys else key :: keys)
    | none => return .inl (i + 1, keys)
  return keys.reverse

/-- What a level is indented by: a number of spaces, or a text, of at most ten characters. -/
def gapOf (space : Value) : Exec String := do
  let space ← match space with
    | .object id =>
      match (← object id).kind with
      | .number x => pure (.number x)
      | .string s => pure (.string s)
      | _ => pure space
    | v => pure v
  match space with
  | .number x =>
    let n := Number.toIntegerOrInfinity x
    return String.ofList (List.replicate (if n < 0.0 then 0 else min 10 (Number.toNat n)) ' ')
  | .string s => return String.ofList (s.toList.take 10)
  | _ => return ""

def jsonStringify (args : Array Value) : Exec Value := do
  let gap ← gapOf (argument args 2)
  let replacer := argument args 1
  let style ← if ← isCallable replacer then pure { replacer := some replacer, gap := gap }
    else if ← look (·.isArray replacer) then do
      pure { allowed := some (← allowedKeys replacer), gap := gap : JsonStyle }
    else pure { gap := gap }
  let wrapper ← newObject [("", argument args 0)]
  match ← serialize style (← fuel) "" [] (.object wrapper) (.name "") with
  | some text => return .string text
  | none => return .undefined

def jsonFunction (f : JsonFunction) (args : Array Value) : Exec Value :=
  match f with
  | .parse => jsonParse args
  | .stringify => jsonStringify args

end Exec
end EcmaScript

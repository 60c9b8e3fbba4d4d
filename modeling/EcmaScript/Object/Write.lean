import EcmaScript.Object.Convert

/-! Changing objects. Every change asks first whether a dry run allows it. -/
namespace EcmaScript

/-- What became of an assignment. -/
inductive SetOutcome where
  | done | readOnly | notExtensible | getterOnly | primitiveReceiver | proxyRejected
deriving DecidableEq, Inhabited

/-- How far an object is closed against changes. -/
inductive Integrity where
  | sealed | frozen
deriving DecidableEq, Inhabited

def Integrity.isOpen (level : Integrity) (p : Property) : Bool :=
  p.configurable || (level == .frozen && match p.slot with
    | .data _ writable => writable
    | .accessor .. => false)

namespace State

def onChain (s : State) (target : ObjectId) : (fuel : Nat) → Option ObjectId → Bool
  | 0, _ => false
  | _, none => false
  | fuel + 1, some id =>
    id == target || (!(s.object id).isProxy && s.onChain target fuel (s.object id).prototype)

/-- The message for an assignment that strict code must not pass over. -/
def assignmentMessage (s : State) (outcome : SetOutcome) (base : Value) (key : PropertyKey) :
    String :=
  let shown := match base with
    | .object id => s.describeObject id
    | v => v.primitiveText
  match outcome with
  | .done | .readOnly =>
    "Cannot assign to read only property '" ++ key.text ++ "' of object '" ++ shown ++ "'"
  | .notExtensible => "Cannot add property " ++ key.text ++ ", object is not extensible"
  | .getterOnly =>
    "Cannot set property " ++ key.text ++ " of " ++ shown ++ " which has only a getter"
  | .primitiveReceiver =>
    "Cannot create property '" ++ key.text ++ "' on " ++ s.typeOf base ++ " '" ++ shown ++ "'"
  | .proxyRejected => "'set' on proxy: trap returned falsish for property '" ++ key.text ++ "'"

end State

namespace Exec

def replaceWith (id : ObjectId) (f : Object → Option Object) : Exec Bool := fun _ _ s =>
  match f (s.object id) with
  | some o => .value true { s with heap := s.heap.setIfInBounds id.index o }
  | none => .value false s

/-- Defines a property of an arguments object. A shared parameter gets the new value; an index that
becomes an accessor or read-only is shared no longer. -/
def defineArgument (id : ObjectId) (shared : ArgumentMap) (key : PropertyKey) (d : Descriptor) :
    Exec Bool := do
  let mapped := match key with
    | .index n => ((shared.names[n.val]?).join).map fun name => (n.val, name)
    | _ => none
  match mapped with
  | none => replaceWith id (·.define? key d)
  | some (n, name) =>
    let current ← look fun s => ((s.scope shared.scope).binding? name).bind (·.value)
    let d := if d.value.isNone && d.writable == some false then { d with value := current } else d
    let unmap := d.isAccessor || d.writable == some false
    if !(← replaceWith id (·.define? key d)) then return false
    match d.value with
    | some v => if !unmap then modifyScope shared.scope (·.fill name v)
    | none => pure ()
    if unmap then
      modifyObject id fun o => { o with
        kind := .arguments (some { shared with names := shared.names.setIfInBounds n none }) }
    return true

/-- The length that an array is given. It is converted twice, as the rules have it. -/
def toArrayLength (v : Value) : Exec Nat := do
  let length := Number.toUInt32 (← toNumber v)
  if (← toNumber v) == length.toFloat then return length.toNat
  throwRange "Invalid array length"

def defineArrayLength (id : ObjectId) (d : Descriptor) : Exec Bool := do
  match d.value with
  | none => replaceWith id (·.define? Object.lengthKey d)
  | some v =>
    let length ← toArrayLength v
    update fun s =>
      let (done, o) := (s.object id).defineLength length d
      (done, { s with heap := s.heap.setIfInBounds id.index o })

def defineOnArray (id : ObjectId) (d : Descriptor) : PropertyKey → Exec Bool
  | .index n => replaceWith id (·.defineElement? n d)
  | key =>
    if key = Object.lengthKey then defineArrayLength id d else replaceWith id (·.define? key d)

def defineOrdinary (id : ObjectId) (key : PropertyKey) (d : Descriptor) : Exec Bool := do
  checkObjectWrite id "property definition"
  match (← object id).kind with
  | .array => defineOnArray id d key
  | .string text =>
    match stringElement? text key with
    | some p => return d.agreesWithElement p
    | none => replaceWith id (·.define? key d)
  | .arguments (some shared) => defineArgument id shared key d
  | _ => replaceWith id (·.define? key d)

def define (id : ObjectId) (key : PropertyKey) (d : Descriptor) : Exec Bool := do
  match ← proxyOf id "defineProperty" with
  | some p => request (.proxyDefine p key d)
  | none => defineOrdinary id key d

def defineOrThrow (id : ObjectId) (key : PropertyKey) (d : Descriptor) : Exec Unit := do
  if !(← define id key d) then
    let o ← object id
    if !o.extensible && (o.own? key).isNone then
      throwType ("Cannot define property " ++ key.text ++ ", object is not extensible")
    throwType ("Cannot redefine property: " ++ key.text)

def createOrThrow (id : ObjectId) (key : PropertyKey) (v : Value) : Exec Unit :=
  defineOrThrow id key (.plain v)

def assignOwn (key : PropertyKey) (value receiver : Value) : Exec SetOutcome := do
  match receiver with
  | .object target =>
    match ← getOwn target key with
    | some ⟨.data _ true, _, _⟩ =>
      return if ← define target key { value := some value } then .done else .readOnly
    | some _ => return .readOnly
    | none =>
      if ← define target key (.plain value) then return .done
      return if ← isExtensible target then .readOnly else .notExtensible
  | _ => return .primitiveReceiver

/-- Assigns a value to what an object has under a key. The receiver is what gets a new property. -/
def setFor (id : ObjectId) (key : PropertyKey) (value receiver : Value) : Exec SetOutcome := do
  match ← look (·.lookup id key) with
  | .proxy (some p) =>
    return if ← request (.proxySet p key value receiver) then .done else .proxyRejected
  | .proxy none => revoked "set"
  | .found ⟨.accessor _ (some setter), _, _⟩ =>
    let _ ← call setter receiver #[value]
    return .done
  | .found ⟨.accessor _ none, _, _⟩ => return .getterOnly
  | .found ⟨.data _ false, _, _⟩ => return .readOnly
  | _ => assignOwn key value receiver

def set (id : ObjectId) (key : PropertyKey) (value : Value) : Exec Bool :=
  return (← setFor id key value (.object id)) == .done

/-- Assigns a property of any value. Strict code does not pass over a refusal. -/
def putOf (base : Value) (key : PropertyKey) (value : Value) (strict : Bool) : Exec Unit := do
  if base.isNullish then
    throwType ("Cannot set properties of " ++ base.primitiveText ++ " (setting '" ++ key.text ++ "')")
  let outcome ← setFor (← toObject base) key value base
  if outcome != .done && strict then
    throwType (← look (·.assignmentMessage outcome base key))

/-- Removes an own property; false when it has to stay. -/
def delete (id : ObjectId) (key : PropertyKey) : Exec Bool := do
  match ← proxyOf id "deleteProperty" with
  | some p => request (.proxyDelete p key)
  | none =>
    let o ← object id
    let isElement := match o.kind with
      | .string text => (stringElement? text key).isSome
      | _ => false
    if isElement then return false
    match o.own? key with
    | none => return true
    | some p =>
      if !p.configurable then return false
      checkObjectWrite id "delete"
      modifyObject id fun o =>
        let o := { o with properties := o.properties.erase key }
        match o.kind, key with
        | .arguments (some shared), .index n =>
          { o with kind := .arguments (some { shared with names := shared.names.setIfInBounds n.val none }) }
        | _, _ => o
      return true

def setPrototype (id : ObjectId) (prototype : Option ObjectId) : Exec Bool := do
  match ← proxyOf id "setPrototypeOf" with
  | some p => request (.proxySetPrototype p prototype)
  | none =>
    let o ← object id
    if o.prototype == prototype then return true
    if !o.extensible then return false
    if ← look fun s => s.onChain id (s.heap.size + 1) prototype then return false
    checkObjectWrite id "prototype change"
    modifyObject id fun o => { o with prototype := prototype }
    return true

def preventExtensions (id : ObjectId) : Exec Bool := do
  match ← proxyOf id "preventExtensions" with
  | some p => request (.proxyPreventExtensions p)
  | none =>
    if (← object id).extensible then
      checkObjectWrite id "preventExtensions"
      modifyObject id fun o => { o with extensible := false }
    return true

def setIntegrity (id : ObjectId) (level : Integrity) : Exec Bool := do
  if !(← preventExtensions id) then return false
  (← ownKeys id).forM fun key => do
    let frozenData ← if level == .frozen then
        pure (((← getOwn id key).map (!·.isAccessor)).getD false)
      else pure false
    defineOrThrow id key
      { configurable := some false, writable := if frozenData then some false else none }
  return true

def allClosed (id : ObjectId) (level : Integrity) : List PropertyKey → Exec Bool
  | [] => return true
  | key :: rest => do
    match ← getOwn id key with
    | some p => if level.isOpen p then return false else allClosed id level rest
    | none => allClosed id level rest

def testIntegrity (id : ObjectId) (level : Integrity) : Exec Bool := do
  if ← isExtensible id then return false
  allClosed id level (← ownKeys id)

def copyProperties (target : ObjectId) (source : Value) (leftOut : List PropertyKey) :
    Exec Unit := do
  if source.isNullish then return
  let id ← toObject source
  (← ownKeys id).forM fun key => do
    checkInterrupts
    if leftOut.contains key then return
    match ← getOwn id key with
    | some p => if p.enumerable then createOrThrow target key (← getFor id key source)
    | none => pure ()

/-- The keys that a loop over an object visits: the enumerable ones along the prototypes, each
once, where a hidden property also hides those behind it. -/
def forInKeys (id : ObjectId) : Exec (List String) := do
  let (_, names) ← loop (some id, ([] : List String), ([] : List String)) fun (at?, seen, out) => do
    match at? with
    | none => return .inr (seen, out.reverse)
    | some id =>
      checkInterrupts
      let (seen, out) ← (← ownKeys id).foldlM (fun (seen, out) key => do
        match key.string? with
        | none => return (seen, out)
        | some name =>
          if seen.contains name then return (seen, out)
          match ← getOwn id key with
          | some p => return (name :: seen, if p.enumerable then name :: out else out)
          | none => return (name :: seen, out)) (seen, out)
      return .inl (← prototypeOf id, seen, out)
  return names

def inheritsFrom (prototype : ObjectId) (id : ObjectId) : Exec Bool :=
  loop id fun id => do
    match ← prototypeOf id with
    | none => return .inr false
    | some p => if p == prototype then return .inr true else return .inl p

/-- Whether a value was made by a constructor, as far as its prototypes say. -/
def ordinaryHasInstance (constructor value : Value) : Exec Bool := do
  match constructor with
  | .object c =>
    if !(← isCallable constructor) then return false
    match (← object c).callable? with
    | some (.bound target _ _) => request (.instanceOf value (.object target))
    | _ =>
      match value with
      | .object id =>
        match ← getNamed c "prototype" with
        | .object p => inheritsFrom p id
        | v => throwType ("Function has non-object prototype '" ++ v.primitiveText ++
          "' in instanceof check")
      | _ => return false
  | _ => return false

def instanceOf (value target : Value) : Exec Bool := do
  match target with
  | .object t =>
    let custom ← get t (.symbol .hasInstance)
    if !custom.isNullish then return (← call custom target #[value]).truthy
    if !(← isCallable target) then throwType "Right-hand side of 'instanceof' is not callable"
    ordinaryHasInstance target value
  | _ => throwType "Right-hand side of 'instanceof' is not an object"

def hasIn (key target : Value) : Exec Bool := do
  match target with
  | .object id => has id (← toKey key)
  | _ =>
    let shown := match key with
      | .string s => "'" ++ s ++ "'"
      | v => v.primitiveText
    throwType ("Cannot use 'in' operator to search for " ++ shown ++ " in " ++ target.primitiveText)

end Exec
end EcmaScript

import EcmaScript.Object.Descriptor

/-! What proxies do: each operation asks the trap of the handler, or goes to the target when there
is none, and no answer may contradict what the target guarantees. -/
namespace EcmaScript.Exec

def trapOf (p : ProxyData) (name : String) : Exec (Option Value) :=
  methodOf (.object p.handler) (.name name)

def callTrap (p : ProxyData) (trap : Value) (args : Array Value) : Exec Value :=
  call trap (.object p.handler) (#[Value.object p.target] ++ args)

def lie {α : Type} (operation rest : String) : Exec α :=
  throwType ("'" ++ operation ++ "' on proxy: " ++ rest)

/-- An own property, which goes through a description of it. -/
def proxyGetOwn (p : ProxyData) (key : PropertyKey) : Exec (Option Property) := do
  let own ← getOwn p.target key
  match ← trapOf p "getOwnPropertyDescriptor" with
  | none => return own.map (·.toDescriptor.toProperty)
  | some trap =>
    match ← callTrap p trap #[key.toValue] with
    | .undefined =>
      if (own.map (!·.configurable)).getD false then
        lie "getOwnPropertyDescriptor" ("trap returned undefined for property '" ++ key.text ++
          "' which is non-configurable in the proxy target")
      return none
    | .object d =>
      let shown := (← toDescriptor d).toProperty
      if !shown.configurable && (own.map (·.configurable)).getD true then
        lie "getOwnPropertyDescriptor" ("trap reported non-configurability for property '" ++
          key.text ++ "' which is either non-existent or configurable in the proxy target")
      return some shown.toDescriptor.toProperty
    | _ => lie "getOwnPropertyDescriptor" ("trap returned neither object nor undefined for property '"
      ++ key.text ++ "'")

def proxyDefine (p : ProxyData) (key : PropertyKey) (d : Descriptor) : Exec Bool := do
  match ← trapOf p "defineProperty" with
  | none => define p.target key d
  | some trap =>
    let shown ← fromDescriptor d
    if !(← callTrap p trap #[key.toValue, .object shown]).truthy then return false
    let fixed := d.configurable == some false
    let refuse : Exec Bool := lie "defineProperty"
      ("trap returned truish for defining non-configurable property '" ++ key.text ++
        "' which is either non-existent or configurable in the proxy target")
    match ← getOwn p.target key with
    | none =>
      if !(← isExtensible p.target) then
        lie "defineProperty" ("trap returned truish for adding property '" ++ key.text ++
          "'  to the non-extensible proxy target")
      if fixed then refuse else return true
    | some own => if fixed && own.configurable then refuse else return true

def proxyHas (p : ProxyData) (key : PropertyKey) : Exec Bool := do
  match ← trapOf p "has" with
  | none => has p.target key
  | some trap =>
    let answer := (← callTrap p trap #[key.toValue]).truthy
    if !answer then
      match ← getOwn p.target key with
      | some own =>
        if !own.configurable then
          lie "has" ("trap returned falsish for property '" ++ key.text ++
            "' which exists in the proxy target as non-configurable")
      | none => pure ()
    return answer

def frozenValue (p : ProxyData) (key : PropertyKey) : Exec (Option Value) := do
  match ← getOwn p.target key with
  | some ⟨.data v false, _, false⟩ => return some v
  | _ => return none

def proxyGet (p : ProxyData) (key : PropertyKey) (receiver : Value) : Exec Value := do
  match ← trapOf p "get" with
  | none => getFor p.target key receiver
  | some trap =>
    let v ← callTrap p trap #[key.toValue, receiver]
    match ← frozenValue p key with
    | some fixed =>
      if !fixed.same v then
        lie "get" ("property '" ++ key.text ++ "' is a read-only and non-configurable data property on the proxy target but the proxy did not return its actual value (expected '" ++
          fixed.primitiveText ++ "' but got '" ++ v.primitiveText ++ "')")
    | none => pure ()
    return v

def proxySet (p : ProxyData) (key : PropertyKey) (value receiver : Value) : Exec Bool := do
  match ← trapOf p "set" with
  | none => return (← setFor p.target key value receiver) == .done
  | some trap =>
    if !(← callTrap p trap #[key.toValue, value, receiver]).truthy then return false
    match ← frozenValue p key with
    | some fixed =>
      if !fixed.same value then
        lie "set" ("trap returned truish for property '" ++ key.text ++
          "' which exists in the proxy target as a non-configurable and non-writable data property with a different value")
    | none => pure ()
    return true

def proxyDelete (p : ProxyData) (key : PropertyKey) : Exec Bool := do
  match ← trapOf p "deleteProperty" with
  | none => delete p.target key
  | some trap =>
    let answer := (← callTrap p trap #[key.toValue]).truthy
    if answer then
      match ← getOwn p.target key with
      | some own =>
        if !own.configurable then
          lie "deleteProperty" ("trap returned truish for property '" ++ key.text ++
            "' which is non-configurable in the proxy target")
      | none => pure ()
    return answer

/-- The keys that a trap lists. Each must be a string or a symbol, and none may be listed twice. -/
def keysOfTrap (keys : List PropertyKey) : List Value → Exec (List PropertyKey)
  | [] => return keys.reverse
  | v :: rest => do
    let key ← match v with
      | .string s => pure (PropertyKey.ofString s)
      | .symbol s => pure (PropertyKey.symbol s)
      | v => throwType (v.primitiveText ++ " is not a valid property name")
    if keys.contains key then lie "ownKeys" "trap returned duplicate entries"
    keysOfTrap (key :: keys) rest

def proxyOwnKeys (p : ProxyData) : Exec (List PropertyKey) := do
  match ← trapOf p "ownKeys" with
  | none => ownKeys p.target
  | some trap =>
    let keys ← keysOfTrap [] (← listFromArrayLike (← callTrap p trap #[])).toList
    let extensible ← isExtensible p.target
    (← ownKeys p.target).forM fun key => do
      let required ← if extensible then
          pure (((← getOwn p.target key).map (!·.configurable)).getD false)
        else pure true
      if required && !keys.contains key then
        lie "ownKeys" ("trap result did not include '" ++ key.text ++ "'")
    return keys

def proxyGetPrototype (p : ProxyData) : Exec (Option ObjectId) := do
  match ← trapOf p "getPrototypeOf" with
  | none => prototypeOf p.target
  | some trap =>
    match ← callTrap p trap #[] with
    | .object id => return some id
    | .null => return none
    | _ => lie "getPrototypeOf" "trap returned neither object nor null"

def proxySetPrototype (p : ProxyData) (prototype : Option ObjectId) : Exec Bool := do
  match ← trapOf p "setPrototypeOf" with
  | none => setPrototype p.target prototype
  | some trap => return (← callTrap p trap #[.ofObject? prototype]).truthy

def proxyIsExtensible (p : ProxyData) : Exec Bool := do
  match ← trapOf p "isExtensible" with
  | none => isExtensible p.target
  | some trap =>
    let answer := (← callTrap p trap #[]).truthy
    let actual ← isExtensible p.target
    if answer != actual then
      lie "isExtensible" ("trap result does not reflect extensibility of proxy target (which is '" ++
        (Value.boolean actual).primitiveText ++ "')")
    return answer

def proxyPreventExtensions (p : ProxyData) : Exec Bool := do
  match ← trapOf p "preventExtensions" with
  | none => preventExtensions p.target
  | some trap =>
    let answer := (← callTrap p trap #[]).truthy
    if answer then
      if ← isExtensible p.target then
        lie "preventExtensions" "trap returned truish but the proxy target is extensible"
    return answer

def proxyCall (p : ProxyData) (this : Value) (args : Array Value) : Exec Value := do
  match ← trapOf p "apply" with
  | none => call (.object p.target) this args
  | some trap => callTrap p trap #[this, .object (← newArray args)]

def proxyConstruct (p : ProxyData) (args : Array Value) (newTarget : Value) : Exec Value := do
  match ← trapOf p "construct" with
  | none => construct (.object p.target) args newTarget
  | some trap =>
    let result ← callTrap p trap #[.object (← newArray args), newTarget]
    if !result.isObject then throwType "proxy [[Construct]] must return an object"
    return result

end EcmaScript.Exec

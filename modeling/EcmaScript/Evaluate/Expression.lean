import EcmaScript.Evaluate.Class
import EcmaScript.Evaluate.Operator
import EcmaScript.Evaluate.Reference
import EcmaScript.Promise.Core

/-! Expressions. -/
namespace EcmaScript

def LogicalOp.takesLeft (op : LogicalOp) (left : Value) : Bool :=
  match op with
  | .and => !left.truthy
  | .or => left.truthy
  | .nullish => !left.isNullish

namespace Exec

/-- Refuses what an expression gave. The message shows how the expression is written. -/
def notA {α : Type} (e : Expr) (what : String) : Exec α := do
  let script := (← context).script
  let text ← look fun s => e.span.slice (s.script script).text
  throwType ((if text = "" then "expression" else text) ++ " is not a " ++ what)

/-- Members and calls. Gives the value with the `this` that a call on it gets, or nothing when an
optional link broke off. -/
def evaluateChain (scope : ScopeId) (e : Expr) : Exec (Option (Value × Value)) := do
  match e.node with
  | .member inner key optional =>
    match ← request (.chain scope inner) with
    | none => return none
    | some (base, _) =>
      if optional && base.isNullish then return none
      return some (← readReference scope (← memberOf scope base key e.span), base)
  | .superMember key =>
    let r ← superMember scope key
    let v ← readReference scope r
    match r with
    | .property _ _ this => return some (v, this)
    | _ => return some (v, .undefined)
  | .call callee arguments optional =>
    match ← request (.chain scope callee) with
    | none => return none
    | some (f, this) =>
      if optional && f.isNullish then return none
      let args ← evaluateArguments scope arguments
      if !(← isCallable f) then notA callee "function"
      atSpan e.span
      return some (← call f this args, .undefined)
  | _ => return some (← evaluate scope e, .undefined)

def chainValue (scope : ScopeId) (e : Expr) : Exec Value :=
  return ((← evaluateChain scope e).map (·.1)).getD .undefined

def templateText (scope : ScopeId) (span : Span) : List TemplateChunk → List Expr → String → Exec String
  | [], _, out => return out
  | chunk :: chunks, parts, out => do
    match chunk.cooked with
    | none => throwSyntaxAt span "Invalid escape sequence in template"
    | some text =>
      match parts with
      | [] => templateText scope span chunks [] (out ++ text)
      | e :: parts =>
        let inner ← toText (← evaluate scope e)
        templateText scope span chunks parts (out ++ text ++ inner)

/-- The chunks of a tagged template as frozen arrays. A place in a script has one such object. -/
def templateObject (place : Nat) (chunks : List TemplateChunk) : Exec ObjectId := do
  let site := ((← context).script, place)
  match ← look (·.templates.lookup site) with
  | some id => return id
  | none =>
    let strings ← newArray (chunks.map fun c => (c.cooked.map Value.string).getD .undefined).toArray
    let raw ← newArray (chunks.map fun c => .string c.raw).toArray
    let _ ← setIntegrity raw .frozen
    modifyObject strings (·.put (.name "raw") (.constant (.object raw)))
    let _ ← setIntegrity strings .frozen
    change fun s => { s with templates := (site, strings) :: s.templates }
    return strings

def taggedTemplate (scope : ScopeId) (span : Span) (tag : Expr) (chunks : List TemplateChunk)
    (parts : List Expr) : Exec Value := do
  let (f, this) := (← request (.chain scope tag)).getD (.undefined, .undefined)
  let strings ← templateObject span.stop chunks
  let args ← appendItems scope id .undefined parts #[.object strings]
  if !(← isCallable f) then notA tag "function"
  atSpan tag.span
  call f this args

/-- Adds a member of an object literal. -/
def addMember (scope : ScopeId) (target : ObjectId) : Member → Exec Unit
  | .property (.fixed "__proto__") value false => do
    match ← evaluate scope value with
    | .object p => modifyObject target fun o => { o with prototype := some p }
    | .null => modifyObject target fun o => { o with prototype := none }
    | _ => return
  | .property key value _ => do
    let key ← keyOf scope key
    createOrThrow target key (← evaluateNamed scope value key.functionName)
  | .initialized _ _ span => throwSyntaxAt span "Invalid shorthand property initializer"
  | .spread value => do copyProperties target (← evaluate scope value) []
  | .method key kind _ node => do
    let key ← keyOf scope key
    let f ← newFunction node scope "" (some target)
    nameFunction f key kind
    defineMethod target key kind f true
  | .field .. => return
  | .staticBlock _ => return

def deleteExpression (scope : ScopeId) (operand : Expr) : Exec Value := do
  match operand.node with
  | .member inner key _ =>
    let base ← evaluate scope inner
    let key ← keyOf scope key
    let id ← toObject base
    let deleted ← delete id key
    if !deleted && (← context).strict then
      throwType ("Cannot delete property '" ++ key.text ++ "' of " ++ (← look (·.describeObject id)))
    return .boolean deleted
  | .superMember _ => throwReference "Unsupported reference to 'super'"
  | .identifier name =>
    if (← look (·.resolve scope name)).isSome then return .boolean false
    return .boolean (← delete (← globalObject) (.ofString name))
  | .optionalChain inner =>
    if (← request (.chain scope inner)).isSome then unsupported "delete of an optional chain member"
    return .boolean true
  | _ =>
    let _ ← evaluate scope operand
    return .boolean true

def typeOfExpression (scope : ScopeId) (operand : Expr) : Exec Value := do
  let undeclared ← match operand.node with
    | .identifier name => do
      if (← look (·.resolve scope name)).isSome then pure false
      else pure !(← has (← globalObject) (.ofString name))
    | _ => pure false
  if undeclared then return .string "undefined"
  let v ← evaluate scope operand
  return .string (← look (·.typeOf v))

def evaluateUnary (scope : ScopeId) (op : UnaryOp) (operand : Expr) : Exec Value := do
  match op with
  | .delete => deleteExpression scope operand
  | .typeOf => typeOfExpression scope operand
  | .minus => return .number (-(← toNumber (← evaluate scope operand)))
  | .plus => return .number (← toNumber (← evaluate scope operand))
  | .not => return .boolean !(← evaluate scope operand).truthy
  | .bitNot => return .number (Float.ofInt (~~~(← toInt32 (← evaluate scope operand))).toInt)
  | .void =>
    let _ ← evaluate scope operand
    return .undefined

def evaluateUpdate (scope : ScopeId) (increment before : Bool) (target : Expr) : Exec Value := do
  let r ← referenceTo scope target
  let old ← toNumber (← readReference scope r)
  let new := if increment then old + 1.0 else old - 1.0
  writeReference scope r (.number new)
  return .number (if before then new else old)

def evaluateAssign (scope : ScopeId) (target : Pattern) (value : Expr) : Exec Value := do
  match target with
  | .identifier name _ =>
    let v ← evaluateNamed scope value name
    assignName scope name v
    return v
  | .place target =>
    let r ← referenceTo scope target
    let v ← evaluate scope value
    writeReference scope r v
    return v
  | target =>
    let v ← evaluate scope value
    request (.bind scope target v .assign)
    return v

/-- Assignment with an operator. The logical ones evaluate the right side only when they assign. -/
def evaluateCompound (scope : ScopeId) (op : AssignOp) (target value : Expr) : Exec Value := do
  let r ← referenceTo scope target
  let current ← readReference scope r
  match op.logical?, op.binary? with
  | some op, _ =>
    if op.takesLeft current then return current
    let v ← match r with
      | .name name => evaluateNamed scope value name
      | _ => evaluate scope value
    writeReference scope r v
    return v
  | none, some op =>
    let v ← applyBinary op current (← evaluate scope value)
    writeReference scope r v
    return v
  | none, none => halt (.internal "unknown assignment operator")

def evaluateSequence (scope : ScopeId) : List Expr → Exec Value
  | [] => return .undefined
  | [e] => evaluate scope e
  | e :: rest => do
    let _ ← evaluate scope e
    evaluateSequence scope rest

def hasPrivateIn (scope : ScopeId) (name : String) (target : Expr) (span : Span) : Exec Value := do
  let name ← privateName scope name span
  match ← evaluate scope target with
  | .object id => return .boolean ((← object id).hasPrivate name)
  | v => throwType ("Cannot use 'in' operator to search for '" ++ name.description ++ "' in " ++
    v.primitiveText)

def evaluateExpression (scope : ScopeId) (e : Expr) : Exec Value := do
  match e.node with
  | .number x => return .number x
  | .string s => return .string s
  | .boolean b => return .boolean b
  | .null => return .null
  | .bigInt _ => unsupported "BigInt literals"
  | .regExp .. => unsupported "regular expression literals"
  | .template chunks parts => return .string (← templateText scope e.span chunks parts "")
  | .taggedTemplate tag chunks parts => taggedTemplate scope e.span tag chunks parts
  | .identifier name => readName scope name
  | .this => thisValue scope
  | .newTarget =>
    let activation := (← look fun s => s.scope (s.thisScope scope)).activation?
    return (activation.map (·.newTarget)).getD .undefined
  | .array elements =>
    return .object (← newSparseArray (← appendItems scope some none elements #[]))
  | .object members =>
    let id ← newObject []
    members.forM (addMember scope id)
    return .object id
  | .function node => functionValue scope node ""
  | .classExpr node => return .object (← request (.classDefinition scope node (node.name?.getD "")))
  | .unary op operand => evaluateUnary scope op operand
  | .update increment before target => evaluateUpdate scope increment before target
  | .binary op left right =>
    let a ← evaluate scope left
    applyBinary op a (← evaluate scope right)
  | .logical op left right =>
    let a ← evaluate scope left
    if op.takesLeft a then return a else evaluate scope right
  | .privateIn name target => hasPrivateIn scope name target e.span
  | .assign target value => evaluateAssign scope target value
  | .compoundAssign op target value => evaluateCompound scope op target value
  | .conditional test consequent alternate =>
    if (← evaluate scope test).truthy then evaluate scope consequent else evaluate scope alternate
  | .member .. => chainValue scope e
  | .superMember _ => chainValue scope e
  | .call .. => chainValue scope e
  | .optionalChain inner => chainValue scope inner
  | .superCall arguments =>
    let args ← evaluateArguments scope arguments
    atSpan e.span
    callSuper scope args
  | .new callee arguments =>
    let f ← evaluate scope callee
    let args ← evaluateArguments scope arguments
    if !(← isConstructor f) then notA callee "constructor"
    atSpan e.span
    construct f args f
  | .sequence parts => evaluateSequence scope parts
  | .await operand =>
    let slot ← slotFor (← evaluate scope operand)
    let outcome ← attempt (waitFor slot)
    checkInterrupts
    ofExcept outcome
  | .yield .. => unsupported "generator functions"
  | .hole => return .undefined
  | .spread value => evaluate scope value

end Exec
end EcmaScript

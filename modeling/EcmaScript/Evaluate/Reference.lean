import EcmaScript.Evaluate.Names
import EcmaScript.Function.Create
import EcmaScript.Object.Iterate

/-! Places that can be read and assigned. -/
namespace EcmaScript

/-- A place: a name, a property of a value, or a private element. -/
inductive Reference where
  | name (name : String)
  /-- `this` differs from `base` only after `super`. -/
  | property (base : Value) (key : PropertyKey) (this : Value)
  | hidden (base : Value) (name : PrivateName)
deriving Inhabited

namespace Exec

def undeclaredPrivate {α : Type} (verb preposition : String) (name : PrivateName) : Exec α :=
  throwType ("Cannot " ++ verb ++ " private member " ++ name.description ++ " " ++ preposition ++
    " an object whose class did not declare it")

def readPrivate (base : Value) (name : PrivateName) : Exec Value := do
  match base with
  | .object id =>
    match (← object id).private? name with
    | some (.field v) => return v
    | some (.method f) => return f
    | some (.accessor (some getter) _) => call getter base #[]
    | some (.accessor none _) => throwType ("'" ++ name.description ++ "' was defined without a getter")
    | none => undeclaredPrivate "read" "from" name
  | _ => undeclaredPrivate "read" "from" name

def writePrivate (base : Value) (name : PrivateName) (v : Value) : Exec Unit := do
  match base with
  | .object id =>
    match (← object id).private? name with
    | some (.field _) =>
      checkObjectWrite id "private field assignment"
      modifyObject id (·.putPrivate name (.field v))
    | some (.method _) => throwType ("Private method '" ++ name.description ++ "' is not writable")
    | some (.accessor _ (some setter)) =>
      let _ ← call setter base #[v]
    | some (.accessor _ none) => throwType ("'" ++ name.description ++ "' was defined without a setter")
    | none => undeclaredPrivate "write" "to" name
  | _ => undeclaredPrivate "write" "to" name

def privateName (scope : ScopeId) (name : String) (span : Span) : Exec PrivateName := do
  match ← look (·.resolvePrivate scope name) with
  | some found => return found
  | none => throwSyntaxAt span ("Private field '#" ++ name ++ "' must be declared in an enclosing class")

def keyOf (scope : ScopeId) : Key → Exec PropertyKey
  | .fixed name => return .ofString name
  | .computed e => do toKey (← evaluate scope e)
  | .hidden name => halt (.internal ("private name #" ++ name ++ " used as a property key"))

def memberOf (scope : ScopeId) (base : Value) (key : Key) (span : Span) : Exec Reference := do
  match key with
  | .hidden name => return .hidden base (← privateName scope name span)
  | key => return .property base (← keyOf scope key) base

def superMember (scope : ScopeId) (key : Key) : Exec Reference := do
  match (← look fun s => s.scope (s.thisScope scope)).activation?.bind (·.home) with
  | none => throwReference "'super' keyword unexpected here"
  | some home =>
    let this ← thisValue scope
    let base := Value.ofObject? (← object home).prototype
    return .property base (← keyOf scope key) this

def referenceTo (scope : ScopeId) (e : Expr) : Exec Reference := do
  match e.node with
  | .identifier name => return .name name
  | .member base key _ => memberOf scope (← evaluate scope base) key e.span
  | .superMember key => superMember scope key
  | _ => throwSyntaxAt e.span "Invalid left-hand side in assignment"

def readReference (scope : ScopeId) : Reference → Exec Value
  | .name name => readName scope name
  | .property base key this =>
    match base with
    | .object id => getFor id key this
    | v => getOf v key
  | .hidden base name => readPrivate base name

def writeReference (scope : ScopeId) (r : Reference) (v : Value) : Exec Unit := do
  let strict := (← context).strict
  match r with
  | .name name => assignName scope name v
  | .property base key this =>
    match base with
    | .object id =>
      let outcome ← setFor id key v this
      if outcome != .done && strict then
        throwType (← look (·.assignmentMessage outcome this key))
    | base => putOf base key v strict
  | .hidden base name => writePrivate base name v

/-- The object of a function expression. Its own name is bound inside it. -/
def functionValue (scope : ScopeId) (node : FunctionNode) (hint : String) : Exec Value := do
  match node.name?, node.isArrow with
  | some own, false =>
    let inner ← newBlock scope
    bindIn inner own .functionName none
    let f ← newFunction node inner own none
    modifyScope inner (·.fill own (.object f))
    return .object f
  | _, _ => return .object (← newFunction node scope hint none)

def evaluateNamed (scope : ScopeId) (e : Expr) (name : String) : Exec Value := do
  match e.node with
  | .function node => if node.name?.isNone then functionValue scope node name else evaluate scope e
  | .classExpr node =>
    if node.name?.isNone then return .object (← request (.classDefinition scope node name))
    else evaluate scope e
  | _ => evaluate scope e

/-- Appends what a list of arguments or elements gives. A spread gives the items of an iterable, and
`hole` says what stands for a missing element. -/
def appendItems {α : Type} (scope : ScopeId) (some : Value → α) (hole : α) :
    List Expr → Array α → Exec (Array α)
  | [], out => return out
  | e :: rest, out => do
    match e.node with
    | .hole => appendItems scope some hole rest (out.push hole)
    | .spread inner =>
      let r ← getIterator (← evaluate scope inner)
      let out ← loop out fun out => do
        match ← step r with
        | .some v => return .inl (out.push (some v))
        | .none => return .inr out
      appendItems scope some hole rest out
    | _ => appendItems scope some hole rest (out.push (some (← evaluate scope e)))

def evaluateArguments (scope : ScopeId) (args : List Expr) : Exec (Array Value) :=
  appendItems scope id .undefined args #[]

end Exec
end EcmaScript

/-! Taking values apart. -/
namespace EcmaScript.Exec

/-- Binds the items of an iterator to the elements of a pattern. `ended` says that the iterator has
reported its end; it is then asked no more, and not closed. -/
def bindElements (scope : ScopeId) (mode : BindingMode) (r : IteratorRecord) :
    (ended : Bool) → List Pattern → Exec Unit
  | ended, [] => if ended then pure () else close r
  | ended, .rest target :: _ => do
    let items ← if ended then pure #[] else loop (#[] : Array Value) fun out => do
      match ← step r with
      | some v => return .inl (out.push v)
      | none => return .inr out
    request (.bind scope target (.object (← newArray items)) mode)
  | ended, p :: rest => do
    let item ← if ended then pure none else step r
    match p with
    | .hole => bindElements scope mode r item.isNone rest
    | p =>
      match ← attempt (request (.bind scope p (item.getD .undefined) mode)) with
      | .ok _ => bindElements scope mode r item.isNone rest
      | .error e => if item.isNone then raise e else closeOnError (.plain r) e

/-- Binds properties of a value. The rest is what no pattern before it has named. -/
def bindProperties (scope : ScopeId) (mode : BindingMode) (v : Value) :
    (used : List PropertyKey) → List Pattern → Exec Unit
  | _, [] => pure ()
  | used, .property name target :: rest => do
    let key ← keyOf scope name
    let item ← getOf v key
    request (.bind scope target item mode)
    bindProperties scope mode v (key :: used) rest
  | used, .rest target :: rest => do
    let id ← newObject []
    copyProperties id v used
    request (.bind scope target (.object id) mode)
    bindProperties scope mode v used rest
  | used, _ :: rest => bindProperties scope mode v used rest

/-- Binds a value to every target of a pattern. -/
def bindPattern (scope : ScopeId) (pattern : Pattern) (v : Value) (mode : BindingMode) :
    Exec Unit := do
  match pattern with
  | .identifier name _ => bindName scope name v mode
  | .place target => do
    let r ← referenceTo scope target
    writeReference scope r v
  | .fallback target default =>
    let v ← if v.isUndefined then
        match target with
        | .identifier name _ => evaluateNamed scope default name
        | _ => evaluateNamed scope default ""
      else pure v
    request (.bind scope target v mode)
  | .array elements _ => bindElements scope mode (← getIterator v) false elements
  | .object properties _ =>
    if v.isNullish then
      let shown := v.primitiveText
      throwType ("Cannot destructure '" ++ shown ++ "' as it is " ++ shown ++ ".")
    bindProperties scope mode v [] properties
  | .rest target => request (.bind scope target v mode)
  | .property _ target => request (.bind scope target v mode)
  | .hole => return

end EcmaScript.Exec

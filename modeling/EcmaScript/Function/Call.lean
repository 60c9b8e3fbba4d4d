import EcmaScript.Evaluate.Body
import EcmaScript.Evaluate.Class
import EcmaScript.Machine.Exec
import EcmaScript.Object.Proxy

/-! What a dry run may call. Functions of the script are always allowed, for their code is checked
as it runs. Functions of the library have to be in the table of those known to be harmless, and what
they change must have been created by the dry run. -/
namespace EcmaScript

namespace State

/-- Why a call may have effects, or nothing when a dry run allows it. Objects from `first` on belong
to the dry run. -/
def refusal? (s : State) (table : EffectTable) (first : Nat) :
    (fuel : Nat) → (f : ObjectId) → (this : Value) → (args : List Value) → Option String
  | 0, _, _, _ => some "call to anonymous function may have side effects"
  | fuel + 1, f, this, args =>
    match (s.object f).kind with
    | .function (.bound target boundThis boundArgs) =>
      s.refusal? table first fuel target boundThis (boundArgs.toList ++ args)
    | .function (.native name _) =>
      let name := if name = "" then "anonymous function" else name
      let outlives : Value → Bool := fun
        | .object id => id.index < first
        | _ => false
      match table.lookup f with
      | none => some ("call to " ++ name ++ " may have side effects")
      | some flags =>
        if !flags.pure then some ("call to " ++ name ++ " may have side effects")
        else if (flags.changesReceiver && outlives this)
            || (flags.changesArgument && outlives (args.headD .undefined)) then
          some (name ++ " would modify an object that outlives the evaluation")
        else
          let ofArgument := match flags.callsArgument, args with
            | true, .object callback :: _ => s.refusal? table first fuel callback .undefined []
            | _, _ => none
          ofArgument.or (match flags.callsReceiver, this with
            | true, .object target =>
              s.refusal? table first fuel target (args.headD .undefined) args.tail
            | _, _ => none)
    | _ => none

end State

namespace Exec

def checkCall (f : ObjectId) (this : Value) (args : Array Value) : Exec Unit := do
  let c ← context
  match c.effects with
  | none => return
  | some table =>
    let limit ← fuel
    match ← look fun s =>
      s.refusal? (s.effectTables.getD table []) c.firstObject limit f this args.toList with
    | some why => refuseEffect why
    | none => return

end Exec
end EcmaScript

/-! Calling and constructing. -/
namespace EcmaScript.Exec

def nativeFrame (name : String) (f : ObjectId) : Frame := ⟨name, some f, .native⟩

def closureFrame (f : ObjectId) (c : Closure) : Exec Frame := do
  let name := (← object f).functionName
  let filename ← look fun s => (s.script c.script).filename
  return ⟨name, some f, .script filename c.node.span.line c.node.span.column⟩

/-- What a body sees as `this`. Outside strict mode that is always an object. -/
def bindThis (strict : Bool) (this : Value) : Exec Value := do
  if strict then return this
  if this.isNullish then
    let c ← context
    match (← look (·.scope c.globalScope)).kind with
    | .global g => return .object g
    | _ => return .object (← globalObject)
  return .object (← toObject this)

def functionScope (f : ObjectId) (c : Closure) (this : Option Value) (newTarget : Value) :
    Exec ScopeId :=
  newScope
    { kind := .function
        { this := this, newTarget := newTarget, function := some f, home := c.home
          isArrow := c.node.isArrow }
      parent := some c.scope }

def runToEnd (f : ObjectId) (c : Closure) (scope : ScopeId) (args : Array Value) : Exec Value := do
  match ← now (evaluateFunction scope c.node f args) with
  | some v => return v
  | none => halt (.internal "synchronous function body suspended")

/-- Starts the body of an asynchronous function, and gives the promise for its result. A condition
that was left behind before comes first. -/
def startAsync (f : ObjectId) (c : Closure) (scope : ScopeId) (args : Array Value) :
    Exec Value := do
  let promise ← newPromise
  let ended ← spawn (← closureFrame f c) (settleFrom promise (evaluateFunction scope c.node f args))
  match (← takeFatal).or ended with
  | some condition => raise (.condition condition)
  | none => return .object promise

def closureContext (c : Closure) (ctx : Context) : Context :=
  { ctx with script := c.script, strict := c.strict }

def callClosure (f : ObjectId) (c : Closure) (this : Value) (args : Array Value) : Exec Value := do
  if c.classKind.isSome then
    throwType ("Class constructor " ++ (← object f).functionName ++
      " cannot be invoked without 'new'")
  if c.node.isGenerator then unsupported "generator functions"
  within (closureContext c) do
    let this ← if c.node.isArrow then pure none else some <$> bindThis c.strict this
    let scope ← functionScope f c this .undefined
    if c.node.isAsync then startAsync f c scope args
    else inFrame (← closureFrame f c) (runToEnd f c scope args)

def notAFunction {α : Type} (f : Value) : Exec α := do
  throwType ((← describe f) ++ " is not a function")

def callFunction (f this : Value) (args : Array Value) : Exec Value := do
  match f with
  | .object id =>
    checkInterrupts
    match (← object id).kind with
    | .proxy none => revoked "apply"
    | .proxy (some p) => if p.callable then proxyCall p this args else notAFunction f
    | .function callable =>
      checkCall id this args
      match callable with
      | .native name native => inFrame (nativeFrame name id) (request (.native native this args))
      | .bound target boundThis boundArgs => call (.object target) boundThis (boundArgs ++ args)
      | .closure c => callClosure id c this args
    | _ => notAFunction f
  | _ => notAFunction f

/-- Runs the body of a constructor. A derived class has no `this` until it has called its
parent. -/
def runConstructor (f : ObjectId) (c : Closure) (scope : ScopeId) (this : Option ObjectId)
    (args : Array Value) : Exec Value := do
  match this, c.classKind with
  | some id, some _ => addInstanceElements id f
  | _, _ => pure ()
  let result ← runToEnd f c scope args
  if result.isObject then return result
  if c.classKind == some .derived && !result.isUndefined then
    throwType "Derived constructors may only return object or undefined"
  match (← look (·.scope scope)).activation?.bind (·.this) with
  | some this => return this
  | none => superRequired

def constructClosure (f : ObjectId) (c : Closure) (args : Array Value) (newTarget : ObjectId) :
    Exec Value :=
  within (closureContext c) do
    let this ← if c.classKind == some .derived then pure none else do
      let prototype ← prototypeFor newTarget (← intrinsics).objectPrototype
      some <$> allocate { prototype := some prototype }
    let scope ← functionScope f c (this.map .object) (.object newTarget)
    inFrame (← closureFrame f c) (runConstructor f c scope this args)

def constructorText (f : ObjectId) : Exec String := do
  let o ← object f
  let name ← if o.callable?.isSome then pure o.functionName else describe (.object f)
  return if name = "" then "anonymous" else name

def constructWith (f : Value) (args : Array Value) (newTarget : Value) : Exec Value := do
  match f with
  | .object id =>
    checkInterrupts
    if !(← isConstructor f) then throwType ((← constructorText id) ++ " is not a constructor")
    match (← object id).kind with
    | .proxy none => revoked "construct"
    | .proxy (some p) => proxyConstruct p args newTarget
    | .function callable =>
      checkCall id .undefined args
      match newTarget with
      | .object target =>
        match callable with
        | .native name native =>
          inFrame (nativeFrame name id) (request (.nativeConstruct native args target))
        | .bound inner _ boundArgs =>
          construct (.object inner) (boundArgs ++ args)
            (if target == id then .object inner else newTarget)
        | .closure c => constructClosure id c args target
      | _ => halt (.internal "construct without a new.target object")
    | _ => throwType ((← describe f) ++ " is not a constructor")
  | _ => throwType ((← describe f) ++ " is not a constructor")

end EcmaScript.Exec

import EcmaScript.Evaluate.Names
import EcmaScript.Evaluate.Reference
import EcmaScript.Promise.Core

/-! Statements. -/
namespace EcmaScript

namespace Completion

def value? : Completion → Option Value
  | .normal v => v
  | .return v => some v
  | .break _ v => v
  | .continue _ v => v

def orValue (c : Completion) (v : Option Value) : Completion :=
  match c with
  | .normal none => .normal v
  | .break label none => .break label v
  | .continue label none => .continue label v
  | c => c

def isNormal : Completion → Bool
  | .normal _ => true
  | _ => false

def continuesLoop (labels : List String) : Completion → Bool
  | .normal _ => true
  | .continue none _ => true
  | .continue (some label) _ => labels.contains label
  | _ => false

def endLoop (last : Option Value) : Completion → Completion
  | .break none v => .normal (some ((v.or last).getD .undefined))
  | c => c.orValue last

end Completion

def StatementNode.takesLabels : StatementNode → Bool
  | .labeled .. => true
  | .for .. => true
  | .forIn .. => true
  | .forOf .. => true
  | .while .. => true
  | .doWhile .. => true
  | .switch .. => true
  | _ => false

def SwitchCase.body : SwitchCase → List Statement
  | .mk _ body => body

def SwitchCase.isDefault : SwitchCase → Bool
  | .mk test _ => test.isNone

namespace Exec

def observe (f : Sink → Sink) : Exec Unit := do
  match (← context).sink with
  | some i => change fun s => { s with sinks := s.sinks.modify i f }
  | none => return

/-- Runs statements in order. The value is that of the last statement that has one. -/
def evaluateStatements (scope : ScopeId) : List Statement → (last : Option Value) → Exec Completion
  | [], last => return .normal last
  | st :: rest, last => do
    match ← request (.statement scope st []) with
    | .normal v => evaluateStatements scope rest (v.or last)
    | c => return c.orValue last

def evaluateBlock (scope : ScopeId) (body : List Statement) : Exec Completion := do
  if !body.any (·.needsScope) then evaluateStatements scope body none
  else
    let block ← newBlock scope
    let functions ← hoistBlock block body
    let completion ← evaluateStatements block body none
    if completion.isNormal then copyUpFunctions block functions
    return completion

def declareVariable (scope : ScopeId) (kind : VarKind) : Declarator → Exec Unit
  | .mk target init => do
    let mode := if kind = .var then BindingMode.assign else .first
    match init, kind with
    | some e, _ =>
      let v ← match target with
        | .identifier name _ => evaluateNamed scope e name
        | _ => evaluate scope e
      request (.bind scope target v mode)
    | none, .var => return
    | none, _ => request (.bind scope target .undefined mode)

/-- Runs the body of a loop once. Gives the last value so far, or how the loop ends. -/
def runBody (scope : ScopeId) (body : Statement) (labels : List String) (last : Option Value) :
    Exec (Option Value ⊕ Completion) := do
  let completion ← request (.statement scope body [])
  let last := completion.value?.or last
  return if completion.continuesLoop labels then .inl last else .inr (completion.endLoop last)

def loopDone (last : Option Value) : Completion := .normal (some (last.getD .undefined))

def evaluateWhile (scope : ScopeId) (test : Expr) (body : Statement) (labels : List String) :
    Exec Completion :=
  loop (none : Option Value) fun last => do
    checkInterrupts
    if !(← evaluate scope test).truthy then return .inr (loopDone last)
    runBody scope body labels last

def evaluateDoWhile (scope : ScopeId) (body : Statement) (test : Expr) (labels : List String) :
    Exec Completion :=
  loop (none : Option Value) fun last => do
    checkInterrupts
    match ← runBody scope body labels last with
    | .inr c => return .inr c
    | .inl last =>
      if (← evaluate scope test).truthy then return .inl last
      return .inr (loopDone last)

/-- Runs the head of a loop. Gives the scope of the loop, and whether every turn has a copy of it. -/
def startFor (scope : ScopeId) : Option Statement → Exec (ScopeId × Bool)
  | some (.mk _ (.declaration .var declarators)) => do
    declarators.forM (declareVariable scope .var)
    return (scope, false)
  | some (.mk _ (.declaration kind declarators)) => do
    let block ← blockDeclaring scope (declaredNames declarators) kind.bindingKind
    declarators.forM (declareVariable block kind)
    return (block, kind = .let)
  | some (.mk _ (.expression e)) => do
    let _ ← evaluate scope e
    return (scope, false)
  | _ => return (scope, false)

def copyScope (scope : ScopeId) : Exec ScopeId := do
  newScope (← look (·.scope scope)).copyForIteration

def testFor (scope : ScopeId) : Option Expr → Exec Bool
  | some e => return (← evaluate scope e).truthy
  | none => return true

/-- What comes before a turn. Gives its scope. -/
def nextTurn (scope : ScopeId) (copied : Bool) (update : Option Expr) : Exec ScopeId := do
  let inner ← if copied then copyScope scope else pure scope
  match update with
  | some e =>
    let _ ← evaluate inner e
    return inner
  | none => return inner

def evaluateFor (scope : ScopeId) (init : Option Statement) (test update : Option Expr)
    (body : Statement) (labels : List String) : Exec Completion := do
  let (first, copied) ← startFor scope init
  loop (← nextTurn first copied none, (none : Option Value)) fun (inner, last) => do
    checkInterrupts
    if !(← testFor inner test) then return .inr (loopDone last)
    match ← runBody inner body labels last with
    | .inr c => return .inr c
    | .inl last => return .inl (← nextTurn inner copied update, last)

/-- Binds the item of a turn. Gives the scope that the body runs in. -/
def bindHead (scope : ScopeId) (kind : Option VarKind) (head : Pattern) (v : Value) :
    Exec ScopeId := do
  match kind with
  | some .let | some .const =>
    let block ← blockDeclaring scope head.boundNames ((kind.map (·.bindingKind)).getD .let)
    request (.bind block head v .first)
    return block
  | _ =>
    request (.bind scope head v .assign)
    return scope

def subjectScope (scope : ScopeId) (kind : Option VarKind) (head : Pattern) : Exec ScopeId :=
  match kind with
  | some .let | some .const => blockDeclaring scope head.boundNames .let
  | _ => return scope

def visitKeys (scope : ScopeId) (kind : Option VarKind) (head : Pattern) (id : ObjectId)
    (body : Statement) (labels : List String) : List String → Option Value → Exec Completion
  | [], last => return loopDone last
  | name :: rest, last => do
    checkInterrupts
    if !(← has id (.ofString name)) then visitKeys scope kind head id body labels rest last
    else
      let inner ← bindHead scope kind head (.string name)
      match ← runBody inner body labels last with
      | .inr c => return c
      | .inl last => visitKeys scope kind head id body labels rest last

def evaluateForIn (scope : ScopeId) (kind : Option VarKind) (head : Pattern) (subject : Expr)
    (body : Statement) (labels : List String) : Exec Completion := do
  let v ← evaluate (← subjectScope scope kind head) subject
  if v.isNullish then return .normal (some .undefined)
  let id ← toObject v
  visitKeys scope kind head id body labels (← forInKeys id) none

def itemSource (v : Value) (isAwait : Bool) : Exec ItemSource := do
  if !isAwait then return .plain (← getIterator v)
  match ← methodOf v (.symbol .asyncIterator) with
  | none => return .awaited (← getIterator v)
  | some f =>
    let iterator ← call f v #[]
    if !iterator.isObject then
      throwType "Result of the Symbol.asyncIterator method is not an object"
    return .asynchronous ⟨iterator, ← getOf iterator (.name "next")⟩

def nextItem : ItemSource → Exec (Option Value)
  | .plain r => step r
  | .awaited r => do
    match ← step r with
    | some v => return some (← awaitValue v)
    | none => return none
  | .asynchronous r => do
    checkInterrupts
    readResult (← awaitValue (← call r.next r.iterator #[]))

def closeSource : ItemSource → Exec Unit
  | .plain r => close r
  | .awaited r => close r
  | .asynchronous r => do
    match ← methodOf r.iterator (.name "return") with
    | none => return
    | some f =>
      let _ ← awaitValue (← call f r.iterator #[])

def evaluateForOf (scope : ScopeId) (kind : Option VarKind) (head : Pattern) (subject : Expr)
    (body : Statement) (isAwait : Bool) (labels : List String) : Exec Completion := do
  let v ← evaluate (← subjectScope scope kind head) subject
  let source ← itemSource v isAwait
  loop (none : Option Value) fun last => do
    match ← nextItem source with
    | none => return .inr (loopDone last)
    | some item =>
      match ← attempt (do runBody (← bindHead scope kind head item) body labels last) with
      | .ok (.inl last) => return .inl last
      | .ok (.inr c) =>
        closeSource source
        return .inr c
      | .error e => closeOnError source e

def matchingCases (scope : ScopeId) (v : Value) : List SwitchCase → Exec (Option (List SwitchCase))
  | [] => return none
  | .mk (some test) body :: rest => do
    if v.strictEq (← evaluate scope test) then return some (.mk (some test) body :: rest)
    matchingCases scope v rest
  | .mk none _ :: rest => matchingCases scope v rest

def runCases (scope : ScopeId) : List SwitchCase → (last : Option Value) → Exec Completion
  | [], last => return .normal last
  | .mk _ body :: rest, last => do
    match ← evaluateStatements scope body none with
    | .normal v => runCases scope rest (v.or last)
    | .break none v => return .normal (v.or last)
    | c => return c.orValue last

/-- The tests run in order until one equals the value; without one the default clause is meant. -/
def evaluateSwitch (scope : ScopeId) (discriminant : Expr) (cases : List SwitchCase) :
    Exec Completion := do
  let v ← evaluate scope discriminant
  let block ← newBlock scope
  let functions ← hoistBlock block (cases.flatMap (·.body))
  let selected ← match ← matchingCases block v cases with
    | some rest => pure rest
    | none => pure (cases.dropWhile (!·.isDefault))
  match ← runCases block selected none with
  | .normal last =>
    copyUpFunctions block functions
    return loopDone last
  | c => return c

def evaluateCatch (scope : ScopeId) (param : Option Pattern) (body : List Statement)
    (thrown : Value) : Exec Completion := do
  match param with
  | none => evaluateBlock (← newBlock scope) body
  | some p =>
    let block ← blockDeclaring scope p.boundNames .let
    request (.bind block p thrown .first)
    evaluateBlock block body

/-- Runs the last clause of a statement that has come to a result so far. A clause that does not
end normally decides how the statement ends. -/
def finishTry (scope : ScopeId) (finalizer : Option (List Statement))
    (result : Except Abrupt Completion) : Exec Completion := do
  match finalizer with
  | none => return (← ofExcept result).orValue (some .undefined)
  | some body =>
    match result with
    | .error e => if !e.isCatchable then raise e
    | .ok _ => pure ()
    match ← evaluateBlock scope body with
    | .normal _ => return (← ofExcept result).orValue (some .undefined)
    | c => return c

def evaluateTry (scope : ScopeId) (block : List Statement) (param : Option Pattern)
    (handler finalizer : Option (List Statement)) : Exec Completion := do
  let result ← attempt (evaluateBlock scope block)
  match result, handler with
  | .error e, some body =>
    if e.isCatchable then
      let thrown ← thrownValue e
      finishTry scope finalizer (← attempt (evaluateCatch scope param body thrown))
    else finishTry scope finalizer result
  | _, _ => finishTry scope finalizer result

/-- Runs a statement. A loop ends a turn when one of the labels is continued. -/
def evaluateStatement (scope : ScopeId) (st : Statement) (labels : List String) :
    Exec Completion := do
  atSpan st.span
  observe fun sink => { sink with statements := sink.statements.push st.span }
  match st.node with
  | .expression e => return .normal (some (← evaluate scope e))
  | .declaration kind declarators =>
    declarators.forM (declareVariable scope kind)
    return .normal none
  | .function _ => return .normal none
  | .empty => return .normal none
  | .classDecl node =>
    let name := node.name?.getD "default"
    let c ← request (.classDefinition scope node name)
    fillName scope name (.object c)
    return .normal none
  | .return none => return .return .undefined
  | .return (some e) => return .return (← evaluate scope e)
  | .concise e => return .return (← evaluate scope e)
  | .if test consequent alternate =>
    let completion ← if (← evaluate scope test).truthy then
        request (.statement scope consequent [])
      else
        match alternate with
        | some st => request (.statement scope st [])
        | none => pure (.normal none)
    return completion.orValue (some .undefined)
  | .block body => evaluateBlock scope body
  | .throw e => raise (.thrown (← evaluate scope e))
  | .break label => return .break label none
  | .continue label => return .continue label none
  | .labeled label body =>
    let labels := if body.node.takesLabels then label :: labels else []
    match ← request (.statement scope body labels) with
    | .break (some l) v => return if l = label then .normal v else .break (some l) v
    | c => return c
  | .while test body => evaluateWhile scope test body labels
  | .doWhile body test => evaluateDoWhile scope body test labels
  | .for init test update body => evaluateFor scope init test update body labels
  | .forIn kind head subject body => evaluateForIn scope kind head subject body labels
  | .forOf kind head subject body isAwait =>
    evaluateForOf scope kind head subject body isAwait labels
  | .switch discriminant cases => evaluateSwitch scope discriminant cases
  | .try block param handler finalizer => evaluateTry scope block param handler finalizer
  | .debugger =>
    let c ← context
    let filename ← look fun s => (s.script c.script).filename
    observe fun sink => { sink with breakpoints := sink.breakpoints.push (filename, st.span) }
    return .normal none
  | .moduleDecl what => unsupported (what ++ " declarations")

end Exec
end EcmaScript

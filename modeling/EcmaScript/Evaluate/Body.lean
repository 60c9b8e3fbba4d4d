import EcmaScript.Evaluate.Statement

/-! Bodies of functions. -/
namespace EcmaScript

/-- The names that the first `count` arguments share with the parameters; of a repeated name, only
the last place does. -/
def sharedNames (count : Nat) : List Pattern → List (Option String)
  | [] => []
  | p :: rest =>
    match count with
    | 0 => []
    | count + 1 =>
      let later := boundNamesOf (rest.take count)
      let own := match p with
        | .identifier name _ => if later.contains name then none else some name
        | _ => none
      own :: sharedNames count rest

namespace Exec

/-- The object `arguments`. Outside strict mode, it shares its elements with plain parameters. -/
def argumentsObject (scope : ScopeId) (f : ObjectId) (node : FunctionNode) (args : Array Value) :
    Exec ObjectId := do
  let i ← intrinsics
  let shares := !(← context).strict && node.hasSimpleParams
  let shared : Option ArgumentMap :=
    if shares then some ⟨scope, (sharedNames args.size node.params).toArray⟩ else none
  let table := (PropertyTable.ofItems args).put (.name "length") (.standard (.ofNat args.size))
  let table := match ← look (·.peek i.arrayPrototype (.name "values")) with
    | some values => table.put (.symbol .iterator) (.standard values)
    | none => table
  let callee ← if shares then pure (Property.standard (.object f)) else do
    let refuse ← newCapturing 0 .refuseCallee
    pure ⟨.accessor (some refuse) (some refuse), false, false⟩
  allocate
    { prototype := some i.objectPrototype, kind := .arguments shared
      properties := table.put (.name "callee") callee }

def needsArguments (node : FunctionNode) (params : List String) : Bool :=
  !node.isArrow && !params.contains "arguments"
    && !(lexicalNames node.body).any (·.name == "arguments")
    && !(directFunctions node.body).any (·.name? == some "arguments")

def bindParameters (scope : ScopeId) (args : Array Value) : (i : Nat) → List Pattern → Exec Unit
  | _, [] => return
  | i, .rest target :: rest => do
    let items ← newArray (args.extract i args.size)
    request (.bind scope target (.object items) .first)
    bindParameters scope args (i + 1) rest
  | i, p :: rest => do
    request (.bind scope p (argument args i) .first)
    bindParameters scope args (i + 1) rest

def bindArguments (scope : ScopeId) (node : FunctionNode) (args : Array Value) : Exec Unit :=
  if node.hasSimpleParams then
    modifyScope scope fun sc =>
      ((boundNamesOf node.params).foldl
        (fun (sc, i) name => (sc.fill name (argument args i), i + 1)) (sc, 0)).1
  else bindParameters scope args 0 node.params

def evaluateBody (scope : ScopeId) (node : FunctionNode) : Exec Value := do
  match node.body with
  | [.mk _ (.concise e)] => evaluate scope e
  | body =>
    hoistVars scope body (boundNamesOf node.params)
    match ← evaluateStatements scope body none with
    | .return v => return v
    | _ => return .undefined

def evaluateFunction (scope : ScopeId) (node : FunctionNode) (f : ObjectId) (args : Array Value) :
    Exec Value := do
  let params := boundNamesOf node.params
  params.forM fun name => bindIn scope name .parameter none
  if needsArguments node params then
    let id ← argumentsObject scope f node args
    bindIn scope "arguments" .var (some (.object id))
  bindArguments scope node args
  evaluateBody scope node

end Exec
end EcmaScript

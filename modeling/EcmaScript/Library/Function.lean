import EcmaScript.Library.Feature
import EcmaScript.Parser.Statement

/-! `Function`: calling, binding, and functions made from texts. -/
namespace EcmaScript

def functionMethods : List Feature :=
  [.named "call" 1 (.function .call), .named "apply" 2 (.function .apply),
    .named "bind" 1 (.function .bind), .named "toString" 0 (.function .toString),
    .guarded (.symbol .hasInstance) 1 (.function .hasInstance) false]

def State.functionText? (s : State) (id : ObjectId) : Option String :=
  (s.object id).callable?.map fun
    | .closure c => c.source.slice (s.script c.script).text
    | .native name _ => "function " ++ name ++ "() \x7b [native code] \x7d"
    | .bound .. => "function () \x7b [native code] \x7d"

namespace Exec

/-- A function that calls another with a fixed `this` and fixed first arguments. -/
def bindFunction (this : Value) (args : Array Value) : Exec Value := do
  match this with
  | .object target =>
    if !(← isCallable this) then throwType "Bind must be called on a function"
    let bound := args.extract 1 args.size
    let length ← if ← hasOwn target (.name "length") then
        match ← getNamed target "length" with
        | .number n =>
          let left := Number.toIntegerOrInfinity n - Float.ofNat bound.size
          pure (if 0.0 < left then left else 0.0)
        | _ => pure 0.0
      else pure 0.0
    let name ← match ← getNamed target "name" with
      | .string s => pure s
      | _ => pure ""
    let prototype ← prototypeOf target
    let id ← allocate
      { prototype := prototype, kind := .function (.bound target (argument args 0) bound)
        properties := (functionProperties ("bound " ++ name) 0).put (.name "length")
          (.data (.number length) false false true) }
    return .object id
  | _ => throwType "Bind must be called on a function"

/-- A function made from texts: the last argument is the body, those before it the parameters. It
sees only global names. -/
def functionFromText (args : Array Value) : Exec Value := do
  let texts ← args.toList.mapM toText
  let params := ",".intercalate texts.dropLast
  let source := functionSource params (texts.getLastD "") false
  match parseFunction source with
  | .error (.unsupported construct) => unsupported construct
  | .error e => raise e.toAbrupt
  | .ok node =>
    let script ← update fun s =>
      (ScriptId.mk s.scripts.size, { s with scripts := s.scripts.push ⟨source, "anonymous"⟩ })
    within (fun c => { c with script := script, strict := node.strict }) do
      return .object (← newFunction node (← context).globalScope "anonymous" none)

def functionFunction (f : FunctionFunction) (this : Value) (args : Array Value) : Exec Value := do
  match f with
  | .construct => functionFromText args
  | .call => call this (argument args 0) (args.extract 1 args.size)
  | .apply =>
    let list ← if (argument args 1).isNullish then pure #[] else listFromArrayLike (argument args 1)
    call this (argument args 0) list
  | .bind => bindFunction this args
  | .toString =>
    let text ← match this with
      | .object id => look (·.functionText? id)
      | _ => pure none
    match text with
    | some text => return .string text
    | none => throwType "Function.prototype.toString requires that 'this' be a Function"
  | .hasInstance => return .boolean (← ordinaryHasInstance this (argument args 0))
  | .nothing => return .undefined

end Exec
end EcmaScript

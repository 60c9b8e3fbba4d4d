import EcmaScript.Library.Function

/-! What can be known of an object beyond its text. Looking runs no code and changes nothing. -/
namespace EcmaScript

structure PromiseView where
  state : PromiseState
  handled : Bool

/-- A proxy that was revoked has neither target nor handler. -/
structure ProxyView where
  target : Option ObjectId
  handler : Option ObjectId
  revoked : Bool

structure FunctionView where
  name : String
  /-- The text of a function that is written in a script. -/
  sourceText : Option String := none
  isNative : Bool := false
  isArrow : Bool := false
  isAsync : Bool := false
  isGenerator : Bool := false
  isClass : Bool := false
  constructable : Bool
  homeObject : Option ObjectId := none
  boundTarget : Option ObjectId := none
  boundThis : Option Value := none
  boundArgs : List Value := []

namespace State

def promiseView? (s : State) (id : ObjectId) : Option PromiseView :=
  match (s.object id).kind with
  | .promise p => some ⟨p.state, p.handled⟩
  | _ => none

def proxyView? (s : State) (id : ObjectId) : Option ProxyView :=
  match (s.object id).kind with
  | .proxy (some p) => some ⟨some p.target, some p.handler, false⟩
  | .proxy none => some ⟨none, none, true⟩
  | _ => none

def functionView? (s : State) (id : ObjectId) : Option FunctionView :=
  let name := (s.object id).functionName
  let constructable := s.isConstructor id
  (s.object id).callable?.map fun
    | .native .. => { name, constructable, isNative := true }
    | .bound target this args =>
      { name, constructable, boundTarget := some target, boundThis := some this
        boundArgs := args.toList }
    | .closure c =>
      { name, constructable, sourceText := s.functionText? id
        isArrow := c.node.isArrow, isAsync := c.node.isAsync, isGenerator := c.node.isGenerator
        isClass := c.classKind.isSome, homeObject := c.home }

def weakEntries? (s : State) (id : ObjectId) : Option (List (Value × Option Value)) :=
  match (s.object id).kind with
  | .weakMap t => some (t.entries.map fun (k, v) => (k, some v))
  | .weakSet t => some (t.entries.map fun (k, _) => (k, none))
  | _ => none

end State
end EcmaScript

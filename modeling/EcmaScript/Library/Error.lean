import EcmaScript.Library.Feature

/-! The constructors of errors. -/
namespace EcmaScript

def errorStatics : List Feature :=
  [.named "captureStackTrace" 2 (.error .captureStackTrace)]

def errorMethods : ErrorKind → List Feature
  | .error => [.named "toString" 0 (.error .toString)]
  | _ => []

def derivedErrors : List ErrorKind := [.type, .range, .reference, .syntaxError, .eval, .uri]

namespace Exec

/-- A new error with the call stack of the moment, without the frame of the constructor itself. -/
def buildError (prototype : ObjectId) (args : Array Value) : Exec Value := do
  let id ← newOfKind prototype .error
  let message := argument args 0
  if !message.isUndefined then
    let text ← toText message
    modifyObject id (·.put (.name "message") (.standard (.string text)))
  match argument args 1 with
  | .object options =>
    if ← has options (.name "cause") then
      let cause ← getNamed options "cause"
      modifyObject id (·.put (.name "cause") (.standard cause))
  | _ => pure ()
  stampStack id 1
  return .object id

def errorText (this : Value) : Exec Value := do
  match this with
  | .object id =>
    let name ← match ← getNamed id "name" with
      | .undefined => pure "Error"
      | v => toText v
    let message ← match ← getNamed id "message" with
      | .undefined => pure ""
      | v => toText v
    return .string (if name = "" then message
      else if message = "" then name else name ++ ": " ++ message)
  | _ => throwType "Error.prototype.toString called on non-object"

/-- Writes the call stack into an object, from the caller of a given function on. -/
def captureStack (args : Array Value) : Exec Value := do
  match argument args 0 with
  | .object id =>
    checkObjectWrite id "Error.captureStackTrace"
    let stop ← match argument args 1 with
      | .object f => do
        let o ← object f
        pure (if o.callable?.isSome then some f else none)
      | _ => pure none
    let header ← match ← look (·.errorHeader? id) with
      | some header => pure header
      | none => toText (.object id)
    let stack ← look (·.renderStack header 1 stop)
    modifyObject id fun o => { o with stamped := true }
    defineOrThrow id (.name "stack") (.data (.string stack) true false true)
    return .undefined
  | _ => throwType "Invalid argument"

def constructError (kind : ErrorKind) (args : Array Value) (newTarget : ObjectId) :
    Exec Value := do
  let prototype ← prototypeFor newTarget ((← intrinsics).errorPrototypeFor kind)
  buildError prototype args

def errorFunction (f : ErrorFunction) (this : Value) (args : Array Value) : Exec Value := do
  match f with
  | .construct kind => buildError ((← intrinsics).errorPrototypeFor kind) args
  | .toString => errorText this
  | .captureStackTrace => captureStack args

end Exec
end EcmaScript

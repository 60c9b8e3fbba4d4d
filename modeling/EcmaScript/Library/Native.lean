import EcmaScript.Library.Array
import EcmaScript.Library.Error
import EcmaScript.Library.Function
import EcmaScript.Library.Host
import EcmaScript.Library.Json
import EcmaScript.Library.Keyed
import EcmaScript.Library.Number
import EcmaScript.Library.Object
import EcmaScript.Library.Promise
import EcmaScript.Library.Reflect
import EcmaScript.Library.String
import EcmaScript.Library.Symbol

/-! What the functions of the library do when they are called or constructed. -/
namespace EcmaScript.Exec

def callNative (f : Native) (this : Value) (args : Array Value) : Exec Value :=
  match f with
  | .object f => objectFunction f this args
  | .function f => functionFunction f this args
  | .array f => arrayFunction f this args
  | .iterator f => iteratorFunction f this
  | .string f => stringFunction f this args
  | .number f => numberFunction f this args
  | .boolean f => booleanFunction f this args
  | .symbol f => symbolFunction f this args
  | .math f => mathFunction f args
  | .json f => jsonFunction f args
  | .error f => errorFunction f this args
  | .promise f => promiseFunction f this args
  | .proxy f => proxyFunction f args
  | .reflect f => reflectFunction f args
  | .map f => mapFunction f this args
  | .set f => setFunction f this args
  | .weakMap f => weakMapFunction f this args
  | .weakSet f => weakSetFunction f this args
  | .weakRef f => weakRefFunction f this
  | .console f => consoleFunction f args
  | .timer f => timerFunction f args
  | .capturing f => capturingFunction f args

/-- Constructs by a function that `Native.constructs` accepts. -/
def constructNative (f : Native) (args : Array Value) (newTarget : ObjectId) : Exec Value := do
  match f with
  | .object .construct => constructObject args (some newTarget)
  | .function .construct => functionFromText args
  | .array .construct =>
    constructArray args (← prototypeFor newTarget (← intrinsics).arrayPrototype)
  | .string .construct => constructString args newTarget
  | .number .construct => constructNumber args newTarget
  | .boolean .construct => constructBoolean args newTarget
  | .symbol .construct => throwType "Symbol is not a constructor"
  | .error (.construct kind) => constructError kind args newTarget
  | .promise .construct => constructPromise args newTarget
  | .proxy .construct => return .object (← newProxy args)
  | .map .construct => constructCollection .map args newTarget
  | .set .construct => constructCollection .set args newTarget
  | .weakMap .construct => constructCollection .weakMap args newTarget
  | .weakSet .construct => constructCollection .weakSet args newTarget
  | .weakRef .construct => constructWeakRef args newTarget
  | _ => return .undefined

end EcmaScript.Exec

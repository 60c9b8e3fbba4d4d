import EcmaScript.Evaluate.Expression
import EcmaScript.Function.Call
import EcmaScript.Library.Native

/-! The machine that answers requests. -/
namespace EcmaScript

namespace Exec

/-- How each request is answered, in terms of the requests it makes itself. -/
def answer : (r : Request) → Exec r.Result
  | .halt c => raise (.condition c)
  | .call f this args => callFunction f this args
  | .construct f args newTarget => constructWith f args newTarget
  | .native f this args => callNative f this args
  | .nativeConstruct f args newTarget => constructNative f args newTarget
  | .expression scope e => evaluateExpression scope e
  | .chain scope e => evaluateChain scope e
  | .statement scope st labels => evaluateStatement scope st labels
  | .bind scope pattern value mode => bindPattern scope pattern value mode
  | .classDefinition scope node name => defineClass scope node name
  | .instanceOf value target => instanceOf value target
  | .abandon source => closeSource source
  | .proxyGetOwn p key => proxyGetOwn p key
  | .proxyDefine p key d => proxyDefine p key d
  | .proxyHas p key => proxyHas p key
  | .proxyGet p key receiver => proxyGet p key receiver
  | .proxySet p key value receiver => proxySet p key value receiver
  | .proxyDelete p key => proxyDelete p key
  | .proxyOwnKeys p => proxyOwnKeys p
  | .proxyGetPrototype p => proxyGetPrototype p
  | .proxySetPrototype p prototype => proxySetPrototype p prototype
  | .proxyIsExtensible p => proxyIsExtensible p
  | .proxyPreventExtensions p => proxyPreventExtensions p

end Exec

def machine : (fuel : Nat) → Machine
  | 0 => ⟨0, fun _ _ _ => .exhausted⟩
  | fuel + 1 => ⟨fuel, fun r c s => Exec.answer r (machine fuel) c s⟩

def ampleFuel : Nat := 0x4000000000000000

end EcmaScript

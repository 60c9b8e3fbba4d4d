import EcmaScript.Value.Basic

/-! The functions of the standard library, and those the library makes as it runs. Each is named
here; what it does is said where its part of the library is. -/
namespace EcmaScript

/-- The constructors of error objects. -/
inductive ErrorKind where
  | error | type | range | reference | syntaxError | eval | uri
deriving DecidableEq, Inhabited

def ErrorKind.name : ErrorKind → String
  | .error => "Error"
  | .type => "TypeError"
  | .range => "RangeError"
  | .reference => "ReferenceError"
  | .syntaxError => "SyntaxError"
  | .eval => "EvalError"
  | .uri => "URIError"

/-- What an iteration yields. -/
inductive IterationKind where
  | keys | values | entries
deriving DecidableEq, Inhabited

inductive ObjectFunction where
  | construct | keys | values | entries | getPrototypeOf | setPrototypeOf | getOwnPropertyNames
  | getOwnPropertySymbols | getOwnPropertyDescriptor | getOwnPropertyDescriptors | defineProperty
  | defineProperties | create | assign | fromEntries | freeze | seal | preventExtensions | isFrozen
  | isSealed | isExtensible | is | hasOwn | hasOwnProperty | isPrototypeOf | propertyIsEnumerable
  | toString | toLocaleString | valueOf | getProto | setProto
deriving DecidableEq, Inhabited

inductive FunctionFunction where
  | construct | call | apply | bind | toString | hasInstance | nothing
deriving DecidableEq, Inhabited

inductive ArrayFunction where
  | construct | isArray | of | from | at | concat | entries | keys | values | every | some | forEach
  | filter | map | flatMap | find | findIndex | findLast | findLastIndex | reduce | reduceRight
  | flat | includes | indexOf | lastIndexOf | join | toString | slice | toReversed | toSorted
  | toSpliced | with | push | pop | shift | unshift | splice | reverse | fill | sort
deriving DecidableEq, Inhabited

inductive IteratorFunction where
  | self | arrayNext | stringNext | keyedNext
deriving DecidableEq, Inhabited

inductive StringFunction where
  | construct | fromCharCode | fromCodePoint | raw | toString | valueOf | at | charAt | charCodeAt
  | codePointAt | concat | includes | startsWith | endsWith | indexOf | lastIndexOf | padStart
  | padEnd | repeat | replace | replaceAll | slice | substring | substr | split | toLowerCase
  | toUpperCase | trim | trimStart | trimEnd | localeCompare | iterator
deriving DecidableEq, Inhabited

inductive NumberFunction where
  | construct | isFinite | isNaN | isInteger | isSafeInteger | parseInt | parseFloat | valueOf
  | toString | toLocaleString | toFixed | toExponential | toPrecision | globalIsNaN
  | globalIsFinite
deriving DecidableEq, Inhabited

inductive BooleanFunction where
  | construct | toString | valueOf
deriving DecidableEq, Inhabited

inductive SymbolFunction where
  | construct | for | keyFor | toString | valueOf | description | toPrimitive
deriving DecidableEq, Inhabited

inductive MathFunction where
  | abs | acos | acosh | asin | asinh | atan | atanh | cbrt | ceil | cos | cosh | exp | expm1
  | floor | fround | log | log1p | log10 | log2 | round | sign | sin | sinh | sqrt | tan | tanh
  | trunc | atan2 | pow | max | min | hypot | clz32 | imul | random
deriving DecidableEq, Inhabited

inductive JsonFunction where
  | parse | stringify
deriving DecidableEq, Inhabited

inductive ErrorFunction where
  | construct (kind : ErrorKind) | toString | captureStackTrace
deriving DecidableEq, Inhabited

/-- The ways to join several promises into one. -/
inductive Combinator where
  | all | allSettled | any | race
deriving DecidableEq, Inhabited

inductive PromiseFunction where
  | construct | then | catch | finally | resolve | reject | withResolvers
  | combine (how : Combinator) | species
deriving DecidableEq, Inhabited

inductive ProxyFunction where
  | construct | revocable
deriving DecidableEq, Inhabited

inductive ReflectFunction where
  | apply | construct | defineProperty | deleteProperty | get | getOwnPropertyDescriptor
  | getPrototypeOf | has | isExtensible | ownKeys | preventExtensions | set | setPrototypeOf
deriving DecidableEq, Inhabited

inductive MapFunction where
  | construct | get | has | set | delete | clear | size | forEach | iterate (kind : IterationKind)
deriving DecidableEq, Inhabited

inductive SetFunction where
  | construct | has | add | delete | clear | size | forEach | iterate (kind : IterationKind)
deriving DecidableEq, Inhabited

inductive WeakMapFunction where
  | construct | get | has | set | delete
deriving DecidableEq, Inhabited

inductive WeakSetFunction where
  | construct | add | has | delete
deriving DecidableEq, Inhabited

inductive WeakRefFunction where
  | construct | deref
deriving DecidableEq, Inhabited

inductive ConsoleLevel where
  | log | info | warn | error | debug
deriving DecidableEq, Inhabited

inductive ConsoleFunction where
  | write (level : ConsoleLevel) | dir | trace | assert | count | countReset | group | groupEnd
  | time | timeLog | timeEnd
deriving DecidableEq, Inhabited

inductive TimerFunction where
  | setTimeout | setInterval | clear | queueMicrotask
deriving DecidableEq, Inhabited

/-- Functions that carry what they were made with. -/
inductive CapturingFunction where
  /-- Resolves a promise, if its latch is still open. -/
  | resolvePromise (promise : ObjectId) (latch : Nat)
  /-- Rejects a promise, if its latch is still open. -/
  | rejectPromise (promise : ObjectId) (latch : Nat)
  /-- Takes over the two functions that a constructor of promises hands out. -/
  | takeResolvers (cell : Nat)
  /-- Runs a callback and then goes on with the outcome it was called with. -/
  | passAfter (callback constructor : Value) (fulfilled : Bool)
  | giveBack (value : Value)
  | throwBack (value : Value)
  /-- Reports the outcome of one element to an aggregate, if its latch is still open. -/
  | reportElement (aggregate index latch : Nat) (how : Combinator) (fulfilled : Bool)
  /-- Fills the slot that a suspended task waits on. -/
  | wake (slot : Nat) (fulfilled : Bool)
  | revokeProxy (proxy : ObjectId)
  /-- Refuses access to the caller's details. -/
  | refuseCallee
deriving Inhabited

/-- A function that is not written in the script. -/
inductive Native where
  | object (f : ObjectFunction)
  | function (f : FunctionFunction)
  | array (f : ArrayFunction)
  | iterator (f : IteratorFunction)
  | string (f : StringFunction)
  | number (f : NumberFunction)
  | boolean (f : BooleanFunction)
  | symbol (f : SymbolFunction)
  | math (f : MathFunction)
  | json (f : JsonFunction)
  | error (f : ErrorFunction)
  | promise (f : PromiseFunction)
  | proxy (f : ProxyFunction)
  | reflect (f : ReflectFunction)
  | map (f : MapFunction)
  | set (f : SetFunction)
  | weakMap (f : WeakMapFunction)
  | weakSet (f : WeakSetFunction)
  | weakRef (f : WeakRefFunction)
  | console (f : ConsoleFunction)
  | timer (f : TimerFunction)
  | capturing (f : CapturingFunction)
deriving Inhabited

/-- Whether `new` accepts a function. -/
def Native.constructs : Native → Bool
  | .object .construct => true
  | .function .construct => true
  | .array .construct => true
  | .string .construct => true
  | .number .construct => true
  | .boolean .construct => true
  | .symbol .construct => true
  | .error (.construct _) => true
  | .promise .construct => true
  | .proxy .construct => true
  | .map .construct => true
  | .set .construct => true
  | .weakMap .construct => true
  | .weakSet .construct => true
  | .weakRef .construct => true
  | _ => false

end EcmaScript

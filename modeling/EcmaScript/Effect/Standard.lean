import EcmaScript.Machine.State

/-! Functions of the library by the paths that lead to them from the global object. -/
namespace EcmaScript

namespace EffectFlags

def ofBits (n : Nat) : EffectFlags where
  pure := n.testBit 0
  changesReceiver := n.testBit 1
  changesArgument := n.testBit 2
  callsArgument := n.testBit 3
  callsReceiver := n.testBit 4

end EffectFlags

def EffectTable.insert (t : EffectTable) (f : ObjectId) (flags : EffectFlags) : EffectTable :=
  (f, flags) :: t.filter (·.1 != f)

namespace Path

def part (reversed : List Char) : List String :=
  if reversed.isEmpty then [] else [String.ofList reversed.reverse]

/-- The parts of a path. Points divide them, and a bracket with what it encloses is a part of its
own. -/
def parts : List Char → (depth : Nat) → (current : List Char) → List String
  | [], _, current => part current
  | c :: cs, depth, current =>
    if c = '[' then
      if depth = 0 then part current ++ parts cs 1 [c] else parts cs (depth + 1) (c :: current)
    else if c = ']' then
      if depth ≤ 1 then part (c :: current) ++ parts cs 0 [] else parts cs (depth - 1) (c :: current)
    else if c = '.' && depth = 0 then part current ++ parts cs 0 []
    else parts cs depth (c :: current)

/-- The key a part stands for. -/
def key? (part : String) : Option PropertyKey :=
  match dropStart? "[Symbol.".toList part.toList with
  | some rest =>
    if rest.getLast? = some ']' then
      (Symbol.wellKnown.lookup (String.ofList rest.dropLast)).map .symbol
    else some (.ofString part)
  | none => some (.ofString part)
where
  dropStart? : List Char → List Char → Option (List Char)
    | [], cs => some cs
    | _ :: _, [] => none
    | p :: ps, c :: cs => if p = c then dropStart? ps cs else none

end Path

namespace Intrinsics

def byPathName? (i : Intrinsics) (name : String) : Option ObjectId :=
  [("%IteratorPrototype%", i.iteratorPrototype),
    ("%ArrayIteratorPrototype%", i.arrayIteratorPrototype),
    ("%StringIteratorPrototype%", i.stringIteratorPrototype),
    ("%MapIteratorPrototype%", i.mapIteratorPrototype),
    ("%SetIteratorPrototype%", i.setIteratorPrototype)].lookup name

end Intrinsics

namespace State

/-- Follows own properties from an object. At the end, the getter of an accessor may be asked for. -/
def follow (s : State) (getter : Bool) : List String → ObjectId → Option ObjectId
  | [], id => some id
  | p :: rest, id => do
    let key ← Path.key? p
    let property ← (s.object id).own? key
    let next ← match property.slot with
      | .accessor (some g) _ => if rest.isEmpty && getter then g.object? else none
      | .accessor none _ => none
      | .data v _ => if rest.isEmpty && getter then none else v.object?
    s.follow getter rest next

/-- The object a path leads to. After `get ` it leads to the getter of an accessor. -/
def resolvePath (s : State) (path : String) : Option ObjectId :=
  let (getter, path) := match path.toList with
    | 'g' :: 'e' :: 't' :: ' ' :: rest => (true, rest)
    | cs => (false, cs)
  match Path.parts path 0 [] with
  | [] => none
  | first :: rest => do
    let root ← (s.intrinsics.byPathName? first).or
      (((s.object s.globalObject).ownValue? (.ofString first)).bind Value.object?)
    s.follow getter rest root

def registerPath (s : State) (table : Nat) (path : String) (flags : EffectFlags) : Bool × State :=
  match s.resolvePath path with
  | some f =>
    (true, { s with effectTables := s.effectTables.modify table (EffectTable.insert · f flags) })
  | none => (false, s)

end State

/-! The functions of the library that a dry run may call. -/

/-- Functions that change nothing. -/
def harmlessFunctions : List String :=
  ["Object", "Object.keys", "Object.values", "Object.entries", "Object.getPrototypeOf",
    "Object.getOwnPropertyNames", "Object.getOwnPropertySymbols",
    "Object.getOwnPropertyDescriptor", "Object.getOwnPropertyDescriptors", "Object.is",
    "Object.isFrozen", "Object.isSealed", "Object.isExtensible", "Object.create",
    "Object.fromEntries", "Object.prototype.hasOwnProperty", "Object.prototype.isPrototypeOf",
    "Object.prototype.propertyIsEnumerable", "Object.prototype.toString",
    "Object.prototype.toLocaleString", "Object.prototype.valueOf", "Object.hasOwn",
    "Function.prototype.toString", "Function.prototype[Symbol.hasInstance]",
    "Function.prototype.bind", "Array", "Array.isArray", "Array.of", "Array.prototype.at",
    "Array.prototype.concat", "Array.prototype.entries", "Array.prototype.keys",
    "Array.prototype.values", "Array.prototype.flat", "Array.prototype.includes",
    "Array.prototype.indexOf", "Array.prototype.lastIndexOf", "Array.prototype.join",
    "Array.prototype.slice", "Array.prototype.toString", "Array.prototype.toReversed",
    "Array.prototype.toSpliced", "Array.prototype.with", "Array.prototype[Symbol.iterator]",
    "%IteratorPrototype%[Symbol.iterator]", "String", "String.fromCharCode",
    "String.fromCodePoint", "String.raw", "String.prototype.at", "String.prototype.charAt",
    "String.prototype.charCodeAt", "String.prototype.codePointAt", "String.prototype.concat",
    "String.prototype.endsWith", "String.prototype.includes", "String.prototype.indexOf",
    "String.prototype.lastIndexOf", "String.prototype.padEnd", "String.prototype.padStart",
    "String.prototype.repeat", "String.prototype.replace", "String.prototype.replaceAll",
    "String.prototype.slice", "String.prototype.split", "String.prototype.startsWith",
    "String.prototype.substring", "String.prototype.toLowerCase", "String.prototype.toUpperCase",
    "String.prototype.toString", "String.prototype.trim", "String.prototype.trimEnd",
    "String.prototype.trimStart", "String.prototype.valueOf", "String.prototype[Symbol.iterator]",
    "Number", "Number.isFinite", "Number.isInteger", "Number.isNaN", "Number.isSafeInteger",
    "Number.parseFloat", "Number.parseInt", "Number.prototype.toFixed",
    "Number.prototype.toString", "Number.prototype.valueOf", "Boolean",
    "Boolean.prototype.toString", "Boolean.prototype.valueOf", "Symbol",
    "Symbol.prototype.toString", "get Symbol.prototype.description", "parseInt", "parseFloat",
    "isNaN", "isFinite", "Math.abs", "Math.ceil", "Math.floor", "Math.round", "Math.trunc",
    "Math.sign", "Math.sqrt", "Math.cbrt", "Math.pow", "Math.min", "Math.max", "Math.hypot",
    "Math.log", "Math.log2", "Math.log10", "Math.exp", "Math.sin", "Math.cos", "Math.tan",
    "Math.atan", "Math.atan2", "JSON.stringify", "JSON.parse", "Error", "TypeError", "RangeError",
    "ReferenceError", "SyntaxError", "Error.prototype.toString", "Map", "Map.prototype.get",
    "Map.prototype.has", "Map.prototype.keys", "Map.prototype.values", "Map.prototype.entries",
    "get Map.prototype.size", "Set", "Set.prototype.has", "Set.prototype.values",
    "Set.prototype.entries", "get Set.prototype.size", "WeakMap", "WeakMap.prototype.get",
    "WeakMap.prototype.has", "WeakSet", "WeakSet.prototype.has", "WeakRef.prototype.deref",
    "Reflect.get", "Reflect.has", "Reflect.ownKeys", "Reflect.getPrototypeOf",
    "Reflect.getOwnPropertyDescriptor", "Reflect.isExtensible", "Promise.resolve",
    "Promise.reject"]

def callbackFunctions : List String :=
  ["Array.from", "Array.prototype.every", "Array.prototype.some", "Array.prototype.filter",
    "Array.prototype.find", "Array.prototype.findIndex", "Array.prototype.findLast",
    "Array.prototype.findLastIndex", "Array.prototype.flatMap", "Array.prototype.forEach",
    "Array.prototype.map", "Array.prototype.reduce", "Array.prototype.reduceRight",
    "Array.prototype.toSorted", "Map.prototype.forEach", "Set.prototype.forEach", "Reflect.apply"]

def receiverFunctions : List String :=
  ["Array.prototype.push", "Array.prototype.pop", "Array.prototype.shift",
    "Array.prototype.unshift", "Array.prototype.splice", "Array.prototype.reverse",
    "Array.prototype.fill", "%ArrayIteratorPrototype%.next", "%StringIteratorPrototype%.next",
    "%MapIteratorPrototype%.next", "%SetIteratorPrototype%.next", "Map.prototype.set",
    "Map.prototype.delete", "Map.prototype.clear", "Set.prototype.add", "Set.prototype.delete",
    "Set.prototype.clear", "WeakMap.prototype.set", "WeakSet.prototype.add"]

def argumentFunctions : List String :=
  ["Object.assign", "Object.freeze", "Object.defineProperty", "Object.setPrototypeOf"]

def applyingFunctions : List String :=
  ["Function.prototype.call", "Function.prototype.apply"]

def sortingFunctions : List String :=
  ["Array.prototype.sort"]

def standardEffects : List (String × EffectFlags) :=
  harmlessFunctions.map (·, { pure := true }) ++
    callbackFunctions.map (·, { pure := true, callsArgument := true }) ++
    receiverFunctions.map (·, { pure := true, changesReceiver := true }) ++
    argumentFunctions.map (·, { pure := true, changesArgument := true }) ++
    applyingFunctions.map (·, { pure := true, callsReceiver := true }) ++
    sortingFunctions.map (·, { pure := true, changesReceiver := true, callsArgument := true })

namespace State

def addStandardEffects (s : State) (table : Nat) : State :=
  standardEffects.foldl (fun s (path, flags) => (s.registerPath table path flags).2) s

end State
end EcmaScript

import EcmaScript.Library.Feature

/-! `Symbol`. -/
namespace EcmaScript

def symbolStatics : List Feature :=
  Symbol.wellKnown.map (fun (name, s) => .constant (.name name) (.symbol s)) ++
    [.named "for" 1 (.symbol .for), .named "keyFor" 1 (.symbol .keyFor)]

def symbolMethods : List Feature :=
  [.named "toString" 0 (.symbol .toString), .named "valueOf" 0 (.symbol .valueOf),
    .getter (.name "description") (.symbol .description),
    .guarded (.symbol .toPrimitive) 1 (.symbol .toPrimitive) true, .tag "Symbol"]

namespace Exec

def wrappedSymbol (name : String) (this : Value) : Exec Symbol := do
  match this with
  | .symbol s => return s
  | .object id =>
    match (← object id).kind with
    | .symbol s => return s
    | _ => refuse
  | _ => refuse
where
  refuse : Exec Symbol :=
    throwType ("Symbol.prototype." ++ name ++ " requires that 'this' be a Symbol")

def newSymbol (description : Option String) : Exec Symbol := update fun s =>
  (⟨s.nextSymbol, description, false⟩, { s with nextSymbol := s.nextSymbol + 1 })

def registeredSymbol (name : String) : Exec Symbol := update fun s =>
  match s.registry.lookup name with
  | some symbol => (symbol, s)
  | none =>
    let symbol : Symbol := ⟨s.nextSymbol, some name, true⟩
    (symbol, { s with
      nextSymbol := s.nextSymbol + 1, registry := (name, symbol) :: s.registry })

def descriptionValue (s : Symbol) : Value := (s.description.map Value.string).getD .undefined

def symbolFunction (f : SymbolFunction) (this : Value) (args : Array Value) : Exec Value := do
  match f with
  | .construct =>
    let description ← match argument args 0 with
      | .undefined => pure none
      | v => some <$> toText v
    return .symbol (← newSymbol description)
  | .for => return .symbol (← registeredSymbol (← toText (argument args 0)))
  | .keyFor =>
    match argument args 0 with
    | .symbol s => return if s.registered then descriptionValue s else .undefined
    | v => throwType ((← describe v) ++ " is not a symbol")
  | .toString => return .string (← wrappedSymbol "toString" this).text
  | .valueOf => return .symbol (← wrappedSymbol "valueOf" this)
  | .description => return descriptionValue (← wrappedSymbol "description" this)
  | .toPrimitive => return .symbol (← wrappedSymbol "[Symbol.toPrimitive]" this)

end Exec
end EcmaScript

/-! Positions in a script. -/
namespace EcmaScript

/-- A byte range of a script, with the line and column of its first character, counted from one. -/
structure Span where
  start : Nat
  stop : Nat
  line : Nat
  column : Nat
deriving DecidableEq, Inhabited, Repr

def Span.through (a b : Span) : Span := { a with stop := max b.stop a.start }

def Span.slice (source : String) (span : Span) : String :=
  String.Pos.Raw.extract source ⟨span.start⟩ ⟨span.stop⟩

/-! Why a text is not a script. -/

/-- What is wrong at a place of a script. -/
inductive SyntaxFault where
  | invalidToken
  | invalidHexEscape
  | invalidUnicodeEscape
  | unterminatedTemplate
  | unterminatedRegExp
  | unexpectedEnd
  | unexpectedTemplate
  | unexpectedString
  | unexpectedNumber
  | unexpectedIdentifier (name : String)
  | unexpectedToken (description : String)
  | unexpectedForAwait
  | unexpectedPrivateField
  | unexpectedSuper
  | reservedWord
  | illegalReturn
  | newlineAfterThrow
  | missingConstInitializer
  | missingPatternInitializer
  | missingForInitializer
  | missingCatchOrFinally
  | secondDefaultClause
  | getterParameters
  | setterParameters
  | parameterAfterRest
  | specialConstructor
  | secondConstructor
  | forbiddenFieldName
  | privateConstructor
  | newTargetOutsideFunction
  | optionalChainInNew
  | templateInOptionalChain
  | unaryBeforeExponent
  | invalidTemplateEscape
  | invalidAssignmentTarget
  | invalidUpdateTarget
  | invalidDestructuringTarget
  | elementAfterRest
  | notAFunction
deriving DecidableEq, Inhabited

def SyntaxFault.message : SyntaxFault → String
  | .invalidToken => "Invalid or unexpected token"
  | .invalidHexEscape => "Invalid hexadecimal escape sequence"
  | .invalidUnicodeEscape => "Invalid Unicode escape sequence"
  | .unterminatedTemplate => "Unterminated template literal"
  | .unterminatedRegExp => "Invalid regular expression: missing /"
  | .unexpectedEnd => "Unexpected end of input"
  | .unexpectedTemplate => "Unexpected template string"
  | .unexpectedString => "Unexpected string"
  | .unexpectedNumber => "Unexpected number"
  | .unexpectedIdentifier name => "Unexpected identifier '" ++ name ++ "'"
  | .unexpectedToken description => "Unexpected token " ++ description
  | .unexpectedForAwait => "Unexpected token in for await"
  | .unexpectedPrivateField => "Unexpected private field"
  | .unexpectedSuper => "'super' keyword unexpected here"
  | .reservedWord => "Unexpected reserved word"
  | .illegalReturn => "Illegal return statement"
  | .newlineAfterThrow => "Illegal newline after throw"
  | .missingConstInitializer => "Missing initializer in const declaration"
  | .missingPatternInitializer => "Missing initializer in destructuring declaration"
  | .missingForInitializer => "Missing initializer in declaration"
  | .missingCatchOrFinally => "Missing catch or finally after try"
  | .secondDefaultClause => "More than one default clause in switch statement"
  | .getterParameters => "Getter must not have any formal parameters."
  | .setterParameters => "Setter must have exactly one formal parameter."
  | .parameterAfterRest => "Rest parameter must be last formal parameter"
  | .specialConstructor => "Class constructor may not be a special method"
  | .secondConstructor => "A class may only have one constructor"
  | .forbiddenFieldName => "Classes may not have a field named 'constructor' or 'prototype'"
  | .privateConstructor => "Classes may not have a private field named '#constructor'"
  | .newTargetOutsideFunction => "new.target expression is not allowed here"
  | .optionalChainInNew => "Invalid optional chain from new expression"
  | .templateInOptionalChain => "Invalid tagged template on optional chain"
  | .unaryBeforeExponent =>
    "Unary operator used immediately before exponentiation expression. Parenthesis must be used to disambiguate operator precedence"
  | .invalidTemplateEscape => "Invalid escape sequence in template"
  | .invalidAssignmentTarget => "Invalid left-hand side in assignment"
  | .invalidUpdateTarget => "Invalid left-hand side expression in postfix operation"
  | .invalidDestructuringTarget => "Invalid destructuring assignment target"
  | .elementAfterRest => "Rest element must be last element"
  | .notAFunction => "Invalid function source"

/-- Why reading a script stopped: a fault at a place, a construct that is left out, or a reader that does
not get on. -/
inductive ReadError where
  | fault (what : SyntaxFault) (line column : Nat)
  | unsupported (construct : String)
  | stuck
deriving DecidableEq, Inhabited

def ReadError.at (span : Span) (what : SyntaxFault) : ReadError := .fault what span.line span.column

end EcmaScript

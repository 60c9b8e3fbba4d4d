import EcmaScript.Number.Text
import EcmaScript.Source.Fault

/-! Tokens of a script. -/
namespace EcmaScript

/-- The operators that combine with `=`. -/
inductive AssignOp where
  | add | sub | mul | div | mod | exp | shl | shr | ushr
  | bitAnd | bitOr | bitXor | and | or | nullish
deriving DecidableEq, Inhabited

inductive Punctuator where
  | lParen | rParen | lBracket | rBracket | lBrace | rBrace
  | semicolon | comma | dot | spread | question | optionalChain | colon | arrow
  | assign | compoundAssign (op : AssignOp)
  | plus | minus | star | slash | percent | exponent | increment | decrement
  | less | greater | lessEqual | greaterEqual | equal | notEqual | strictEqual | strictNotEqual
  | shiftLeft | shiftRight | unsignedShiftRight | bitAnd | bitOr | bitXor
  | logicalNot | bitNot | logicalAnd | logicalOr | nullish
deriving DecidableEq, Inhabited

/-- How messages name a punctuator. All compound assignments share one name. -/
def Punctuator.text : Punctuator → String
  | .lParen => "(" | .rParen => ")" | .lBracket => "[" | .rBracket => "]"
  | .lBrace => "\x7b" | .rBrace => "\x7d" | .semicolon => ";" | .comma => "," | .dot => "."
  | .spread => "..." | .question => "?" | .optionalChain => "?." | .colon => ":" | .arrow => "=>"
  | .assign => "=" | .compoundAssign _ => "op="
  | .plus => "+" | .minus => "-" | .star => "*" | .slash => "/" | .percent => "%"
  | .exponent => "**" | .increment => "++" | .decrement => "--"
  | .less => "<" | .greater => ">" | .lessEqual => "<=" | .greaterEqual => ">="
  | .equal => "==" | .notEqual => "!=" | .strictEqual => "===" | .strictNotEqual => "!=="
  | .shiftLeft => "<<" | .shiftRight => ">>" | .unsignedShiftRight => ">>>"
  | .bitAnd => "&" | .bitOr => "|" | .bitXor => "^" | .logicalNot => "!" | .bitNot => "~"
  | .logicalAnd => "&&" | .logicalOr => "||" | .nullish => "??"

/-- A literal chunk of a template. The cooked value is absent when an escape in it is malformed. -/
structure TemplateChunk where
  cooked : Option String
  raw : String
deriving DecidableEq, Inhabited

mutual

/-- A token. A template holds the tokens of its substitutions. -/
inductive Token where
  | number (value : Float)
  | bigInt (digits : String)
  | string (value : String)
  | template (chunks : List TemplateChunk) (substitutions : List (List Lexeme))
  | regExp (pattern flags : String)
  | identifier (name : String)
  | privateName (name : String)
  | punctuator (mark : Punctuator)
  | endOfInput

/-- A token at its place, and whether a line ended since the token before it. -/
inductive Lexeme where
  | mk (token : Token) (span : Span) (afterNewline : Bool)

end

instance : Inhabited Token := ⟨.endOfInput⟩

instance : Inhabited Lexeme := ⟨.mk .endOfInput default false⟩

def Lexeme.token : Lexeme → Token
  | .mk token _ _ => token

def Lexeme.span : Lexeme → Span
  | .mk _ span _ => span

def Lexeme.afterNewline : Lexeme → Bool
  | .mk _ _ afterNewline => afterNewline

def Token.isWord (word : String) : Token → Bool
  | .identifier name => name == word
  | _ => false

def Token.isMark (mark : Punctuator) : Token → Bool
  | .punctuator p => p == mark
  | _ => false

def Token.describe : Token → String
  | .number n => "number " ++ Number.plainText n
  | .bigInt digits => "bigint " ++ digits ++ "n"
  | .string _ => "string"
  | .template .. => "template string"
  | .regExp .. => "regular expression"
  | .identifier name => "'" ++ name ++ "'"
  | .privateName name => "'#" ++ name ++ "'"
  | .punctuator p => "'" ++ p.text ++ "'"
  | .endOfInput => "end of input"

end EcmaScript

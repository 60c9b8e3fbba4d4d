import EcmaScript.Text.Unicode

/-! Strings as debugging output and as a console show them. -/
namespace EcmaScript.Text

/-! Debugging output. -/

/-- How a character stands in a quoted string: the usual escapes, and the code point in braces for
what could not be seen or would join the character before it. -/
def escapeChar (c : Char) : List Char :=
  if c = '\x22' then ['\\', '\x22']
  else if c = '\\' then ['\\', '\\']
  else if c = '\n' then ['\\', 'n']
  else if c = '\r' then ['\\', 'r']
  else if c = '\t' then ['\\', 't']
  else if c = '\x00' then ['\\', '0']
  else if isGraphemeExtend c || !isPrintable c then
    ['\\', 'u', '\x7b'] ++ Nat.toDigits 16 c.toNat ++ ['\x7d']
  else [c]

def escaped (s : String) : String :=
  String.ofList ('\x22' :: s.toList.flatMap escapeChar ++ ['\x22'])

/-! A console shows strings in quotes, so that they read back. -/

def quoteFor (cs : List Char) : Char :=
  if cs.contains '\x27' && !cs.contains '\x22' then '\x22' else '\x27'

def quotedChar (quote c : Char) : List Char :=
  if c = '\n' then ['\\', 'n']
  else if c = '\t' then ['\\', 't']
  else if c = '\r' then ['\\', 'r']
  else if c = '\\' then ['\\', '\\']
  else if c = quote then ['\\', c]
  else [c]

def quoted (s : String) : String :=
  let quote := quoteFor s.toList
  String.ofList (quote :: s.toList.flatMap (quotedChar quote) ++ [quote])

def startsWord (c : Char) : Bool := isAlphabetic c || c = '_' || c = '$'

def continuesWord (c : Char) : Bool := startsWord c || isNumeric c

def isWord (s : String) : Bool :=
  match s.toList with
  | [] => false
  | c :: cs => startsWord c && cs.all continuesWord

end EcmaScript.Text

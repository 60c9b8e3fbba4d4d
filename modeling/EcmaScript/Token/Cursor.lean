import EcmaScript.Source.Fault
import EcmaScript.Text.Unicode

/-! A place in a text that is being read. -/
namespace EcmaScript
open EcmaScript.Text

/-- The characters still to be read, with the byte offset, line and column of the first of them. -/
structure Cursor where
  rest : List Char
  offset : Nat
  line : Nat
  column : Nat

namespace Cursor

def start (source : String) : Cursor := ⟨source.toList, 0, 1, 1⟩

/-- Whether a line ends after `c` when `rest` follows it. A carriage return before a line feed is
not an end of its own. -/
def endsLine (c : Char) (rest : List Char) : Bool :=
  c == '\n' || c == '\u2028' || c == '\u2029' || (c == '\r' && rest.head? != some '\n')

def next (c : Cursor) : Cursor :=
  match c.rest with
  | [] => c
  | a :: rest =>
    if endsLine a rest then ⟨rest, c.offset + a.utf8Size, c.line + 1, 1⟩
    else ⟨rest, c.offset + a.utf8Size, c.line, c.column + 1⟩

def skip (c : Cursor) : Nat → Cursor
  | 0 => c
  | n + 1 => c.next.skip n

def takeWhile (c : Cursor) (p : Char → Bool) : List Char × Cursor :=
  let run := c.rest.takeWhile p
  (run, c.skip run.length)

def peek (c : Cursor) : Option Char := c.rest.head?

def peekAt (c : Cursor) (n : Nat) : Option Char := (c.rest.drop n).head?

def here (c : Cursor) : Span := ⟨c.offset, c.offset, c.line, c.column⟩

def spanTo (c later : Cursor) : Span := ⟨c.offset, later.offset, c.line, c.column⟩

end Cursor

/-- Reading moves a cursor and may fail. A failure leaves the cursor where it struck, because a
template goes on after a malformed escape. -/
abbrev Scan := ExceptT ReadError (StateM Cursor)

namespace Scan

def fail {α : Type} (span : Span) (what : SyntaxFault) : Scan α := throw (ReadError.at span what)

def stuck {α : Type} : Scan α := throw .stuck

def peek : Scan (Option Char) := return (← get).peek

def peekAt (n : Nat) : Scan (Option Char) := return (← get).peekAt n

def here : Scan Span := return (← get).here

def skip (n : Nat) : Scan Unit := modify (·.skip n)

def next : Scan (Option Char) := do
  let c ← get
  set c.next
  return c.peek

def takeWhile (p : Char → Bool) : Scan (List Char) := do
  let (run, c) := (← get).takeWhile p
  set c
  return run

def bound : Scan Nat := return (← get).rest.length + 1

end Scan
end EcmaScript

import EcmaScript.Session.Command

/-! The program: it evaluates a script, a file, or the lines of a session. -/
namespace EcmaScript

def engine : Machine := machine ampleFuel

def writeShown : Shown → IO Bool
  | .ok text => do
    text.forM IO.println
    return true
  | .error lines => do
    lines.forM IO.eprintln
    return false

def runScript (r : Repl) (filename source : String) : IO UInt32 := do
  match Run.script engine r filename source ⟨State.standard, []⟩ with
  | .done shown _ => return if ← writeShown shown then 0 else 1
  | _ => return 1

/-- Reads and evaluates entries until there are no more. -/
partial def converse (r : Repl) (input : IO.FS.Stream) (realm : Realm) (before : String) :
    IO UInt32 := do
  IO.print (if before = "" then "> " else "... ")
  (← IO.getStdout).flush
  let line ← input.getLine
  if line = "" then return 0
  match Entry.ofLine before (String.ofList (Text.withoutEnd line.toList)) with
  | .leave => return 0
  | .ignore => converse r input realm ""
  | .more text => converse r input realm text
  | .evaluate source =>
    match Run.entry engine r source realm with
    | .done shown realm =>
      discard (writeShown shown)
      converse r input realm ""
    | _ => return 1

end EcmaScript

open EcmaScript

def main (args : List String) : IO UInt32 := do
  match Command.ofArguments args with
  | .error refusal =>
    IO.eprintln ("error: " ++ refusal.message)
    return 2
  | .ok command =>
    match command.script, command.file with
    | some source, _ => runScript command.repl "<eval>" source
    | none, some file =>
      match ← (IO.FS.readFile file).toBaseIO with
      | .ok source => runScript command.repl file source
      | .error e =>
        IO.eprintln ("Error reading file " ++ file ++ ": " ++ toString e)
        return 1
    | none, none =>
      IO.println "Interactive JavaScript console. Type '.exit' or Ctrl-D to quit."
      converse command.repl (← IO.getStdin) ⟨State.standard, []⟩ ""

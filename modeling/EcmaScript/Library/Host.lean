import EcmaScript.Inspect.Value
import EcmaScript.Library.Feature

/-! `console`. -/
namespace EcmaScript

def consoleFeatures : List Feature :=
  [feature "log" (.write .log), feature "info" (.write .info), feature "warn" (.write .warn),
    feature "error" (.write .error), feature "debug" (.write .debug), feature "dir" .dir,
    feature "trace" .trace, feature "assert" .assert, feature "count" .count,
    feature "countReset" .countReset, feature "group" .group, feature "groupCollapsed" .group,
    feature "groupEnd" .groupEnd, feature "time" .time, feature "timeLog" .timeLog,
    feature "timeEnd" .timeEnd]
where
  feature (name : String) (f : ConsoleFunction) : Feature := .named name 0 (.console f)

namespace Text

def linesWithEnds : List Char → (line : List Char) → List (List Char)
  | [], [] => []
  | [], line => [line.reverse]
  | c :: cs, line =>
    if c = '\n' then (c :: line).reverse :: linesWithEnds cs [] else linesWithEnds cs (c :: line)

def withoutEnd (line : List Char) : List Char :=
  match line.reverse with
  | '\n' :: '\r' :: rest => rest.reverse
  | '\n' :: rest => rest.reverse
  | _ => line

def lines (s : String) : List String :=
  (linesWithEnds s.toList []).map fun line => String.ofList (withoutEnd line)

def indented (level : Nat) (s : String) : String :=
  if level = 0 then s
  else
    let pad := String.ofList (List.replicate (2 * level) ' ')
    "\n".intercalate ((lines s).map (pad ++ ·))

end Text

namespace ConsoleData

def counted (c : ConsoleData) (label : String) : Nat := (c.counts.lookup label).getD 0 + 1

def count (c : ConsoleData) (label : String) : ConsoleData :=
  { c with counts := (label, c.counted label) :: c.counts.filter (·.1 != label) }

def resetCount (c : ConsoleData) (label : String) : ConsoleData :=
  { c with counts := c.counts.filter (·.1 != label) }

def startClock (c : ConsoleData) (label : String) (now : Nat) : ConsoleData :=
  { c with clocks := (label, now) :: c.clocks.filter (·.1 != label) }

def stopClock (c : ConsoleData) (label : String) : ConsoleData :=
  { c with clocks := c.clocks.filter (·.1 != label) }

end ConsoleData

def elapsedText (nanos : Nat) : String :=
  let micros := nanos / 1000
  let digits := Number.natText (micros % 1000)
  Number.natText (micros / 1000) ++ "." ++ Number.zeros (3 - digits.length) ++ digits ++ "ms"

namespace Exec

def changeConsole (f : ConsoleData → ConsoleData) : Exec Unit :=
  change fun s => { s with console := f s.console }

def emit (level : ConsoleLevel) (message : String) : Exec Unit := do
  console level (Text.indented (← look (·.console.indent)) message)

def message (args : List Value) : Exec String := do shown (← look (·.messageText args))

def labelOf (args : Array Value) : Exec String := do
  match argument args 0 with
  | .undefined => return "default"
  | v => display v

def traceText (header : String) : Exec String := do
  let id ← newError .error header
  match (← object id).ownValue? (.name "stack") with
  | some (.string stack) =>
    return if stack.startsWith "Error" then "Trace" ++ String.ofList (stack.toList.drop 5) else stack
  | _ => return ""

def showClock (label : String) : Exec Unit := do
  let now ← look (·.clock)
  match ← look (·.console.clocks.lookup label) with
  | some start => emit .log (label ++ ": " ++ elapsedText (now - start))
  | none => emit .warn ("Timer '" ++ label ++ "' does not exist")

def consoleCall (f : ConsoleFunction) (args : Array Value) : Exec Unit := do
  match f with
  | .write level => emit level (← message args.toList)
  | .dir => emit .log (← inspect (argument args 0))
  | .trace => emit .log (← traceText (← message args.toList))
  | .assert =>
    if !(argument args 0).truthy then
      let detail ← message (args.toList.drop 1)
      emit .error (if detail = "" then "Assertion failed" else "Assertion failed: " ++ detail)
  | .count =>
    let label ← labelOf args
    let n ← look (·.console.counted label)
    changeConsole (·.count label)
    emit .log (label ++ ": " ++ Number.natText n)
  | .countReset =>
    let label ← labelOf args
    changeConsole (·.resetCount label)
  | .group =>
    if !args.isEmpty then emit .log (← message args.toList)
    changeConsole fun c => { c with indent := c.indent + 1 }
  | .groupEnd => changeConsole fun c => { c with indent := c.indent - 1 }
  | .time =>
    let label ← labelOf args
    let now ← look (·.clock)
    changeConsole (·.startClock label now)
  | .timeLog => showClock (← labelOf args)
  | .timeEnd =>
    let label ← labelOf args
    showClock label
    changeConsole (·.stopClock label)

def consoleFunction (f : ConsoleFunction) (args : Array Value) : Exec Value := do
  consoleCall f args
  return .undefined

end Exec

/-! Timers and jobs that scripts set themselves. -/

def timerFeatures : List Feature :=
  [.named "setTimeout" 2 (.timer .setTimeout), .named "setInterval" 2 (.timer .setInterval),
    .named "clearTimeout" 1 (.timer .clear), .named "clearInterval" 1 (.timer .clear),
    .named "queueMicrotask" 1 (.timer .queueMicrotask)]

def shortestInterval : Nat := 1000000

/-- A delay in nanoseconds, for one in milliseconds. It counts whole microseconds. -/
def delayNanos (millis : Float) : Nat :=
  if millis.isNaN || millis.isInf || millis ≤ 0.0 then 0
  else Number.toNat (millis * 1000.0) * 1000

namespace Exec

def requireCallback (v : Value) : Exec Unit := do
  if !(← isCallable v) then throwType "The \"callback\" argument must be of type function"

def scheduleTimer (args : Array Value) (repeats : Bool) : Exec Value := do
  let callback := argument args 0
  requireCallback callback
  checkObjectWrite (← globalObject) "scheduling a timer"
  let delay ← match argument args 1 with
    | .undefined => pure 0
    | v => delayNanos <$> toNumber v
  let interval := if repeats then some (max delay shortestInterval) else none
  let id ← update fun s =>
    let (id, timers) := s.timers.schedule (s.clock + delay) callback (args.extract 2 args.size)
      interval
    (id, { s with timers })
  return .ofNat id

def timerFunction (f : TimerFunction) (args : Array Value) : Exec Value := do
  match f with
  | .setTimeout => scheduleTimer args false
  | .setInterval => scheduleTimer args true
  | .clear =>
    match argument args 0 with
    | .number x =>
      checkObjectWrite (← globalObject) "clearing a timer"
      change fun s => { s with timers := s.timers.cancel (Number.toNat x) }
      return .undefined
    | _ => return .undefined
  | .queueMicrotask =>
    requireCallback (argument args 0)
    checkObjectWrite (← globalObject) "queueing a microtask"
    enqueue (.callback (argument args 0))
    return .undefined

/-- Runs a timer that is due. One that repeats is set again before, so that it can stop itself. -/
def runTimer (t : Timer) : Exec Unit := do
  if let some interval := t.interval then
    change fun s => { s with timers := s.timers.arm (s.clock + interval) t }
  match ← attempt (call t.callback .undefined t.args) with
  | .ok _ => return
  | .error e =>
    let v ← thrownValue e
    console .error ("Uncaught " ++ (← look (·.describeThrown v)))

end Exec
end EcmaScript

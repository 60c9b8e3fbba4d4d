import EcmaScript.Value.Basic

/-! Timers that wait for their time. Times are in nanoseconds. -/
namespace EcmaScript

structure Timer where
  id : Nat
  callback : Value
  args : Array Value
  /-- The time after which the timer runs again. -/
  interval : Option Nat
deriving Inhabited

/-- A timer with the time it is due and its place among those set at all. -/
structure TimerEntry where
  due : Nat
  order : Nat
  timer : Timer
deriving Inhabited

structure TimerQueue where
  /-- Those due first come first; of two due together, the one set first. -/
  entries : List TimerEntry := []
  lastOrder : Nat := 0
  lastId : Nat := 0
deriving Inhabited

namespace TimerQueue

def isEmpty (q : TimerQueue) : Bool := q.entries.isEmpty

def nextDue? (q : TimerQueue) : Option Nat := q.entries.head?.map (·.due)

def place (e : TimerEntry) : List TimerEntry → List TimerEntry
  | [] => [e]
  | f :: rest => if e.due < f.due then e :: f :: rest else f :: place e rest

def arm (q : TimerQueue) (due : Nat) (timer : Timer) : TimerQueue :=
  { q with entries := place ⟨due, q.lastOrder + 1, timer⟩ q.entries, lastOrder := q.lastOrder + 1 }

def schedule (q : TimerQueue) (due : Nat) (callback : Value) (args : Array Value)
    (interval : Option Nat) : Nat × TimerQueue :=
  let id := q.lastId + 1
  (id, { q with lastId := id }.arm due ⟨id, callback, args, interval⟩)

def cancel (q : TimerQueue) (id : Nat) : TimerQueue :=
  { q with entries := q.entries.filter (·.timer.id != id) }

def popDue (q : TimerQueue) (now : Nat) : Option (Timer × TimerQueue) :=
  match q.entries with
  | [] => none
  | e :: rest => if e.due ≤ now then some (e.timer, { q with entries := rest }) else none

def discardFrom (q : TimerQueue) (id : Nat) : TimerQueue :=
  { q with entries := q.entries.filter (·.timer.id < id) }

end TimerQueue
end EcmaScript

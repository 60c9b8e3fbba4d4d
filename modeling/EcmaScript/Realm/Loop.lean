import EcmaScript.Evaluate.Machine
import EcmaScript.Promise.Core

/-! Realms, and the tasks that wait in them. A task keeps the frame it runs in, and goes on when the
slot it waits for has been filled. -/
namespace EcmaScript

structure ParkedTask where
  id : Nat
  slot : Nat
  frame : Frame
  resume : Outcome → State → Task

structure Realm where
  state : State
  /-- The tasks that wait, or could go on and have not yet. -/
  tasks : List ParkedTask := []

/-- What work in a realm comes to. Whatever was changed before it stopped stays changed. -/
inductive Progress (α : Type) where
  | done (a : α) (r : Realm)
  | stopped (e : EvaluationError) (r : Realm)
  /-- The fuel did not suffice. -/
  | exhausted

def Run (α : Type) : Type := Realm → Progress α

namespace Realm

def follow {α : Type} : Step α → List ParkedTask → Progress (Except Abrupt α)
  | .value a s, tasks => .done (.ok a) ⟨s, tasks⟩
  | .abrupt e s, tasks => .done (.error e) ⟨s, tasks⟩
  | .waiting _ s _, tasks =>
    .done (.error (.condition (.internal "synchronous function body suspended"))) ⟨s, tasks⟩
  | .parked id slot frame resume s next, tasks =>
    follow (next s) (⟨id, slot, frame, resume⟩ :: tasks)
  | .exhausted, _ => .exhausted

/-- Follows a task until it ends or waits again. Its frame stands above `depth` others. -/
def advance (id depth : Nat) : Task → List ParkedTask → Progress Unit
  | .finished s, tasks => .done () ⟨s.leaveFrames depth, tasks⟩
  | .waiting slot s resume, tasks =>
    .done () ⟨(s.leaveFrames depth).setWaiter slot id, ⟨id, slot, s.frameAt depth, resume⟩ :: tasks⟩
  | .parked id' slot frame resume s next, tasks =>
    advance id depth (next s) (⟨id', slot, frame, resume⟩ :: tasks)
  | .exhausted, _ => .exhausted

/-- Lets a task go on with what its slot holds. One that has ended is passed over. -/
def poll (id : Nat) : Realm → Progress Unit
  | ⟨s, tasks⟩ =>
    match tasks.find? (·.id == id) with
    | none => .done () ⟨s, tasks⟩
    | some t =>
      match (s.awaits[t.slot]?).bind (·.outcome) with
      | none => .done () ⟨s.setWaiter t.slot id, tasks⟩
      | some outcome =>
        let depth := s.stack.length
        advance id depth (t.resume outcome { s with stack := t.frame :: s.stack })
          (tasks.filter (·.id != id))

end Realm

namespace Run
variable {α β : Type}

@[always_inline, inline] protected def pure (a : α) : Run α := fun r => .done a r

@[always_inline, inline] protected def bind (x : Run α) (f : α → Run β) : Run β := fun r =>
  match x r with
  | .done a r => f a r
  | .stopped e r => .stopped e r
  | .exhausted => .exhausted

instance : Monad Run where
  pure := Run.pure
  bind := Run.bind

def exhausted : Run α := fun _ => .exhausted

def stop (e : EvaluationError) : Run α := fun r => .stopped e r

@[inline] def change (f : State → State) : Run Unit := fun r => .done () { r with state := f r.state }

@[inline] def look (f : State → α) : Run α := fun r => .done (f r.state) r

@[inline] def update (f : State → α × State) : Run α := fun r =>
  let (a, s) := f r.state
  .done a { r with state := s }

def outcomeOf (x : Run α) : Run (Except EvaluationError α) := fun r =>
  match x r with
  | .done a r => .done (.ok a) r
  | .stopped e r => .done (.error e) r
  | .exhausted => .exhausted

def attempt (m : Machine) (c : Context) (x : Exec α) : Run (Except Abrupt α) := fun r =>
  match r with
  | ⟨s, tasks⟩ => Realm.follow (x m c s) tasks

def stopFor (e : Abrupt) : Run α := fun r =>
  match e with
  | .condition c => .stopped (.condition c) r
  | .failure f => .stopped (.failure f) r
  | .thrown v => .stopped (.uncaught v (r.state.describeThrown v)) r

def execute (m : Machine) (c : Context) (x : Exec α) : Run α := do
  match ← attempt m c x with
  | .ok a => return a
  | .error e => stopFor e

def raiseFatal : Run Unit := do
  match ← update fun s => (s.fatal, { s with fatal := none }) with
  | some c => stop (.condition c)
  | none => return

end Run

/-! The order of work in a realm: tasks that can go on, then jobs, first come first served, and
timers when nothing else is left. Time passes by waiting for timers and deadlines. -/

namespace Exec

/-- Runs a job. Errors of the script are shown, and nothing else comes of them. -/
def runReporting (job : Job) : Exec Unit := do
  match ← attempt (runJob job) with
  | .ok _ => return
  | .error e =>
    let v ← thrownValue e
    console .error ("Uncaught " ++ (← look (·.describeThrown v)))

end Exec

namespace State

def hasPendingWork (s : State) : Bool :=
  !s.jobs.isEmpty || !s.ready.isEmpty || !s.timers.isEmpty

def waitUntil (s : State) (time : Nat) : State := { s with clock := max s.clock time }

def baseContext (s : State) : Context :=
  { script := ⟨0⟩, strict := false, globalScope := s.globalScope }

end State

namespace Run

def takeReady : Run (Option Nat) := update fun s =>
  match s.ready.pop? with
  | some (id, rest) => (some id, { s with ready := rest })
  | none => (none, s)

def takeJob : Run (Option Job) := update fun s =>
  match s.jobs.pop? with
  | some (job, rest) => (some job, { s with jobs := rest })
  | none => (none, s)

def takeTimer : Run (Option Timer) := update fun s =>
  match s.timers.popDue s.clock with
  | some (t, rest) => (some t, { s with timers := rest })
  | none => (none, s)

def pollReady : (fuel : Nat) → Run Unit
  | 0 => exhausted
  | fuel + 1 => do
    match ← takeReady with
    | none => return
    | some id =>
      Realm.poll id
      pollReady fuel

/-- Runs tasks and jobs until there are none, and shows the rejections that nothing handled. -/
def runJobs (m : Machine) (c : Context) : (fuel : Nat) → Run Unit
  | 0 => exhausted
  | fuel + 1 => do
    pollReady m.fuel
    raiseFatal
    match ← takeJob with
    | some job =>
      execute m c Exec.checkInterrupts
      execute m c (Exec.runReporting job)
      raiseFatal
      runJobs m c fuel
    | none =>
      if ← look (·.ready.isEmpty) then execute m c Exec.reportRejections
      else runJobs m c fuel

def runDueTimer (m : Machine) (c : Context) : Run Bool := do
  match ← takeTimer with
  | none => return false
  | some t =>
    execute m c (Exec.runTimer t)
    runJobs m c m.fuel
    return true

/-- Runs jobs and timers until none are left. -/
def runAll (m : Machine) (c : Context) : (fuel : Nat) → Run Unit
  | 0 => exhausted
  | fuel + 1 => do
    runJobs m c m.fuel
    if ← runDueTimer m c then runAll m c fuel
    else
      match ← look (·.timers.nextDue?) with
      | none => return
      | some due =>
        execute m c Exec.checkInterrupts
        change (·.waitUntil due)
        runAll m c fuel

def nextWake (timer : Option Nat) (deadline : Option Deadline) : Option Nat :=
  match timer, deadline with
  | some t, some d => some (min t d.due)
  | some t, none => some t
  | none, some d => some d.due
  | none, none => none

/-- Runs jobs and timers until an evaluation has its result. -/
def awaitOutcome (m : Machine) (c : Context) (slot : Nat) : (fuel : Nat) → Run Value
  | 0 => exhausted
  | fuel + 1 => do
    runJobs m c m.fuel
    match ← look fun s => (s.outcomes[slot]?).join with
    | some (.ok v) => return v
    | some (.error e) => stop e
    | none =>
      execute m c Exec.checkInterrupts
      if ← runDueTimer m c then awaitOutcome m c slot fuel
      else
        match nextWake (← look (·.timers.nextDue?)) c.deadline with
        | none => stop (.condition .stalled)
        | some time =>
          change (·.waitUntil time)
          awaitOutcome m c slot fuel

end Run
end EcmaScript

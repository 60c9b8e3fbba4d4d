import EcmaScript.Machine.State

/-! Computations. A computation runs until it ends, or until it has to wait for a promise; in
between it can leave behind tasks that wait. -/
namespace EcmaScript

abbrev Outcome := Except Value Value

/-- A task on its way. -/
inductive Task where
  | finished (s : State)
  /-- It goes on with what the slot is filled with. -/
  | waiting (slot : Nat) (s : State) (resume : Outcome → State → Task)
  /-- It has started another task, which waits, and goes on itself. -/
  | parked (id slot : Nat) (frame : Frame) (resume : Outcome → State → Task) (s : State)
      (next : State → Task)
  | exhausted

/-- What a computation comes to. -/
inductive Step (α : Type) where
  | value (a : α) (s : State)
  | abrupt (e : Abrupt) (s : State)
  /-- It goes on with what the slot is filled with. -/
  | waiting (slot : Nat) (s : State) (resume : Outcome → State → Step α)
  /-- It has started a task, which waits, and goes on itself. -/
  | parked (id slot : Nat) (frame : Frame) (resume : Outcome → State → Task) (s : State)
      (next : State → Step α)
  /-- The fuel did not suffice. -/
  | exhausted

instance {α : Type} : Inhabited (Step α) := ⟨.exhausted⟩

namespace State

def leaveFrames (s : State) (depth : Nat) : State :=
  { s with stack := s.stack.drop (s.stack.length - depth) }

def frameAt (s : State) (depth : Nat) : Frame := s.stack.getD (s.stack.length - depth - 1) default

def setWaiter (s : State) (slot task : Nat) : State :=
  { s with awaits := s.awaits.modify slot fun a => { a with waiter := some task } }

end State

namespace Step
variable {α β : Type}

def handle (x : Step α) (f : Except Abrupt α → State → Step β) : Step β :=
  match x with
  | .value a s => f (.ok a) s
  | .abrupt e s => f (.error e) s
  | .waiting slot s resume => .waiting slot s fun o s => (resume o s).handle f
  | .parked id slot frame resume s next =>
    .parked id slot frame resume s fun s => (next s).handle f
  | .exhausted => .exhausted

def bind (x : Step α) (f : α → State → Step β) : Step β :=
  match x with
  | .value a s => f a s
  | .abrupt e s => .abrupt e s
  | .waiting slot s resume => .waiting slot s fun o s => (resume o s).bind f
  | .parked id slot frame resume s next => .parked id slot frame resume s fun s => (next s).bind f
  | .exhausted => .exhausted

/-- A computation as a task of its own. Of its outcome only a condition is kept, unless there is an
earlier one. -/
def toTask : Step Unit → Task
  | .value _ s => .finished s
  | .abrupt (.condition c) s => .finished { s with fatal := s.fatal.or (some c) }
  | .abrupt _ s => .finished s
  | .waiting slot s resume => .waiting slot s fun o s => (resume o s).toTask
  | .parked id slot frame resume s next => .parked id slot frame resume s fun s => (next s).toTask
  | .exhausted => .exhausted

/-- Goes on without a computation when it has to wait: it becomes a task, which keeps the frame it
runs in. The value is the condition that the computation ended with, if it did. -/
def detach (id depth : Nat) : Step Unit → Step (Option Condition)
  | .value _ s => .value none (s.leaveFrames depth)
  | .abrupt (.condition c) s => .value (some c) (s.leaveFrames depth)
  | .abrupt _ s => .value none (s.leaveFrames depth)
  | .waiting slot s resume =>
    .parked id slot (s.frameAt depth) (fun o s => (resume o s).toTask)
      ((s.leaveFrames depth).setWaiter slot id) fun s => .value none s
  | .parked id' slot frame resume s next =>
    .parked id' slot frame resume s fun s => (next s).detach id depth
  | .exhausted => .exhausted

def now : Step α → Step (Option α)
  | .value a s => .value (some a) s
  | .abrupt e s => .abrupt e s
  | .waiting _ s _ => .value none s
  | .parked id slot frame resume s next => .parked id slot frame resume s fun s => (next s).now
  | .exhausted => .exhausted

/-- Repeats until there is a result, at most `fuel` times. -/
def loop (body : β → State → Step (β ⊕ α)) : (fuel : Nat) → β → State → Step α
  | 0, _, _ => .exhausted
  | fuel + 1, b, s =>
    match body b s with
    | .value (.inl b) s => loop body fuel b s
    | .value (.inr a) s => .value a s
    | .abrupt e s => .abrupt e s
    | .waiting slot s resume => .waiting slot s fun o s => (resume o s).bind fun r s =>
      match r with
      | .inl b => loop body fuel b s
      | .inr a => .value a s
    | .parked id slot frame resume s next =>
      .parked id slot frame resume s fun s => (next s).bind fun r s =>
        match r with
        | .inl b => loop body fuel b s
        | .inr a => .value a s
    | .exhausted => .exhausted

end Step
end EcmaScript

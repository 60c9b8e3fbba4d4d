import EcmaScript.Proofs.Safety.Rules
import EcmaScript.Proofs.Suspension

/-! Computations that leave the call stack as they find it and wait only where they may. Each is run
twice, by two machines of which the second may refuse requests that the first would answer: the runs go
abreast, so that the second is never refused anything. -/
namespace EcmaScript

/-- A frame without the place that is reached in it. -/
def Frame.anchor (f : Frame) : Frame :=
  match f.location with
  | .script filename _ _ => { f with location := .script filename 0 0 }
  | .native => f

/-- What a computation leaves as it finds it: the call stack, the places reached apart, the limit on its
depth and, where they are followed, the results of evaluations. -/
structure Footing where
  frames : List Frame
  maxDepth : Nat
  outcomes : Option (Array (Option (Except EvaluationError Value)))

namespace Footing

def push (L : Footing) (frame : Frame) : Footing := { L with frames := frame.anchor :: L.frames }

def loose (L : Footing) : Footing := { L with outcomes := none }

def isFull (L : Footing) : Prop := L.maxDepth ≤ L.frames.length

end Footing

def FunctionNode.Lawful (f : FunctionNode) : Prop := ∀ x ∈ f.sites, x.isLawful = true

def FunctionNode.Plain (f : FunctionNode) : Prop :=
  ∀ x ∈ f.sitesAt (.inside false false), x.isLawful = true

/-- What is expected of the functions of a script. -/
structure Closure.Lawful (c : Closure) : Prop where
  node : c.classKind = none → c.node.Lawful
  plain : c.constructable = true → c.node.Plain

def Object.Lawful (o : Object) : Prop := ∀ c, o.kind = .function (.closure c) → c.Lawful

/-- A state in which the call stack is as given, and all functions are lawful. -/
structure State.Stands (s : State) (L : Footing) : Prop where
  frames : s.stack.map Frame.anchor = L.frames
  maxDepth : s.maxDepth = L.maxDepth
  outcomes : ∀ outcomes, L.outcomes = some outcomes → s.outcomes = outcomes
  lawful : ∀ id, (s.object id).Lawful

namespace State.Stands
variable {s : State} {L : Footing} {frame : Frame}

theorem loose (h : s.Stands L) : s.Stands L.loose := { h with outcomes := nofun }

theorem length_eq (h : s.Stands L) : s.stack.length = L.frames.length := by
  simpa using congrArg List.length h.frames

theorem enter (h : s.Stands L) : ({ s with stack := frame :: s.stack } : State).Stands (L.push frame) :=
  { h with frames := by simp [Footing.push, h.frames] }

theorem leave (h : s.Stands (L.push frame)) : (s.leaveFrames L.frames.length).Stands L := by
  refine { h with frames := ?_ }
  have hlength : s.stack.length = L.frames.length + 1 := h.length_eq
  rw [State.leaveFrames, hlength, Nat.add_sub_cancel_left, List.map_drop, h.frames]
  rfl

end State.Stands

/-- Two tasks go abreast: whatever one does the other does too, and both leave the call stack as they
find it. They go on in any state whose footing is allowed. -/
inductive Task.Abreast (ok : Footing → Prop) : Footing → Task → Task → Prop where
  | finished {L : Footing} {s : State} (hs : s.Stands L.loose) :
    Abreast ok L (.finished s) (.finished s)
  | waiting {L : Footing} {slot : Nat} {s : State} {resume' resume : Outcome → State → Task}
    (hs : s.Stands L.loose)
    (hr : ∀ o L' s', ok L' → s'.Stands L' → Abreast ok L' (resume' o s') (resume o s')) :
    Abreast ok L (.waiting slot s resume') (.waiting slot s resume)
  | parked {L : Footing} {id slot : Nat} {frame : Frame} {s : State}
    {task' task : Outcome → State → Task} {next' next : State → Task}
    (ht : ∀ o L' s', ok L' → s'.Stands L' → Abreast ok L' (task' o s') (task o s'))
    (hn : Abreast ok L (next' s) (next s)) :
    Abreast ok L (.parked id slot frame task' s next') (.parked id slot frame task s next)
  | exhausted {L : Footing} : Abreast ok L .exhausted .exhausted

/-- Two runs of a computation go abreast. They wait only if `W` holds, and a value satisfies `Q`. -/
inductive Step.Abreast (ok : Footing → Prop) (W : Prop) {α : Type} (Q : α → Prop) :
    Footing → Step α → Step α → Prop where
  | value {L : Footing} {a : α} {s : State} (hs : s.Stands L) (ha : Q a) :
    Abreast ok W Q L (.value a s) (.value a s)
  | abrupt {L : Footing} {e : Abrupt} {s : State} (hs : s.Stands L) :
    Abreast ok W Q L (.abrupt e s) (.abrupt e s)
  | waiting {L : Footing} {slot : Nat} {s : State} {resume' resume : Outcome → State → Step α}
    (hw : W) (hs : s.Stands L)
    (hr : ∀ o L' s', ok L' → s'.Stands L' → Abreast ok W Q L' (resume' o s') (resume o s')) :
    Abreast ok W Q L (.waiting slot s resume') (.waiting slot s resume)
  | parked {L : Footing} {id slot : Nat} {frame : Frame} {s : State}
    {task' task : Outcome → State → Task} {next' next : State → Step α}
    (ht : ∀ o L' s', ok L' → s'.Stands L' → Task.Abreast ok L' (task' o s') (task o s'))
    (hn : Abreast ok W Q L (next' s) (next s)) :
    Abreast ok W Q L (.parked id slot frame task' s next') (.parked id slot frame task s next)
  | exhausted {L : Footing} : Abreast ok W Q L .exhausted .exhausted

/-- Two machines, and where they run. -/
structure Watch where
  machine : Machine
  /-- The machine that may refuse requests. -/
  mate : Machine
  footings : Footing → Prop
  /-- Bodies of functions may be run. -/
  lively : Prop

def Calm (W : Prop) (sites : List Site) : Prop :=
  ∀ x ∈ sites, x.isLawful = true ∧ (x.place = .outside → W)

/-- Code at a place may be run, and waits there only if `W` holds. -/
structure Watch.Hosts (P : Watch) (W : Prop) (p : Place) : Prop where
  lively : P.lively
  waits : ∀ isGenerator, p = .inside true isGenerator → W

def Watch.Admits (P : Watch) (W : Prop) (sites : Place → List Site) : Prop :=
  ∃ p, P.Hosts W p ∧ Calm W (sites p)

/-- Taking items waits only if `W` holds. -/
def ItemSource.Waits (W : Prop) : ItemSource → Prop
  | .plain _ => True
  | .awaited _ | .asynchronous _ => W

def Condition.suspended : Condition := .internal "synchronous function body suspended"

/-- What is expected of a request that may lead to a wait only if `W` holds. -/
def Request.Permitted (P : Watch) (W : Prop) : Request → Prop
  | .halt k => k ≠ .suspended
  | .native .. | .nativeConstruct .. => P.lively
  | .expression _ e | .chain _ e => P.Admits W e.sites
  | .statement _ st _ => P.Admits W st.sites
  | .bind _ t _ _ => P.Admits W t.sites
  | .classDefinition _ c _ => P.Admits W c.sites
  | .abandon source => source.Waits W
  | .call .. | .construct .. | .instanceOf .. | .proxyGetOwn .. | .proxyDefine .. | .proxyHas .. => True
  | .proxyGet .. | .proxySet .. | .proxyDelete .. | .proxyOwnKeys .. | .proxyGetPrototype .. => True
  | .proxySetPrototype .. | .proxyIsExtensible .. | .proxyPreventExtensions .. => True

/-- Both machines answer every request that is allowed, and the answers go abreast. Where a frame can be
entered, bodies of functions may be run in it. -/
structure Watch.Serves (P : Watch) : Prop where
  fuel : P.mate.fuel = P.machine.fuel
  answers : ∀ (W : Prop) (r : Request), r.Permitted P W → ∀ c L s, P.footings L → s.Stands L →
    Step.Abreast P.footings W (fun _ => True) L (P.mate.run r c s) (P.machine.run r c s)
  enters : ∀ (L : Footing) (frame : Frame), P.footings L → ¬ L.isFull →
    P.footings (L.push frame) ∧ P.lively

/-- Where requests are served, a computation goes abreast on every allowed footing, and waits only if `W`
holds. Its value satisfies `Q`. -/
def LevelWith (P : Watch) (W : Prop) {α : Type} (x : Exec α) (Q : α → Prop) : Prop :=
  P.Serves → ∀ c L s, P.footings L → s.Stands L →
    Step.Abreast P.footings W Q L (x P.mate c s) (x P.machine c s)

def Level (P : Watch) (W : Prop) {α : Type} (x : Exec α) : Prop := LevelWith P W x fun _ => True

namespace Step.Abreast
variable {ok : Footing → Prop} {V W : Prop} {α β : Type} {Q Q₁ : α → Prop} {Q' : β → Prop} {L : Footing}
  {x' x : Step α}

theorem mono (h : Abreast ok W Q L x' x) (hW : W → V) (hQ : ∀ a, Q a → Q₁ a) :
    Abreast ok V Q₁ L x' x := by
  induction h with
  | value hs ha => exact .value hs (hQ _ ha)
  | abrupt hs => exact .abrupt hs
  | waiting hw hs _ ih => exact .waiting (hW hw) hs ih
  | parked ht _ ih => exact .parked ht ih
  | exhausted => exact .exhausted

theorem handle {f' f : Except Abrupt α → State → Step β} (h : Abreast ok W Q L x' x) (hL : ok L)
    (hvalue : ∀ a L' s, ok L' → s.Stands L' → Q a → Abreast ok W Q' L' (f' (.ok a) s) (f (.ok a) s))
    (habrupt : ∀ e L' s, ok L' → s.Stands L' → Abreast ok W Q' L' (f' (.error e) s) (f (.error e) s)) :
    Abreast ok W Q' L (x'.handle f') (x.handle f) := by
  induction h with
  | value hs ha => exact hvalue _ _ _ hL hs ha
  | abrupt hs => exact habrupt _ _ _ hL hs
  | waiting hw hs _ ih => exact .waiting hw hs fun o L' s' hL' hs' => ih o L' s' hL' hs' hL'
  | parked ht _ ih => exact .parked ht (ih hL)
  | exhausted => exact .exhausted

theorem above {f' f : Except Abrupt α → State → Step β} {L₁ : Footing} (h : Abreast ok False Q L₁ x' x)
    (hf : ∀ r s, s.Stands L₁ → Abreast ok W Q' L (f' r s) (f r s)) :
    Abreast ok W Q' L (x'.handle f') (x.handle f) := by
  induction h with
  | value hs => exact hf _ _ hs
  | abrupt hs => exact hf _ _ hs
  | waiting hw => exact hw.elim
  | parked ht _ ih => exact .parked ht (ih hf)
  | exhausted => exact .exhausted

theorem bind {f' f : α → State → Step β} (h : Abreast ok W Q L x' x) (hL : ok L)
    (hf : ∀ a L' s, ok L' → s.Stands L' → Q a → Abreast ok W Q' L' (f' a s) (f a s)) :
    Abreast ok W Q' L (x'.bind f') (x.bind f) := by
  rw [Step.bind_eq_handle, Step.bind_eq_handle]
  exact h.handle hL hf fun _ _ _ _ hs => .abrupt hs

theorem now (h : Abreast ok False Q L x' x) :
    Abreast ok W (fun v => ∃ a, v = some a ∧ Q a) L x'.now x.now := by
  induction h with
  | value hs ha => exact .value hs ⟨_, rfl, ha⟩
  | abrupt hs => exact .abrupt hs
  | waiting hw => exact hw.elim
  | parked ht _ ih => exact .parked ht ih
  | exhausted => exact .exhausted

theorem toTask {x' x : Step Unit} {Q : Unit → Prop} (h : Abreast ok W Q L x' x) :
    Task.Abreast ok L x'.toTask x.toTask := by
  induction h with
  | value hs => exact .finished hs.loose
  | @abrupt L e s hs =>
    cases e with
    | condition k => exact .finished { hs.loose with }
    | _ => exact .finished hs.loose
  | waiting _ hs _ ih => exact .waiting hs.loose ih
  | parked ht _ ih => exact .parked ht ih
  | exhausted => exact .exhausted

theorem detach {frame : Frame} {id : Nat} {x' x : Step Unit} {Q : Unit → Prop}
    (h : Abreast ok W Q (L.push frame) x' x) :
    Abreast ok V (fun _ => True) L (x'.detach id L.frames.length) (x.detach id L.frames.length) := by
  generalize hL : L.push frame = L₁ at h
  induction h with
  | value hs =>
    subst hL
    exact .value hs.leave trivial
  | @abrupt _ e s hs =>
    subst hL
    cases e <;> exact .value hs.leave trivial
  | waiting _ hs hr =>
    subst hL
    exact .parked (fun o L' s' hL' hs' => (hr o L' s' hL' hs').toTask) (.value { hs.leave with } trivial)
  | parked ht _ ih => exact .parked ht (ih hL)
  | exhausted => exact .exhausted

/-- A loop goes abreast when each turn does. -/
theorem loop {body' body : β → State → Step (β ⊕ α)} {I : β → Prop} (fuel : Nat)
    (hbody : ∀ b L s, ok L → s.Stands L → I b →
      Abreast ok W (fun r => r.elim I Q) L (body' b s) (body b s))
    {b : β} {s : State} (hL : ok L) (hs : s.Stands L) (hb : I b) :
    Abreast ok W Q L (Step.loop body' fuel b s) (Step.loop body fuel b s) := by
  induction fuel generalizing L b s with
  | zero => exact .exhausted
  | succ fuel ih =>
    rw [Step.loop_succ, Step.loop_succ]
    refine (hbody b L s hL hs hb).bind hL fun r L' s' hL' hs' hr => ?_
    cases r with
    | inl b => exact ih hL' hs' hr
    | inr a => exact .value hs' hr

end Step.Abreast
end EcmaScript

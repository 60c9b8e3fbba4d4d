import EcmaScript.Realm.Evaluate

/-! The single actions that all work in a realm consists of. -/
namespace EcmaScript

instance : LawfulMonad Run := .mk' Run
  (fun x => by
    funext r
    show Run.bind x Run.pure r = x r
    unfold Run.bind
    cases x r <;> rfl)
  (fun _ _ => rfl)
  (fun x f g => by
    funext r
    show Run.bind (Run.bind x f) g r = Run.bind x (fun a => Run.bind (f a) g) r
    unfold Run.bind
    cases x r <;> rfl)

/-- The realm that work leaves, whether it was done or stopped. -/
def Progress.realm? {α : Type} : Progress α → Option Realm
  | .done _ r => some r
  | .stopped _ r => some r
  | .exhausted => none

namespace Run

/-- Begins to evaluate a script, which runs until it has to wait. The value is what the evaluation
goes by, and where its result will be. -/
def begin (m : Machine) (source : String) (script : Script) (o : EvaluateOptions) :
    Run (Context × Nat) := do
  let c ← enterScript source script.strict o
  let scope ← if o.dryRun then throwawayScope c.globalScope else pure c.globalScope
  let marks ← look (·.marks)
  let slot ← newOutcome
  let spawned ← attempt m c (Exec.spawn ⟨"", none, .script o.filename 1 1⟩
    (Exec.evaluateInto slot scope script.body))
  if o.dryRun then change (·.discardAfter marks)
  match spawned with
  | .error e => stopFor e
  | .ok _ => return (c, slot)

/-- Runs a job that was taken. -/
def perform (m : Machine) (c : Context) (job : Job) : Run Unit := do
  execute m c Exec.checkInterrupts
  execute m c (Exec.runReporting job)

end Run

namespace Realm

/-- A single action. -/
inductive Action where
  /-- A script begins to be evaluated. -/
  | begin (fuel : Nat) (source : String) (script : Script) (o : EvaluateOptions)
  /-- The first task that can go on does. -/
  | wake
  /-- The first job runs. -/
  | job (fuel : Nat) (c : Context)
  /-- The first timer runs, if it is due. -/
  | timer (fuel : Nat) (c : Context)
  | report (fuel : Nat) (c : Context)
  | check (fuel : Nat) (c : Context)
  | raiseFatal
  | wait (time : Nat)
  /-- The host changes what evaluations go by. -/
  | configure (maxDepth : Nat) (interrupted : Bool) (sinks : Array Sink)
    (effectTables : Array EffectTable)
  /-- The host adds a global scope. -/
  | addScope

namespace Action

def run : Action → Run Unit
  | .begin fuel source script o => do let _ ← Run.begin (machine fuel) source script o
  | .wake => do
    match ← Run.takeReady with
    | none => return
    | some id => Realm.poll id
  | .job fuel c => do
    match ← Run.takeJob with
    | none => return
    | some j => Run.perform (machine fuel) c j
  | .timer fuel c => do
    match ← Run.takeTimer with
    | none => return
    | some t => Run.execute (machine fuel) c (Exec.runTimer t)
  | .report fuel c => Run.execute (machine fuel) c Exec.reportRejections
  | .check fuel c => Run.execute (machine fuel) c Exec.checkInterrupts
  | .raiseFatal => Run.raiseFatal
  | .wait time => Run.change (·.waitUntil time)
  | .configure maxDepth interrupted sinks effectTables =>
    Run.change fun s => { s with maxDepth, interrupted, sinks, effectTables }
  | .addScope => Run.change fun s =>
    { s with scopes := s.scopes.push { kind := .global s.globalObject, parent := none } }

/-- Whether an action is a dry run. -/
def isDry : Action → Bool
  | .begin _ _ _ o => o.dryRun
  | _ => false

/-- A script that begins to be evaluated is what is read from its text. -/
def Reads : Action → Prop
  | .begin _ source script _ => parseScript source = .ok script
  | _ => True

def continues : Action → Bool
  | .begin .. => false
  | _ => true

theorem isDry_of_continues {a : Action} (h : a.continues = true) : a.isDry = false := by
  cases a <;> first | rfl | nomatch h

theorem Reads.of_continues {a : Action} (h : a.continues = true) : a.Reads := by
  cases a with
  | begin => cases h
  | _ => trivial

end Action

/-- Actions lead from one realm to another. -/
inductive Course : Realm → List Action → Realm → Prop where
  | nil {r : Realm} : Course r [] r
  | cons {r r₁ r' : Realm} {a : Action} {as : List Action} (h : (a.run r).realm? = some r₁)
    (hs : Course r₁ as r') : Course r (a :: as) r'

theorem Course.append {r r₁ r' : Realm} {as as' : List Action} (h : Course r as r₁)
    (h' : Course r₁ as' r') : Course r (as ++ as') r' := by
  induction h with
  | nil => exact h'
  | cons h _ ih => exact .cons h (ih h')

def initial (globals : List (String × Value)) : Realm := ⟨State.initial globals, []⟩

/-- A realm that some work has led to: whatever was evaluated, waited for and run in it (see
`evaluate_consists`, `finish_wet` and `runEventLoop_wet`). At the beginning its global object holds no
other objects. -/
def Reachable (r : Realm) : Prop :=
  ∃ globals as, (∀ g ∈ globals, g.2.object? = none) ∧ (initial globals).Course as r

theorem reachable_initial : (initial []).Reachable := ⟨[], [], nofun, .nil⟩

theorem Reachable.course {r r' : Realm} {as : List Action} (h : r.Reachable) (hs : r.Course as r') :
    r'.Reachable := by
  obtain ⟨globals, as₀, hglobals, h₀⟩ := h
  exact ⟨globals, as₀ ++ as, hglobals, h₀.append hs⟩

end Realm

/-- What a new realm is beside its objects and its table of effects. -/
def State.base : State where
  scopes := #[{ kind := .global ⟨25⟩, parent := none }]
  scripts := #[⟨"", defaultFilename⟩]
  intrinsics := basicIntrinsics
  globalObject := ⟨25⟩
  globalScope := ⟨0⟩

def State.library : State :=
  ({ base with
    heap := basicObjects.push { prototype := some basicIntrinsics.objectPrototype }
    effectTables := #[[]] } : State).installLibrary

theorem State.initial_eq : State.initial [] = State.library.addStandardEffects 0 :=
  congrArg (fun s : State => s.installLibrary.addStandardEffects 0) rfl

theorem State.addStandardEffects_eq (s : State) (table : Nat) :
    ∃ effectTables, s.addStandardEffects table = { s with effectTables } := by
  unfold State.addStandardEffects
  induction standardEffects generalizing s with
  | nil => exact ⟨s.effectTables, rfl⟩
  | cons e es ih =>
    obtain ⟨effectTables, h⟩ := ih (s.registerPath table e.1 e.2).2
    refine ⟨effectTables, h.trans ?_⟩
    unfold State.registerPath
    split <;> rfl

namespace Realm

def plain : Realm :=
  ⟨{ State.library with maxDepth := 100, interrupted := false, sinks := #[], effectTables := #[[]] }, []⟩

theorem realm?_plain : (Action.run (.configure 100 false #[] #[[]]) (initial [])).realm? = some plain := by
  obtain ⟨effectTables, h⟩ := State.library.addStandardEffects_eq 0
  have hconfigure (s : State) :
      (Action.run (.configure 100 false #[] #[[]]) ⟨{ s with effectTables }, []⟩).realm? =
        some ⟨{ s with maxDepth := 100, interrupted := false, sinks := #[], effectTables := #[[]] }, []⟩ :=
    rfl
  have hinitial : initial [] = ⟨{ State.library with effectTables }, []⟩ :=
    congrArg (fun s => (⟨s, []⟩ : Realm)) ((State.initial_eq).trans h)
  exact (congrArg _ (congrArg _ hinitial)).trans (hconfigure State.library)

theorem course_plain : (initial []).Course [.configure 100 false #[] #[[]]] plain := .cons realm?_plain .nil

theorem reachable_plain : plain.Reachable := reachable_initial.course course_plain

end Realm

namespace Run
variable {α β : Type} {ok : Realm.Action → Prop} {halts halts' : EvaluationError → Prop} {r : Realm}

/-- Work consists of certain actions, whatever it comes to. It stops where one of them does, or else for
certain errors. -/
structure Consists (ok : Realm.Action → Prop) (halts : EvaluationError → Prop) (x : Run α) (r : Realm) :
    Prop where
  course : ∀ r', (x r).realm? = some r' → ∃ as, r.Course as r' ∧ ∀ a ∈ as, ok a
  stopped : ∀ e r', x r = .stopped e r' →
    halts e ∨ ∃ as r₁ a, r.Course as r₁ ∧ Realm.Action.run a r₁ = .stopped e r'

namespace Consists
variable {x y : Run α}

theorem congr (h : x r = y r) (hy : y.Consists ok halts r) : x.Consists ok halts r where
  course r' hr := hy.course r' (h ▸ hr)
  stopped e r' hr := hy.stopped e r' (h ▸ hr)

theorem mono (h : x.Consists ok halts r) {ok' : Realm.Action → Prop} (hok : ∀ a, ok a → ok' a)
    (hhalts : ∀ e, halts e → halts' e) : x.Consists ok' halts' r where
  course r' hr := by
    obtain ⟨as, hs, has⟩ := h.course r' hr
    exact ⟨as, hs, fun a ha => hok a (has a ha)⟩
  stopped e r' hr := (h.stopped e r' hr).imp_left (hhalts e)

theorem pure {a : α} : (Pure.pure a : Run α).Consists ok halts r where
  course _ h := Option.some.inj h ▸ ⟨[], .nil, by simp⟩
  stopped _ _ h := by cases h

theorem stop {e : EvaluationError} (he : halts e) : (Run.stop e : Run α).Consists ok halts r where
  course _ h := Option.some.inj h ▸ ⟨[], .nil, by simp⟩
  stopped _ _ h := by
    cases h
    exact .inl he

theorem exhausted : (Run.exhausted : Run α).Consists ok halts r where
  course _ h := by cases h
  stopped _ _ h := by cases h

theorem bind {f : α → Run β} (hx : x.Consists ok halts r) (hf : ∀ a r, (f a).Consists ok halts r) :
    (x >>= f).Consists ok halts r := by
  constructor
  · intro r' hr
    have hr : (Run.bind x f r).realm? = some r' := hr
    unfold Run.bind at hr
    cases h : x r with
    | done a r₁ =>
      rw [h] at hr
      obtain ⟨as, hs, hok⟩ := hx.course r₁ (by rw [h]; rfl)
      obtain ⟨as', hs', hok'⟩ := (hf a r₁).course r' hr
      exact ⟨as ++ as', hs.append hs', List.forall_mem_append.mpr ⟨hok, hok'⟩⟩
    | stopped e r₁ =>
      rw [h] at hr
      exact hx.course r' (by rw [h]; exact hr)
    | exhausted =>
      rw [h] at hr
      cases hr
  · intro e r' hr
    have hr : Run.bind x f r = .stopped e r' := hr
    unfold Run.bind at hr
    cases h : x r with
    | done a r₁ =>
      rw [h] at hr
      obtain ⟨as, hs, -⟩ := hx.course r₁ (by rw [h]; rfl)
      refine ((hf a r₁).stopped e r' hr).imp_right ?_
      rintro ⟨as', r₂, a', hs', hstop⟩
      exact ⟨as ++ as', r₂, a', hs.append hs', hstop⟩
    | stopped e' r₁ =>
      rw [h] at hr
      cases hr
      exact hx.stopped e r' h
    | exhausted =>
      rw [h] at hr
      cases hr

theorem look_bind {f : State → α} {g : α → Run β} (h : (g (f r.state)).Consists ok halts r) :
    (look f >>= g).Consists ok halts r := ⟨h.course, h.stopped⟩

theorem action {a : Realm.Action} (ha : ok a) : a.run.Consists ok halts r where
  course _ hr := ⟨[a], .cons hr .nil, by simpa using ha⟩
  stopped _ _ hr := .inr ⟨[], r, a, .nil, hr⟩

theorem ite {b : Prop} [Decidable b] (hx : b → x.Consists ok halts r)
    (hy : ¬ b → y.Consists ok halts r) : (if b then x else y).Consists ok halts r := by
  split
  · exact hx ‹_›
  · exact hy ‹_›

end Consists

theorem takeJob_bind {f : Option Job → Run β} : (takeJob >>= f) r =
    match r.state.jobs.pop? with
    | some (job, rest) => f (some job) { r with state := { r.state with jobs := rest } }
    | none => f none r := by
  show Run.bind takeJob f r = _
  cases h : r.state.jobs.pop? <;> simp [Run.bind, takeJob, update, h]

theorem takeReady_bind {f : Option Nat → Run β} : (takeReady >>= f) r =
    match r.state.ready.pop? with
    | some (id, rest) => f (some id) { r with state := { r.state with ready := rest } }
    | none => f none r := by
  show Run.bind takeReady f r = _
  cases h : r.state.ready.pop? <;> simp [Run.bind, takeReady, update, h]

theorem takeTimer_bind {f : Option Timer → Run β} : (takeTimer >>= f) r =
    match r.state.timers.popDue r.state.clock with
    | some (t, rest) => f (some t) { r with state := { r.state with timers := rest } }
    | none => f none r := by
  show Run.bind takeTimer f r = _
  cases h : r.state.timers.popDue r.state.clock <;> simp [Run.bind, takeTimer, update, h]

abbrev Wet (halts : EvaluationError → Prop) (x : Run α) (r : Realm) : Prop :=
  x.Consists (·.continues = true) halts r

variable {n : Nat} {c : Context}

theorem pollReady_wet {fuel : Nat} : (pollReady fuel).Wet halts r := by
  induction fuel generalizing r with
  | zero => exact .exhausted
  | succ fuel ih =>
    unfold pollReady
    cases hp : r.state.ready.pop? with
    | none => exact .congr (by rw [takeReady_bind, hp]) .pure
    | some p =>
      have heq : (Realm.Action.wake.run >>= fun _ => pollReady fuel) r =
          (takeReady >>= fun
            | none => Pure.pure ()
            | some id => do
              Realm.poll id
              pollReady fuel) r := by
        rw [Realm.Action.run, bind_assoc, takeReady_bind, takeReady_bind, hp]
      exact .congr heq.symm (.bind (.action rfl) fun _ _ => ih)

theorem runJobs_wet {fuel : Nat} : (runJobs (machine n) c fuel).Wet halts r := by
  induction fuel generalizing r with
  | zero => exact .exhausted
  | succ fuel ih =>
    unfold runJobs
    refine .bind pollReady_wet fun _ r => .bind (.action (a := .raiseFatal) rfl) fun _ r => ?_
    cases hp : r.state.jobs.pop? with
    | none =>
      refine .congr (y := do
        if ← look (·.ready.isEmpty) then (Realm.Action.report n c).run
        else runJobs (machine n) c fuel) ?_ (.look_bind (.ite (fun _ => .action rfl) fun _ => ih))
      rw [takeJob_bind, hp]
      rfl
    | some p =>
      obtain ⟨job, rest⟩ := p
      have heq : (do
            (Realm.Action.job n c).run
            raiseFatal
            runJobs (machine n) c fuel : Run Unit) r =
          (perform (machine n) c job >>= fun _ => raiseFatal >>= fun _ => runJobs (machine n) c fuel)
            { r with state := { r.state with jobs := rest } } := by
        rw [Realm.Action.run, bind_assoc, takeJob_bind, hp]
      refine .congr (y := do
        (Realm.Action.job n c).run
        raiseFatal
        runJobs (machine n) c fuel) ?_ (.bind (.action rfl) fun _ _ => .bind
          (.action (a := .raiseFatal) rfl) fun _ _ => ih)
      rw [heq, takeJob_bind, hp, perform, bind_assoc]

theorem runDueTimer_none (h : r.state.timers.popDue r.state.clock = none) :
    runDueTimer (machine n) c r = .done false r := by
  rw [runDueTimer, takeTimer_bind, h]
  rfl

theorem runDueTimer_some {p : Timer × TimerQueue} (h : r.state.timers.popDue r.state.clock = some p) :
    runDueTimer (machine n) c r = (do
      (Realm.Action.timer n c).run
      runJobs (machine n) c (machine n).fuel
      return true : Run Bool) r := by
  rw [runDueTimer, takeTimer_bind, h, Realm.Action.run, bind_assoc, takeTimer_bind, h]

theorem runDueTimer_wet : (runDueTimer (machine n) c).Wet halts r := by
  cases hp : r.state.timers.popDue r.state.clock with
  | none => exact .congr (runDueTimer_none hp) .pure
  | some p =>
    exact .congr (runDueTimer_some hp) (.bind (.action rfl) fun _ _ => .bind runJobs_wet fun _ _ => .pure)

theorem runAll_wet {fuel : Nat} : (runAll (machine n) c fuel).Wet halts r := by
  induction fuel generalizing r with
  | zero => exact .exhausted
  | succ fuel ih =>
    refine .bind runJobs_wet fun _ _ => .bind runDueTimer_wet fun again r => .ite (fun _ => ih) fun _ => ?_
    refine .look_bind ?_
    split
    · exact .pure
    · exact .bind (.action (a := .check n c) rfl) fun _ _ => .bind (.action (a := .wait _) rfl)
        fun _ _ => ih

theorem awaitOutcome_wet {slot fuel : Nat} : (awaitOutcome (machine n) c slot fuel).Wet (fun _ => True) r := by
  induction fuel generalizing r with
  | zero => exact .exhausted
  | succ fuel ih =>
    refine .bind runJobs_wet fun _ r => .look_bind ?_
    split
    · exact .pure
    · exact .stop trivial
    · refine .bind (.action (a := .check n c) rfl) fun _ _ => .bind runDueTimer_wet fun again r => ?_
      refine .ite (fun _ => ih) fun _ => .look_bind ?_
      split
      · exact .stop trivial
      · exact .bind (.action (a := .wait _) rfl) fun _ _ => ih

theorem finish_wet {e : Evaluation} : (finish (machine n) e).Wet (fun _ => True) r := by
  cases e with
  | complete v => exact .pure
  | pending c slot => exact awaitOutcome_wet

theorem runEventLoop_wet : (runEventLoop (machine n)).Wet halts r := .look_bind runAll_wet

/-- An evaluation begins with its script, and goes on with the jobs that it has left. -/
theorem evaluate_eq {m : Machine} {source : String} {o : EvaluateOptions} : evaluate m source o =
    match parseScript source with
    | .error e => stop e.toEvaluationError
    | .ok script => do
      let (c, slot) ← begin m source script o
      raiseFatal
      match ← look fun s => (s.outcomes[slot]?).join with
      | none => return .pending c slot
      | some (.error e) => stop e
      | some (.ok v) =>
        if !o.dryRun then runJobs m c m.fuel
        return .complete v := by
  have hstop {α β : Type} (e : Abrupt) (f : α → Run β) : (stopFor e >>= f) = stopFor e := by
    funext r
    cases e <;> rfl
  unfold evaluate begin
  cases parseScript source with
  | error e => rfl
  | ok script =>
    cases o.dryRun with
    | false =>
      simp only [bind_assoc, pure_bind, Bool.false_eq_true, ↓reduceIte]
      refine bind_congr fun c => bind_congr fun marks => bind_congr fun slot => bind_congr fun spawned => ?_
      cases spawned with
      | error e => simp only [hstop]
      | ok _ => rfl
    | true =>
      simp only [bind_assoc, ↓reduceIte]
      refine bind_congr fun c => bind_congr fun scope => bind_congr fun marks => bind_congr fun slot => ?_
      refine bind_congr fun spawned => bind_congr fun _ => ?_
      cases spawned with
      | error e => simp only [hstop]
      | ok _ => rfl

theorem begin_realm? {source : String} {script : Script} {o : EvaluateOptions} :
    ((Realm.Action.begin n source script o).run r).realm? = (begin (machine n) source script o r).realm? := by
  show (Run.bind _ _ r).realm? = _
  unfold Run.bind
  cases begin (machine n) source script o r <;> rfl

theorem evaluate_consists {source : String} {o : EvaluateOptions} :
    (evaluate (machine n) source o).Consists
      (fun a => a.Reads ∧ (a.isDry = true → o.dryRun = true)) (fun _ => True) r := by
  have hwet {α : Type} {x : Run α} {r : Realm} (h : x.Wet (fun _ => True) r) :
      x.Consists (fun a => a.Reads ∧ (a.isDry = true → o.dryRun = true)) (fun _ => True) r :=
    h.mono (fun a ha => ⟨.of_continues ha, by simp [Realm.Action.isDry_of_continues ha]⟩) fun _ h => h
  rw [evaluate_eq]
  split
  · exact .stop trivial
  · rename_i script hscript
    refine .bind ⟨fun r' hr => ⟨[.begin n source script o], .cons ?_ .nil,
      by simp [Realm.Action.isDry, Realm.Action.Reads, hscript]⟩, fun _ _ _ => .inl trivial⟩ fun _ _ =>
      .bind (hwet (.action (a := .raiseFatal) rfl)) fun _ r => .look_bind ?_
    · rw [begin_realm?, hr]
    · split
      · exact .pure
      · exact .stop trivial
      · split
        · exact .bind (hwet runJobs_wet) fun _ _ => .pure
        · exact .pure

end Run

def Evaluation.value? : Evaluation → Option Value
  | .complete v => some v
  | .pending .. => none

def Progress.ends {α : Type} (p : α → Realm → Bool) : Progress α → Bool
  | .done a r => p a r
  | _ => false

theorem Progress.exists_of_ends {α : Type} {p : α → Realm → Bool} {x : Progress α} (h : x.ends p = true) :
    ∃ a r, x = .done a r ∧ p a r = true := by
  cases x with
  | done a r => exact ⟨a, r, rfl, h⟩
  | stopped | exhausted => exact (Bool.false_ne_true h).elim

/-- A script that is evaluated in a realm, and what is to be seen afterwards. -/
structure Trial (r : Realm) where
  source : String
  sees : Evaluation → Realm → Bool
  ends : (Run.evaluate (machine 20) source {} r).ends sees = true

theorem Trial.run {r : Realm} (t : Trial r) : ∃ e r' as, Run.evaluate (machine 20) t.source {} r = .done e r' ∧
    r.Course as r' ∧ (∀ a ∈ as, a.Reads ∧ a.isDry = false) ∧ t.sees e r' = true := by
  obtain ⟨e, r', heval, hsees⟩ := Progress.exists_of_ends t.ends
  obtain ⟨as, hc, has⟩ := (Run.evaluate_consists (n := 20) (o := {})).course r' (congrArg Progress.realm? heval)
  exact ⟨e, r', as, heval, hc, fun a ha => (has a ha).imp id fun hdry => Bool.eq_false_iff.mpr
    fun h => Bool.false_ne_true (hdry h), hsees⟩

/-- A loop that awaits, over an iterator that has no items. The value is whether it was asked for any. -/
def steppingSource : String :=
  "let stepped = false; for await (const x of \x7b [Symbol.iterator]: () => (\x7b next() \x7b" ++
    "stepped = true; return \x7b done: true \x7d \x7d \x7d) \x7d) \x7b \x7d stepped"

def Trial.stepping : Trial Realm.plain where
  source := steppingSource
  sees e _ := e.value?.any (·.truthy)
  ends := by decide +kernel

end EcmaScript

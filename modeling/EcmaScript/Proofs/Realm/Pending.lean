import EcmaScript.Proofs.Level.Course
import EcmaScript.Proofs.Realm.Microtask

/-! An evaluation is left pending exactly when its script comes to wait. Only an `await` outside all
functions and the loops that await there make it wait; what they wait for may have been settled. -/
namespace EcmaScript

theorem Step.outcome_bind_waiting {α β : Type} {x : Step α} {f : α → State → Step β} {s' : State} :
    (x.bind f).outcome = some (none, s') ↔ x.outcome = some (none, s') ∨
      ∃ a s, x.outcome = some (some (.ok a), s) ∧ (f a s).outcome = some (none, s') := by
  induction x with
  | value a s => simp [bind, outcome]
  | abrupt e s => simp [bind, outcome]
  | waiting slot s resume => simp [bind, outcome]
  | parked id slot frame resume s next ih => simpa [bind, outcome] using ih s
  | exhausted => simp [bind, outcome]

def State.Lawful (s : State) : Prop := ∀ id, (s.object id).Lawful

def State.footing (s : State) : Footing := ⟨s.stack.map Frame.anchor, s.maxDepth, some s.outcomes⟩

theorem State.Lawful.stands {s : State} (h : s.Lawful) : s.Stands s.footing where
  frames := rfl
  maxDepth := rfl
  outcomes _ ho := Option.some.inj ho
  lawful := h

noncomputable def Watch.anywhere (fuel : Nat) : Watch :=
  .beside (fun _ => True) True (fun _ _ => False) (fun _ _ _ => .exhausted) fuel

theorem Watch.anywhere_serves (fuel : Nat) : (Watch.anywhere fuel).Serves :=
  beside_serves (fun _ _ _ _ _ _ _ _ h => h) (fun _ _ _ _ => ⟨trivial, trivial⟩) fuel

namespace Exec
variable {α β : Type} {m : Machine} {c : Context} {s s₁ : State} {fuel : Nat}

def Waits (x : Exec α) (m : Machine) (c : Context) (s : State) : Prop :=
  ∃ s', (x m c s).outcome = some (none, s')

theorem waits_bind {x : Exec α} {f : α → Exec β} : (x >>= f).Waits m c s ↔
    x.Waits m c s ∨ ∃ a s₁, x.Gives m c s a s₁ ∧ (f a).Waits m c s₁ := by
  constructor
  · rintro ⟨s', h⟩
    obtain hx | ⟨a, s₁, hx, hf⟩ := (Step.outcome_bind_waiting).mp h
    · exact .inl ⟨s', hx⟩
    · exact .inr ⟨a, s₁, hx, s', hf⟩
  · rintro (⟨s', hx⟩ | ⟨a, s₁, hx, s', hf⟩)
    · exact ⟨s', (Step.outcome_bind_waiting).mpr (.inl hx)⟩
    · exact ⟨s', (Step.outcome_bind_waiting).mpr (.inr ⟨a, s₁, hx, hf⟩)⟩

theorem not_waits_pure {a : α} : ¬ (pure a : Exec α).Waits m c s := by
  rintro ⟨s', h⟩
  cases h

theorem waitFor_waits {slot : Nat} : (waitFor slot).Waits m c s := ⟨s, rfl⟩

theorem attempt_waits {x : Exec α} (h : x.Waits m c s) : (attempt x).Waits m c s := by
  obtain ⟨s', h⟩ := h
  refine ⟨s', ?_⟩
  change ((x m c s).handle _).outcome = _
  generalize x m c s = step at h
  induction step with
  | parked id slot frame resume s next ih => exact ih s h
  | waiting slot s resume =>
    cases h
    rfl
  | value | abrupt | exhausted => cases h

theorem not_waits {x : Exec α} (hx : Level (Watch.anywhere fuel) False x) (hs : s.Lawful) :
    ¬ x.Waits (machine fuel) c s := by
  rintro ⟨s', h⟩
  exact ((hx (Watch.anywhere_serves fuel) c _ s trivial hs.stands).stands h).2 rfl

theorem Gives.lawful {x : Exec α} {a : α} (h : x.Gives (machine fuel) c s a s₁)
    (hx : Level (Watch.anywhere fuel) True x) (hs : s.Lawful) : s₁.Lawful :=
  ((hx (Watch.anywhere_serves fuel) c _ s trivial hs.stands).stands h).1.lawful

theorem hosts_outside : (Watch.anywhere fuel).Hosts True .outside := ⟨trivial, fun _ _ => trivial⟩

theorem awaitValue_waits (hs : s.Lawful) {v : Value} : (awaitValue v).Waits (machine fuel) c s ↔
    ∃ slot s₁, (slotFor v).Gives (machine fuel) c s slot s₁ := by
  refine (waits_bind).trans ⟨?_, fun ⟨slot, s₁, h⟩ => .inr ⟨slot, s₁, h, waitFor_waits⟩⟩
  rintro (h | ⟨slot, s₁, h, -⟩)
  · exact (not_waits slotFor_level hs h).elim
  · exact ⟨slot, s₁, h⟩

/-- An `await` waits when its operand does, or else when there is a promise for the operand. -/
theorem await_waits {scope : ScopeId} {span : Span} {operand : Expr} (hs : s.Lawful)
    (ho : ∀ x ∈ operand.sites .outside, x.isLawful = true) :
    (evaluateExpression scope ⟨span, .await operand⟩).Waits (machine fuel) c s ↔
      (evaluate scope operand).Waits (machine fuel) c s ∨
      ∃ v s₁ slot s₂, (evaluate scope operand).Gives (machine fuel) c s v s₁ ∧
        (slotFor v).Gives (machine fuel) c s₁ slot s₂ := by
  have hlevel : Level (Watch.anywhere fuel) True (evaluate scope operand) :=
    evaluate_level hosts_outside fun x hx => ⟨ho x hx, fun _ => trivial⟩
  refine (waits_bind).trans (or_congr_right ⟨?_, ?_⟩)
  · rintro ⟨v, s₁, hv, h⟩
    obtain h | ⟨slot, s₂, hslot, -⟩ := (waits_bind).mp h
    · exact (not_waits slotFor_level (hv.lawful hlevel hs) h).elim
    · exact ⟨v, s₁, slot, s₂, hv, hslot⟩
  · rintro ⟨v, s₁, slot, s₂, hv, hslot⟩
    exact ⟨v, s₁, hv, (waits_bind).mpr (.inr ⟨slot, s₂, hslot, (waits_bind).mpr
      (.inl (attempt_waits waitFor_waits))⟩)⟩

/-- What a loop that awaits waits for at each of its steps: an item, unless there is none left, or what an
asynchronous iterator answers. -/
def nextOperand : ItemSource → Exec (Option Value)
  | .plain r => do
    let _ ← step r
    return none
  | .awaited r => step r
  | .asynchronous r => do
    checkInterrupts
    return some (← call r.next r.iterator #[])

theorem nextItem_waits {source : ItemSource} (hs : s.Lawful) :
    (nextItem source).Waits (machine fuel) c s ↔
      ∃ v s₁ slot s₂, (nextOperand source).Gives (machine fuel) c s (some v) s₁ ∧
        (slotFor v).Gives (machine fuel) c s₁ slot s₂ := by
  cases source with
  | plain r =>
    refine iff_of_false (not_waits step_level hs) ?_
    rintro ⟨v, s₁, slot, s₂, h, -⟩
    obtain ⟨_, _, -, h⟩ := gives_bind.mp h
    nomatch (gives_pure.mp h).1
  | awaited r =>
    refine (waits_bind).trans ⟨?_, ?_⟩
    · rintro (h | ⟨item, s₁, hitem, h⟩)
      · exact (not_waits step_level hs h).elim
      · cases item with
        | none => exact (not_waits_pure h).elim
        | some v =>
          obtain h | ⟨_, _, -, h⟩ := (waits_bind).mp h
          · obtain ⟨slot, s₂, hslot⟩ := (awaitValue_waits (hitem.lawful step_level hs)).mp h
            exact ⟨v, s₁, slot, s₂, hitem, hslot⟩
          · exact (not_waits_pure h).elim
    · rintro ⟨v, s₁, slot, s₂, hitem, hslot⟩
      refine .inr ⟨some v, s₁, hitem, (waits_bind).mpr (.inl ?_)⟩
      exact (awaitValue_waits (hitem.lawful step_level hs)).mpr ⟨slot, s₂, hslot⟩
  | asynchronous r =>
    refine (waits_bind).trans ⟨?_, ?_⟩
    · rintro (h | ⟨_, s₁, hcheck, h⟩)
      · exact (not_waits checkInterrupts_level hs h).elim
      · have hs₁ := hcheck.lawful checkInterrupts_level hs
        obtain h | ⟨v, s₂, hcall, h⟩ := (waits_bind).mp h
        · exact (not_waits call_level hs₁ h).elim
        · have hs₂ := hcall.lawful call_level hs₁
          obtain h | ⟨result, s₃, hresult, h⟩ := (waits_bind).mp h
          · obtain ⟨slot, s₃, hslot⟩ := (awaitValue_waits hs₂).mp h
            exact ⟨v, s₂, slot, s₃, gives_bind.mpr ⟨_, s₁, hcheck, gives_bind.mpr
              ⟨v, s₂, hcall, gives_pure.mpr ⟨rfl, rfl⟩⟩⟩, hslot⟩
          · have hs₃ := hresult.lawful (awaitValue_level trivial) hs₂
            exact (not_waits readResult_level hs₃ h).elim
    · rintro ⟨v, s₂, slot, s₃, hcalls, hslot⟩
      obtain ⟨_, s₁, hcheck, hcalls⟩ := gives_bind.mp hcalls
      obtain ⟨v', s₂', hcall, hpure⟩ := gives_bind.mp hcalls
      obtain ⟨hv, rfl⟩ := gives_pure.mp hpure
      cases hv
      have hs₂ := hcall.lawful call_level (hcheck.lawful checkInterrupts_level hs)
      refine .inr ⟨_, s₁, hcheck, (waits_bind).mpr (.inr ⟨v, s₂, hcall, (waits_bind).mpr (.inl ?_)⟩)⟩
      exact (awaitValue_waits hs₂).mpr ⟨slot, s₃, hslot⟩

def conclude (slot : Nat) : Except Abrupt Value → Exec Unit
  | .ok v => record slot (.ok v)
  | .error e => do
    let e ← uncaught (← onFrameExit e)
    record slot (.error e)

theorem evaluateInto_run {slot : Nat} {scope : ScopeId} {body : List Statement} :
    evaluateInto slot scope body m c s =
      (evaluateScript scope body m c s).handle fun r s => conclude slot r m c s := by
  refine (handle_bind _).trans (congrArg _ (funext fun r => ?_))
  cases r <;> rfl

theorem uncaught_direct {e : Abrupt} : Direct (uncaught e) := by
  have hattempt : Direct (attempt (thrownValue e)) := by
    intro c s
    cases e with
    | condition k => exact ⟨_, s, fun _ => rfl, fun _ => id⟩
    | thrown v => exact ⟨_, s, fun _ => rfl, fun _ => id⟩
    | failure f =>
      obtain ⟨id, s', hid, hs'⟩ := @newError_direct f.kind f.message c s
      refine ⟨.ok (.object id), s', fun m => ?_, hs'⟩
      change ((newError f.kind f.message m c s).bind _).handle _ = _
      rw [hid]
      rfl
  refine hattempt.bind fun r => ?_
  split
  · exact .bind .look fun _ => .pure
  · exact .pure
  · exact .pure
  · exact .bind .look fun _ => .pure

theorem conclude_value {slot : Nat} {r : Except Abrupt Value} {L : Footing}
    {outcomes : Array (Option (Except EvaluationError Value))} (hs : s.Stands L)
    (hL : L.outcomes = some outcomes) : ∃ result s', conclude slot r m c s = .value () s' ∧
      s'.outcomes = outcomes.setIfInBounds slot (some result) := by
  have hrecord (result : Except EvaluationError Value) {s : State} (hs : s.Stands L) :
      ∃ s', record slot result m c s = .value () s' ∧
        s'.outcomes = outcomes.setIfInBounds slot (some result) :=
    ⟨{ s with outcomes := s.outcomes.setIfInBounds slot (some result) }, rfl, by simp [hs.outcomes _ hL]⟩
  cases r with
  | ok v => exact ⟨.ok v, hrecord _ hs⟩
  | error e =>
    have hdirect : Direct (do uncaught (← onFrameExit e)) :=
      onFrameExit_direct.bind fun _ => uncaught_direct
    obtain ⟨e', s', he, hs'⟩ := hdirect c s
    have hrun : conclude slot (.error e) m c s = record slot (.error e') m c s' :=
      (congrFun (congrFun (congrFun (bind_assoc ..).symm m) c) s).trans (bind_value (he m))
    rw [hrun]
    exact ⟨.error e', hrecord _ (hs' L hs)⟩

end Exec

namespace Realm
variable {m : Machine} {c : Context} {L : Footing} {slot id depth : Nat} {ok : Footing → Prop} {W : Prop}
  {Q : Value → Prop} {outcomes : Array (Option (Except EvaluationError Value))}

theorem follow_concluded {r : Except Abrupt Value} {s : State} (hs : s.Stands L)
    (hL : L.outcomes = some outcomes) (tasks : List ParkedTask) : ∃ result s',
      s'.outcomes = outcomes.setIfInBounds slot (some result) ∧
        follow ((Exec.conclude slot r m c s).detach id depth) tasks = .done (.ok none) ⟨s', tasks⟩ := by
  obtain ⟨result, s', hrun, hresult⟩ := Exec.conclude_value hs hL
  refine ⟨result, s'.leaveFrames depth, hresult, ?_⟩
  rw [hrun]
  rfl

/-- A script runs as a task. As long as it waits it has no result, and else its result is in the slot. -/
theorem follow_conclude {x' x : Step Value} (h : Step.Abreast ok W Q L x' x)
    (hL : L.outcomes = some outcomes) (tasks : List ParkedTask) :
    (x.outcome = none ∧ follow ((x.handle fun r s => Exec.conclude slot r m c s).detach id depth) tasks =
      .exhausted) ∨
    ∃ r, follow ((x.handle fun r s => Exec.conclude slot r m c s).detach id depth) tasks =
      .done (.ok none) r ∧
      ((∃ s, x.outcome = some (none, s)) ∧ r.state.outcomes = outcomes ∨
        (∃ o s, x.outcome = some (some o, s)) ∧
          ∃ result, r.state.outcomes = outcomes.setIfInBounds slot (some result)) := by
  induction h generalizing tasks with
  | @value _ a s hs =>
    obtain ⟨result, s', hresult, hfollow⟩ := follow_concluded (r := .ok a) hs hL tasks
    exact .inr ⟨_, hfollow, .inr ⟨⟨_, _, rfl⟩, result, hresult⟩⟩
  | @abrupt _ e s hs =>
    obtain ⟨result, s', hresult, hfollow⟩ := follow_concluded (r := .error e) hs hL tasks
    exact .inr ⟨_, hfollow, .inr ⟨⟨_, _, rfl⟩, result, hresult⟩⟩
  | waiting _ hs => exact .inr ⟨_, rfl, .inl ⟨⟨_, rfl⟩, hs.outcomes _ hL⟩⟩
  | parked _ _ ih => exact ih hL _
  | exhausted => exact .inl ⟨rfl, rfl⟩

end Realm

/-- Where a script begins, as a task with a result of its own. -/
def State.atScript (s : State) (filename : String) : State :=
  { s with
    outcomes := s.outcomes.push none
    lastTask := s.lastTask + 1
    stack := ⟨"", none, .script filename 1 1⟩ :: s.stack }

/-- The body of a script comes to wait, as it is run in a realm and not as a dry run. -/
def Realm.Suspends (r : Realm) (fuel : Nat) (source : String) (script : Script) (o : EvaluateOptions) :
    Prop :=
  let (c, s) := r.state.enter source script.strict o
  (Exec.evaluateScript c.globalScope script.body).Waits (machine fuel) c (s.atScript o.filename)

namespace Run
variable {α β : Type} {x : Run α} {f : α → Run β} {r r₁ : Realm} {source : String} {script : Script}
  {o : EvaluateOptions} {fuel : Nat}

theorem bind_done {a : α} (h : x r = .done a r₁) : (x >>= f) r = f a r₁ := by
  show Run.bind x f r = _
  rw [Run.bind, h]

theorem look_bind {f : State → α} {g : α → Run β} : (look f >>= g) r = g (f r.state) r := rfl

theorem bind_stopped {e : EvaluationError} (h : x r = .stopped e r₁) : (x >>= f) r = .stopped e r₁ := by
  show Run.bind x f r = _
  rw [Run.bind, h]

theorem bind_exhausted (h : x r = .exhausted) : (x >>= f) r = .exhausted := by
  show Run.bind x f r = _
  rw [Run.bind, h]

/-- A script is run as a task where there is room for its frame. -/
theorem attempt_script {m : Machine} {c : Context} {s : State} {tasks : List ParkedTask} {slot : Nat}
    {scope : ScopeId} {body : List Statement} {filename : String}
    (hdepth : s.stack.length < s.maxDepth) :
    attempt m c (Exec.spawn ⟨"", none, .script filename 1 1⟩ (Exec.evaluateInto slot scope body))
        ⟨{ s with outcomes := s.outcomes.push none }, tasks⟩ =
      Realm.follow (((Exec.evaluateScript scope body m c (s.atScript filename)).handle fun e s =>
        Exec.conclude slot e m c s).detach (s.lastTask + 1) s.stack.length) tasks := by
  show Realm.follow (Exec.spawn _ _ m c _) tasks = _
  unfold Exec.spawn
  rw [if_neg (Nat.not_le.mpr hdepth)]
  exact congrArg (fun x => Realm.follow (Step.detach _ _ x) tasks) Exec.evaluateInto_run

/-- What is not a dry run begins with its script as a task, and goes on from there. -/
theorem begin_eq {m : Machine} {c : Context} {s : State} (hdry : o.dryRun = false)
    (henter : r.state.enter source script.strict o = (c, s)) :
    ∃ f : Except Abrupt (Option Condition) → Run (Context × Nat),
      (∀ k r₁, f (.ok k) r₁ = .done (c, s.outcomes.size) r₁) ∧
      Run.begin m source script o r =
        (attempt m c (Exec.spawn ⟨"", none, .script o.filename 1 1⟩
          (Exec.evaluateInto s.outcomes.size c.globalScope script.body)) >>= f)
            ⟨{ s with outcomes := s.outcomes.push none }, r.tasks⟩ := by
  have hentered : enterScript source script.strict o r = .done c ⟨s, r.tasks⟩ :=
    congrArg (fun entered : Context × State => Progress.done entered.1 ⟨entered.2, r.tasks⟩) henter
  unfold Run.begin
  simp only [hdry, Bool.false_eq_true, if_false]
  rw [bind_done hentered]
  exact ⟨_, fun _ _ => rfl, rfl⟩

/-- Once a script has begun it waits, or there is its result. -/
theorem begin_script (fuel : Nat) (hr : r.state.Idle) (hscript : parseScript source = .ok script)
    (hdry : o.dryRun = false) (hdepth : 0 < r.state.maxDepth) :
    (¬ r.Suspends fuel source script o ∧ Run.begin (machine fuel) source script o r = .exhausted) ∨
    ∃ c slot r₁, Run.begin (machine fuel) source script o r = .done (c, slot) r₁ ∧
      (r.Suspends fuel source script o ∧ (r₁.state.outcomes[slot]?).join = none ∨
        ¬ r.Suspends fuel source script o ∧ ∃ result, (r₁.state.outcomes[slot]?).join = some result) := by
  rcases henter : r.state.enter source script.strict o with ⟨c, s⟩
  have hs : s = (r.state.enter source script.strict o).2 := by rw [henter]
  have hlawful : (s.atScript o.filename).Lawful := hs ▸ hr.lawful
  have hroom : s.stack.length < s.maxDepth := by
    subst hs
    exact hr.stack ▸ hdepth
  have hsuspends : r.Suspends fuel source script o ↔
      ∃ s', (Exec.evaluateScript c.globalScope script.body (machine fuel) c
        (s.atScript o.filename)).outcome = some (none, s') := by
    unfold Realm.Suspends
    rw [henter]
    rfl
  have hbody : Level (Watch.anywhere fuel) True (Exec.evaluateScript c.globalScope script.body) :=
    Exec.evaluateScript_level Exec.hosts_outside fun x hx =>
      ⟨(parseScript_records hscript).1 x hx, fun _ => trivial⟩
  obtain ⟨x', habreast⟩ : ∃ x', Step.Abreast (fun _ => True) True (fun _ => True)
      (s.atScript o.filename).footing x'
        (Exec.evaluateScript c.globalScope script.body (machine fuel) c (s.atScript o.filename)) :=
    ⟨_, hbody (Watch.anywhere_serves fuel) c _ _ trivial hlawful.stands⟩
  obtain ⟨f, hf, hbegin⟩ := begin_eq (m := machine fuel) hdry henter
  rw [hsuspends, hbegin]
  obtain ⟨hnone, hfollow⟩ | ⟨r₁, hfollow, hcase⟩ := Realm.follow_conclude habreast rfl r.tasks
  · refine .inl ⟨?_, bind_exhausted ((attempt_script hroom).trans hfollow)⟩
    rw [hnone]
    rintro ⟨s', h⟩
    cases h
  · refine .inr ⟨c, s.outcomes.size, r₁, ?_, ?_⟩
    · rw [bind_done ((attempt_script hroom).trans hfollow), hf]
    · obtain ⟨hwaits, houtcomes⟩ | ⟨⟨e, s', hends⟩, result, houtcomes⟩ := hcase
      · refine .inl ⟨hwaits, ?_⟩
        rw [houtcomes]
        simp [State.atScript]
      · refine .inr ⟨?_, result, ?_⟩
        · rintro ⟨s'', hwaits⟩
          exact nomatch hwaits.symm.trans hends
        · rw [houtcomes]
          simp [State.atScript]

section
variable {m : Machine} {c : Context} {slot : Nat}

theorem evaluate_of_none (hscript : parseScript source = .ok script)
    (hbegin : Run.begin m source script o r = .done (c, slot) r₁) (hfatal : r₁.state.fatal = none)
    (hslot : (r₁.state.outcomes[slot]?).join = none) :
    ∃ r', Run.evaluate m source o r = .done (.pending c slot) r' := by
  simp only [evaluate_eq, hscript]
  rw [bind_done hbegin, bind_done (raiseFatal_none hfatal), look_bind]
  simp only [hslot]
  exact ⟨_, rfl⟩

theorem evaluate_of_some {result : Except EvaluationError Value} {c' : Context} {slot' : Nat} {r' : Realm}
    (hscript : parseScript source = .ok script)
    (hbegin : Run.begin m source script o r = .done (c, slot) r₁)
    (hslot : (r₁.state.outcomes[slot]?).join = some result) :
    Run.evaluate m source o r ≠ .done (.pending c' slot') r' := by
  simp only [evaluate_eq, hscript]
  rw [bind_done hbegin]
  cases hfatal : r₁.state.fatal with
  | some k =>
    rw [bind_stopped (raiseFatal_some hfatal)]
    nofun
  | none =>
    rw [bind_done (raiseFatal_none hfatal), look_bind]
    simp only [hslot]
    cases result with
    | error e => nofun
    | ok v =>
      cases o.dryRun with
      | true => nofun
      | false =>
        simp only [Bool.not_false, if_true]
        generalize { state := _, tasks := r₁.tasks : Realm } = r₂
        cases hjobs : runJobs m c m.fuel r₂ with
        | done _ r₃ =>
          rw [bind_done hjobs]
          nofun
        | stopped e r₃ =>
          rw [bind_stopped hjobs]
          nofun
        | exhausted =>
          rw [bind_exhausted hjobs]
          nofun

end

/-- Without a condition, an evaluation that is not a dry run is left pending if and only if its script
came to wait. -/
theorem evaluate_pending (fuel : Nat) (hr : r.state.Idle) (hscript : parseScript source = .ok script)
    (hdry : o.dryRun = false) (hdepth : 0 < r.state.maxDepth) :
    (∃ k r', Run.evaluate (machine fuel) source o r = .stopped (.condition k) r') ∨
      ((∃ c slot r', Run.evaluate (machine fuel) source o r = .done (.pending c slot) r') ↔
        r.Suspends fuel source script o) := by
  obtain ⟨hends, hbegin⟩ | ⟨c, slot, r₁, hbegin, hcase⟩ := begin_script fuel hr hscript hdry hdepth
  · refine .inr (iff_of_false ?_ hends)
    simp only [evaluate_eq, hscript]
    rw [bind_exhausted hbegin]
    rintro ⟨_, _, _, h⟩
    cases h
  · obtain ⟨hwaits, hslot⟩ | ⟨hends, result, hslot⟩ := hcase
    · cases hfatal : r₁.state.fatal with
      | some k =>
        refine .inl ⟨k, ?_⟩
        simp only [evaluate_eq, hscript]
        rw [bind_done hbegin, bind_stopped (raiseFatal_some hfatal)]
        exact ⟨_, rfl⟩
      | none => exact .inr (iff_of_true ⟨c, slot, evaluate_of_none hscript hbegin hfatal hslot⟩ hwaits)
    · refine .inr (iff_of_false ?_ hends)
      rintro ⟨c', slot', r', h⟩
      exact evaluate_of_some hscript hbegin hslot h

theorem not_suspends (hr : r.state.Idle) (hscript : parseScript source = .ok script)
    (hawaits : script.awaits = false) : ¬ r.Suspends fuel source script o := by
  have hcalm : Calm False (sitesOfStatements .outside script.body) := fun x hx =>
    ⟨(parseScript_records hscript).1 x hx, fun hplace => by
      simpa [hawaits] using (parseScript_records hscript).2.mpr ⟨x, hx, hplace⟩⟩
  have hhosts : (Watch.anywhere fuel).Hosts False .outside := ⟨trivial, nofun⟩
  unfold Realm.Suspends
  have hlawful : ((r.state.enter source script.strict o).2.atScript o.filename).Lawful := hr.lawful
  exact Exec.not_waits (Exec.evaluateScript_level hhosts hcalm) hlawful

end Run

/-- Without a condition, and where there is room for a frame, an evaluation that is not a dry run is left
pending if and only if its script came to wait. It never does when nothing awaits outside all functions.
An `await` waits when there is a promise for what its operand came to, whether the promise is settled or
not. A loop that awaits waits at a step when there is a promise for what it asks for then: where its
iterator is not asynchronous and has no item left, it asks for nothing. To call a function never waits. -/
theorem pending_iff_suspends {r : Realm} (hr : r.Attained) {source : String} {script : Script}
    (hscript : parseScript source = .ok script) {o : EvaluateOptions} (hdry : o.dryRun = false)
    (hdepth : 0 < r.state.maxDepth) (fuel : Nat) :
    ((∃ k r', Run.evaluate (machine fuel) source o r = .stopped (.condition k) r') ∨
      ((∃ c slot r', Run.evaluate (machine fuel) source o r = .done (.pending c slot) r') ↔
        r.Suspends fuel source script o)) ∧
    (script.awaits = false →
      ∀ c slot r', Run.evaluate (machine fuel) source o r ≠ .done (.pending c slot) r') ∧
    ∀ (s : State) (c : Context), s.Lawful →
      (∀ scope span operand, (∀ x ∈ operand.sites .outside, x.isLawful = true) →
        ((Exec.evaluateExpression scope ⟨span, .await operand⟩).Waits (machine fuel) c s ↔
          (Exec.evaluate scope operand).Waits (machine fuel) c s ∨
          ∃ v s₁ slot s₂, (Exec.evaluate scope operand).Gives (machine fuel) c s v s₁ ∧
            (Exec.slotFor v).Gives (machine fuel) c s₁ slot s₂)) ∧
      (∀ items, (Exec.nextItem items).Waits (machine fuel) c s ↔
        ∃ v s₁ slot s₂, (Exec.nextOperand items).Gives (machine fuel) c s (some v) s₁ ∧
          (Exec.slotFor v).Gives (machine fuel) c s₁ slot s₂) ∧
      ∀ f this args, ¬ (Exec.call f this args).Waits (machine fuel) c s := by
  have hpending := Run.evaluate_pending fuel hr.idle hscript hdry hdepth
  refine ⟨hpending, fun hawaits c slot r' h => ?_, fun s c hs => ⟨fun scope span operand ho => ?_,
    fun items => Exec.nextItem_waits hs, fun f this args => Exec.not_waits Exec.call_level hs⟩⟩
  · obtain ⟨k, r₁, hstopped⟩ | hiff := hpending
    · cases h.symm.trans hstopped
    · exact Run.not_suspends hr.idle hscript hawaits (hiff.mp ⟨c, slot, r', h⟩)
  · exact Exec.await_waits hs ho

theorem pending_iff_suspends_first : ∃ (r : Realm) (script : Script), r.Attained ∧
    parseScript "await 1" = .ok script ∧ ({} : EvaluateOptions).dryRun = false ∧ 0 < r.state.maxDepth ∧
    ∀ fuel, ((∃ k r', Run.evaluate (machine fuel) "await 1" {} r = .stopped (.condition k) r') ∨
      ((∃ c slot r', Run.evaluate (machine fuel) "await 1" {} r = .done (.pending c slot) r') ↔
        r.Suspends fuel "await 1" script {})) := by
  have hread : (parseScript "await 1").toOption.isSome = true := by decide +kernel
  obtain ⟨script, hscript⟩ : ∃ script, parseScript "await 1" = .ok script := by
    cases h : parseScript "await 1" with
    | error e => simp [h, Except.toOption] at hread
    | ok script => exact ⟨script, rfl⟩
  have hinitial (r : Realm) (hr : r.Attained) (hlaid : r.state.Laid) : 0 < r.state.maxDepth := by
    rw [hlaid.rest]
    exact (by decide : 0 < State.base.maxDepth)
  have hdepth := hinitial _ .initial (Realm.initial_laid (List.forall_mem_nil _))
  exact ⟨_, script, .initial, hscript, rfl, hdepth, fun fuel =>
    (pending_iff_suspends .initial hscript rfl hdepth fuel).1⟩

/-- A loop that awaits has taken a step, and the script was completed at once: there was no item to wait
for. -/
theorem completed_after_step : ∃ (r : Realm) (script : Script), r.Attained ∧ 0 < r.state.maxDepth ∧
    parseScript steppingSource = .ok script ∧ script.awaits = true ∧
    sitesOfStatements .outside script.body = [⟨.forAwait, .outside⟩] ∧
    ∃ v r', Run.evaluate (machine 20) steppingSource {} r = .done (.complete v) r' ∧ v.truthy = true := by
  have hread : (parseScript steppingSource).toOption.any (fun script => script.awaits &&
      sitesOfStatements .outside script.body == [⟨.forAwait, .outside⟩]) = true := by decide +kernel
  cases hscript : parseScript steppingSource with
  | error e => simp [hscript, Except.toOption] at hread
  | ok script =>
    obtain ⟨hawaits, hsites⟩ : script.awaits = true ∧
        sitesOfStatements .outside script.body = [⟨.forAwait, .outside⟩] := by
      simpa [hscript, Except.toOption] using hread
    obtain ⟨e, r', _, heval, -, -, hvalue⟩ := Trial.stepping.run
    cases e with
    | complete v =>
      exact ⟨Realm.plain, script, Realm.attained_plain, (by decide : 0 < 100), rfl, hawaits, hsites, v, r', heval,
        hvalue⟩
    | pending => exact (Bool.false_ne_true hvalue).elim

end EcmaScript

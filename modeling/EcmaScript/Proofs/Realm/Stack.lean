import EcmaScript.Proofs.Level.Course

/-! The call stack is balanced. A call ends on the call stack on which it began, whatever it comes to, and
one that finds the call stack full runs no code. -/
namespace EcmaScript

namespace Request

/-- Whether a function is called, or asked to construct. -/
def isCall : Request → Bool
  | .call .. | .construct .. => true
  | _ => false

/-- Whether code of a script or of the standard library is run. -/
def runsCode : Request → Bool
  | .native .. | .nativeConstruct .. | .expression .. | .chain .. | .statement .. | .bind ..
  | .classDefinition .. => true
  | _ => false

/-- What is expected of a request where it is made. -/
structure Steady (r : Request) (s : State) : Prop where
  depth : s.stack.length ≤ max s.maxDepth 1
  /-- A call never waits, and ends on the call stack on which it began, but for the places reached. -/
  balanced : r.isCall = true → ∀ fuel c o s', ((machine fuel).run r c s).outcome = some (o, s') →
    o ≠ none ∧ s'.stack.map Frame.anchor = s.stack.map Frame.anchor
  /-- A call that finds the call stack full makes no code run: the machine could answer all requests to do
  that in any other way. -/
  refused : r.isCall = true → s.maxDepth ≤ s.stack.length → ∀ other fuel c,
    ((diverted (fun r _ => r.runsCode = true) other fuel).run r c s).outcome =
      ((machine fuel).run r c s).outcome

theorem permitted_of_isCall {r : Request} {P : Watch} {W : Prop} (h : r.isCall = true) :
    r.Permitted P W := by
  cases r with
  | call | construct => trivial
  | _ => nomatch h

theorem Permitted.lively {r : Request} {P : Watch} {W : Prop} (h : r.Permitted P W)
    (hr : r.runsCode = true) : P.lively := by
  cases r with
  | native | nativeConstruct => exact h
  | expression | chain | statement | bind | classDefinition =>
    obtain ⟨p, hp, -⟩ := h
    exact hp.lively
  | _ => nomatch hr

end Request

theorem full_serves (other : Answers) (fuel : Nat) :
    (Watch.beside Footing.isFull False (fun r _ => r.runsCode = true) other fuel).Serves :=
  beside_serves (fun _ _ _ hr _ _ _ _ hcode => hr.lively hcode) (fun _ _ hL hroom => absurd hL hroom) fuel

theorem unbarred_steady : Unbarred fun r s => ¬ r.Steady s := by
  intro P W r hr L s hL hs hsteady
  refine hsteady ⟨?_, fun hcall fuel c o s' houtcome => ?_, fun hcall hfull other fuel c => ?_⟩
  · rw [hs.length_eq, hs.maxDepth]
    exact hL.2
  · have hserves := (Watch.alone_bears fuel).serves
    have hanswer := hserves.answers False r (Request.permitted_of_isCall hcall) c L s hL hs
    obtain ⟨hs', hwaits⟩ := hanswer.stands houtcome
    exact ⟨hwaits, hs'.frames.trans hs.frames.symm⟩
  · have hfull : L.isFull := by rwa [hs.length_eq, hs.maxDepth] at hfull
    have hserves := full_serves other fuel
    exact (hserves.answers False r (Request.permitted_of_isCall hcall) c L s hfull hs).outcome_eq

/-- Wherever a call is made it ends on the call stack on which it began, whatever it comes to, the call
stack is never deeper than it may be, and a call that is refused for that runs no code. Between actions the
call stack is empty. -/
theorem stack_balanced :
    Realm.NeverAsked (fun r s => ¬ r.Steady s) ∧
    (∀ frame m c s s', Exec.enterFrame frame m c s = .value () s' → s'.stack.length ≤ s'.maxDepth) ∧
    (∀ frame body m c s, s.maxDepth ≤ s.stack.length → Exec.spawn frame body m c s =
      .abrupt (.failure ⟨.range, "Maximum call stack size exceeded", 0, 0⟩)
        { s with lastTask := s.lastTask + 1 }) ∧
    ∀ r : Realm, r.Attained → r.state.stack = [] ∧ ∀ fuel r',
      (∀ source o, (Run.evaluate (machine fuel) source o r).realm? = some r' → r'.state.stack = []) ∧
      (∀ e, (Run.finish (machine fuel) e r).realm? = some r' → r'.state.stack = []) ∧
      ((Run.runEventLoop (machine fuel) r).realm? = some r' → r'.state.stack = []) ∧
      ((Run.pollReady fuel r).realm? = some r' → r'.state.stack = []) := by
  refine ⟨Realm.neverAsked unbarred_steady, fun frame m c s s' henter => ?_,
    fun frame body m c s hfull => ?_, fun r hr => ⟨hr.idle.stack, fun fuel r' => ⟨?_, ?_, ?_, ?_⟩⟩⟩
  · unfold Exec.enterFrame at henter
    split at henter
    · nomatch henter
    · cases henter
      exact Nat.lt_of_not_le ‹_›
  · unfold Exec.spawn
    exact if_pos hfull
  · intro source o h
    exact (hr.consists Run.evaluate_consists (fun a ha => ha.1) h).idle.stack
  · intro e h
    exact (hr.consists Run.finish_wet (fun a => .of_continues) h).idle.stack
  · intro h
    have hwet : (Run.runEventLoop (machine fuel)).Wet (fun _ => True) r := Run.runEventLoop_wet
    exact (hr.consists hwet (fun a => .of_continues) h).idle.stack
  · intro h
    have hwet : (Run.pollReady fuel).Wet (fun _ => True) r := Run.pollReady_wet
    exact (hr.consists hwet (fun a => .of_continues) h).idle.stack

/-- A realm with room for three frames. -/
def Realm.shallow : Realm := { plain with state := { plain.state with maxDepth := 3 } }

theorem Realm.attained_shallow : shallow.Attained :=
  attained_plain.course (by simp [Action.Reads]) (.cons (a := .configure 3 false #[] #[[]]) rfl .nil)

def Object.constructs (o : Object) : Bool :=
  match o.callable? with
  | some (.closure closure) => closure.constructable
  | _ => false

/-- A function that calls itself until it is refused. The value is the function, if the refusal was told. -/
def Trial.recursive : Trial Realm.shallow where
  source := "function f() \x7b f() \x7d let n; try \x7b f() \x7d catch (e) \x7b n = e.name \x7d n === 'RangeError' && f"
  sees e r :=
    e.value?.any (·.truthy) && (e.value?.bind (·.object?)).any fun id => (r.state.object id).constructs
  ends := by decide +kernel

/-- The call stack has been full, and it is empty again. Machines that answer in any other way whatever a call
without room asks for do the same. -/
theorem stack_balanced_recursive : ∃ (e : Evaluation) (r : Realm),
    Run.evaluate (machine 20) Trial.recursive.source {} Realm.shallow = .done e r ∧
    e.value?.any (·.truthy) = true ∧ Realm.shallow.Attained ∧ r.state.stack = [] ∧
    (∀ other : Answers, ∃ globals as r',
      Realm.CourseBy (diverted (fun r s => ¬ r.Steady s) other) (Realm.initial globals) as r' ∧
      Realm.Alike (diverted (fun r s => ¬ r.Steady s) other) r' r) ∧
    ∃ s, Exec.enterFrame default (machine 1) default { (default : State) with maxDepth := 1 } = .value () s ∧
      s.stack.length ≤ s.maxDepth ∧
      Exec.spawn default (pure ()) (machine 1) default s =
        .abrupt (.failure ⟨.range, "Maximum call stack size exceeded", 0, 0⟩) { s with lastTask := s.lastTask + 1 } := by
  obtain ⟨hasked, henter, hspawn, hempty⟩ := stack_balanced
  obtain ⟨e, r, _, heval, hrun, has, hsees⟩ := Trial.recursive.run
  obtain ⟨globals, as, hg, hreads, hc⟩ := Realm.attained_shallow.course (fun a ha => (has a ha).1) hrun
  have hs := henter default (machine 1) default { (default : State) with maxDepth := 1 } _ rfl
  exact ⟨e, r, heval, (Bool.and_eq_true_iff.mp hsees).1, Realm.attained_shallow,
    ((hempty _ Realm.attained_shallow).2 20 r).1 _ _ (congrArg Progress.realm? heval),
    fun other => ⟨globals, as, hasked other globals as r hg hreads hc⟩,
    _, rfl, hs, hspawn default (pure ()) (machine 1) default _ (Nat.le_refl 1)⟩

/-! `await` is read only where the function around it can wait. So a body that is expected to run to its
end does so, whatever is evaluated. -/

theorem unbarred_suspended : Unbarred fun r _ => r = .halt .suspended := by
  rintro P W r hr L s - - rfl
  exact hr rfl

/-- The body of a function that is neither async nor a generator never waits. -/
theorem Closure.Lawful.prompt {closure : Closure} (h : closure.Lawful)
    (hplain : closure.constructable = true ∨
      closure.classKind = none ∧ closure.node.isAsync = false ∧ closure.node.isGenerator = false)
    {fuel : Nat} {c : Context} {s : State} (hs : s.Idle) {scope : ScopeId} {f : ObjectId}
    {args : Array Value} {s' : State} :
    (Exec.evaluateFunction scope closure.node f args (machine fuel) c s).outcome ≠ some (none, s') := by
  have hnode : closure.node.Plain :=
    hplain.elim h.plain fun hkind => (h.node hkind.1).plain hkind.2.1 hkind.2.2
  have hhosts : (Watch.alone fuel).Hosts False (.inside false false) := ⟨trivial, nofun⟩
  have hbody : Level (Watch.alone fuel) False (Exec.evaluateFunction scope closure.node f args) :=
    Exec.evaluateFunction_level hhosts hnode.calm
  intro houtcome
  have hshallow : (Footing.ground s.maxDepth).Shallow := ⟨rfl, Nat.zero_le _⟩
  exact ((hbody (Watch.alone_bears fuel).serves c _ s hshallow hs.stands).stands houtcome).2 rfl

/-- In a script that was read, `await` and the loops that await stand outside all functions, which the
script tells, or directly in an async function, and `yield` stands directly in a generator. So the body of
a function that is not async never waits, and no machine is ever told that one did. -/
theorem await_where_allowed :
    (∀ source script, parseScript source = .ok script →
      (∀ x ∈ sitesOfStatements .outside script.body, x.isLawful = true) ∧
        (script.awaits = true ↔
          ∃ x ∈ sitesOfStatements .outside script.body, x.suspension ≠ .yield ∧ x.place = .outside)) ∧
    Realm.NeverAsked (fun r _ => r = .halt .suspended) ∧
    ∀ r : Realm, r.Attained → ∀ f closure, (r.state.object f).kind = .function (.closure closure) →
      (closure.constructable = true ∨
        closure.classKind = none ∧ closure.node.isAsync = false ∧ closure.node.isGenerator = false) →
      ∀ fuel c scope args s', (Exec.evaluateFunction scope closure.node f args (machine fuel) c
        r.state).outcome ≠ some (none, s') := by
  refine ⟨fun source script h => ?_, Realm.neverAsked unbarred_suspended, ?_⟩
  · obtain ⟨hlawful, hawaits⟩ := parseScript_records h
    refine ⟨hlawful, hawaits.trans (exists_congr fun x => and_congr_right fun hx => ?_)⟩
    refine ⟨fun hplace => ⟨fun hyield => ?_, hplace⟩, And.right⟩
    simpa [Site.isLawful, Place.mayYield, hyield, hplace] using hlawful x hx
  · intro r hr f closure hkind hplain fuel c scope args s'
    exact (hr.idle.lawful f closure hkind).prompt hplain hr.idle

/-- A function that waits, in a script that waits itself. -/
def awaitingSource : String := "async function f() \x7b await 1 \x7d await 2"

/-- Both waits are where they may be, and the script tells of its own. The body of a function that is not
async, the recursive one, does not wait. -/
theorem await_where_allowed_both :
    (∃ script, parseScript awaitingSource = .ok script ∧ script.awaits = true ∧
      sitesOfStatements .outside script.body = [⟨.await, .inside true false⟩, ⟨.await, .outside⟩] ∧
      ∀ x ∈ sitesOfStatements .outside script.body, x.isLawful = true) ∧
    ∃ (r : Realm) (f : ObjectId) (closure : Closure), r.Attained ∧
      (r.state.object f).kind = .function (.closure closure) ∧ closure.constructable = true ∧
      ∀ fuel c scope args s', (Exec.evaluateFunction scope closure.node f args (machine fuel) c
        r.state).outcome ≠ some (none, s') := by
  obtain ⟨hsites, -, hbody⟩ := await_where_allowed
  constructor
  · have hread : (parseScript awaitingSource).toOption.any (fun script =>
        sitesOfStatements .outside script.body == [⟨.await, .inside true false⟩, ⟨.await, .outside⟩]) = true := by
      decide +kernel
    cases hscript : parseScript awaitingSource with
    | error => simp [hscript, Except.toOption] at hread
    | ok script =>
      have heq : sitesOfStatements .outside script.body = [⟨.await, .inside true false⟩, ⟨.await, .outside⟩] := by
        simpa [hscript, Except.toOption] using hread
      obtain ⟨hlawful, hawaits⟩ := hsites _ script hscript
      exact ⟨script, rfl, hawaits.mpr ⟨⟨.await, .outside⟩, by simp [heq], nofun, rfl⟩, heq, hlawful⟩
  · obtain ⟨e, r, _, -, hrun, has, hsees⟩ := Trial.recursive.run
    obtain ⟨f, -, hconstructs⟩ := (Option.any_eq_true ..).mp (Bool.and_eq_true_iff.mp hsees).2
    have hr : r.Attained := Realm.attained_shallow.course (fun a ha => (has a ha).1) hrun
    unfold Object.constructs at hconstructs
    split at hconstructs
    · rename_i closure hcallable
      have hkind := Object.callable?_eq hcallable
      exact ⟨r, f, closure, hr, hkind, hconstructs, hbody r hr f closure hkind (.inl hconstructs)⟩
    · exact (Bool.false_ne_true hconstructs).elim

end EcmaScript

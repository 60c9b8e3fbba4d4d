import EcmaScript.Proofs.Level.Realm
import EcmaScript.Proofs.Realm.Sound

/-! What is never asked of the machine, whatever work is done in a realm. Machines that answer certain
requests in ways of their own do that work beside it, and do the same wherever the requests are not made. -/
namespace EcmaScript

/-- What work comes to, and the state it leaves. -/
def Progress.seen {α : Type} : Progress α → Option (Except EvaluationError α × State)
  | .done a r => some (.ok a, r.state)
  | .stopped e r => some (.error e, r.state)
  | .exhausted => none

namespace Realm

/-- A single action whose computations are run by certain machines, one for every measure of fuel. -/
def Action.runBy (machines : Nat → Machine) : Action → Run Unit
  | .begin fuel source script o => do let _ ← Run.begin (machines fuel) source script o
  | .wake => do
    match ← Run.takeReady with
    | none => return
    | some id => Realm.poll id
  | .job fuel c => do
    match ← Run.takeJob with
    | none => return
    | some j => Run.perform (machines fuel) c j
  | .timer fuel c => do
    match ← Run.takeTimer with
    | none => return
    | some t => Run.execute (machines fuel) c (Exec.runTimer t)
  | .report fuel c => Run.execute (machines fuel) c Exec.reportRejections
  | .check fuel c => Run.execute (machines fuel) c Exec.checkInterrupts
  | .raiseFatal => Action.raiseFatal.run
  | .wait time => (Action.wait time).run
  | .configure maxDepth interrupted sinks effectTables =>
    (Action.configure maxDepth interrupted sinks effectTables).run
  | .addScope => Action.addScope.run

/-- Actions by certain machines lead from one realm to another. -/
inductive CourseBy (machines : Nat → Machine) : Realm → List Action → Realm → Prop where
  | nil {r : Realm} : CourseBy machines r [] r
  | cons {r r₁ r' : Realm} {a : Action} {as : List Action}
    (h : (a.runBy machines r).realm? = some r₁) (hs : CourseBy machines r₁ as r') :
    CourseBy machines r (a :: as) r'

/-- Nothing tells two realms apart: whatever is evaluated in the first one by certain machines comes to
the same, with the same state, as in the second one. -/
structure Alike (machines : Nat → Machine) (r' r : Realm) : Prop where
  state : r'.state = r.state
  evaluate : ∀ fuel source o,
    (Run.evaluate (machines fuel) source o r').seen = (Run.evaluate (machine fuel) source o r).seen
  finish : ∀ fuel e, (Run.finish (machines fuel) e r').seen = (Run.finish (machine fuel) e r).seen
  runEventLoop : ∀ fuel,
    (Run.runEventLoop (machines fuel) r').seen = (Run.runEventLoop (machine fuel) r).seen

/-- A realm that evaluations of texts and what follows from them have led to. -/
def Attained (r : Realm) : Prop :=
  ∃ globals as, (∀ g ∈ globals, g.2.object? = none) ∧ (∀ a ∈ as, a.Reads) ∧
    (initial globals).Course as r

/-- Whatever work was done in a realm, requests of a certain kind were not made in it, and will not be
made next: machines that answer them in any other way do the same work. -/
def NeverAsked (bars : Request → State → Prop) : Prop :=
  ∀ (other : Answers) (globals : List (String × Value)) (as : List Action) (r : Realm),
    (∀ g ∈ globals, g.2.object? = none) → (∀ a ∈ as, a.Reads) → (initial globals).Course as r →
      ∃ r', CourseBy (diverted bars other) (initial globals) as r' ∧ Alike (diverted bars other) r' r

end Realm

def Footing.Shallow (L : Footing) : Prop := L.outcomes = none ∧ L.frames.length ≤ max L.maxDepth 1

def Unbarred (bars : Request → State → Prop) : Prop :=
  ∀ (P : Watch) (W : Prop) (r : Request), r.Permitted P W → ∀ L s, L.Shallow → s.Stands L → ¬ bars r s

section
variable {bars : Request → State → Prop} {other : Answers}

theorem Footing.Shallow.push {L : Footing} {frame : Frame} (h : L.Shallow) (hroom : ¬ L.isFull) :
    (L.push frame).Shallow := by
  have hlength : L.frames.length < L.maxDepth := Nat.lt_of_not_le hroom
  exact ⟨h.1, Nat.le_trans hlength (Nat.le_max_left ..)⟩

theorem Unbarred.bears (h : Unbarred bars) (fuel : Nat) :
    (Watch.beside Footing.Shallow True bars other fuel).Bears where
  serves := beside_serves (fun _ W r hr L s hL hs => h _ W r hr L s hL hs)
    (fun _ _ hL hroom => ⟨hL.push hroom, trivial⟩) fuel
  lively := trivial
  ground _ := ⟨rfl, Nat.zero_le _⟩
  resumed _ _ := ⟨rfl, Nat.le_max_right ..⟩
  loose _ hL := hL.1

theorem unbarred_none : Unbarred fun _ _ => False := fun _ _ _ _ _ _ _ _ h => h

noncomputable def Watch.alone (fuel : Nat) : Watch :=
  .beside Footing.Shallow True (fun _ _ => False) (fun _ _ _ => .exhausted) fuel

theorem Watch.alone_bears (fuel : Nat) : (Watch.alone fuel).Bears := (unbarred_none).bears fuel

namespace Step.Abreast
variable {ok : Footing → Prop} {W : Prop} {α : Type} {Q : α → Prop} {L : Footing} {x' x : Step α}

theorem outcome_eq (h : Step.Abreast ok W Q L x' x) : x'.outcome = x.outcome := by
  induction h with
  | parked _ _ ih => exact ih
  | _ => rfl

theorem stands {r : Option (Except Abrupt α)} {s : State} (h : Step.Abreast ok W Q L x' x)
    (hx : x.outcome = some (r, s)) : s.Stands L ∧ (r = none → W) := by
  induction h with
  | value hs | abrupt hs =>
    cases hx
    exact ⟨hs, nofun⟩
  | waiting hw hs =>
    cases hx
    exact ⟨hs, fun _ => hw⟩
  | parked _ _ ih => exact ih hx
  | exhausted => nomatch hx

end Step.Abreast

namespace Progress.Abreast
variable {ok : Footing → Prop} {α : Type} {x' x : Progress α}

theorem seen (h : Progress.Abreast ok x' x) : x'.seen = x.seen := by
  cases h with
  | done h => exact congrArg (fun s => some (_, s)) h.state
  | stopped h => exact congrArg (fun s => some (_, s)) h.state
  | exhausted => rfl

theorem realm? {r : Realm} (h : Progress.Abreast ok x' x) (hr : x.realm? = some r) :
    ∃ r', x'.realm? = some r' ∧ r'.Abreast ok r := by
  cases h with
  | done h => exact Option.some.inj hr ▸ ⟨_, rfl, h⟩
  | stopped h => exact Option.some.inj hr ▸ ⟨_, rfl, h⟩
  | exhausted => nomatch hr

end Progress.Abreast

namespace Realm

theorem Action.abreast (h : Unbarred bars) {a : Action} (ha : a.Reads) :
    Run.Abreast Footing.Shallow (a.runBy (diverted bars other)) a.run := by
  have hP (fuel : Nat) : (Watch.beside Footing.Shallow True bars other fuel).Bears := h.bears fuel
  cases a with
  | «begin» fuel source script o =>
    have hcalm : Calm True (sitesOfStatements .outside script.body) :=
      fun x hx => ⟨(parseScript_records ha).1 x hx, fun _ => trivial⟩
    exact (Run.Abreast.begin (hP fuel) hcalm).bind fun _ => .pure
  | wake =>
    refine .bind .takeReady fun id => ?_
    cases id with
    | none => exact .pure
    | some id => exact .poll (hP 0)
  | job fuel c =>
    refine .bind .takeJob fun j => ?_
    cases j with
    | none => exact .pure
    | some j => exact .perform (hP fuel)
  | timer fuel c =>
    refine .bind .takeTimer fun t => ?_
    cases t with
    | none => exact .pure
    | some t => exact .execute (hP fuel) Exec.runTimer_level
  | report fuel c => exact .execute (hP fuel) Exec.reportRejections_level
  | check fuel c => exact .execute (hP fuel) Exec.checkInterrupts_level
  | raiseFatal => exact .raiseFatal
  | wait time => exact .waitUntil
  | configure maxDepth interrupted sinks effectTables =>
    unfold Action.runBy Action.run
    exact .change fun s hs => hs.aside rfl rfl
  | addScope =>
    unfold Action.runBy Action.run
    exact .change fun s hs => hs.aside rfl rfl

theorem Course.abreast (h : Unbarred bars) {r r₁ : Realm} {as : List Action} (hc : r.Course as r₁)
    (has : ∀ a ∈ as, a.Reads) {r' : Realm} (hr : r'.Abreast Footing.Shallow r) :
    ∃ r₁', r'.CourseBy (diverted bars other) as r₁' ∧ r₁'.Abreast Footing.Shallow r₁ := by
  induction hc generalizing r' with
  | nil => exact ⟨r', .nil, hr⟩
  | cons hstep _ ih =>
    obtain ⟨ha, has⟩ := List.forall_mem_cons.mp has
    obtain ⟨r₂', hstep', hr₂⟩ := (Action.abreast h ha r' _ hr).realm? hstep
    obtain ⟨r₁', hc', hr₁⟩ := ih has hr₂
    exact ⟨r₁', .cons hstep' hc', hr₁⟩

theorem Abreast.alike (h : Unbarred bars) {r' r : Realm} (hr : r'.Abreast Footing.Shallow r) :
    Alike (diverted bars other) r' r where
  state := hr.state
  evaluate fuel _ _ := (Run.Abreast.evaluate (h.bears fuel) r' r hr).seen
  finish fuel _ := (Run.Abreast.finish (h.bears fuel) r' r hr).seen
  runEventLoop fuel := (Run.Abreast.runEventLoop (h.bears fuel) r' r hr).seen

theorem initial_abreast {ok : Footing → Prop} {globals : List (String × Value)}
    (hg : ∀ g ∈ globals, g.2.object? = none) : (initial globals).Abreast ok (initial globals) :=
  ⟨Eq.refl _, (initial_laid hg).idle, .nil⟩

theorem neverAsked (h : Unbarred bars) : NeverAsked bars := by
  intro other globals as r hg has hc
  obtain ⟨r', hc', hr⟩ := Course.abreast h hc has (initial_abreast hg)
  exact ⟨r', hc', hr.alike h⟩

namespace Attained
variable {r : Realm}

theorem initial : (initial []).Attained := ⟨[], [], List.forall_mem_nil _, List.forall_mem_nil _, .nil⟩

theorem course {r' : Realm} {as : List Action} (h : r.Attained) (has : ∀ a ∈ as, a.Reads)
    (hc : r.Course as r') : r'.Attained := by
  obtain ⟨globals, as₀, hg, has₀, hc₀⟩ := h
  exact ⟨globals, as₀ ++ as, hg, List.forall_mem_append.mpr ⟨has₀, has⟩, hc₀.append hc⟩

theorem consists {α : Type} {x : Run α} {r' : Realm} {ok : Action → Prop}
    {halts : EvaluationError → Prop} (h : r.Attained) (hx : x.Consists ok halts r)
    (hok : ∀ a, ok a → a.Reads) (hr : (x r).realm? = some r') : r'.Attained := by
  obtain ⟨as, hc, has⟩ := hx.course r' hr
  exact h.course (fun a ha => hok a (has a ha)) hc

theorem idle (h : r.Attained) : r.state.Idle := by
  obtain ⟨globals, as, hg, has, hc⟩ := h
  obtain ⟨r', -, hr⟩ : ∃ r', CourseBy (diverted (fun _ _ => False) fun _ _ _ => .exhausted)
      (Realm.initial globals) as r' ∧ r'.Abreast Footing.Shallow r :=
    Course.abreast unbarred_none hc has (initial_abreast hg)
  exact hr.idle

end Attained

theorem attained_plain : plain.Attained := Attained.initial.course (by simp [Action.Reads]) course_plain

end Realm
end
end EcmaScript

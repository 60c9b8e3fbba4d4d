import EcmaScript.Proofs.Safety.Course

/-! A condition that arises ends everything that runs: nothing that code could do about errors comes
in between. Only what iterators do when they are told of an error is not covered. -/
namespace EcmaScript

namespace Step
variable {α : Type}

def withheld : Step α → Step α
  | .parked id slot frame resume s next =>
    .parked id slot frame resume s fun s => (next s).withheld
  | _ => .exhausted

end Step

/-- A request at some moment. -/
structure Query where
  request : Request
  context : Context
  state : State

noncomputable def Machine.without (m : Machine) (q : Query) : Machine where
  fuel := m.fuel
  run r c s := open Classical in if q = ⟨r, c, s⟩ then (m.run r c s).withheld else m.run r c s

def Exec.Asks {α : Type} (x : Exec α) (m : Machine) (c : Context) (s : State) (q : Query) : Prop :=
  (x m c s).outcome ≠ none ∧ (x (m.without q) c s).outcome = none

/-- A condition arises in the state `s'` while a computation runs from the state `s` on: it halts
itself, or the condition arises in something that it asks for. What iterators do when they are told
of an error is left out. -/
inductive Raises (k : Condition) (s' : State) :
    (fuel : Nat) → {α : Type} → Exec α → Context → State → Prop where
  | halts {fuel : Nat} {α : Type} {x : Exec α} {c c' : Context} {s : State}
    (h : x.Asks (machine (fuel + 1)) c s ⟨.halt k, c', s'⟩) : Raises k s' (fuel + 1) x c s
  | within {fuel : Nat} {α : Type} {x : Exec α} {c c' : Context} {s s₁ : State} {r : Request}
    (h : x.Asks (machine (fuel + 1)) c s ⟨r, c', s₁⟩) (hr : ∀ source, r ≠ .abandon source)
    (hn : Raises k s' fuel (Exec.answer r) c' s₁) : Raises k s' (fuel + 1) x c s

/-- How a computation ends in which a condition has arisen. If the world is quiet, the condition is
its outcome, and only the call stack is not what it was. -/
def EndsBy (k : Condition) (s' : State) : Endings := fun quiet k' s =>
  quiet → k' = k ∧ s'.fatal = none ∧ ∃ stack, s = { s' with stack }

namespace Runs
variable {α : Type} {E F : Endings} {O : Held → Prop} {Q : α → World → Prop} {w : World}
  {x x' : Step α}

theorem loosen (h : Runs F O Q w x' x) (hE : ∀ q k s, F q k s → E q k s) : Runs E O Q w x' x := by
  induction h with
  | value h ho hq => exact .value h ho hq
  | abrupt h ho he => exact .abrupt h ho he
  | ended h ho hk => exact .ended h ho ⟨hk.1, hE _ _ _ hk.2⟩
  | waiting h hopen ho _ ih => exact .waiting h hopen ho ih
  | parked h hT hc hopen ht _ ih => exact .parked h hT hc hopen ht ih
  | exhausted => exact .exhausted

theorem withheld {k : Condition} {s : State} (h : Runs (fun _ _ _ => False) O Q w x' x)
    (hx : x.outcome = some (some (.error (.condition k)), s)) (hE : E w.quiet k s) :
    Runs E O Q w x'.withheld x := by
  induction h with
  | value => simp [Step.outcome] at hx
  | abrupt h ho he =>
    simp only [Step.outcome, Option.some.injEq, Prod.mk.injEq, Except.error.injEq] at hx
    obtain ⟨rfl, rfl⟩ := hx
    exact .ended h ho ⟨he, h.quiet_eq ▸ hE⟩
  | ended _ _ hk => exact hk.2.elim
  | waiting => simp [Step.outcome] at hx
  | parked h hT hc hopen ht _ ih =>
    exact .parked h hT hc hopen ht (ih hx (quiet_resumed h hc ▸ hE))
  | exhausted => exact .exhausted

theorem outcome (h : Runs E O Q w x' x) (hx' : x'.outcome = none) (hx : x.outcome ≠ none) :
    ∃ k s, x.outcome = some (some (.error (.condition k)), s) ∧ E w.quiet k s := by
  induction h with
  | value => simp [Step.outcome] at hx'
  | abrupt => simp [Step.outcome] at hx'
  | ended h _ hk => exact ⟨_, _, rfl, h.quiet_eq ▸ hk.2⟩
  | waiting => simp [Step.outcome] at hx'
  | parked h _ hc _ _ _ ih => exact quiet_resumed h hc ▸ ih hx' hx
  | exhausted => simp [Step.outcome] at hx

end Runs

section Without
variable {m : Machine} {q : Query} {E : Endings}

theorem Machine.without_run_of_ne {r : Request} {c : Context} {s : State}
    (h : q ≠ ⟨r, c, s⟩) : (m.without q).run r c s = m.run r c s := by
  simp [without, h]

/-- A machine that withholds an answer, beside the machine that gives it. -/
theorem serves_without [Serves (.same m)]
    (hstack : ∀ {q k s} stack, E q k s → E q k { s with stack })
    (htaken : ∀ {q : Prop} {k k' : Condition} {s : State}, E q k s → (q → s.fatal = none) →
      s.fatal.or (some k) = some k' → E q k' { s with fatal := none })
    (hr : ∀ source, q.request ≠ .abandon source)
    (h : ∀ w : World, w.state = q.state → w.Fits q.context → w.Inv → q.request.Allowed w →
      ∃ k s, (m.run q.request q.context q.state).outcome = some (some (.error (.condition k)), s) ∧
        E w.quiet k s) : Serves ⟨m, m.without q, E⟩ where
  real := Serves.real (P := .same m)
  fuel := rfl
  answers r c w hallowed := by
    intro hc hw
    have hsame := Serves.answers (P := .same m) r c w hallowed hc hw
    by_cases hq : q = ⟨r, c, w.state⟩
    · subst hq
      obtain ⟨k, s, hk, hE⟩ := h w rfl hc hw hallowed
      have hrun := Runs.withheld (E := E) hsame hk hE
      simpa [Exec.request, Machine.without, Pairing.same] using hrun
    · have hrun := Runs.loosen (E := E) hsame fun _ _ _ hk => hk.elim
      simpa [Exec.request, Machine.without_run_of_ne hq, Pairing.same] using hrun
  abandons source c w hs := by
    intro hc hw
    have hsame := Serves.abandons (P := .same m) source c w hs hc hw
    have hq : q ≠ ⟨.abandon source, c, w.state⟩ := fun he => hr source (he ▸ rfl)
    simpa [Exec.request, Machine.without_run_of_ne hq, Pairing.same, Pairing.locked] using hsame
  stack := hstack
  taken := htaken

end Without

section Ends
variable {k k' : Condition} {s s' : State} {quiet : Prop}

theorem EndsBy.stack (stack : List Frame) (h : EndsBy k s' quiet k' s) :
    EndsBy k s' quiet k' { s with stack } := by
  intro hq
  obtain ⟨rfl, hnone, stack', rfl⟩ := h hq
  exact ⟨rfl, hnone, stack, rfl⟩

theorem EndsBy.taken {k₁ : Condition} (h : EndsBy k s' quiet k' s) (hs : quiet → s.fatal = none)
    (hk : s.fatal.or (some k') = some k₁) : EndsBy k s' quiet k₁ { s with fatal := none } := by
  intro hq
  rw [hs hq] at hk
  obtain ⟨rfl, hnone, stack, rfl⟩ := h hq
  refine ⟨by simpa using hk.symm, hnone, stack, ?_⟩
  rw [← hnone]

/-- By induction on how deep the condition arises. One request is withheld at each level; the answer
to it ends with the condition, so the computation that makes the request does as well. -/
theorem Raises.ends {fuel : Nat} {α : Type} {x : Exec α} {c : Context}
    (h : Raises k s' fuel x c s) {w : World} {Q : α → World → Prop}
    (hx : ∀ P [Serves P], Safe P c w x Q) (hs : w.state = s) (hc : w.Fits c) (hw : w.Inv) :
    ∃ k₁ s₁, (x (machine fuel) c s).outcome = some (some (.error (.condition k₁)), s₁) ∧
      EndsBy k s' w.quiet k₁ s₁ := by
  induction h generalizing w with
  | @halts fuel _ x c c' s h =>
    subst hs
    have hserves := serves_without (m := machine (fuel + 1)) (q := ⟨.halt k, c', s'⟩) (E := EndsBy k s')
      EndsBy.stack EndsBy.taken (by simp) fun w' hs' _ hw' _ =>
        ⟨k, s', rfl, fun hq => ⟨rfl, by simpa [hs'] using hw'.quiet hq, _, rfl⟩⟩
    exact (@hx _ hserves hc hw).outcome h.2 h.1
  | @within fuel _ x c c' s s₁ r h hr _ ih =>
    subst hs
    have hserves := serves_without (m := machine (fuel + 1)) (q := ⟨r, c', s₁⟩) (E := EndsBy k s')
      EndsBy.stack EndsBy.taken hr fun w' hs' hc' hw' ha =>
        ih (fun P _ => answer_safe ha) hs' hc' hw'
    exact (@hx _ hserves hc hw).outcome h.2 h.1

end Ends

end EcmaScript

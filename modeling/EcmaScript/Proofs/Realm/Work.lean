import EcmaScript.Realm.Evaluate
import EcmaScript.Proofs.Realm.Task
import EcmaScript.Proofs.Safety.Course

/-! Work in a realm in which no code runs: what is put together of safe computations keeps all in
order, and is a sequence of events. -/
namespace EcmaScript
open Exec

/-! The evaluation of a script is safe. -/

section Script
variable {m : Machine} {c : Context} {w : World} [Serves (.same m)]

theorem record_safe {P : Pairing} {slot : Nat} {result : Except EvaluationError Value}
    (hr : Met w result) : Safe P c w (record slot result) Known :=
  .change (fun hw => .of_act (.outcomes (within_setIfInBounds hw.closed.outcomes hr))) fun _ => trivial

theorem scriptValue_safe {scope : ScopeId} {body : List Statement} :
    Safe (.same m) c w (do
      match ← evaluateStatements scope body none with
      | .normal v => return v.getD .undefined
      | .return v => return v
      | _ => return .undefined) Known := by
  refine .bind (evaluateStatements_safe trivial) fun completion w₁ _ hc => ?_
  cases completion with
  | normal v =>
    cases v with
    | none => exact .pure trivial
    | some v => exact .pure hc
  | «return» v => exact .pure hc
  | _ => exact .pure trivial

theorem evaluateScript_safe {scope : ScopeId} {body : List Statement} (hs : w.ownsScope scope) :
    Safe (.same m) c w (evaluateScript scope body) Known := by
  refine .look_bind fun _ => .ite (fun _ => ?_) fun _ => ?_
  · exact .bind (hoistGlobal_safe hs) fun _ _ _ _ => scriptValue_safe
  · exact .bind (hoistVars_safe hs) fun _ _ _ _ => scriptValue_safe

theorem evaluateInto_safe {slot : Nat} {scope : ScopeId} {body : List Statement}
    (hs : w.ownsScope scope) : Safe (.same m) c w (evaluateInto slot scope body) Known := by
  refine .attempt (evaluateScript_safe hs) (fun _ _ _ _ hk => hk.2.elim)
    (fun v w₁ _ hv => record_safe hv) fun e w₁ _ he => ?_
  refine .bind (onFrameExit_safe he) fun e w₂ _ he => ?_
  exact .bind (uncaught_safe he) fun e w₃ _ he => record_safe he

end Script

/-- Ordinary work in a realm leads from one state of affairs to another. It is a sequence of ordinary
events, after which a dry run drops what it has left. -/
structure Came (wet : Prop) (w : World) (parked : List ParkedTask) (w' : World) (r' : Realm) : Prop
    extends Works w parked w' r'.tasks where
  state : w'.state = r'.state
  history : ∃ es, History w.state es r'.state ∧
    ∀ e ∈ es, e.isOrdinary = true ∨ ¬ wet ∧ e.isDiscard = true

namespace Came
variable {wet : Prop} {w w₁ w₂ : World} {parked : List ParkedTask} {r₁ r₂ : Realm}

theorem refl (hw : w.Rests) (ht : ∃ O, w.Tends O parked) : Came wet w parked w ⟨w.state, parked⟩ where
  toWorks := .refl hw ht
  state := rfl
  history := ⟨[], .nil, by simp⟩

theorem trans (h : Came wet w parked w₁ r₁) (h' : Came wet w₁ r₁.tasks w₂ r₂) :
    Came wet w parked w₂ r₂ where
  toWorks := h.toWorks.trans h'.toWorks
  state := h'.state
  history := by
    obtain ⟨es, hes, ho⟩ := h.history
    obtain ⟨es', hes', ho'⟩ := h'.history
    refine ⟨es ++ es', hes.append (h.state ▸ hes'), fun e he => ?_⟩
    rcases List.mem_append.mp he with he | he
    · exact ho e he
    · exact ho' e he

theorem ordinary (h : Came True w parked w₁ r₁) :
    ∃ es, History w.state es r₁.state ∧ ∀ e ∈ es, e.isOrdinary = true :=
  h.history.imp fun _ hes => ⟨hes.1, fun e he => (hes.2 e he).resolve_right fun hd => hd.1 trivial⟩

theorem eq (h : Came wet w parked w₁ r₁) : r₁ = ⟨w₁.state, r₁.tasks⟩ := by
  rw [h.state]

theorem of_acts (hw : w.Rests) (ht : ∃ O, w.Tends O parked) (h : Acts w w₁) (hown : w₁.own = w.own) :
    Came wet w parked w₁ ⟨w₁.state, parked⟩ := by
  obtain ⟨O, ht⟩ := ht
  obtain ⟨es, hes⟩ := h.onward hw.inv
  exact {
    toWorks := .of_goes (.of_onward hes ht) hw (hown.trans hw.own)
    state := rfl
    history := ⟨es, hes.history, fun e he => .inl (hes.ordinary hw.tracked hw.filling e he)⟩ }

end Came

theorem Realm.follow_ne_stopped {α : Type} {x : Step α} {parked : List ParkedTask}
    {e : EvaluationError} {r : Realm} : Realm.follow x parked ≠ .stopped e r := by
  induction x generalizing parked with
  | parked _ _ _ _ _ _ ih => exact ih _
  | _ => nofun

namespace Run
variable {α β : Type} {wet : Prop} {w : World} {parked : List ParkedTask}

/-- Work keeps all in order: its value satisfies `Q`, and it stops for nothing that could not have
come of the running code. -/
def Plain (wet : Prop) (x : Run α) (w : World) (parked : List ParkedTask)
    (Q : α → World → Prop) : Prop :=
  match x ⟨w.state, parked⟩ with
  | .done a r' => ∃ w', Came wet w parked w' r' ∧ Q a w'
  | .stopped e r' => ∃ w', Came wet w parked w' r' ∧ Met w' e
  | .exhausted => True

namespace Plain
variable {x : Run α} {Q : α → World → Prop} {Q' : β → World → Prop} {r' : Realm}

theorem done {a : α} (h : x.Plain wet w parked Q) (hx : x ⟨w.state, parked⟩ = .done a r') :
    ∃ w', Came wet w parked w' r' ∧ Q a w' := by
  rwa [Plain, hx] at h

theorem stopped {e : EvaluationError} (h : x.Plain wet w parked Q)
    (hx : x ⟨w.state, parked⟩ = .stopped e r') : ∃ w', Came wet w parked w' r' ∧ Met w' e := by
  rwa [Plain, hx] at h

variable (hw : w.Rests) (ht : ∃ O, w.Tends O parked)
include hw ht

theorem pure {a : α} (h : Q a w) : (Pure.pure a : Run α).Plain wet w parked Q := ⟨w, .refl hw ht, h⟩

theorem stop {e : EvaluationError} (he : Met w e) : (Run.stop e : Run α).Plain wet w parked Q :=
  ⟨w, .refl hw ht, he⟩

theorem look {f : State → α} (h : Q (f w.state) w) : (Run.look f).Plain wet w parked Q :=
  ⟨w, .refl hw ht, h⟩

theorem update {f : State → α × State} (h : Acts w { w with state := (f w.state).2 })
    (hq : Q (f w.state).1 { w with state := (f w.state).2 }) : (Run.update f).Plain wet w parked Q :=
  ⟨{ w with state := (f w.state).2 }, .of_acts hw ht h rfl, hq⟩

theorem change {f : State → State} {Q : Unit → World → Prop}
    (h : Acts w { w with state := f w.state }) (hq : Q () { w with state := f w.state }) :
    (Run.change f).Plain wet w parked Q :=
  ⟨{ w with state := f w.state }, .of_acts hw ht h rfl, hq⟩

omit hw ht in
theorem bind {f : α → Run β} (hx : x.Plain wet w parked Q)
    (hf : ∀ a w' parked', Grows w w' → w'.Rests → (∃ O, w'.Tends O parked') → Q a w' →
      (f a).Plain wet w' parked' Q') : (x >>= f).Plain wet w parked Q' := by
  show match Run.bind x f ⟨w.state, parked⟩ with
    | .done a r' => ∃ w', Came wet w parked w' r' ∧ Q' a w'
    | .stopped e r' => ∃ w', Came wet w parked w' r' ∧ Met w' e
    | .exhausted => True
  unfold Run.bind
  cases hx' : x ⟨w.state, parked⟩ with
  | done a r₁ =>
    obtain ⟨w₁, hc, hq⟩ := hx.done hx'
    have hrest := hf a w₁ r₁.tasks hc.toGrows hc.rests hc.tends hq
    unfold Plain at hrest
    rw [hc.eq]
    dsimp only
    generalize f a ⟨w₁.state, r₁.tasks⟩ = p at hrest
    cases p with
    | done b r₂ =>
      obtain ⟨w', hc', hq'⟩ := hrest
      exact ⟨w', hc.trans hc', hq'⟩
    | stopped e r₂ =>
      obtain ⟨w', hc', he⟩ := hrest
      exact ⟨w', hc.trans hc', he⟩
    | exhausted => trivial
  | stopped e r₁ => exact hx.stopped hx'
  | exhausted => trivial

theorem attempt {m : Machine} [Serves (.same m)] {c : Context} {x : Exec α}
    (hx : Safe (.same m) c w x Q) :
    (Run.attempt m c x).Plain wet w parked fun r w' => (∀ a, r = .ok a → Q a w') ∧
      ∀ e, r = .error e → Met w' e := by
  have hruns := hx (fun d hd => by rw [show w.dry = none from hw.isOpen] at hd; cases hd) hw.inv
  unfold Plain Run.attempt
  dsimp only
  generalize hf : Realm.follow (x m c w.state) parked = p
  cases p with
  | done r r' =>
    obtain ⟨es, w', hgoes, hs, hown, hq⟩ := Realm.follow_goes hruns hw.inv ht hf
    refine ⟨w', { Works.of_goes hgoes hw (hown.trans hw.own) with
      state := hs
      history := ⟨es, hs ▸ hgoes.history, fun e he =>
        .inl (hgoes.ordinary hw.tracked hw.filling e he)⟩ }, hq⟩
  | stopped e r' => exact absurd hf Realm.follow_ne_stopped
  | exhausted => trivial

theorem stopFor {e : Abrupt} (he : Met w e) : (Run.stopFor e : Run α).Plain wet w parked Q := by
  cases e with
  | _ => exact ⟨w, .refl hw ht, he⟩

theorem execute {m : Machine} [Serves (.same m)] {c : Context} {x : Exec α}
    (hx : Safe (.same m) c w x Q) : (Run.execute m c x).Plain wet w parked Q := by
  refine .bind (.attempt hw ht hx) fun r w' parked' _ hw' ht' hr => ?_
  cases r with
  | ok a => exact .pure hw' ht' (hr.1 a rfl)
  | error e => exact .stopFor hw' ht' (hr.2 e rfl)

theorem raiseFatal {Q : Unit → World → Prop} (hq : ∀ w', Grows w w' → Q () w') :
    Run.raiseFatal.Plain wet w parked Q := by
  refine .bind (Q := fun k w' => Met w' k ∧ Q () w') (.update hw ht (.of_act .takeFatal) ⟨?_, ?_⟩)
    fun k w' parked' _ hw' ht' hk => ?_
  · exact (Acts.of_act .takeFatal).grows.met hw.inv.closed.fatal
  · exact hq _ (Acts.of_act .takeFatal).grows
  · cases k with
    | none => exact .pure hw' ht' hk.2
    | some k => exact .stop hw' ht' hk.1

end Plain
end Run
end EcmaScript

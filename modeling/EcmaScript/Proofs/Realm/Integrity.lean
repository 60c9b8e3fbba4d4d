import EcmaScript.Proofs.Frozen
import EcmaScript.Proofs.Realm.Sound

/-! What holds of the objects of a realm, whatever was evaluated in it. Their prototypes make no cycle, so that every
way along them ends; what is fixed in an object stays so. -/
namespace EcmaScript
open Exec

def State.Knows (s : State) {α : Type} [Mentions α] (a : α) : Prop :=
  ∀ K : Sight, within K s → within K a

/-- What code can ask for. Objects are made, get a prototype or change it on the way. -/
inductive Operation where
  | evaluate (scope : ScopeId) (e : Expr)
  | execute (scope : ScopeId) (st : Statement) (labels : List String)
  | defineClass (scope : ScopeId) (node : ClassNode) (name : String)
  | call (f this : Value) (args : Array Value)
  | construct (f : Value) (args : Array Value) (newTarget : Value)
  | setPrototype (id : ObjectId) (prototype : Option ObjectId)

namespace Operation

def run : Operation → Exec Unit
  | evaluate scope e => do let _ ← evaluateExpression scope e
  | execute scope st labels => do let _ ← evaluateStatement scope st labels
  | defineClass scope node name => do let _ ← Exec.defineClass scope node name
  | call f this args => do let _ ← Exec.callFunction f this args
  | construct f args newTarget => do let _ ← Exec.constructWith f args newTarget
  | setPrototype id prototype => do let _ ← Exec.setPrototype id prototype

/-- The objects that an operation is about are in sight. -/
def Within (K : Sight) : Operation → Prop
  | call f this args => within K (f, this, args)
  | construct f args newTarget => within K (f, args, newTarget)
  | setPrototype _ prototype => within K prototype
  | _ => True

def From (s : State) (op : Operation) : Prop := ∀ K : Sight, within K s → op.Within K

theorem run_safe {P : Pairing} [Serves P] {c : Context} {w : World} {op : Operation}
    (h : op.Within w.knows) : Safe P c w op.run Known := by
  cases op with
  | evaluate scope e => exact .bind evaluateExpression_safe fun _ _ _ _ => .pure trivial
  | execute scope st labels => exact .bind evaluateStatement_safe fun _ _ _ _ => .pure trivial
  | defineClass scope node name => exact .bind defineClass_safe fun _ _ _ _ => .pure trivial
  | call f this args =>
    obtain ⟨hf, hthis, ha⟩ := h
    exact .bind (callFunction_safe hf hthis ha) fun _ _ _ _ => .pure trivial
  | construct f args newTarget =>
    obtain ⟨hf, ha, hn⟩ := h
    exact .bind (constructWith_safe hf ha hn) fun _ _ _ _ => .pure trivial
  | setPrototype id prototype => exact .bind (setPrototype_safe h) fun _ _ _ _ => .pure trivial

end Operation

/-- The states that operations lead to, one after the other. It makes no difference whether one ends or
has to wait. -/
inductive Realm.Visits (r : Realm) : State → Prop where
  | rest : r.Visits r.state
  | step {s s' : State} {n : Nat} {c : Context} {op : Operation} {o : Option (Except Abrupt Unit)}
    (h : r.Visits s) (hop : op.From s) (ho : (op.run (machine n) c s).outcome = some (o, s')) :
    r.Visits s'

/-- The prototypes make no cycle, and a search along them is over before its fuel is. -/
structure State.Grounded (s : State) : Prop where
  acyclic : s.Acyclic
  ends : ∀ id, s.ancestor? (s.heap.size + 1) id = none
  peek : ∀ id key fuel, s.heap.size + 1 ≤ fuel → s.peekFrom key fuel id = s.peek id key
  lookup : ∀ id key fuel, s.heap.size + 1 ≤ fuel → s.lookupFrom key fuel id = s.lookup id key

theorem World.Inv.grounded {w : World} (hw : w.Inv) (ht : w.tracked) : w.state.Grounded := by
  have hrooted := Act.rooted hw.closed ht
  have hends (id : ObjectId) : w.state.ancestor? (w.state.heap.size + 1) id = none :=
    (hw.acyclic ht).ends hrooted
  exact {
    acyclic := hw.acyclic ht
    ends := hends
    peek := fun id _ _ hn => State.peekFrom_of_ends (hends id) hn
    lookup := fun id _ _ hn => State.lookupFrom_of_ends (hends id) hn }

theorem Runs.inv_of_outcome {E : Endings} {O : Held → Prop} {α : Type} {Q : α → World → Prop}
    {w : World} {x x' : Step α} {r : Option (Except Abrupt α)} {s : State} (h : Runs E O Q w x' x)
    (hw : w.Inv) (hx : x.outcome = some (r, s)) :
    ∃ w' : World, w'.Inv ∧ w'.state = s ∧ w'.tracked = w.tracked ∧ w'.dry = w.dry := by
  induction h with
  | value h | abrupt h | ended h | waiting h =>
    cases hx
    exact ⟨_, h.inv hw, rfl, h.grows.tracked, h.grows.dry⟩
  | @parked w w₁ w₂ T _ _ _ _ _ _ _ h hT hc _ _ _ ih =>
    obtain ⟨w', hinv, hs, ht, hd⟩ := ih (World.resumed_inv (h.inv hw) hT hc) hx
    have hg := h.grows.trans (World.resumed_grows hc)
    exact ⟨w', hinv, hs, ht.trans hg.tracked, hd.trans hg.dry⟩
  | exhausted => cases hx

theorem Realm.Visits.world {r : Realm} {s : State} (hs : r.Visits s) (hr : r.Reachable) :
    ∃ w : World, w.Inv ∧ w.state = s ∧ w.tracked ∧ w.isOpen := by
  induction hs with
  | rest =>
    obtain ⟨w, hw, hs, -⟩ := hr.sound
    exact ⟨w, hw.inv, hs, hw.tracked, hw.isOpen⟩
  | @step s s' n c op o _ hop ho ih =>
    obtain ⟨w, hw, rfl, ht, hopen⟩ := ih
    have hruns := Operation.run_safe (P := .same (machine n)) (c := c) (hop _ hw.closed)
      (fun d hd => by rw [show w.dry = none from hopen] at hd; cases hd) hw
    obtain ⟨w', hw', hs', ht', hd'⟩ := hruns.inv_of_outcome hw ho
    exact ⟨w', hw', hs', ht' ▸ ht, hd'.trans hopen⟩

/-- In a realm that any sequence of evaluations has led to, and in every state that operations lead to
from there, the prototypes make no cycle. -/
theorem prototypes_acyclic {r : Realm} (hr : r.Reachable) {s : State} (hs : r.Visits s) :
    s.Grounded := by
  obtain ⟨w, hw, rfl, ht, -⟩ := hs.world hr
  exact hw.grounded ht

/-- A new realm in which an object without a prototype has been made. -/
theorem grounded_after_literal : ∃ s, (Realm.initial []).Visits s ∧
    (s.object ⟨(Realm.initial []).state.heap.size⟩).prototype = none ∧ s.Grounded := by
  -- It is shown of any realm, so that the new one need not be computed.
  have hgrounded {r : Realm} (hr : r.Reachable) : ∃ s, r.Visits s ∧
      (s.object ⟨r.state.heap.size⟩).prototype = none ∧ s.Grounded := by
    let literal : Expr := .mk default (.object [.property (.fixed "__proto__") (.mk default .null) false])
    let heap := r.state.heap.push { prototype := some r.state.intrinsics.objectPrototype }
    let made : State := { r.state with
      heap := heap.modify r.state.heap.size fun o => { o with prototype := none } }
    let op : Operation := .evaluate ⟨0⟩ literal
    have hfrom : op.From r.state := fun _ _ => trivial
    have hmade : (op.run (machine 1) default r.state).outcome = some (some (.ok ()), made) := rfl
    have hvisits : r.Visits made := .step .rest hfrom hmade
    refine ⟨made, hvisits, ?_, prototypes_acyclic hr hvisits⟩
    simp [made, heap, State.object, Array.getElem_modify]
  exact hgrounded Realm.reachable_initial

end EcmaScript

/-! Whatever is done in a realm, what is fixed in an object stays so, and an object that was frozen stays
frozen. -/
namespace EcmaScript
open Exec

/-- What can be done while one looks at an object: operations on it and on others, writes to variables,
among which the parameters are that an arguments object shares, and all that code can ask for. -/
inductive Deed where
  | method (id : ObjectId) (m : Method)
  | assign (scope : ScopeId) (name : String) (v : Value)
  | operation (op : Operation)

namespace Deed

def run : Deed → Exec Unit
  | method id m => do let _ ← m.run id
  | assign scope name v => assignName scope name v
  | operation op => op.run

theorem run_safe {P : Pairing} [Serves P] {c : Context} {s : State} (deed : Deed) :
    Safe P c (.bare s) deed.run Known := by
  cases deed with
  | method id m => exact .bind m.run_safe fun _ _ _ _ => .pure trivial
  | assign scope name v => exact assignName_safe World.met_bare
  | operation op =>
    refine Operation.run_safe ?_
    cases op with
    | call | construct | setPrototype => exact World.met_bare
    | _ => trivial

end Deed

/-- One thing after the other is done. It makes no difference whether one ends or has to wait. -/
inductive State.Evolves (s : State) : State → Prop where
  | refl : s.Evolves s
  | step {s₁ s₂ : State} {n : Nat} {c : Context} {deed : Deed} {o : Option (Except Abrupt Unit)}
    (h : s.Evolves s₁) (ho : (deed.run (machine n) c s₁).outcome = some (o, s₂)) : s.Evolves s₂

theorem State.Evolves.ordinary {s s' : State} {id : ObjectId} (h : s.Evolves s') (ho : s.Ordinary id) :
    s'.Ordinary id ∧ s.Preserves s' id := by
  induction h with
  | refl => exact ⟨ho, .refl⟩
  | @step s₁ s₂ n c deed o _ hstep ih =>
    obtain ⟨ho₁, hkept⟩ := ih
    obtain ⟨ho₂, hkept'⟩ := (Leads.of_safe deed.run_safe hstep).ordinary ho₁
    exact ⟨ho₂, hkept.trans hkept'⟩

theorem Realm.Visits.ordinary {r : Realm} (hr : r.Reachable) {s : State} (hs : r.Visits s)
    {id : ObjectId} (hk : s.Knows id) (hproxy : (s.object id).isProxy = false) : s.Ordinary id := by
  obtain ⟨w, hw, rfl, ht, -⟩ := hs.world hr
  obtain ⟨hsize, -, hsecret⟩ := hk _ hw.closed ht
  exact ⟨hsize, hproxy, hw.mapped ht id, fun h => hsecret (.inl h)⟩

/-- From any state that operations lead to in a realm, whatever is done: what an object that is no proxy
has fixed stays, and after it was frozen, it is found to be frozen, and every look at a property finds
the same. -/
theorem integrity_monotone {r : Realm} (hr : r.Reachable) {s : State} (hs : r.Visits s)
    {id : ObjectId} (hk : s.Knows id) (hproxy : (s.object id).isProxy = false) {s₁ : State}
    (h : s.Evolves s₁) :
    (∀ s₂, s₁.Evolves s₂ → s₁.Preserves s₂ id) ∧
    ∀ n c s₂ s₃, (setIntegrity id .frozen).Gives (machine n) c s₁ true s₂ → s₂.Evolves s₃ → ∀ m c',
      (testIntegrity id .frozen).Gives m c' s₃ true s₃ ∧
      ∀ key, ∃ p?, (getOwn id key).Gives m c' s₃ p? s₃ ∧
        p?.map Property.toDescriptor = (s₂.ownProperty? id key).map Property.toDescriptor := by
  have ho₁ := (h.ordinary (hs.ordinary hr hk hproxy)).1
  refine ⟨fun s₂ h₂ => (h₂.ordinary ho₁).2, fun n c s₂ s₃ hfreeze h₃ m c' => ?_⟩
  have hfrozen : s₂.Frozen id := setIntegrity_freezes hfreeze ho₁
  have ho₂ := ((leads_of_gives setIntegrity_safe hfreeze).ordinary ho₁).1
  obtain ⟨ho₃, hkept⟩ := h₃.ordinary ho₂
  obtain ⟨hfrozen₃, hsame⟩ := hkept.frozen hfrozen
  exact ⟨testIntegrity_frozen hfrozen₃ ho₃.isProxy, fun key =>
    ⟨_, (gives_value (getOwn_ordinary ho₃.isProxy)).mpr ⟨rfl, rfl⟩, hsame key⟩⟩

theorem State.Laid.isProxy_eq {s : State} (h : s.Laid) (id : ObjectId) :
    (s.object id).isProxy = false := by
  have hk := h.kind_isBasic id
  unfold Object.isProxy
  cases hkind : (s.object id).kind with
  | proxy p =>
    rw [hkind] at hk
    cases hk
  | _ => rfl

/-- The global object of a new realm was closed; it gains no property any more. -/
theorem preserved_after_close : ∃ s₁, (Realm.initial []).state.Evolves s₁ ∧
    (s₁.object (Realm.initial []).state.globalObject).extensible = false ∧
    ∀ s₂, s₁.Evolves s₂ → s₁.Preserves s₂ (Realm.initial []).state.globalObject := by
  -- It is shown of any realm, so that the new one need not be computed.
  have hclose (r : Realm) (hr : r.Reachable) (hl : r.state.Laid) :
      ∃ s₁, r.state.Evolves s₁ ∧ (s₁.object r.state.globalObject).extensible = false ∧
        ∀ s₂, s₁.Evolves s₂ → s₁.Preserves s₂ r.state.globalObject := by
    have hproxy := hl.isProxy_eq r.state.globalObject
    have hsize : r.state.globalObject.index < r.state.heap.size := by
      rw [hl.globalObject]
      exact hl.size
    let deed : Deed := .method r.state.globalObject .preventExtensions
    obtain ⟨s₁, hgives⟩ := gives_preventExtensions (m := machine 1) (c := default) rfl hproxy
    have hdeed : (deed.run (machine 1) default r.state).outcome = some (some (.ok ()), s₁) :=
      gives_bind.mpr ⟨true, s₁, hgives, gives_pure.mpr ⟨rfl, rfl⟩⟩
    have hevolves : r.state.Evolves s₁ := .step .refl hdeed
    have hknows : r.state.Knows r.state.globalObject := fun _ hK => hK.globalObject
    exact ⟨s₁, hevolves, preventExtensions_closes hgives hsize hproxy,
      (integrity_monotone hr .rest hknows hproxy hevolves).1⟩
  exact hclose _ Realm.reachable_initial (Realm.initial_laid nofun)

end EcmaScript

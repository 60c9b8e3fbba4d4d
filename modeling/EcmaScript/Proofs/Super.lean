import EcmaScript.Proofs.Construct
import EcmaScript.Proofs.Realm.Integrity

/-! How the constructor of a derived class comes by its `this`. -/
namespace EcmaScript
open Exec

/-- From one state to a later one, each activation keeps the `this` it has; one that has none can be
given an object, by a call of `super` whose parent has constructed it. -/
structure State.KeepsThis (s s' : State) : Prop where
  becomes : ∀ id a, (s.scope id).kind = .function a →
    ∃ a', (s'.scope id).kind = .function a' ∧ a.Becomes a'
  supers : s.Supers s'

section Runs
variable {s s' : State}

theorem State.Evolves.before (h : s.Evolves s') : s.Before s' ∧ s.Supers s' := by
  induction h with
  | refl => exact ⟨.refl, .refl⟩
  | step h ho ih =>
    obtain ⟨hbefore, hsupers⟩ := ih
    obtain ⟨hbefore', hsupers'⟩ := (Leads.of_safe (Deed.run_safe _) ho).keeps
      (I := fun s' => State.Before _ s' ∧ State.Supers _ s') ⟨.refl, .refl⟩
      fun w s _ _ hact ⟨hb, hs⟩ => ⟨hb.trans hact.before, hs.trans hb hact.supers hact.before⟩
    exact ⟨hbefore.trans hbefore', hsupers.trans hbefore hsupers' hbefore'⟩

theorem State.Evolves.keepsThis (h : s.Evolves s') : s.KeepsThis s' :=
  ⟨h.before.1.activations, h.before.2⟩

theorem Realm.Sound.keepsThis {r r' : Realm} {as : List Realm.Action} (h : r.Sound) (hc : r.Course as r') :
    r.state.KeepsThis r'.state := by
  suffices hboth : r.state.Before r'.state ∧ r.state.Supers r'.state from
    ⟨hboth.1.activations, hboth.2⟩
  induction hc with
  | nil => exact ⟨.refl, .refl⟩
  | @cons r r₁ r' a as hr _ ih =>
    obtain ⟨hbefore', hsupers'⟩ := ih (h.action hr).1
    obtain ⟨w, hw, hs, ht⟩ := h
    obtain ⟨s, tasks⟩ := r
    cases hs
    obtain ⟨w', hd⟩ := Realm.Action.did hw ht hr
    have hbefore : w.state.Before r₁.state := hd.state ▸ hd.toBefore
    have hsupers : w.state.Supers r₁.state := hd.state ▸ hd.supers hw.tracked
    exact ⟨hbefore.trans hbefore', hsupers.trans hbefore hsupers' hbefore'⟩

end Runs

section Reads
variable {m : Machine} {c : Context} {s : State} {scope : ScopeId} {a : Activation}

def Exec.RefersToNothing {α : Type} (x : Exec α) (m : Machine) (c : Context) (s : State) : Prop :=
  ∃ message, x m c s = throwReference message m c s

namespace Exec.RefersToNothing
variable {α β : Type}

theorem throw {message : String} : (throwReference message : Exec α).RefersToNothing m c s :=
  ⟨message, rfl⟩

theorem look_bind {f : State → α} {g : α → Exec β} (h : (g (f s)).RefersToNothing m c s) :
    (look f >>= g).RefersToNothing m c s := h

theorem bind {x : Exec α} (h : x.RefersToNothing m c s) (f : α → Exec β) :
    (x >>= f).RefersToNothing m c s := by
  obtain ⟨message, hx⟩ := h
  refine ⟨message, ?_⟩
  change (x m c s).bind _ = _
  rw [hx]
  rfl

end Exec.RefersToNothing

/-- Nothing can be read of `this` and of `super`. -/
structure State.Withholds (s : State) (scope : ScopeId) (m : Machine) (c : Context) : Prop where
  this : ∀ e, e.node = .this → (evaluateExpression scope e).RefersToNothing m c s
  member : ∀ e key, e.node = .superMember key → (evaluateExpression scope e).RefersToNothing m c s
  /-- The function of a call, with its `this`. -/
  chain : ∀ e key, e.node = .superMember key → (evaluateChain scope e).RefersToNothing m c s
  /-- The place that is assigned to or incremented. -/
  place : ∀ e key, e.node = .superMember key → (referenceTo scope e).RefersToNothing m c s

theorem thisValue_refersToNothing (hk : (s.scope (s.thisScope scope)).kind = .function a)
    (hnone : a.this = none) : (thisValue scope).RefersToNothing m c s := by
  refine .look_bind ?_
  rw [hk]
  obtain ⟨this, newTarget, function, home, isArrow⟩ := a
  cases hnone
  exact .throw

theorem superMember_refersToNothing (hk : (s.scope (s.thisScope scope)).kind = .function a)
    (hnone : a.this = none) (key : Key) : (superMember scope key).RefersToNothing m c s := by
  refine .look_bind ?_
  split
  · exact .throw
  · exact (thisValue_refersToNothing hk hnone).bind _

theorem State.withholds (hk : (s.scope (s.thisScope scope)).kind = .function a)
    (hnone : a.this = none) : s.Withholds scope m c := by
  have hchain (e : Expr) (key : Key) (he : e.node = .superMember key) :
      (evaluateChain scope e).RefersToNothing m c s := by
    unfold evaluateChain
    rw [he]
    exact (superMember_refersToNothing hk hnone key).bind _
  refine ⟨fun e he => ?_, fun e key he => ?_, hchain, fun e key he => ?_⟩
  · unfold evaluateExpression
    rw [he]
    exact thisValue_refersToNothing hk hnone
  · unfold evaluateExpression
    rw [he]
    exact (hchain e key he).bind _
  · unfold referenceTo
    rw [he]
    exact superMember_refersToNothing hk hnone key

end Reads

section Calls
variable {n : Nat} {c : Context} {scope : ScopeId} {args : Array Value} {s s' : State}
  {r : Except Abrupt Value}

/-- The parent of a function constructs an object. -/
inductive SuperConstructs (n : Nat) (c : Context) (f : ObjectId) (args : Array Value) (newTarget : Value)
    (s : State) (this : ObjectId) (s' : State) : Prop where
  | intro {parent : ObjectId} {s₁ : State}
    (hparent : (prototypeOf f).Comes (machine n) c s (.ok (some parent)) s₁)
    (hthis : (construct (.object parent) args newTarget).Comes (machine n) c s₁ (.ok (.object this)) s')

theorem SuperConstructs.before {f this : ObjectId} {newTarget : Value}
    (h : SuperConstructs n c f args newTarget s this s') : s.Before s' := by
  obtain ⟨hparent, hconstruct⟩ := h
  exact (hparent.before prototypeOf_safe).trans
    (hconstruct.before (construct_safe World.met_bare World.met_bare World.met_bare))

/-- No object comes of the parent of a function: a proxy does not tell what it is, there is none, it
cannot construct, or its construction fails. -/
inductive SuperFails (n : Nat) (c : Context) (f : ObjectId) (args : Array Value) (newTarget : Value)
    (s : State) : Abrupt → State → Prop where
  | concealed {e : Abrupt} {s' : State} (h : (prototypeOf f).Comes (machine n) c s (.error e) s') :
    SuperFails n c f args newTarget s e s'
  | absent {message : String} {s' : State} (h : (prototypeOf f).Comes (machine n) c s (.ok none) s') :
    SuperFails n c f args newTarget s (.failure ⟨.type, message, 0, 0⟩) s'
  | unfit {parent : ObjectId} {message : String} {s' : State}
    (h : (prototypeOf f).Comes (machine n) c s (.ok (some parent)) s')
    (hparent : s'.isConstructor parent = false) :
    SuperFails n c f args newTarget s (.failure ⟨.type, message, 0, 0⟩) s'
  | fails {parent : ObjectId} {e : Abrupt} {s₁ s' : State}
    (h : (prototypeOf f).Comes (machine n) c s (.ok (some parent)) s₁)
    (hconstruct : (construct (.object parent) args newTarget).Comes (machine n) c s₁ (.error e) s') :
    SuperFails n c f args newTarget s e s'

def superTwice : Abrupt := .failure ⟨.reference, "Super constructor may only be called once", 0, 0⟩

/-- A call of `super` constructs by the parent first. The object that comes of it is made `this`, unless
there is one by then. -/
theorem comes_callSuper {a : Activation} {f : ObjectId}
    (hk : (s.scope (s.thisScope scope)).kind = .function a) (hf : a.function = some f)
    (h : (callSuper scope args).Comes (machine n) c s r s') :
    (∃ e, r = .error e ∧ SuperFails n c f args a.newTarget s e s') ∨
    ∃ this s₁, SuperConstructs n c f args a.newTarget s this s₁ ∧
      ((∃ v, (s₁.scope (s.thisScope scope)).activation?.bind (·.this) = some v) ∧
          r = .error superTwice ∧ s' = s₁ ∨
        (s₁.scope (s.thisScope scope)).activation?.bind (·.this) = none ∧ ∃ r',
          (addInstanceElements this f).Comes (machine n) c (s₁.activated (s.thisScope scope) this) r' s' ∧
          r = r'.map fun _ => .object this) := by
  have hactivation : (s.scope (s.thisScope scope)).activation? = some a := by rw [Scope.activation?, hk]
  unfold callSuper at h
  rw [comes_look_bind, comes_look_bind, hactivation] at h
  extract_lets activation at h
  rw [show activation.bind (·.function) = some f from hf] at h
  rcases comes_bind.mp h with ⟨parent, s₁, hparent, h⟩ | ⟨e, hparent, rfl⟩
  · cases parent with
    | none =>
      obtain ⟨rfl, rfl⟩ := comes_raise.mp h
      exact .inl ⟨_, rfl, .absent hparent⟩
    | some parent =>
      replace h := comes_look_bind.mp h
      extract_lets constructing at h
      split at h
      · rename_i hconstructor
        replace h := comes_look_bind.mp h
        obtain ⟨rfl, rfl⟩ := comes_raise_bind.mp h
        exact .inl ⟨_, rfl, .unfit hparent (by simpa [State.constructorValue] using hconstructor)⟩
      · rcases comes_bind.mp h with ⟨result, s₂, hconstruct, h⟩ | ⟨e, hconstruct, rfl⟩
        · cases result with
          | object this =>
            refine .inr ⟨this, s₂, ⟨hparent, hconstruct⟩, ?_⟩
            replace h := comes_look_bind.mp h
            split at h
            · obtain ⟨rfl, rfl⟩ := comes_raise_bind.mp h
              exact .inl ⟨⟨_, ‹_›⟩, rfl, rfl⟩
            · refine .inr ⟨‹_›, ?_⟩
              obtain ⟨_, s₃, hmade, h⟩ | ⟨_, hmade, -⟩ := comes_bind.mp h
              · obtain ⟨-, rfl⟩ := comes_change.mp (modifyScope_activated ▸ hmade)
                rcases comes_bind.mp h with ⟨_, s₄, hadd, h⟩ | ⟨e, hadd, rfl⟩
                · obtain ⟨rfl, rfl⟩ := comes_pure.mp h
                  exact ⟨.ok (), hadd, rfl⟩
                · exact ⟨.error e, hadd, rfl⟩
              · cases (comes_change.mp hmade).1
          | _ =>
            have hobject := construct_only _ _ _ _ hconstruct
            cases hobject
        · exact .inl ⟨e, rfl, .fails hparent hconstruct⟩
  · exact .inl ⟨e, rfl, .concealed hparent⟩

/-- A call of `super` where there is a `this` is an error and leaves it as it was. When the parent has
constructed an object, it is a `ReferenceError`. -/
structure SuperAgain (n : Nat) (c : Context) (id : ScopeId) (a : Activation) (args : Array Value)
    (s : State) (e : Abrupt) (s' : State) : Prop where
  kept : (s'.scope id).kind = .function a
  error : match a.function with
    | some f => (∃ this, SuperConstructs n c f args a.newTarget s this s') ∧ e = superTwice ∨
        SuperFails n c f args a.newTarget s e s'
    | none => e = .failure ⟨.reference, "'super' keyword unexpected here", 0, 0⟩

theorem comes_callSuper_again {a : Activation} {v : Value}
    (hk : (s.scope (s.thisScope scope)).kind = .function a) (hthis : a.this = some v)
    (h : (callSuper scope args).Comes (machine n) c s r s') :
    ∃ e, r = .error e ∧ SuperAgain n c (s.thisScope scope) a args s e s' := by
  have hkept {s' : State} (hb : s.Before s') : (s'.scope (s.thisScope scope)).kind = .function a := by
    obtain ⟨a', hk', rfl | ⟨hnone, -⟩⟩ := hb.activations _ a hk
    · exact hk'
    · rw [hthis] at hnone
      cases hnone
  have hkept' := hkept (h.before (callSuper_safe World.met_bare))
  cases hf : a.function with
  | none =>
    have hactivation : (s.scope (s.thisScope scope)).activation? = some a := by rw [Scope.activation?, hk]
    unfold callSuper at h
    rw [comes_look_bind, comes_look_bind, hactivation] at h
    extract_lets activation at h
    rw [show activation.bind (·.function) = none from hf] at h
    obtain ⟨rfl, rfl⟩ := comes_raise.mp h
    exact ⟨_, rfl, hkept', by rw [hf]⟩
  | some f =>
    rcases comes_callSuper hk hf h with ⟨e, rfl, hfails⟩ | ⟨this, s₁, hconstructs, hends⟩
    · exact ⟨e, rfl, hkept', by rw [hf]; exact .inr hfails⟩
    · rcases hends with ⟨-, rfl, rfl⟩ | ⟨hnone, -⟩
      · exact ⟨_, rfl, hkept', by rw [hf]; exact .inl ⟨⟨this, hconstructs⟩, rfl⟩⟩
      · rw [Scope.activation?, hkept hconstructs.before] at hnone
        cases hthis.symm.trans hnone

end Calls

def Step.endsIn {α : Type} (p : Except Abrupt α → State → Bool) (x : Step α) : Bool :=
  match x.outcome with
  | some (some r, s) => p r s
  | _ => false

theorem Step.outcome_of_endsIn {α : Type} {p : Except Abrupt α → State → Bool} {x : Step α}
    (h : x.endsIn p = true) : ∃ r s, x.outcome = some (some r, s) ∧ p r s = true := by
  unfold endsIn at h
  split at h
  · rename_i r s hx
    exact ⟨r, s, hx, h⟩
  · cases h

/-- The constructor of a derived class, whatever its parent and its body are. While it runs and after it,
`this` is made once at most, by a call of `super` that has constructed it; before that, it cannot be read;
another call of `super` is an error and leaves it as it was; and what is constructed is an object: the one
that the body returned, or else `this`. -/
theorem derived_constructor :
    (∀ s s' : State, s.Evolves s' → s.KeepsThis s') ∧
    (∀ (r r' : Realm) (as : List Realm.Action), r.Reachable → r.Course as r' →
      r.state.KeepsThis r'.state) ∧
    (∀ (s : State) (scope : ScopeId) (a : Activation), (s.scope (s.thisScope scope)).kind = .function a →
      a.this = none → ∀ m c, s.Withholds scope m c) ∧
    (∀ (s s' : State) (scope : ScopeId) (a : Activation) (v : Value) (n : Nat) (c : Context)
      (args : Array Value) (r : Except Abrupt Value), (s.scope (s.thisScope scope)).kind = .function a →
      a.this = some v → (callSuper scope args).Comes (machine n) c s r s' →
      ∃ e, r = .error e ∧ SuperAgain n c (s.thisScope scope) a args s e s') ∧
    ∀ (s s' : State) (n : Nat) (c : Context) (f newTarget v : Value) (args : Array Value),
      (constructWith f args newTarget).Comes (machine n) c s (.ok v) s' → v.isObject = true ∧
        ∀ id closure, f = .object id → (s.object id).kind = .function (.closure closure) →
          ∃ target, newTarget = .object target ∧ ConstructEnds n c id closure args target v s' := by
  refine ⟨fun s s' => State.Evolves.keepsThis, fun r r' as hr => hr.sound.keepsThis,
    fun s scope a hk hnone m c => State.withholds hk hnone,
    fun s s' scope a v n c args r => comes_callSuper_again, fun s s' n c f newTarget v args h => ?_⟩
  refine ⟨constructWith_only c s v s' h, ?_⟩
  rintro id closure rfl hkind
  exact constructWith_ends hkind h

/-- In the constructor of a derived class that does nothing but call `super`. -/
def State.derived (this : Option Value) (parent : Option ObjectId) : State :=
  let body : Statement := .mk default (.expression (.mk default (.superCall [])))
  let closure : Closure := {
    node := .mk none [] [body] .normal false false true default
    scope := ⟨0⟩, script := ⟨0⟩, strict := true, source := default, constructable := true
    classKind := some .derived }
  let activation : Activation := {
    this, newTarget := .object ⟨2⟩, function := some ⟨2⟩, home := none, isArrow := false }
  { heap := #[{ prototype := none },
      { kind := .function (.native "Object" (.object .construct)), prototype := none },
      { kind := .function (.closure closure), prototype := parent }]
    scopes := #[{ kind := .block, parent := none },
      { kind := .function activation, parent := some ⟨0⟩ }] }

/-- A second call of `super` by a function that has lost its parent is no `ReferenceError`. -/
theorem second_super_of_orphan :
    ((State.derived (some (.object ⟨0⟩)) none).scope ⟨1⟩).activation?.bind (·.this) =
      some (.object ⟨0⟩) ∧
    callSuper ⟨1⟩ #[] (machine 0) default (.derived (some (.object ⟨0⟩)) none) =
      throwType "Super constructor null of anonymous class is not a constructor" (machine 0) default
        (.derived (some (.object ⟨0⟩)) none) ∧
    ¬ (callSuper ⟨1⟩ #[]).RefersToNothing (machine 0) default (.derived (some (.object ⟨0⟩)) none) := by
  refine ⟨rfl, rfl, ?_⟩
  rintro ⟨message, h⟩
  have hkind : ErrorKind.type = ErrorKind.reference := by
    injection h with h
    injection h with h
    injection h
  cases hkind

/-- `super` makes `this` an instance of `Object`, a second call of it fails, and the class constructs. -/
theorem derived_constructor_of_object :
    (State.derived none (some ⟨1⟩)).Withholds ⟨1⟩ (machine 0) default ∧
    (∃ s₁, ((s₁.scope ⟨1⟩).activation?.bind (·.this)).isSome = true ∧
      (State.derived none (some ⟨1⟩)).KeepsThis s₁) ∧
    (∃ e s₁ a, (callSuper ⟨1⟩ #[]).Comes (machine 8) default
        (.derived (some (.object ⟨0⟩)) (some ⟨1⟩)) (.error e) s₁ ∧
      SuperAgain 8 default ⟨1⟩ a #[] (.derived (some (.object ⟨0⟩)) (some ⟨1⟩)) e s₁) ∧
    (∃ v s₁ closure, (constructWith (.object ⟨2⟩) #[] (.object ⟨2⟩)).Comes (machine 8) default
        (.derived none (some ⟨1⟩)) (.ok v) s₁ ∧ v.isObject = true ∧
      ConstructEnds 8 default ⟨2⟩ closure #[] ⟨2⟩ v s₁) ∧
    ∃ r' : Realm, (Realm.initial []).Course [.addScope] r' ∧
      (Realm.initial []).state.KeepsThis r'.state := by
  obtain ⟨hevolves, hcourse, hwithholds, hagain, hconstructs⟩ := derived_constructor
  have hadd (r : Realm) (hr : r.Reachable) : ∃ r' : Realm, r.Course [.addScope] r' ∧
      r.state.KeepsThis r'.state := by
    have hc : r.Course [.addScope] { r with state := { r.state with
        scopes := r.state.scopes.push { kind := .global r.state.globalObject, parent := none } } } :=
      .cons rfl .nil
    exact ⟨_, hc, hcourse _ _ _ hr hc⟩
  refine ⟨hwithholds _ _ _ rfl rfl _ _, ?_, ?_, ?_, hadd _ Realm.reachable_initial⟩
  · let call : Deed := .operation (.evaluate ⟨1⟩ (.mk default (.superCall [])))
    obtain ⟨r, s₁, hcall, hmade⟩ := Step.outcome_of_endsIn
      (show (call.run (machine 8) default (.derived none (some ⟨1⟩))).endsIn
        (fun _ s₁ => ((s₁.scope ⟨1⟩).activation?.bind (·.this)).isSome) = true by decide +kernel)
    exact ⟨s₁, hmade, hevolves _ _ (.step .refl hcall)⟩
  · obtain ⟨r, s₁, hcall, hfails⟩ := Step.outcome_of_endsIn
      (show (callSuper ⟨1⟩ #[] (machine 8) default (.derived (some (.object ⟨0⟩)) (some ⟨1⟩))).endsIn
        (fun r _ => !r.isOk) = true by decide +kernel)
    obtain e | _ := r
    · have hcomes := Step.comes_of_outcome hcall
      obtain ⟨_, he, h⟩ := hagain _ _ _ _ _ _ _ _ _ rfl rfl hcomes
      cases he
      exact ⟨e, s₁, _, hcomes, h⟩
    · cases hfails
  · obtain ⟨r, s₁, hconstruct, hmade⟩ := Step.outcome_of_endsIn
      (show (constructWith (.object ⟨2⟩) #[] (.object ⟨2⟩) (machine 8) default
        (.derived none (some ⟨1⟩))).endsIn (fun r _ => r.isOk) = true by decide +kernel)
    obtain _ | v := r
    · cases hmade
    · have hcomes := Step.comes_of_outcome hconstruct
      obtain ⟨hobject, hends⟩ := hconstructs _ _ _ _ _ _ _ _ hcomes
      obtain ⟨_, htarget, hends⟩ := hends _ _ rfl rfl
      cases htarget
      exact ⟨v, s₁, _, hcomes, hobject, hends⟩

end EcmaScript

import EcmaScript.Proofs.Safety.Course

/-! What a construction gives is an object. -/
namespace EcmaScript
open Exec

section Natives
variable {m : Machine} {args : Array Value} {newTarget : ObjectId}

abbrev IsObject (v : Value) : Prop := v.isObject = true

theorem constructObject_only {target : Option ObjectId} :
    Only m (constructObject args target) IsObject := by
  refine .bind fun i => ?_
  extract_lets base v making
  have hmaking (prototype : ObjectId) : Only m (making prototype) IsObject := by
    refine .ite (fun _ => .bind fun _ => .pure rfl) fun _ => ?_
    exact .ite (fun _ => .bind fun _ => .pure rfl) fun _ => .bind fun _ => .pure rfl
  split
  · exact .bind fun _ => hmaking _
  · exact .bind fun _ => hmaking _

theorem functionFromText_only : Only m (functionFromText args) IsObject := by
  refine .bind fun texts => ?_
  extract_lets params source
  split
  · exact .bind fun k => k.elim
  · exact .raise
  · exact .bind fun script => .within (.bind fun _ => .bind fun _ => .pure rfl)

theorem constructArray_only {prototype : ObjectId} : Only m (constructArray args prototype) IsObject := by
  unfold constructArray
  split
  · exact .ite (fun _ => .raise_bind) fun _ => .bind fun _ => .pure rfl
  · exact .bind fun _ => .pure rfl

theorem constructPromise_only : Only m (constructPromise args newTarget) IsObject := by
  refine .bind fun callable => .ite (fun _ => .bind fun _ => .raise_bind) fun _ => ?_
  refine .bind fun i => .bind fun prototype => .bind fun id => .bind fun resolvers => .bind fun outcome => ?_
  split
  · exact .pure rfl
  · exact .bind fun _ => .bind fun _ => .pure rfl

theorem constructCollection_only {kind : CollectionKind} :
    Only m (constructCollection kind args newTarget) IsObject := by
  refine .bind fun i => .bind fun prototype => .bind fun id => ?_
  refine .ite (fun _ => .pure rfl) fun _ => .bind fun add => .bind fun callable => ?_
  exact .ite (fun _ => .bind fun _ => .bind fun _ => .pure rfl) fun _ => .bind fun _ => .pure rfl

theorem constructWeakRef_only : Only m (constructWeakRef args newTarget) IsObject := by
  unfold constructWeakRef
  split
  · exact .bind fun _ => .bind fun _ => .bind fun _ => .pure rfl
  · exact .bind fun _ => .raise

theorem buildError_only {prototype : ObjectId} : Only m (buildError prototype args) IsObject := by
  refine .bind fun id => ?_
  extract_lets message stamping noting
  have hstamping : Only m (stamping ⟨⟩) IsObject := .bind fun _ => .pure rfl
  have hnoting : Only m (noting ⟨⟩) IsObject := by
    unfold noting
    split
    · exact .bind fun _ => .ite (fun _ => .bind fun _ => .bind fun _ => hstamping) fun _ => hstamping
    · exact hstamping
  exact .ite (fun _ => .bind fun _ => .bind fun _ => hnoting) fun _ => hnoting

theorem constructNative_only {f : Native} (hf : f.constructs = true) :
    Only m (constructNative f args newTarget) IsObject := by
  unfold Native.constructs at hf
  unfold constructNative
  split at hf
  · exact constructObject_only
  · exact functionFromText_only
  · exact .bind fun _ => .bind fun _ => constructArray_only
  · exact .bind fun _ => .bind fun _ => .bind fun _ => .bind fun _ => .pure rfl
  · exact .bind fun _ => .bind fun _ => .bind fun _ => .bind fun _ => .pure rfl
  · exact .bind fun _ => .bind fun _ => .bind fun _ => .pure rfl
  · exact .raise
  · exact .bind fun _ => .bind fun _ => buildError_only
  · exact constructPromise_only
  · exact .bind fun _ => .pure rfl
  · exact constructCollection_only
  · exact constructCollection_only
  · exact constructCollection_only
  · exact constructCollection_only
  · exact constructWeakRef_only
  · cases hf

end Natives

theorem comes_inFrame {α : Type} {x : Exec α} {frame : Frame} {a : α} {m : Machine} {c : Context}
    {s s' : State} (h : (inFrame frame x).Comes m c s (.ok a) s') :
    ∃ s₂, x.Comes m c { s with stack := frame :: s.stack } (.ok a) s₂ ∧
      s' = s₂.leaveFrames s.stack.length := by
  rw [inFrame, comes_look_bind] at h
  obtain ⟨_, s₁, henter, h⟩ := comes_bind_ok.mp h
  obtain rfl : s₁ = { s with stack := frame :: s.stack } := by
    unfold Comes enterFrame at henter
    split at henter
    · nomatch (Step.comes_abrupt.mp henter).1
    · exact (Step.comes_value.mp henter).2
  obtain ⟨r, s₂, hx, h⟩ := comes_attempt_bind.mp h
  cases r with
  | ok b =>
    obtain ⟨_, s₃, hleave, h⟩ := comes_bind_ok.mp h
    obtain ⟨he, rfl⟩ := comes_pure.mp h
    obtain rfl := Except.ok.inj he
    exact ⟨s₂, hx, (comes_change.mp hleave).2⟩
  | error e =>
    obtain ⟨_, s₃, -, h⟩ := comes_bind_ok.mp h
    obtain ⟨_, s₄, -, h⟩ := comes_bind_ok.mp h
    nomatch (comes_raise.mp h).1

section Closures
variable {n : Nat} {c : Context} {f : ObjectId} {closure : Closure} {scope : ScopeId}
  {args : Array Value} {s s' : State} {v : Value}

/-- How a construction by a function of the script ends: with what the body returns if that is an object,
and else with the `this` of the activation that was made for it. -/
inductive ConstructEnds (n : Nat) (c : Context) (f : ObjectId) (closure : Closure) (args : Array Value)
    (newTarget : ObjectId) (v : Value) (s' : State) : Prop where
  | intro {scope : ScopeId} {a : Activation} {s₁ s₂ : State} {result : Value}
    (hscope : (s₁.scope scope).kind = .function a) (hfunction : a.function = some f)
    (hnewTarget : a.newTarget = .object newTarget)
    (hthis : closure.classKind = some .derived → a.this = none)
    (hbody : (runToEnd f closure scope args).Comes (machine n) (closureContext closure c) s₁
      (.ok result) s₂)
    (hs : s'.scopes = s₂.scopes)
    (hv : result.isObject = true ∧ v = result ∨
      result.isObject = false ∧ (s'.scope scope).activation?.bind (·.this) = some v)

theorem Activation.Becomes.isObject {a a' : Activation} (h : a.Becomes a')
    (ha : ∀ v ∈ a.this, IsObject v) : ∀ v ∈ a'.this, IsObject v := by
  rcases h with rfl | ⟨-, id, rfl⟩
  · exact ha
  · rintro _ ⟨⟩
    rfl

/-- A constructor gives what its body returns if that is an object, and else the `this` of its scope. -/
theorem comes_runConstructor {this : Option ObjectId}
    (h : (runConstructor f closure scope this args).Comes (machine n) c s (.ok v) s') :
    ∃ s₁ result, s.Before s₁ ∧ (this = none → s₁ = s) ∧
      (runToEnd f closure scope args).Comes (machine n) c s₁ (.ok result) s' ∧
      (result.isObject = true ∧ v = result ∨
        result.isObject = false ∧ (s'.scope scope).activation?.bind (·.this) = some v) := by
  unfold runConstructor at h
  extract_lets finding running at h
  have hrunning {s₁ : State} (h : (running ⟨⟩).Comes (machine n) c s₁ (.ok v) s') :
      ∃ result, (runToEnd f closure scope args).Comes (machine n) c s₁ (.ok result) s' ∧
        (result.isObject = true ∧ v = result ∨
          result.isObject = false ∧ (s'.scope scope).activation?.bind (·.this) = some v) := by
    obtain ⟨result, s₂, hbody, h⟩ := comes_bind_ok.mp h
    refine ⟨result, ?_⟩
    split at h
    · obtain ⟨he, rfl⟩ := comes_pure.mp h
      exact ⟨hbody, .inl ⟨‹_›, Except.ok.inj he⟩⟩
    · rename_i hresult
      split at h
      · nomatch (comes_raise_bind.mp h).1
      · rw [comes_look_bind] at h
        split at h
        · obtain ⟨he, rfl⟩ := comes_pure.mp h
          cases he
          exact ⟨hbody, .inr ⟨by simpa using hresult, ‹_›⟩⟩
        · nomatch (comes_raise.mp h).1
  split at h
  · obtain ⟨_, s₁, hadd, h⟩ := comes_bind_ok.mp h
    obtain ⟨result, hbody, hv⟩ := hrunning h
    exact ⟨s₁, result, hadd.before (addInstanceElements_safe World.met_bare), nofun, hbody, hv⟩
  · obtain ⟨result, hbody, hv⟩ := hrunning h
    exact ⟨s, result, .refl, fun _ => rfl, hbody, hv⟩

theorem comes_constructClosure {newTarget : ObjectId}
    (h : (constructClosure f closure args newTarget).Comes (machine n) c s (.ok v) s') :
    ConstructEnds n c f closure args newTarget v s' ∧ v.isObject = true := by
  rw [constructClosure, comes_within] at h
  have hrun {s₁ : State} {this : Option ObjectId} (hthis : closure.classKind = some .derived → this = none)
      (h : (do
        let scope ← functionScope f closure (this.map .object) (.object newTarget)
        inFrame (← closureFrame f closure) (runConstructor f closure scope this args)).Comes
          (machine n) (closureContext closure c) s₁ (.ok v) s') :
      ConstructEnds n c f closure args newTarget v s' ∧ v.isObject = true := by
    obtain ⟨scope, s₂, hscope, h⟩ := comes_bind_ok.mp h
    obtain ⟨he, rfl⟩ := comes_newScope.mp hscope
    obtain rfl := Except.ok.inj he
    obtain ⟨frame, s₃, hframe, h⟩ := comes_bind_ok.mp h
    rw [closureFrame, object, comes_look_bind, comes_look_bind] at hframe
    obtain ⟨-, rfl⟩ := comes_pure.mp hframe
    obtain ⟨s₄, hconstructor, rfl⟩ := comes_inFrame h
    obtain ⟨s₅, result, hbefore, hsame, hbody, hv⟩ := comes_runConstructor hconstructor
    let a : Activation := {
      this := this.map .object
      newTarget := .object newTarget
      function := some f
      home := closure.home
      isArrow := closure.node.isArrow }
    -- The activation that has been made is still there when the body begins, and when it ends.
    let made : Scope := { kind := .function a, parent := some closure.scope }
    have hmade : (({ s₁ with scopes := s₁.scopes.push made } : State).scope ⟨s₁.scopes.size⟩).kind =
        .function a := by
      rw [State.scope_push, if_pos rfl]
    obtain ⟨a₅, hscope, hbecomes⟩ := hbefore.activations _ a hmade
    have hkept : a₅.function = some f ∧ a₅.newTarget = .object newTarget := by
      rcases hbecomes with rfl | ⟨-, id, rfl⟩ <;> exact ⟨rfl, rfl⟩
    have hnone (hderived : closure.classKind = some .derived) : a₅.this = none := by
      rw [hsame (hthis hderived)] at hscope
      cases hscope.symm.trans hmade
      simp [a, hthis hderived]
    refine ⟨.intro hscope hkept.1 hkept.2 hnone hbody rfl hv, ?_⟩
    rcases hv with ⟨hresult, rfl⟩ | ⟨-, hbound⟩
    · exact hresult
    · have howns : (World.bare s₅).ownsScope ⟨s₁.scopes.size⟩ := by
        rintro _ ⟨⟩
      obtain ⟨a₄, hscope₄, hbecomes₄⟩ :=
        (hbody.before (runToEnd_safe howns World.met_bare World.met_bare)).activations _ _ hscope
      have hobject : ∀ v ∈ a.this, IsObject v := by
        rintro v hv
        obtain ⟨id, -, rfl⟩ := Option.map_eq_some_iff.mp hv
        rfl
      refine hbecomes₄.isObject (hbecomes.isObject hobject) v ?_
      simpa [Scope.activation?, hscope₄] using hbound
  split at h
  · rw [pure_bind] at h
    exact hrun (fun _ => rfl) h
  · rename_i hderived
    obtain ⟨_, _, -, h⟩ := comes_bind_ok.mp h
    obtain ⟨_, _, -, h⟩ := comes_bind_ok.mp h
    obtain ⟨this, s₁, -, h⟩ := comes_bind_ok.mp h
    exact hrun (fun h => by simp [h] at hderived) h

end Closures

theorem proxyConstruct_only {m : Machine} {p : ProxyData} {args : Array Value} {newTarget : Value}
    (h : Only m (construct (.object p.target) args newTarget) IsObject) :
    Only m (proxyConstruct p args newTarget) IsObject := by
  refine .bind fun trap => ?_
  split
  · exact h
  · refine .bind fun list => .bind fun result => ?_
    exact .ite (fun _ => .raise_bind) fun hresult => .pure (by simpa using hresult)

section Parents
variable {n : Nat} {c : Context} {f : ObjectId} {args : Array Value} {newTarget : Value}
  {s s' : State} {v : Value}

/-- What constructs a value that an object was asked for: the object behind a proxy, the library, the
function that another one is bound to, or the script. -/
inductive Constructs (n : Nat) (c : Context) (f : ObjectId) (args : Array Value) (newTarget : Value)
    (s : State) (v : Value) (s' : State) : Prop where
  | proxy {p : ProxyData} {s₁ : State} (hkind : (s.object f).kind = .proxy (some p))
    (h : (proxyConstruct p args newTarget).Comes (machine n) c s₁ (.ok v) s')
  | native {k : Nat} {name : String} {native : Native} {target : ObjectId} {s₁ s₂ : State}
    (hkind : (s.object f).kind = .function (.native name native)) (hconstructs : native.constructs = true)
    (h : (constructNative native args target).Comes (machine k) c s₁ (.ok v) s₂)
  | bound {inner : ObjectId} {this target : Value} {boundArgs : Array Value} {s₁ : State}
    (hkind : (s.object f).kind = .function (.bound inner this boundArgs))
    (h : (construct (.object inner) (boundArgs ++ args) target).Comes (machine n) c s₁ (.ok v) s')
  | closure {closure : Closure} {target : ObjectId} {s₁ : State}
    (hkind : (s.object f).kind = .function (.closure closure)) (htarget : newTarget = .object target)
    (h : (constructClosure f closure args target).Comes (machine n) c s₁ (.ok v) s')

theorem comes_constructWith
    (h : (constructWith (.object f) args newTarget).Comes (machine n) c s (.ok v) s') :
    Constructs n c f args newTarget s v s' := by
  obtain ⟨_, s₁, hchecked, h⟩ := comes_bind_ok.mp h
  obtain rfl := comes_checkInterrupts hchecked
  rw [isConstructor, comes_look_bind] at h
  extract_lets constructing at h
  split at h
  · obtain ⟨_, _, -, h⟩ := comes_bind_ok.mp h
    nomatch (comes_raise_bind.mp h).1
  · rename_i hconstructor
    replace h := comes_look_bind.mp (show (constructing ⟨⟩).Comes _ _ _ _ _ from h)
    split at h
    · nomatch (comes_raise.mp h).1
    · exact .proxy ‹_› h
    · rename_i callable hkind
      obtain ⟨_, s₁, -, h⟩ := comes_bind_ok.mp h
      cases newTarget with
      | object target =>
        cases callable with
        | native name native =>
          obtain ⟨s₂, hnative, -⟩ := comes_inFrame h
          obtain ⟨k, -, hnative⟩ := comes_request.mp hnative
          refine .native hkind ?_ hnative
          simpa [State.constructorValue, State.isConstructor, State.isConstructorFrom, hkind]
            using hconstructor
        | bound inner boundThis boundArgs => exact .bound hkind h
        | closure closure => exact .closure hkind rfl h
      | _ => nomatch (comes_halt h).1
    · obtain ⟨_, _, -, h⟩ := comes_bind_ok.mp h
      nomatch (comes_raise.mp h).1

theorem constructWith_only {f : Value} : Only (machine n) (constructWith f args newTarget) IsObject := by
  induction n using Nat.strongRecOn generalizing f newTarget args with
  | ind n ih =>
    have hrequest {f newTarget : Value} {args : Array Value} :
        Only (machine n) (construct f args newTarget) IsObject := by
      intro c s v s' h
      obtain ⟨k, rfl, h⟩ := comes_request.mp h
      exact ih k (Nat.lt_succ_self k) _ _ _ _ h
    cases f with
    | object id =>
      intro c s v s' h
      cases comes_constructWith h with
      | proxy _ h => exact proxyConstruct_only hrequest _ _ _ _ h
      | native _ hconstructs h => exact constructNative_only hconstructs _ _ _ _ h
      | bound _ h => exact hrequest _ _ _ _ h
      | closure _ _ h => exact (comes_constructClosure h).2
    | _ => exact .bind fun _ => .raise

theorem construct_only {f : Value} : Only (machine n) (construct f args newTarget) IsObject := by
  intro c s v s' h
  obtain ⟨k, -, h⟩ := comes_request.mp h
  exact constructWith_only _ _ _ _ h

theorem constructWith_ends {closure : Closure} (hf : (s.object f).kind = .function (.closure closure))
    (h : (constructWith (.object f) args newTarget).Comes (machine n) c s (.ok v) s') :
    ∃ target, newTarget = .object target ∧ ConstructEnds n c f closure args target v s' := by
  cases comes_constructWith h with
  | closure hkind htarget h =>
    cases hf.symm.trans hkind
    exact ⟨_, htarget, (comes_constructClosure h).1⟩
  | proxy hkind | native hkind | bound hkind => cases hf.symm.trans hkind

end Parents
end EcmaScript

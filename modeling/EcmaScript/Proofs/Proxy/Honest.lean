import EcmaScript.Proofs.Listing
import EcmaScript.Proofs.Pinned
import EcmaScript.Proofs.Proxy.Trap

/-! Traps cannot lie about what is not configurable in the target of a proxy. -/
namespace EcmaScript

theorem Property.configurable_described {p : Property} :
    p.toDescriptor.toProperty.configurable = p.configurable := by
  obtain ⟨_ | _, _, _⟩ := p <;> rfl

namespace State

/-- A proxy of an object that is none itself. -/
structure Proxies (s : State) (id : ObjectId) (p : ProxyData) : Prop where
  kind : (s.object id).kind = .proxy (some p)
  target : s.Ordinary p.target

/-- The value of a property that can never change. -/
def frozen? (s : State) (id : ObjectId) (key : PropertyKey) : Option Value :=
  match s.ownProperty? id key with
  | some ⟨.data v false, _, false⟩ => some v
  | _ => none

variable {s : State} {id : ObjectId} {p : ProxyData} {key : PropertyKey}

theorem frozen?_eq_some {v : Value} : s.frozen? id key = some v ↔
    ∃ e, s.ownProperty? id key = some ⟨.data v false, e, false⟩ := by
  unfold frozen?
  split
  · rename_i v' e hq
    simp [hq]
  · rename_i hno
    refine ⟨nofun, fun ⟨e, hq⟩ => (hno _ _ hq).elim⟩

end State

namespace Exec
variable {m : Machine} {c : Context} {s s' : State} {id : ObjectId} {p : ProxyData}
  {key : PropertyKey}

theorem gives_lie {α : Type} {a : α} {operation rest : String} :
    ¬ (lie operation rest : Exec α).Gives m c s a s' := gives_raise

/-- An answer that has been compared with what the target has. -/
theorem gives_compareOwn {α : Type} {answer a : α} (bad : Property → Bool) {refuse : Exec Unit}
    (hproxy : (s.object id).isProxy = false)
    (hrefuse : ∀ s u s', ¬ refuse.Gives m c s u s')
    (h : (do
      match ← getOwn id key with
      | some own => if bad own then refuse
      | none => pure ()
      return answer : Exec α).Gives m c s a s') :
    a = answer ∧ s' = s ∧ ∀ q, s.ownProperty? id key = some q → bad q = false := by
  replace h := (gives_bind_value (getOwn_ordinary hproxy)).mp h
  split at h
  · rename_i own hown
    split at h
    · obtain ⟨_, _, hno, -⟩ := gives_bind.mp h
      exact absurd hno (hrefuse _ _ _)
    · rename_i hgood
      obtain ⟨rfl, rfl⟩ := gives_pure.mp h
      refine ⟨rfl, rfl, fun q hq => ?_⟩
      obtain rfl := Option.some.inj (hown.symm.trans hq)
      exact Bool.eq_false_iff.mpr hgood
  · rename_i hnone
    obtain ⟨rfl, rfl⟩ := gives_pure.mp h
    exact ⟨rfl, rfl, fun _ hq => by cases hnone.symm.trans hq⟩

theorem frozenValue_ordinary (hproxy : (s.object p.target).isProxy = false) :
    frozenValue p key m c s = .value (s.frozen? p.target key) s := by
  unfold frozenValue State.frozen?
  simp only [Bind.bind, Exec.bind, getOwn_ordinary hproxy, Step.bind]
  generalize s.ownProperty? p.target key = own
  obtain _ | ⟨⟨_, _ | _⟩ | _, _, _ | _⟩ := own <;> rfl

/-- An answer that has been compared with a value that can never change. -/
theorem gives_compareFrozen {α : Type} {answer a : α} {v : Value} {refuse : Value → Exec PUnit}
    (hproxy : (s.object p.target).isProxy = false)
    (hrefuse : ∀ fixed s u s', ¬ (refuse fixed).Gives m c s u s')
    (h : (do
      match ← frozenValue p key with
      | some fixed => if !fixed.same v then refuse fixed
      | none => pure ()
      return answer : Exec α).Gives m c s a s') :
    a = answer ∧ s' = s ∧ ∀ fixed, s.frozen? p.target key = some fixed → fixed.same v = true := by
  replace h := (gives_bind_value (frozenValue_ordinary hproxy)).mp h
  split at h
  · rename_i fixed hfixed
    split at h
    · obtain ⟨_, _, hno, -⟩ := gives_bind.mp h
      exact absurd hno (hrefuse _ _ _ _)
    · rename_i hsame
      obtain ⟨rfl, rfl⟩ := gives_pure.mp h
      refine ⟨rfl, rfl, fun fixed' hfixed' => ?_⟩
      obtain rfl := Option.some.inj (hfixed.symm.trans hfixed')
      simpa using hsame
  · rename_i hnone
    obtain ⟨rfl, rfl⟩ := gives_pure.mp h
    exact ⟨rfl, rfl, fun _ hfixed => by cases hnone.symm.trans hfixed⟩

theorem gives_keysOfTrap {keys listed : List PropertyKey} {values : List Value}
    (h : (keysOfTrap keys values).Gives m c s listed s') (hkeys : keys.Nodup) :
    listed.Nodup ∧ s' = s := by
  have hnext {key : PropertyKey} {rest : List Value}
      (ih : ∀ {keys : List PropertyKey}, (keysOfTrap keys rest).Gives m c s listed s' →
        keys.Nodup → listed.Nodup ∧ s' = s)
      {keys : List PropertyKey} (hkeys : keys.Nodup)
      (h : (do
        if keys.contains key then lie "ownKeys" "trap returned duplicate entries"
        keysOfTrap (key :: keys) rest : Exec (List PropertyKey)).Gives m c s listed s') :
      listed.Nodup ∧ s' = s := by
    split at h
    · obtain ⟨_, _, hno, -⟩ := gives_bind.mp h
      exact (gives_lie hno).elim
    · rename_i hnew
      exact ih h (List.nodup_cons.mpr ⟨by simpa using hnew, hkeys⟩)
  induction values generalizing keys with
  | nil =>
    obtain ⟨rfl, rfl⟩ := gives_pure.mp h
    exact ⟨List.nodup_reverse.mpr hkeys, rfl⟩
  | cons v rest ih =>
    have ih {keys : List PropertyKey} (h : (keysOfTrap keys rest).Gives m c s listed s')
        (hkeys : keys.Nodup) : listed.Nodup ∧ s' = s := ih h hkeys
    cases v with
    | string text => exact hnext ih hkeys h
    | symbol symbol => exact hnext ih hkeys h
    | _ =>
      obtain ⟨_, _, hno, -⟩ := gives_bind.mp h
      exact (gives_raise hno).elim

/-- What has to be listed is. -/
theorem gives_required {listed keys : List PropertyKey} (required : PropertyKey → Bool)
    {f : PropertyKey → Exec PUnit} {u : PUnit}
    (hf : ∀ key u s', (f key).Gives m c s u s' →
      s' = s ∧ (required key = true → key ∈ listed))
    (h : (keys.forM f).Gives m c s u s') :
    s' = s ∧ ∀ key ∈ keys, required key = true → key ∈ listed := by
  induction keys with
  | nil => exact ⟨(gives_pure.mp h).2, nofun⟩
  | cons key rest ih =>
    obtain ⟨s₁, hkey, hrest⟩ := gives_forM_cons.mp h
    obtain ⟨rfl, hlisted⟩ := hf key _ _ hkey
    obtain ⟨rfl, hall⟩ := ih hrest
    exact ⟨rfl, List.forall_mem_cons.mpr ⟨hlisted, hall⟩⟩

/-- The state by which an answer is judged. A trap answers for what the target is like in the end;
without a trap the operation is one of the target, from the moment on when that is known. -/
def judged (trap : Option Value) (asked returned : State) : State :=
  if trap.isSome then returned else asked

section Traps
variable {fuel : Nat} (hp : s.Proxies id p)
include hp

theorem asked {name : String} {trap : Option Value} {s₁ : State}
    (h : (trapOf p name).Gives (machine fuel) c s trap s₁) : s₁.Ordinary p.target :=
  ((leads_of_gives (trapOf_safe World.met_bare) h).ordinary hp.target).1

omit hp in
theorem answered {trap v : Value} {args : Array Value} (ho : s.Ordinary p.target)
    (h : (callTrap p trap args).Gives (machine fuel) c s v s') : s'.Ordinary p.target :=
  ((leads_of_gives (callTrap_safe World.met_bare World.met_bare World.met_bare) h).ordinary ho).1

theorem has_honest (h : (has id key).Gives (machine (fuel + 1)) c s false s') :
    ∃ trap s₁, (trapOf p "has").Gives (machine fuel) c s trap s₁ ∧
      ∀ q, (judged trap s₁ s').ownProperty? p.target key = some q → q.configurable = true := by
  have hlook := gives_look_bind.mp h
  rw [State.lookup_proxy hp.kind] at hlook
  obtain ⟨trap, s₁, htrap, hask⟩ := gives_bind.mp (gives_request.mp hlook)
  have ho := asked hp htrap
  refine ⟨trap, s₁, htrap, fun q hq => ?_⟩
  cases trap with
  | none =>
    have hfound := gives_look_bind.mp hask
    rw [State.lookup_own ho.isProxy hq] at hfound
    cases (gives_pure.mp hfound).1
  | some trap =>
    obtain ⟨v, s₂, hv, hjudge⟩ := gives_bind.mp hask
    have ho₂ := answered ho hv
    dsimp only at hjudge
    split at hjudge
    · obtain ⟨-, rfl, hgood⟩ := gives_compareOwn (!·.configurable) ho₂.isProxy
        (fun _ _ _ => gives_lie) hjudge
      simpa using hgood q hq
    · rename_i htruthy
      simp [← (gives_pure.mp hjudge).1] at htruthy

theorem delete_honest (h : (delete id key).Gives (machine (fuel + 1)) c s true s') :
    ∀ q, s'.ownProperty? p.target key = some q → q.configurable = true := by
  obtain ⟨trap, s₁, htrap, hask⟩ := gives_bind.mp (gives_request.mp ((gives_bind_value (proxyOf_proxy hp.kind)).mp h))
  have ho := asked hp htrap
  intro q hq
  cases trap with
  | none =>
    rw [gone_of_delete hask ho] at hq
    cases hq
  | some trap =>
    obtain ⟨v, s₂, hv, hjudge⟩ := gives_bind.mp hask
    have ho₂ := answered ho hv
    dsimp only at hjudge
    split at hjudge
    · obtain ⟨-, rfl, hgood⟩ := gives_compareOwn (!·.configurable) ho₂.isProxy
        (fun _ _ _ => gives_lie) hjudge
      simpa using hgood q hq
    · rename_i hfalsy
      exact absurd (gives_pure.mp hjudge).1.symm hfalsy

/-- The keys of a target that must be listed: those that are not configurable, and of a target that cannot
be extended all keys. Without a trap the target is asked, which lists its keys as it always does. -/
theorem ownKeys_lists {keys : List PropertyKey}
    (h : (ownKeys id).Gives (machine (fuel + 1)) c s keys s') :
    (∃ trap s₁, (trapOf p "ownKeys").Gives (machine fuel) c s trap s₁ ∧
      (trap.isSome = true ∨ (s.object p.target).Listable → keys.Nodup)) ∧
    ∀ key q, s'.ownProperty? p.target key = some q →
      q.configurable = false ∨ (s'.object p.target).extensible = false → key ∈ keys := by
  obtain ⟨trap, s₁, htrap, hask⟩ := gives_bind.mp (gives_request.mp ((gives_bind_value (proxyOf_proxy hp.kind)).mp h))
  have ho := asked hp htrap
  cases trap with
  | none =>
    obtain ⟨rfl, rfl⟩ := (gives_value (ownKeys_ordinary ho.isProxy)).mp hask
    refine ⟨⟨none, _, htrap, fun hlist => ?_⟩, fun key q hq _ => State.mem_ownKeys hq⟩
    have hlist := hlist.resolve_left nofun
    exact ((leads_of_gives (trapOf_safe World.met_bare) htrap).listable hp.target hlist).ownKeys_nodup
  | some trap =>
    obtain ⟨v, s₂, hv, hlisting⟩ := gives_bind.mp hask
    obtain ⟨items, s₃, hitems, hnames⟩ := gives_bind.mp hlisting
    have ho₃ := ((leads_of_gives (listFromArrayLike_safe World.met_bare) hitems).ordinary
      (answered ho hv)).1
    obtain ⟨listed, s₄, hlisted, hjudge⟩ := gives_bind.mp hnames
    obtain ⟨hnodup, rfl⟩ := gives_keysOfTrap hlisted .nil
    have hchecks := (gives_bind_value (ownKeys_ordinary ho₃.isProxy)).mp
      ((gives_bind_value (isExtensible_ordinary ho₃.isProxy)).mp hjudge)
    obtain ⟨_, s₅, hall, hdone⟩ := gives_bind.mp hchecks
    obtain ⟨rfl, rfl⟩ := gives_pure.mp hdone
    obtain ⟨rfl, hrequired⟩ := gives_required (fun key => !(s₄.object p.target).extensible ||
      ((s₄.ownProperty? p.target key).map (!·.configurable)).getD false) (fun key _ s₆ hkey => by
        have hcheck {required : Bool} (h : (if required && !keys.contains key then
            lie "ownKeys" ("trap result did not include '" ++ key.text ++ "'") else pure () :
              Exec Unit).Gives (machine fuel) c s₄ () s₆) :
            s₆ = s₄ ∧ (required = true → key ∈ keys) := by
          split at h
          · exact (gives_lie h).elim
          · rename_i hno
            exact ⟨(gives_pure.mp h).2, fun hr => by simpa [hr] using hno⟩
        split at hkey
        · rename_i hextensible
          rw [hextensible]
          exact hcheck ((gives_bind_value (getOwn_ordinary ho₃.isProxy)).mp hkey)
        · exact (hcheck hkey).imp_right fun h _ => h rfl) hall
    refine ⟨⟨_, s₁, htrap, fun _ => hnodup⟩, fun key q hq hc => hrequired key (State.mem_ownKeys hq) ?_⟩
    rcases hc with hc | hclosed
    · simp [hq, hc]
    · simp [hclosed]

theorem ownKeys_honest {keys : List PropertyKey}
    (h : (ownKeys id).Gives (machine (fuel + 1)) c s keys s') :
    (∃ trap s₁, (trapOf p "ownKeys").Gives (machine fuel) c s trap s₁ ∧
      (trap.isSome = true ∨ (s.object p.target).Listable → keys.Nodup)) ∧
    ∀ key q, s'.ownProperty? p.target key = some q → q.configurable = false → key ∈ keys :=
  (ownKeys_lists hp h).imp_right fun hall key q hq hc => hall key q hq (.inl hc)

/-- A description is judged by the target as it was before its trap was looked for. What is not
configurable then stays so, but nothing else has to be true of the target any more. -/
theorem getOwn_honest {own : Option Property}
    (h : (getOwn id key).Gives (machine (fuel + 1)) c s own s') :
    (own = none → ∀ q, s.ownProperty? p.target key = some q → q.configurable = true) ∧
      ∀ q, own = some q → q.configurable = false →
        ∃ q', s'.ownProperty? p.target key = some q' ∧ q'.configurable = false := by
  have hkept := ((leads_of_gives getOwn_safe h).ordinary hp.target).2
  have hpinned {q : Property} (hq : s.ownProperty? p.target key = some q) (hc : q.configurable = false) :
      ∃ q', s'.ownProperty? p.target key = some q' ∧ q'.configurable = false := by
    obtain ⟨q', hq', hstays⟩ := hkept.property key q hq hc
    exact ⟨q', hq', hstays.configurable⟩
  have hask := (gives_bind_value (getOwn_ordinary hp.target.isProxy)).mp
    (gives_request.mp ((gives_bind_value (proxyOf_proxy hp.kind)).mp h))
  obtain ⟨trap, s₁, -, hask⟩ := gives_bind.mp hask
  generalize hown : s.ownProperty? p.target key = current at *
  cases trap with
  | none =>
    obtain ⟨rfl, -⟩ := gives_pure.mp hask
    cases current with
    | none =>
      constructor
      · intro _ q hq
        cases hq
      · intro q hq
        cases hq
    | some q =>
      constructor
      · intro hnone
        cases hnone
      · intro q' hq' hc
        refine hpinned rfl ?_
        obtain rfl := Option.some.inj hq'
        rwa [Property.configurable_described] at hc
  | some trap =>
    obtain ⟨v, s₂, -, hjudge⟩ := gives_bind.mp hask
    dsimp only at hjudge
    split at hjudge
    · split at hjudge
      · obtain ⟨_, _, hno, -⟩ := gives_bind.mp hjudge
        exact (gives_lie hno).elim
      · rename_i hgood
        obtain ⟨rfl, -⟩ := gives_pure.mp hjudge
        refine ⟨fun _ q hq => by simpa [hq] using hgood, fun q hq => ?_⟩
        cases hq
    · obtain ⟨d, s₃, -, hjudge⟩ := gives_bind.mp hjudge
      split at hjudge
      · obtain ⟨_, _, hno, -⟩ := gives_bind.mp hjudge
        exact (gives_lie hno).elim
      · rename_i hgood
        obtain ⟨rfl, -⟩ := gives_pure.mp hjudge
        refine ⟨fun hnone => ?_, fun q hq hc => ?_⟩
        · cases hnone
        obtain rfl := Option.some.inj hq
        rw [Property.configurable_described] at hc
        cases current with
        | none => simp [hc] at hgood
        | some q => exact hpinned rfl (by simpa [hc] using hgood)
    · exact (gives_lie hjudge).elim

theorem get_honest {receiver v : Value}
    (h : (getFor id key receiver).Gives (machine (fuel + 1)) c s v s') :
    ∃ trap s₁, (trapOf p "get").Gives (machine fuel) c s trap s₁ ∧
      ∀ fixed, (judged trap s₁ s').frozen? p.target key = some fixed → fixed.same v = true := by
  have hlook := gives_look_bind.mp h
  rw [State.lookup_proxy hp.kind] at hlook
  obtain ⟨trap, s₁, htrap, hask⟩ := gives_bind.mp (gives_request.mp hlook)
  have ho := asked hp htrap
  refine ⟨trap, s₁, htrap, fun fixed hfixed => ?_⟩
  cases trap with
  | none =>
    obtain ⟨e, hq⟩ := (State.frozen?_eq_some).mp hfixed
    have hfound := gives_look_bind.mp hask
    rw [State.lookup_own ho.isProxy hq] at hfound
    exact Value.same_iff.mpr (gives_pure.mp hfound).1.symm
  | some trap =>
    obtain ⟨v', s₂, hv, hjudge⟩ := gives_bind.mp hask
    have ho₂ := answered ho hv
    obtain ⟨rfl, rfl, hsame⟩ := gives_compareFrozen ho₂.isProxy (fun _ _ _ _ => gives_lie) hjudge
    exact hsame fixed hfixed

theorem set_honest {value receiver : Value}
    (h : (setFor id key value receiver).Gives (machine (fuel + 1)) c s .done s') :
    ∃ trap s₁, (trapOf p "set").Gives (machine fuel) c s trap s₁ ∧
      ∀ fixed, (judged trap s₁ s').frozen? p.target key = some fixed → fixed.same value = true := by
  have hlook := gives_look_bind.mp h
  rw [State.lookup_proxy hp.kind] at hlook
  obtain ⟨done, s₀, hset, hanswer⟩ := gives_bind.mp hlook
  obtain ⟨hdone, rfl⟩ := gives_pure.mp hanswer
  obtain rfl : done = true := by
    cases done with
    | false => cases hdone
    | true => rfl
  obtain ⟨trap, s₁, htrap, hask⟩ := gives_bind.mp (gives_request.mp hset)
  have ho := asked hp htrap
  refine ⟨trap, s₁, htrap, fun fixed hfixed => ?_⟩
  cases trap with
  | none =>
    obtain ⟨e, hq⟩ := (State.frozen?_eq_some).mp hfixed
    obtain ⟨outcome, s₂, houtcome, hanswer⟩ := gives_bind.mp hask
    have hfound := gives_look_bind.mp houtcome
    rw [State.lookup_own ho.isProxy hq] at hfound
    obtain ⟨rfl, rfl⟩ := gives_pure.mp hfound
    cases (gives_pure.mp hanswer).1
  | some trap =>
    obtain ⟨v, s₂, hv, hjudge⟩ := gives_bind.mp hask
    have ho₂ := answered ho hv
    dsimp only at hjudge
    split at hjudge
    · cases (gives_pure.mp hjudge).1
    · obtain ⟨-, rfl, hsame⟩ := gives_compareFrozen ho₂.isProxy (fun _ _ _ _ => gives_lie) hjudge
      exact hsame fixed hfixed

theorem define_honest {d : Descriptor} (hd : d.configurable = some false)
    (h : (define id key d).Gives (machine (fuel + 1)) c s true s') :
    ∃ q, s'.ownProperty? p.target key = some q ∧ q.configurable = false := by
  obtain ⟨trap, s₁, htrap, hask⟩ := gives_bind.mp (gives_request.mp ((gives_bind_value (proxyOf_proxy hp.kind)).mp h))
  have ho := asked hp htrap
  cases trap with
  | none => exact pins_of_define hask ho hd
  | some trap =>
    obtain ⟨shown, s₂, hshown, hcall⟩ := gives_bind.mp hask
    have ho₂ := ((leads_of_gives (fromDescriptor_safe World.met_bare) hshown).ordinary ho).1
    obtain ⟨v, s₃, hv, hjudge⟩ := gives_bind.mp hcall
    have ho₃ := answered ho₂ hv
    dsimp only at hjudge
    split at hjudge
    · cases (gives_pure.mp hjudge).1
    · replace hjudge := (gives_bind_value (getOwn_ordinary ho₃.isProxy)).mp hjudge
      split at hjudge
      · replace hjudge := (gives_bind_value (isExtensible_ordinary ho₃.isProxy)).mp hjudge
        split at hjudge
        · obtain ⟨_, _, hno, -⟩ := gives_bind.mp hjudge
          exact (gives_lie hno).elim
        · rw [hd] at hjudge
          exact (gives_lie hjudge).elim
      · rename_i own hown
        rw [hd] at hjudge
        split at hjudge
        · exact (gives_lie hjudge).elim
        · rename_i hc
          obtain ⟨-, rfl⟩ := gives_pure.mp hjudge
          exact ⟨own, hown, by simpa using hc⟩

theorem isExtensible_honest {b : Bool}
    (h : (isExtensible id).Gives (machine (fuel + 1)) c s b s') :
    b = (s'.object p.target).extensible := by
  obtain ⟨trap, s₁, htrap, hask⟩ := gives_bind.mp (gives_request.mp ((gives_bind_value (proxyOf_proxy hp.kind)).mp h))
  have ho := asked hp htrap
  cases trap with
  | none =>
    obtain ⟨rfl, rfl⟩ := (gives_value (isExtensible_ordinary ho.isProxy)).mp hask
    rfl
  | some trap =>
    obtain ⟨v, s₂, hv, hjudge⟩ := gives_bind.mp hask
    have ho₂ := answered ho hv
    replace hjudge := (gives_bind_value (isExtensible_ordinary ho₂.isProxy)).mp hjudge
    split at hjudge
    · obtain ⟨_, _, hno, -⟩ := gives_bind.mp hjudge
      exact (gives_lie hno).elim
    · rename_i heq
      obtain ⟨rfl, rfl⟩ := gives_pure.mp hjudge
      simpa using heq

theorem preventExtensions_honest
    (h : (preventExtensions id).Gives (machine (fuel + 1)) c s true s') :
    (s'.object p.target).extensible = false := by
  obtain ⟨trap, s₁, htrap, hask⟩ := gives_bind.mp (gives_request.mp ((gives_bind_value (proxyOf_proxy hp.kind)).mp h))
  have ho := asked hp htrap
  cases trap with
  | none => exact preventExtensions_closes hask ho.size ho.isProxy
  | some trap =>
    obtain ⟨v, s₂, hv, hjudge⟩ := gives_bind.mp hask
    have ho₂ := answered ho hv
    dsimp only at hjudge
    split at hjudge
    · replace hjudge := (gives_bind_value (isExtensible_ordinary ho₂.isProxy)).mp hjudge
      split at hjudge
      · obtain ⟨_, _, hno, -⟩ := gives_bind.mp hjudge
        exact (gives_lie hno).elim
      · rename_i hclosed
        obtain ⟨-, rfl⟩ := gives_pure.mp hjudge
        exact Bool.eq_false_iff.mpr hclosed
    · rename_i hfalsy
      exact absurd (gives_pure.mp hjudge).1.symm hfalsy

/-- What a proxy guarantees, whatever its traps do. An answer is judged by the target as it is when
the operation returns, except that for three operations a missing trap leaves it to the target, and to
the code of its getters, setters and prototypes, what happens from then on. -/
structure Honest (fuel : Nat) (c : Context) (s : State) (id : ObjectId) (p : ProxyData) : Prop where
  has : ∀ key s', (has id key).Gives (machine (fuel + 1)) c s false s' →
    ∃ trap s₁, (trapOf p "has").Gives (machine fuel) c s trap s₁ ∧
      ∀ q, (judged trap s₁ s').ownProperty? p.target key = some q → q.configurable = true
  delete : ∀ key s', (delete id key).Gives (machine (fuel + 1)) c s true s' →
    ∀ q, s'.ownProperty? p.target key = some q → q.configurable = true
  /-- Without a trap the keys are those of the target, and are distinct if it lists its own once. -/
  ownKeys : ∀ keys s', (ownKeys id).Gives (machine (fuel + 1)) c s keys s' →
    (∃ trap s₁, (trapOf p "ownKeys").Gives (machine fuel) c s trap s₁ ∧
      (trap.isSome = true ∨ (s.object p.target).Listable → keys.Nodup)) ∧
    ∀ key q, s'.ownProperty? p.target key = some q → q.configurable = false → key ∈ keys
  get : ∀ key receiver v s', (getFor id key receiver).Gives (machine (fuel + 1)) c s v s' →
    ∃ trap s₁, (trapOf p "get").Gives (machine fuel) c s trap s₁ ∧
      ∀ fixed, (judged trap s₁ s').frozen? p.target key = some fixed → fixed.same v = true
  set : ∀ key value receiver s',
    (setFor id key value receiver).Gives (machine (fuel + 1)) c s .done s' →
    ∃ trap s₁, (trapOf p "set").Gives (machine fuel) c s trap s₁ ∧
      ∀ fixed, (judged trap s₁ s').frozen? p.target key = some fixed → fixed.same value = true
  define : ∀ key d s', d.configurable = some false →
    (define id key d).Gives (machine (fuel + 1)) c s true s' →
    ∃ q, s'.ownProperty? p.target key = some q ∧ q.configurable = false
  isExtensible : ∀ b s', (isExtensible id).Gives (machine (fuel + 1)) c s b s' →
    b = (s'.object p.target).extensible
  preventExtensions : ∀ s', (preventExtensions id).Gives (machine (fuel + 1)) c s true s' →
    (s'.object p.target).extensible = false

/-- Traps cannot lie about what is not configurable in the target. -/
theorem proxy_honest : Honest fuel c s id p where
  has _ _ := has_honest hp
  delete _ _ := delete_honest hp
  ownKeys _ _ := ownKeys_honest hp
  get _ _ _ _ := get_honest hp
  set _ _ _ _ := set_honest hp
  define _ _ _ hd h := define_honest hp hd h
  isExtensible _ _ := isExtensible_honest hp
  preventExtensions _ := preventExtensions_honest hp

end Traps

end Exec

def Object.bare (properties : PropertyTable) : Object := { prototype := none, properties }

/-- A proxy whose handler reads properties as the library does. The target has one that can never
change. -/
def State.withTrap : State := { (default : State) with
  heap := #[
    { kind := .proxy (some ⟨⟨1⟩, ⟨2⟩, false, false⟩), prototype := none },
    .bare (.put {} (.name "k") (.constant .null)),
    .bare (.put {} (.name "get") (.plain (.object ⟨3⟩))),
    { kind := .function (.native "get" (.reflect .get)), prototype := none }] }

/-- A proxy with an empty handler. The target has a property with a getter, which makes of it one
that can never change and gives something else. -/
def State.withTurncoat : State := { (default : State) with
  heap := #[
    { kind := .proxy (some ⟨⟨1⟩, ⟨2⟩, false, false⟩), prototype := none },
    .bare (.put {} (.name "k") ⟨.accessor (some (.object ⟨3⟩)) none, true, true⟩),
    .bare {},
    { kind := .function (.bound ⟨4⟩ .undefined #[.object ⟨1⟩, .string "k", .object ⟨5⟩])
      prototype := none },
    { kind := .function (.native "defineProperty" (.object .defineProperty)), prototype := none },
    .bare (.put (.put {} (.name "value") (.plain .null)) (.name "configurable")
      (.plain (.boolean false)))] }

/-- A proxy with an empty handler. The target stands for a string and has one more property, whose
name is the number behind the last index. -/
def State.withString (text : String) : State := { (default : State) with
  heap := #[
    { kind := .proxy (some ⟨⟨1⟩, ⟨2⟩, false, false⟩), prototype := none },
    { kind := .string text, prototype := none
      properties := .put {} (.ofNat indexLimit) (.plain .null) },
    .bare {}] }

/-- A state whose first object is a proxy of the second, which is a plain one. -/
theorem State.proxies_bare {s : State} {p : ProxyData} {t : PropertyTable}
    (hk : (s.object ⟨0⟩).kind = .proxy (some p)) (hsize : p.target.index < s.heap.size)
    (ho : s.object p.target = .bare t) : s.Proxies ⟨0⟩ p where
  kind := hk
  target := ⟨hsize, by rw [ho]; rfl, by rw [ho]; exact .of_kind rfl, by rw [ho]; exact nofun⟩

namespace Exec

theorem proxy_honest_trapped : ∃ v s', (getFor ⟨0⟩ (.name "k") (.object ⟨0⟩)).Gives (machine 6)
    default State.withTrap v s' ∧ s'.frozen? ⟨1⟩ (.name "k") = some v := by
  have hp : State.withTrap.Proxies ⟨0⟩ ⟨⟨1⟩, ⟨2⟩, false, false⟩ :=
    State.proxies_bare rfl (by decide) rfl
  obtain ⟨s₁, h⟩ := Step.outcome_of_answers (show Step.answers true ((do
    let trap ← trapOf ⟨⟨1⟩, ⟨2⟩, false, false⟩ "get"
    return trap.isSome : Exec Bool) (machine 5) default State.withTrap) = true by decide +kernel)
  obtain ⟨trap, s₁, htrap, h⟩ := gives_bind.mp h
  obtain ⟨hsome, -⟩ := gives_pure.mp h
  obtain ⟨s₂, h⟩ := Step.outcome_of_answers (show Step.answers true ((do
    let _ ← getFor ⟨0⟩ (.name "k") (.object ⟨0⟩)
    return (← look (·.frozen? ⟨1⟩ (.name "k"))).isSome : Exec Bool) (machine 6) default
      State.withTrap) = true by decide +kernel)
  obtain ⟨v, s', hget, h⟩ := gives_bind.mp h
  obtain ⟨hfrozen, -⟩ := gives_pure.mp (gives_look_bind.mp h)
  obtain ⟨fixed, hfixed⟩ := Option.isSome_iff_exists.mp hfrozen.symm
  obtain ⟨trap', s₃, htrap', hjudged⟩ := (proxy_honest hp).get _ _ v s' hget
  obtain ⟨rfl, -⟩ := htrap.unique htrap'
  rw [judged, if_pos hsome.symm] at hjudged
  exact ⟨v, s', hget, Value.same_iff.mp (hjudged fixed hfixed) ▸ hfixed⟩

theorem ownKeys_overlong {c : Context} {text : String} (hlong : indexLimit < Text.length16 text) :
    ∃ keys, (ownKeys ⟨0⟩).Gives (machine 1) c (.withString text) keys (.withString text) ∧
      ¬ keys.Nodup := by
  have hb : ((State.withString text).object ⟨2⟩).Blank :=
    ⟨rfl, rfl, fun _ => PropertyTable.get?_empty⟩
  have hvalue : ownKeys ⟨0⟩ (machine 1) c (.withString text) =
      .value ((State.withString text).object ⟨1⟩).ownKeys (.withString text) := by
    rw [ownKeys, bind_value (proxyOf_proxy (p := ⟨⟨1⟩, ⟨2⟩, false, false⟩) rfl)]
    change proxyOwnKeys ⟨⟨1⟩, ⟨2⟩, false, false⟩ (machine 0) c (.withString text) = _
    rw [proxyOwnKeys, bind_value (trapOf_blank hb)]
    exact ownKeys_ordinary rfl
  have hown : ((State.withString text).object ⟨1⟩).own? (.ofNat indexLimit) = some (.plain .null) := by
    change (PropertyTable.put {} (.ofNat indexLimit) (.plain .null)).get? (.ofNat indexLimit) = _
    rw [PropertyTable.get?_put, if_pos rfl]
  exact ⟨_, (gives_value hvalue).mpr ⟨rfl, rfl⟩, Object.ownKeys_overlong rfl hlong hown⟩

/-- Without a trap, a property that has become one that can never change need not have the value that
was read, and keys can be listed twice. -/
theorem forwarding_deviates :
    (State.withTurncoat.Proxies ⟨0⟩ ⟨⟨1⟩, ⟨2⟩, false, false⟩ ∧
      ∃ v s' fixed, (getFor ⟨0⟩ (.name "k") (.object ⟨0⟩)).Gives (machine 6) default
        State.withTurncoat v s' ∧ s'.frozen? ⟨1⟩ (.name "k") = some fixed ∧ fixed.same v = false) ∧
    ∃ text keys, (ownKeys ⟨0⟩).Gives (machine 1) default (.withString text) keys (.withString text) ∧
      ¬ keys.Nodup := by
  refine ⟨⟨State.proxies_bare rfl (by decide) rfl, ?_⟩,
    String.ofList (List.replicate (indexLimit + 1) 'a'), ownKeys_overlong ?_⟩
  · obtain ⟨s₁, h⟩ := Step.outcome_of_answers (show Step.answers true ((do
      let v ← getFor ⟨0⟩ (.name "k") (.object ⟨0⟩)
      return (← look (·.frozen? ⟨1⟩ (.name "k"))).any (!·.same v) : Exec Bool) (machine 6) default
        State.withTurncoat) = true by decide +kernel)
    obtain ⟨v, s', hv, h⟩ := gives_bind.mp h
    obtain ⟨hfrozen, -⟩ := gives_pure.mp (gives_look_bind.mp h)
    obtain ⟨fixed, hfixed, hsame⟩ := (Option.any_eq_true ..).mp hfrozen.symm
    exact ⟨v, s', fixed, hv, hfixed, by simpa using hsame⟩
  · rw [Text.length16_replicate]
    exact Nat.lt_succ_self _

end Exec
end EcmaScript

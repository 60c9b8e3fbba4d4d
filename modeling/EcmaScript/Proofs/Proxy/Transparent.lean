import EcmaScript.Proofs.Proxy.Trap

/-! A proxy whose handler is empty does what its target does, and so does a proxy of such a proxy. -/
namespace EcmaScript

/-- Whether a key is found in no way that runs code: as data, or not at all. -/
def Lookup.isPlain : Lookup → Bool
  | .found p => !p.isAccessor
  | .proxy _ => false
  | .absent => true

theorem Property.toProperty_toDescriptor {p : Property} (h : p.isAccessor = false) :
    p.toDescriptor.toProperty = p := by
  obtain ⟨slot, e, c⟩ := p
  cases slot with
  | data v writable => rfl
  | accessor => cases h

namespace State
variable {s : State} {target : ObjectId} {key : PropertyKey}

/-- Proxies with empty handlers, one around the other, and what they are proxies of in the end. -/
inductive Wraps (s : State) (target : ObjectId) : (depth : Nat) → ObjectId → Prop where
  | target : Wraps s target 0 target
  | proxy {depth : Nat} {id : ObjectId} {p : ProxyData} (hk : (s.object id).kind = .proxy (some p))
    (hb : (s.object p.handler).Blank) (h : Wraps s target depth p.target) :
    Wraps s target (depth + 1) id

theorem plain_target (h : (s.lookup target key).isPlain = true) :
    (s.object target).isProxy = false ∧
      ∀ q, s.ownProperty? target key = some q → q.isAccessor = false := by
  unfold lookup lookupFrom at h
  dsimp only at h
  split at h
  · cases h
  · rename_i hproxy
    refine ⟨?_, fun q hq => ?_⟩
    · unfold Object.isProxy
      split
      · exact absurd ‹_› (hproxy _)
      · rfl
    · rw [hq] at h
      simpa [Lookup.isPlain] using h

end State

namespace Exec
variable {α β : Type} {m : Machine} {c : Context} {s s' : State} {id target : ObjectId}
  {p : ProxyData} {key : PropertyKey} {fuel depth : Nat}

section Forward
variable (hk : (s.object id).kind = .proxy (some p)) (hb : (s.object p.handler).Blank)
include hk hb

theorem forwards {operation name : String} {r : Request} {f : Option ProxyData → Exec r.Result}
    {g : Option Value → Exec r.Result} (hf : f (some p) = request r)
    (hr : answer r = (trapOf p name >>= g)) :
    (proxyOf id operation >>= f) (machine (fuel + 1)) c s = g none (machine fuel) c s := by
  rw [bind_value (proxyOf_proxy hk), hf]
  change answer r (machine fuel) c s = _
  rw [hr, bind_value (trapOf_blank hb)]

/-- And so does one that looks for a key. -/
theorem forwards_lookup {name : String} {r : Request} {f : Lookup → Exec α}
    {f' : r.Result → Exec α} {g : Option Value → Exec r.Result}
    (hf : f (.proxy (some p)) = (request r >>= f')) (hr : answer r = (trapOf p name >>= g)) :
    (look (·.lookup id key) >>= f) (machine (fuel + 1)) c s =
      (g none (machine fuel) c s).bind fun a s => f' a (machine (fuel + 1)) c s := by
  rw [bind_value (show look (·.lookup id key) (machine (fuel + 1)) c s = .value (.proxy (some p)) s
    from congrArg (Step.value · s) (State.lookup_proxy hk)), hf]
  change (answer r (machine fuel) c s).bind _ = _
  rw [hr, bind_value (trapOf_blank hb)]

end Forward

theorem forwards_all {f : ObjectId → Exec α} (h : s.Wraps target depth id)
    (hf : ∀ {id p fuel}, (s.object id).kind = .proxy (some p) → (s.object p.handler).Blank →
      f id (machine (fuel + 1)) c s = f p.target (machine fuel) c s) :
    f id (machine (fuel + depth)) c s = f target (machine fuel) c s := by
  induction h with
  | target => rfl
  | proxy hk hb _ ih => exact (hf hk hb).trans ih

section Operations
variable (h : s.Wraps target depth id)
include h

theorem define_forwards {d : Descriptor} : define id key d (machine (fuel + depth)) c s =
    define target key d (machine fuel) c s :=
  forwards_all (f := (define · key d)) h fun hk hb =>
    forwards hk hb (r := .proxyDefine _ key d) rfl rfl

theorem delete_forwards : delete id key (machine (fuel + depth)) c s =
    delete target key (machine fuel) c s :=
  forwards_all (f := (delete · key)) h fun hk hb => forwards hk hb (r := .proxyDelete _ key) rfl rfl

theorem ownKeys_forwards : ownKeys id (machine (fuel + depth)) c s =
    ownKeys target (machine fuel) c s :=
  forwards_all (f := ownKeys) h fun hk hb => forwards hk hb (r := .proxyOwnKeys _) rfl rfl

theorem prototypeOf_forwards : prototypeOf id (machine (fuel + depth)) c s =
    prototypeOf target (machine fuel) c s :=
  forwards_all (f := prototypeOf) h fun hk hb => forwards hk hb (r := .proxyGetPrototype _) rfl rfl

theorem setPrototype_forwards {prototype : Option ObjectId} :
    setPrototype id prototype (machine (fuel + depth)) c s =
      setPrototype target prototype (machine fuel) c s :=
  forwards_all (f := (setPrototype · prototype)) h fun hk hb =>
    forwards hk hb (r := .proxySetPrototype _ prototype) rfl rfl

theorem isExtensible_forwards : isExtensible id (machine (fuel + depth)) c s =
    isExtensible target (machine fuel) c s :=
  forwards_all (f := isExtensible) h fun hk hb => forwards hk hb (r := .proxyIsExtensible _) rfl rfl

theorem preventExtensions_forwards : preventExtensions id (machine (fuel + depth)) c s =
    preventExtensions target (machine fuel) c s :=
  forwards_all (f := preventExtensions) h fun hk hb =>
    forwards hk hb (r := .proxyPreventExtensions _) rfl rfl

theorem has_forwards : has id key (machine (fuel + depth)) c s =
    has target key (machine fuel) c s :=
  forwards_all (f := (has · key)) h fun {_ p _} hk hb =>
    (forwards_lookup hk hb (r := .proxyHas p key) (bind_pure _).symm rfl).trans
      (step_bind_value _)

theorem getFor_forwards {receiver : Value} : getFor id key receiver (machine (fuel + depth)) c s =
    getFor target key receiver (machine fuel) c s :=
  forwards_all (f := (getFor · key receiver)) h fun {_ p _} hk hb =>
    (forwards_lookup hk hb (r := .proxyGet p key receiver) (bind_pure _).symm rfl).trans (step_bind_value _)

end Operations

theorem getOwn_forwards (h : s.Wraps target depth id) (ht : (s.object target).isProxy = false)
    (hq : ∀ q, s.ownProperty? target key = some q → q.isAccessor = false) :
    getOwn id key (machine (fuel + depth)) c s = .value (s.ownProperty? target key) s := by
  induction h with
  | target => exact getOwn_ordinary ht
  | @proxy depth id p hk hb _ ih =>
    rw [getOwn, bind_value (proxyOf_proxy hk)]
    change proxyGetOwn p key (machine (fuel + depth)) c s = _
    rw [proxyGetOwn, bind_value ih, bind_value (trapOf_blank hb)]
    change Step.value _ s = _
    congr 1
    cases hown : s.ownProperty? target key with
    | none => rfl
    | some q => exact congrArg some (Property.toProperty_toDescriptor (hq q hown))

def sets (key : PropertyKey) (value receiver : Value) (id : ObjectId) : Exec Bool :=
  return (← setFor id key value receiver) == .done

theorem sets_forwards {value receiver : Value} (h : s.Wraps target depth id) :
    sets key value receiver id (machine (fuel + depth)) c s =
      sets key value receiver target (machine fuel) c s := by
  refine forwards_all h fun {id p fuel} hk hb => ?_
  change (setFor id key value receiver (machine (fuel + 1)) c s).bind _ = _
  rw [setFor, forwards_lookup hk hb (r := .proxySet p key value receiver) rfl rfl, step_bind_assoc]
  change (sets key value receiver p.target (machine fuel) c s).bind _ = _
  refine Eq.trans (congrArg _ (funext fun done => funext fun s => ?_)) (step_bind_value _)
  cases done <;> rfl

/-- A computation that comes to its end at once, and leaves the state as it is when it says no. -/
def Settles (x : Exec Bool) (m : Machine) (c : Context) (s : State) : Prop :=
  match x m c s with
  | .value b s' => b = false → s' = s
  | .abrupt .. | .exhausted => True
  | .waiting .. | .parked .. => False

theorem settles_value {x : Exec Bool} {b : Bool} (h : x m c s = .value b s')
    (hb : b = false → s' = s) : Settles x m c s := by
  rw [Settles, h]
  exact hb

theorem settles_replaceWith {f : Object → Option Object} : Settles (replaceWith id f) m c s := by
  cases hf : f (s.object id) with
  | none => exact settles_value (b := false) (by rw [replaceWith, hf]) fun _ => rfl
  | some o => exact settles_value (b := true) (by rw [replaceWith, hf]) fun h => Bool.noConfusion h

theorem settles_checked {what : String} {x : Exec Bool} (h : Settles x (machine fuel) c s) :
    Settles (checkObjectWrite id what >>= fun _ => x) (machine fuel) c s := by
  have hcontext : context (machine fuel) c s = .value c s := rfl
  unfold Settles at *
  cases hdry : c.isDryRun && decide (id.index < c.firstObject) with
  | false =>
    rw [checkObjectWrite, Exec.bind_assoc, bind_value hcontext, hdry, if_neg Bool.false_ne_true]
    exact h
  | true =>
    rw [checkObjectWrite, Exec.bind_assoc, bind_value hcontext, hdry, if_pos rfl]
    cases fuel <;> trivial

theorem settles_define {d : Descriptor} (ht : (s.object id).isProxy = false)
    (hl : ¬ SetsLength (s.object id) key d) : Settles (define id key d) (machine fuel) c s := by
  rw [Settles, define, bind_value (proxyOf_ordinary ht)]
  refine settles_checked ?_
  rw [Settles, bind_value (show object id (machine fuel) c s = .value (s.object id) s from rfl)]
  change Settles _ (machine fuel) c s
  split
  · rename_i hk
    unfold defineOnArray
    split
    · exact settles_replaceWith
    · split
      · rename_i hkey
        unfold defineArrayLength
        split
        · exact settles_replaceWith
        · rename_i v hv
          exact absurd ⟨Object.isArray_iff_kind.mpr hk, hkey, by simp [hv]⟩ hl
      · exact settles_replaceWith
  · split
    · exact settles_value rfl fun _ => rfl
    · exact settles_replaceWith
  · rename_i shared hk
    cases hmap : shared.parameter? key with
    | none =>
      rw [defineArgument_unmapped hmap]
      exact settles_replaceWith
    | some name =>
      obtain ⟨n, rfl⟩ :=
        ArgumentMap.eq_index (show (shared.parameter? key).isSome = true by simp [hmap])
      have hdefine := defineArgument_mapped (m := machine fuel) (c := c) (d := d) hk hmap
      dsimp only at hdefine
      split at hdefine
      · exact settles_value hdefine fun _ => rfl
      · exact settles_value hdefine fun h => Bool.noConfusion h
  · exact settles_replaceWith

theorem assign_forwards (fuel : Nat) (value : Value) (h : s.Wraps target depth id)
    (hkey : (s.lookup target key).isPlain = true)
    (harray : (s.object target).isArray = true → (s.object target).WellFormed) :
    (assignOwn key value (.object id) (machine (fuel + depth)) c s).bind
        (fun outcome s => .value (outcome == .done) s) =
      (assignOwn key value (.object target) (machine fuel) c s).bind
        (fun outcome s => .value (outcome == .done) s) := by
  obtain ⟨ht, hdata⟩ := State.plain_target hkey
  have hextensible : isExtensible id (machine (fuel + depth)) c s =
      .value (s.object target).extensible s :=
    (isExtensible_forwards h).trans (isExtensible_ordinary ht)
  simp only [assignOwn]
  rw [bind_value (getOwn_forwards h ht hdata), bind_value (getOwn_ordinary ht)]
  cases hown : s.ownProperty? target key with
  | some q =>
    obtain ⟨⟨v, _ | _⟩ | ⟨getter, setter⟩, e, cf⟩ := q
    · rfl
    · change ((define id key _ (machine (fuel + depth)) c s).bind _).bind _ =
        ((define target key _ (machine fuel) c s).bind _).bind _
      rw [define_forwards h]
      rfl
    · rfl
  | none =>
    have hl : ¬ SetsLength (s.object target) key (.plain value) := by
      rintro ⟨ha, rfl, -⟩
      obtain ⟨n, w, hwf⟩ := harray ha
      rw [State.ownProperty?_of_not_maps (Object.maps_array ha _), hwf.length] at hown
      simp at hown
    have hsettles : Settles (define target key (.plain value)) (machine fuel) c s :=
      settles_define ht hl
    change ((define id key _ (machine (fuel + depth)) c s).bind _).bind _ =
      ((define target key _ (machine fuel) c s).bind _).bind _
    rw [define_forwards h]
    unfold Settles at hsettles
    generalize define target key (.plain value) (machine fuel) c s = x at hsettles
    cases x with
    | value b s' =>
      cases b with
      | true => rfl
      | false =>
        obtain rfl := hsettles rfl
        change ((isExtensible id (machine (fuel + depth)) c s').bind _).bind _ =
          ((isExtensible target (machine fuel) c s').bind _).bind _
        rw [hextensible, isExtensible_ordinary ht]
        cases (s'.object target).extensible <;> rfl
    | abrupt | exhausted => rfl
    | waiting | parked => exact hsettles.elim

theorem set_forwards {value : Value} (h : s.Wraps target depth id)
    (hkey : (s.lookup target key).isPlain = true)
    (harray : (s.object target).isArray = true → (s.object target).WellFormed) :
    set id key value (machine (fuel + 2 * depth)) c s =
      set target key value (machine fuel) c s := by
  have hlook {m : Machine} : look (·.lookup target key) m c s = .value (s.lookup target key) s := rfl
  have hassign := assign_forwards (c := c) fuel value h hkey harray
  calc set id key value (machine (fuel + 2 * depth)) c s
      = sets key value (.object id) id (machine (fuel + depth + depth)) c s := by
        rw [Nat.two_mul, ← Nat.add_assoc]
        rfl
    _ = sets key value (.object id) target (machine (fuel + depth)) c s := sets_forwards h
    _ = sets key value (.object target) target (machine fuel) c s := by
        change (setFor target key value (.object id) (machine (fuel + depth)) c s).bind _ =
          (setFor target key value (.object target) (machine fuel) c s).bind _
        rw [setFor, setFor, bind_value hlook, bind_value hlook]
        rcases hl : s.lookup target key with ⟨⟨v, _ | _⟩ | ⟨getter, setter⟩, e, cf⟩ | p | _
        · rfl
        · exact hassign
        · simp [hl, Lookup.isPlain, Property.isAccessor] at hkey
        · simp [hl, Lookup.isPlain] at hkey
        · exact hassign
    _ = set target key value (machine fuel) c s := rfl

theorem getFor_plain {receiver receiver' : Value} {m' : Machine}
    (hkey : (s.lookup target key).isPlain = true) :
    getFor target key receiver m c s = getFor target key receiver' m' c s := by
  have hlook {m : Machine} : look (·.lookup target key) m c s = .value (s.lookup target key) s := rfl
  rw [getFor, getFor, bind_value hlook, bind_value hlook]
  rcases hl : s.lookup target key with ⟨⟨v, w⟩ | ⟨getter, setter⟩, e, cf⟩ | p | _
  · rfl
  · simp [hl, Lookup.isPlain, Property.isAccessor] at hkey
  · simp [hl, Lookup.isPlain] at hkey
  · rfl

/-- The eleven operations on an object come to the same as those on its target, in the same state.
Each proxy on the way costs one request, and an assignment goes the way twice. -/
structure Transparent (fuel depth : Nat) (c : Context) (s : State) (id target : ObjectId)
    (key : PropertyKey) : Prop where
  getOwn : getOwn id key (machine (fuel + depth)) c s = getOwn target key (machine fuel) c s
  has : has id key (machine (fuel + depth)) c s = has target key (machine fuel) c s
  get : ∀ receiver receiver', getFor id key receiver (machine (fuel + depth)) c s =
    getFor target key receiver' (machine fuel) c s
  set : ∀ value, set id key value (machine (fuel + 2 * depth)) c s =
    set target key value (machine fuel) c s
  define : ∀ d, define id key d (machine (fuel + depth)) c s = define target key d (machine fuel) c s
  delete : delete id key (machine (fuel + depth)) c s = delete target key (machine fuel) c s
  ownKeys : ownKeys id (machine (fuel + depth)) c s = ownKeys target (machine fuel) c s
  prototypeOf : prototypeOf id (machine (fuel + depth)) c s = prototypeOf target (machine fuel) c s
  setPrototype : ∀ prototype, setPrototype id prototype (machine (fuel + depth)) c s =
    setPrototype target prototype (machine fuel) c s
  isExtensible : isExtensible id (machine (fuel + depth)) c s = isExtensible target (machine fuel) c s
  preventExtensions : preventExtensions id (machine (fuel + depth)) c s =
    preventExtensions target (machine fuel) c s

/-- Proxies without traps are transparent for a key that is found as data, or not at all. -/
theorem proxy_transparent (h : s.Wraps target depth id) (hkey : (s.lookup target key).isPlain = true)
    (harray : (s.object target).isArray = true → (s.object target).WellFormed) :
    Transparent fuel depth c s id target key where
  getOwn := by
    obtain ⟨ht, hdata⟩ := State.plain_target hkey
    rw [getOwn_forwards h ht hdata, getOwn_ordinary ht]
  has := has_forwards h
  get _ _ := (getFor_forwards h).trans (getFor_plain hkey)
  set _ := set_forwards h hkey harray
  define _ := define_forwards h
  delete := delete_forwards h
  ownKeys := ownKeys_forwards h
  prototypeOf := prototypeOf_forwards h
  setPrototype _ := setPrototype_forwards h
  isExtensible := isExtensible_forwards h
  preventExtensions := preventExtensions_forwards h

end Exec

/-- A proxy of a proxy of an array of one element, with one empty handler for both. -/
def State.withProxies : State := { (default : State) with
  heap := #[
    { kind := .proxy (some ⟨⟨1⟩, ⟨3⟩, false, false⟩), prototype := none },
    { kind := .proxy (some ⟨⟨2⟩, ⟨3⟩, false, false⟩), prototype := none },
    Exec.arrayObject ⟨3⟩ (.ofItems #[.undefined]) 1,
    { prototype := none }] }

theorem Exec.proxy_transparent_twice :
    (set ⟨0⟩ (.index 0) .null (machine 5) default State.withProxies).answers true = true := by
  have hb : (State.withProxies.object ⟨3⟩).Blank := ⟨rfl, rfl, fun _ => PropertyTable.get?_empty⟩
  have h : State.withProxies.Wraps ⟨2⟩ 2 ⟨0⟩ := .proxy rfl hb (.proxy rfl hb .target)
  have hwf : (State.withProxies.object ⟨2⟩).WellFormed :=
    Object.wellFormed_arrayObject (show #[Value.undefined].size < 2 ^ 32 by decide)
  have htransparent : Transparent 1 2 default State.withProxies ⟨0⟩ ⟨2⟩ (.index 0) :=
    proxy_transparent h (by decide +kernel) fun _ => hwf
  rw [htransparent.set]
  decide +kernel

end EcmaScript

import EcmaScript.Object.Proxy
import EcmaScript.Proofs.Safety.Write

/-! Proxies are safe: a trap is code like any other, and what it does not do is done to the
target. -/
namespace EcmaScript
open Exec

variable {P : Pairing} {c : Context} {w : World} {p : ProxyData} {key : PropertyKey}

theorem met_key (key : PropertyKey) : Met w key.toValue := by
  cases key <;> trivial

theorem lie_safe {α : Type} {Q : α → World → Prop} {operation rest : String} :
    Safe P c w (lie operation rest) Q := throwType_safe

variable [Serves P]

theorem trapOf_safe {name : String} (hp : Met w p) : Safe P c w (trapOf p name) Known :=
  methodOf_safe hp.2

theorem callTrap_safe {trap : Value} {args : Array Value} (hp : Met w p) (ht : Met w trap)
    (ha : Met w args) : Safe P c w (callTrap p trap args) Known := by
  refine call_safe ht hp.2 fun v hv => ?_
  rcases Array.mem_append.mp hv with hv | hv
  · obtain rfl : v = .object p.target := by simpa using hv
    exact hp.1
  · exact ha v hv

omit [Serves P] in
theorem met_described {q : Property} (hq : Met w q) : Met w q.toDescriptor.toProperty := by
  refine met_toProperty ?_
  have hslot : Met w q.slot := hq
  unfold Property.toDescriptor
  cases hs : q.slot with
  | data v writable =>
    rw [hs] at hslot
    exact met_descriptor.mpr ⟨hslot, trivial, trivial⟩
  | accessor getter setter =>
    rw [hs] at hslot
    exact met_descriptor.mpr ⟨trivial, met_getD hslot.1, met_getD hslot.2⟩

theorem proxyGetOwn_safe (hp : Met w p) : Safe P c w (proxyGetOwn p key) Known := by
  refine .bind getOwn_safe fun own w₁ h₁ hown => ?_
  refine .bind (trapOf_safe (h₁.met hp)) fun trap w₂ h₂ ht => ?_
  cases trap with
  | none =>
    refine .pure ?_
    cases own with
    | none => trivial
    | some q => exact met_described (h₂.met hown)
  | some trap =>
    refine .bind (callTrap_safe ((h₁.trans h₂).met hp) ht (.one (met_key key)))
      fun v w₃ h₃ hv => ?_
    match v, hv with
    | .undefined, _ => exact .ite (fun _ => .raise_bind trivial) fun _ => .pure trivial
    | .object d, hd =>
      refine .bind (toDescriptor_safe hd) fun d w₄ _ hd => ?_
      exact .ite (fun _ => .raise_bind trivial) fun _ => .pure (met_described (met_toProperty hd))
    | .null, _ => exact lie_safe
    | .boolean _, _ => exact lie_safe
    | .number _, _ => exact lie_safe
    | .string _, _ => exact lie_safe
    | .symbol _, _ => exact lie_safe

theorem proxyDefine_safe {d : Descriptor} (hp : Met w p) (hd : Met w d) :
    Safe P c w (proxyDefine p key d) Known := by
  refine .bind (trapOf_safe hp) fun trap w₁ h₁ ht => ?_
  cases trap with
  | none => exact define_safe (h₁.met hd)
  | some trap =>
    refine .bind (fromDescriptor_safe (h₁.met hd)) fun shown w₂ h₂ hshown => ?_
    refine .bind (callTrap_safe ((h₁.trans h₂).met hp) (h₂.met ht) (.two (met_key key) hshown.met))
      fun answer w₃ _ _ => .ite (fun _ => .pure trivial) fun _ => ?_
    refine .bind getOwn_safe fun own w₄ _ _ => ?_
    cases own with
    | none =>
      refine .bind isExtensible_safe fun extensible w₅ _ _ => ?_
      refine .ite (fun _ => .raise_bind trivial) fun _ => ?_
      exact .ite (fun _ => lie_safe) fun _ => .pure trivial
    | some own => exact .ite (fun _ => lie_safe) fun _ => .pure trivial

/-- After a trap, what the target has is compared with the answer. -/
theorem compareOwn_safe {α : Type} [Mentions α] {answer : α} {bad : Property → Bool}
    {target : ObjectId} {refuse : Exec Unit} (hr : ∀ w', Safe P c w' refuse Known)
    (ha : Met w answer) : Safe P c w (do
      match ← getOwn target key with
      | some own => if bad own then refuse
      | none => pure ()
      return answer) Known := by
  refine .bind getOwn_safe fun own w₁ h₁ _ => ?_
  cases own with
  | none => exact .pure (h₁.met ha)
  | some own =>
    exact .ite (fun _ => .bind (hr w₁) fun _ _ h₂ _ => .pure ((h₁.trans h₂).met ha))
      fun _ => .pure (h₁.met ha)

theorem proxyHas_safe (hp : Met w p) : Safe P c w (proxyHas p key) Known := by
  refine .bind (trapOf_safe hp) fun trap w₁ h₁ ht => ?_
  cases trap with
  | none => exact has_safe
  | some trap =>
    refine .bind (callTrap_safe (h₁.met hp) ht (.one (met_key key))) fun answer w₂ _ _ => ?_
    exact .ite (fun _ => compareOwn_safe (fun _ => lie_safe) trivial) fun _ => .pure trivial

theorem frozenValue_safe : Safe P c w (frozenValue p key) Known := by
  refine .bind getOwn_safe fun own w₁ _ hown => ?_
  split
  · exact .pure hown
  · exact .pure trivial

theorem proxyGet_safe {receiver : Value} (hp : Met w p) (hr : Met w receiver) :
    Safe P c w (proxyGet p key receiver) Known := by
  refine .bind (trapOf_safe hp) fun trap w₁ h₁ ht => ?_
  cases trap with
  | none => exact getFor_safe (h₁.met hr)
  | some trap =>
    refine .bind (callTrap_safe (h₁.met hp) ht (.two (met_key key) (h₁.met hr)))
      fun v w₂ _ hv => .bind frozenValue_safe fun fixed w₃ h₃ _ => ?_
    cases fixed with
    | none => exact .pure (h₃.met hv)
    | some fixed => exact .ite (fun _ => .raise_bind trivial) fun _ => .pure (h₃.met hv)

theorem proxySet_safe {value receiver : Value} (hp : Met w p) (hv : Met w value)
    (hr : Met w receiver) : Safe P c w (proxySet p key value receiver) Known := by
  refine .bind (trapOf_safe hp) fun trap w₁ h₁ ht => ?_
  cases trap with
  | none => exact .bind (setFor_safe (h₁.met hv) (h₁.met hr)) fun _ _ _ _ => .pure trivial
  | some trap =>
    refine .bind (callTrap_safe (h₁.met hp) ht (.three (met_key key) (h₁.met hv) (h₁.met hr)))
      fun v w₂ _ _ => .ite (fun _ => .pure trivial) fun _ => ?_
    refine .bind frozenValue_safe fun fixed w₃ _ _ => ?_
    cases fixed with
    | none => exact .pure trivial
    | some fixed => exact .ite (fun _ => .raise_bind trivial) fun _ => .pure trivial

theorem proxyDelete_safe (hp : Met w p) : Safe P c w (proxyDelete p key) Known := by
  refine .bind (trapOf_safe hp) fun trap w₁ h₁ ht => ?_
  cases trap with
  | none => exact delete_safe
  | some trap =>
    refine .bind (callTrap_safe (h₁.met hp) ht (.one (met_key key))) fun answer w₂ _ _ => ?_
    exact .ite (fun _ => compareOwn_safe (fun _ => lie_safe) trivial) fun _ => .pure trivial

omit [Serves P] in
theorem keysOfTrap_safe {keys : List PropertyKey} {values : List Value} :
    Safe P c w (keysOfTrap keys values) Known := by
  induction values generalizing keys with
  | nil => exact .pure fun _ _ => trivial
  | cons v rest ih =>
    have hrest (key : PropertyKey) : Safe P c w (do
        if keys.contains key then lie "ownKeys" "trap returned duplicate entries"
        keysOfTrap (key :: keys) rest) Known :=
      .ite (fun _ => .raise_bind trivial) fun _ => ih
    cases v with
    | string s => exact hrest _
    | symbol s => exact hrest _
    | _ => exact .raise_bind trivial

theorem proxyOwnKeys_safe (hp : Met w p) : Safe P c w (proxyOwnKeys p) Known := by
  refine .bind (trapOf_safe hp) fun trap w₁ h₁ ht => ?_
  cases trap with
  | none => exact ownKeys_safe
  | some trap =>
    refine .bind (callTrap_safe (h₁.met hp) ht .empty) fun v w₂ _ hv => ?_
    refine .bind (listFromArrayLike_safe hv) fun items w₃ _ _ => ?_
    refine .bind keysOfTrap_safe fun keys w₄ _ _ => .bind isExtensible_safe fun extensible w₅ _ _ => ?_
    refine .bind ownKeys_safe fun own w₆ _ _ => ?_
    refine .bind (Q := Known) (.forM (fun key _ w₇ _ => ?_) fun _ _ => trivial)
      fun _ _ _ _ => .pure fun _ _ => trivial
    have hrequired (required : Bool) (w' : World) : Safe P c w' (do
        if required && !keys.contains key then
          lie "ownKeys" ("trap result did not include '" ++ key.text ++ "'") : Exec Unit) Known :=
      .ite (fun _ => lie_safe) fun _ => .pure trivial
    exact .ite (fun _ => .bind getOwn_safe fun _ w₈ _ _ => hrequired _ w₈) fun _ => hrequired _ w₇

theorem proxyGetPrototype_safe (hp : Met w p) : Safe P c w (proxyGetPrototype p) Known := by
  refine .bind (trapOf_safe hp) fun trap w₁ h₁ ht => ?_
  cases trap with
  | none => exact prototypeOf_safe
  | some trap =>
    refine .bind (callTrap_safe (h₁.met hp) ht .empty) fun v w₂ _ hv => ?_
    cases v with
    | object id => exact .pure hv
    | null => exact .pure trivial
    | _ => exact lie_safe

theorem proxySetPrototype_safe {prototype : Option ObjectId} (hp : Met w p)
    (hprototype : Met w prototype) : Safe P c w (proxySetPrototype p prototype) Known := by
  refine .bind (trapOf_safe hp) fun trap w₁ h₁ ht => ?_
  cases trap with
  | none => exact setPrototype_safe (h₁.met hprototype)
  | some trap =>
    refine .bind (callTrap_safe (h₁.met hp) ht (.one ?_)) fun _ _ _ _ => .pure trivial
    cases prototype with
    | none => trivial
    | some id => exact h₁.met hprototype

theorem proxyIsExtensible_safe (hp : Met w p) : Safe P c w (proxyIsExtensible p) Known := by
  refine .bind (trapOf_safe hp) fun trap w₁ h₁ ht => ?_
  cases trap with
  | none => exact isExtensible_safe
  | some trap =>
    refine .bind (callTrap_safe (h₁.met hp) ht .empty) fun v w₂ _ _ => ?_
    refine .bind isExtensible_safe fun actual w₃ _ _ => ?_
    exact .ite (fun _ => .raise_bind trivial) fun _ => .pure trivial

theorem proxyPreventExtensions_safe (hp : Met w p) :
    Safe P c w (proxyPreventExtensions p) Known := by
  refine .bind (trapOf_safe hp) fun trap w₁ h₁ ht => ?_
  cases trap with
  | none => exact preventExtensions_safe
  | some trap =>
    refine .bind (callTrap_safe (h₁.met hp) ht .empty) fun v w₂ _ _ => ?_
    refine .ite (fun _ => .bind isExtensible_safe fun extensible w₃ _ _ => ?_) fun _ => .pure trivial
    exact .ite (fun _ => .raise_bind trivial) fun _ => .pure trivial

theorem proxyCall_safe {this : Value} {args : Array Value} (hp : Met w p) (ht : Met w this)
    (ha : Met w args) : Safe P c w (proxyCall p this args) Known := by
  refine .bind (trapOf_safe hp) fun trap w₁ h₁ htrap => ?_
  cases trap with
  | none => exact call_safe (h₁.met hp).1 (h₁.met ht) (h₁.met ha)
  | some trap =>
    refine .bind (newArray_safe (h₁.met ha)) fun list w₂ h₂ hlist => ?_
    exact callTrap_safe ((h₁.trans h₂).met hp) (h₂.met htrap)
      (.two ((h₁.trans h₂).met ht) hlist.met)

theorem proxyConstruct_safe {args : Array Value} {newTarget : Value} (hp : Met w p)
    (ha : Met w args) (ht : Met w newTarget) :
    Safe P c w (proxyConstruct p args newTarget) Known := by
  refine .bind (trapOf_safe hp) fun trap w₁ h₁ htrap => ?_
  cases trap with
  | none => exact construct_safe (h₁.met hp).1 (h₁.met ha) (h₁.met ht)
  | some trap =>
    refine .bind (newArray_safe (h₁.met ha)) fun list w₂ h₂ hlist => ?_
    refine .bind (callTrap_safe ((h₁.trans h₂).met hp) (h₂.met htrap)
      (.two hlist.met ((h₁.trans h₂).met ht))) fun result w₃ _ hr => ?_
    exact .ite (fun _ => .raise_bind trivial) fun _ => .pure hr

end EcmaScript

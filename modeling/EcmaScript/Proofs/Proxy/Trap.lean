import EcmaScript.Proofs.Frozen

/-! How a proxy is asked: what is met first for a key, and the trap of its handler. -/
namespace EcmaScript

/-- An object without properties and without a prototype. -/
structure Object.Blank (o : Object) : Prop where
  kind : o.kind = .ordinary
  prototype : o.prototype = none
  own? : ∀ key, o.own? key = none

namespace State
variable {s : State} {id : ObjectId} {key : PropertyKey}

theorem lookup_proxy {p : ProxyData} (hk : (s.object id).kind = .proxy (some p)) :
    s.lookup id key = .proxy (some p) := by
  simp [lookup, lookupFrom, hk]

theorem lookup_own {q : Property} (hproxy : (s.object id).isProxy = false)
    (hq : s.ownProperty? id key = some q) : s.lookup id key = .found q := by
  unfold lookup lookupFrom
  dsimp only
  split
  · simp_all [Object.isProxy]
  · rw [hq]

theorem lookup_blank (hb : (s.object id).Blank) : s.lookup id key = .absent := by
  simp [lookup, lookupFrom, ownProperty?, hb.kind, hb.prototype, hb.own?]

end State

theorem Exec.trapOf_blank {m : Machine} {c : Context} {s : State} {p : ProxyData} {name : String}
    (hb : (s.object p.handler).Blank) :
    trapOf p name m c s = .value none s := by
  have hget : getOf (.object p.handler) (.name name) m c s = .value .undefined s := by
    change getFor p.handler (.name name) (.object p.handler) m c s = _
    rw [getFor, bind_value (show look (·.lookup p.handler (.name name)) m c s = .value .absent s from
      congrArg (Step.value · s) (State.lookup_blank hb))]
    rfl
  rw [trapOf, methodOf, bind_value hget]
  rfl

end EcmaScript

import EcmaScript.Proofs.Arguments.Sharing
import EcmaScript.Proofs.Pinned

/-! What code does to an arguments object and to the parameters of its function. -/
namespace EcmaScript

namespace Object
variable {o : Object} {key : PropertyKey} {p : Property}

theorem own?_put_eq : (o.put key p).own? = Function.update o.own? key (some p) := by
  funext other
  rw [own?_put, Function.update_apply]

theorem own?_erase_eq : ({ o with properties := o.properties.erase key } : Object).own? =
    Function.update o.own? key none := by
  funext other
  rw [own?_erase, Function.update_apply]

end Object

namespace Object
variable {o : Object} {key : PropertyKey} {n : ArrayIndex} {shared : ArgumentMap}

theorem without_index (hk : o.kind = .arguments (some shared)) : o.without (.index n) =
    { o with
      properties := o.properties.erase (.index n)
      kind := .arguments (some (shared.without n.val)) } := by
  obtain ⟨kind, _, _, _, _, _⟩ := o
  cases hk
  rfl

theorem without_other (hkey : ∀ n, key ≠ .index n) :
    o.without key = { o with properties := o.properties.erase key } := by
  unfold without
  dsimp only
  split
  · exact absurd rfl (hkey _)
  · rfl

theorem own?_without : (o.without key).own? = Function.update o.own? key none := by
  refine Eq.trans ?_ own?_erase_eq
  unfold without
  dsimp only
  split <;> rfl

end Object

theorem Object.standsFor?_without {o o' : Object} {shared : ArgumentMap} {n : ArrayIndex}
    (hk : o.kind = .arguments (some shared)) (hk' : o'.kind = .arguments (some (shared.without n.val))) :
    o'.standsFor? = Function.update o.standsFor? n none := by
  funext n'
  simp only [standsFor?, hk, hk', ArgumentMap.parameter?, ArgumentMap.without, Function.update_apply,
    Array.getElem?_setIfInBounds]
  by_cases hn : n' = n
  · subst hn
    simp only [if_pos]
    split <;> rfl
  · have hne : n.val ≠ n'.val := fun h => hn (Fin.ext h.symm)
    simp [hn, hne]

namespace Descriptor
variable {d : Descriptor} {old stale : Value} {e c : Bool}

/-- What takes an element out of the map makes it an accessor or read-only, with the value given or else
the last one. -/
theorem apply_unmapping (h : d.unmaps = true) :
    ((d.fixing (some old)).apply (.data stale true e c)).isAccessor = true ∨
      ∃ e' c', (d.fixing (some old)).apply (.data stale true e c) = .data (d.value.getD old) false e' c' := by
  unfold unmaps at h
  cases ha : d.isAccessor with
  | true =>
    left
    have ha' : (d.fixing (some old)).isAccessor = true := by
      unfold fixing
      split <;> exact ha
    simp [apply, applySlot, ha', Property.isAccessor, Property.data]
  | false =>
    right
    have hw : d.writable = some false := by simpa [ha] using h
    refine ⟨d.enumerable.getD e, d.configurable.getD c, ?_⟩
    cases hv : d.value with
    | none =>
      have hget : (d.getter.isSome || d.setter.isSome) = false := ha
      simp [fixing, hv, hw, apply, applySlot, isAccessor, hget, isData, Property.data]
    | some v => simp [fixing, hv, hw, apply, applySlot, ha, isData, Property.data]

theorem unmaps_fixing : (d.fixing (some old)).unmaps = d.unmaps := by
  unfold fixing
  split <;> rfl

theorem fixing_of_not_unmaps (h : d.unmaps = false) : d.fixing (some old) = d := by
  unfold unmaps at h
  simp_all [fixing]

theorem apply_not_unmapping (stale : Value) (e c : Bool) (h : d.unmaps = false) :
    ∃ v e' c', d.apply (.data stale true e c) = .data v true e' c' := by
  unfold unmaps at h
  obtain ⟨ha, hw⟩ := Bool.or_eq_false_iff.mp h
  refine ⟨d.value.getD stale, d.enumerable.getD e, d.configurable.getD c, ?_⟩
  have hwritable : d.writable.getD true = true := by
    cases hd : d.writable with
    | none => rfl
    | some b => simpa [hd] using hw
  cases hdata : d.isData with
  | true => simp [apply, applySlot, ha, hdata, hwritable, Property.data]
  | false =>
    have hv : d.value = none := by simp_all [isData]
    simp [apply, applySlot, ha, hdata, hv, Property.data]

end Descriptor

namespace State
variable {s : State} {id : ObjectId} {scope : ScopeId} {o : Object}

theorem Shares.lt (h : s.Shares id scope) : id.index < s.heap.size := by
  obtain ⟨shared, hk, -⟩ := h
  exact lt_of_kind (by simp [hk])

theorem Shares.isProxy (h : s.Shares id scope) : (s.object id).isProxy = false := by
  obtain ⟨shared, hk, -⟩ := h
  simp [Object.isProxy, hk]

theorem sharing_replace (h : id.index < s.heap.size) :
    (s.replace id o).sharing id scope = ⟨o.standsFor?, o.own?, s.bound? scope⟩ := by
  ext1
  · funext n
    simp [sharing, standsFor?, object_replace_self h]
  · simp [sharing, object_replace_self h]
  · rfl

theorem Shares.replace {shared : ArgumentMap} (h : id.index < s.heap.size)
    (hk : o.kind = .arguments (some shared)) (hscope : shared.scope = scope) :
    (s.replace id o).Shares id scope := ⟨shared, by rw [object_replace_self h, hk], hscope⟩

end State

namespace State
variable {s : State} {id : ObjectId} {scope : ScopeId} {name : String} {v : Value} {sc : Scope}

theorem lt_of_bound (h : ((s.scope scope).binding? name).isSome = true) : scope.index < s.scopes.size := by
  by_contra hle
  have hdefault : s.scope scope = default := by
    simp [State.scope, Array.getD_eq_getD_getElem?, Array.getElem?_eq_none (Nat.le_of_not_lt hle)]
  rw [hdefault] at h
  cases h

theorem binding?_of_bound (h : (s.bound? scope name).isSome = true) :
    ((s.scope scope).binding? name).isSome = true := by
  unfold bound? at h
  cases hb : (s.scope scope).binding? name with
  | none => simp [hb] at h
  | some b => rfl

theorem bound?_replaceScope (h : scope.index < s.scopes.size) (other : String) :
    (s.replaceScope scope sc).bound? scope other = (sc.binding? other).bind (·.value) := by
  rw [bound?, scope_replace, if_pos ⟨rfl, h⟩]

theorem bound?_fill (h : (s.bound? scope name).isSome = true) :
    (s.replaceScope scope ((s.scope scope).fill name v)).bound? scope =
      Function.update (s.bound? scope) name (some v) := by
  have hb := binding?_of_bound h
  funext other
  rw [bound?_replaceScope (lt_of_bound hb), Scope.value_filled hb, Function.update_apply]
  rfl

end State

/-! Each action is a change. -/

/-- What a computation leaves is a change of what was shared. -/
structure Changes (id : ObjectId) (scope : ScopeId) (s : State) (key? : Option PropertyKey)
    (value? : Option Value) (done : Bool) (s' : State) : Prop where
  shares : s'.Shares id scope
  change : (s.sharing id scope).Change key? value? done (s'.sharing id scope)

namespace Exec
variable {m : Machine} {c : Context} {s s' : State} {id : ObjectId} {scope : ScopeId} {key : PropertyKey}
  {d : Descriptor} {b : Bool}

theorem changes_refused {key? : Option PropertyKey} {value? : Option Value} (hs : s.Shares id scope) :
    Changes id scope s key? value? false s := ⟨hs, .aside nofun⟩

theorem changes_put {value? : Option Value} {p : Property} (hs : s.Shares id scope)
    (hkey : ∀ n, key = .index n → s.standsFor? id n = none) :
    Changes id scope s (some key) value? true (s.replace id ((s.object id).put key p)) := by
  have hlt := hs.lt
  obtain ⟨shared, hk, hscope⟩ := hs
  refine ⟨.replace hlt hk hscope, ?_⟩
  rw [State.sharing_replace hlt, Object.own?_put_eq]
  exact .property hkey

/-- An element stands for its parameter no longer. -/
theorem changes_unmap {shared : ArgumentMap} {n : ArrayIndex} {name : String} {value? : Option Value}
    {p? : Option Property} {old : Value} {o : Object} (hk : (s.object id).kind = .arguments (some shared))
    (hn : shared.parameter? (.index n) = some name) (hold : s.bound? shared.scope name = some old)
    (hko : o.kind = .arguments (some (shared.without n.val)))
    (hown : o.own? = Function.update (s.object id).own? (.index n) p?)
    (hp : ∀ p, p? = some p → p.isAccessor = true ∨ ∃ e c, p = .data (value?.getD old) false e c) :
    Changes id shared.scope s (some (.index n)) value? true (s.replace id o) := by
  have hlt : id.index < s.heap.size := State.lt_of_kind (by simp [hk])
  refine ⟨.replace hlt hko rfl, ?_⟩
  rw [State.sharing_replace hlt, Object.standsFor?_without hk hko, hown]
  exact .unmap (by simp [State.sharing, State.standsFor?, Object.standsFor?, hk, hn]) hold hp

/-- An element still stands for its parameter, which has the value given or else its last one. -/
theorem changes_element {shared : ArgumentMap} {n : ArrayIndex} {name : String} {value? : Option Value}
    {v old : Value} {e c' : Bool} (hk : (s.object id).kind = .arguments (some shared))
    (hn : shared.parameter? (.index n) = some name) (hold : s.bound? shared.scope name = some old)
    (ho : s'.object id = (s.object id).put (.index n) (.data v true e c'))
    (hv : s'.bound? shared.scope = Function.update (s.bound? shared.scope) name (some (value?.getD old))) :
    Changes id shared.scope s (some (.index n)) value? true s' := by
  have hstands : (s.sharing id shared.scope).standsFor n = some name := by
    simp [State.sharing, State.standsFor?, Object.standsFor?, hk, hn]
  have hsharing : s'.sharing id shared.scope = ⟨s.standsFor? id,
      Function.update (s.object id).own? (.index n) (some (.data v true e c')),
      Function.update (s.bound? shared.scope) name (some (value?.getD old))⟩ := by
    rw [State.sharing, ho, Object.own?_put_eq, hv]
    congr 1
    funext n'
    rw [State.standsFor?, ho]
    rfl
  refine ⟨⟨shared, by rw [ho]; exact hk, rfl⟩, ?_⟩
  rw [hsharing]
  exact .element hstands hold

theorem changes_defineMapped {shared : ArgumentMap} {n : ArrayIndex} {name : String}
    (hk : (s.object id).kind = .arguments (some shared)) (hn : shared.parameter? (.index n) = some name)
    (hc : (s.sharing id shared.scope).Coherent)
    (h : (defineArgument id shared (.index n) d).Gives m c s b s') :
    Changes id shared.scope s (some (.index n)) d.value b s' := by
  have hs : s.Shares id shared.scope := ⟨shared, hk, rfl⟩
  have hstands : (s.sharing id shared.scope).standsFor n = some name := by
    simp [State.sharing, State.standsFor?, Object.standsFor?, hk, hn]
  obtain ⟨old, hold⟩ := Option.isSome_iff_exists.mp (hc.value n name hstands)
  have hargument : s.argument? shared name = some old := hold
  rw [Gives, defineArgument_mapped hk hn, hargument] at h
  cases hd : (s.object id).define? (.index n) (d.fixing (some old)) with
  | none =>
    obtain ⟨rfl, rfl⟩ : false = b ∧ s = s' := by simpa [hd, Step.outcome] using h
    exact changes_refused hs
  | some o =>
    obtain ⟨stale, e, c', hown⟩ := hc.own n name hstands
    have hown : (s.object id).own? (.index n) = some (.data stale true e c') := hown
    obtain ⟨p, hp, -, rfl⟩ := (Object.define?_cases hd).resolve_left (by simp [hown])
    obtain rfl : p = .data stale true e c' := Option.some.inj (hp.symm.trans hown)
    simp only [hd, Descriptor.unmaps_fixing] at h
    cases hunmaps : d.unmaps with
    | true =>
      obtain ⟨rfl, rfl⟩ : true = b ∧ _ = s' := by simpa [hunmaps, Step.outcome] using h
      refine changes_unmap hk hn hold rfl Object.own?_put_eq fun q hq => ?_
      cases hq
      exact Descriptor.apply_unmapping hunmaps
    | false =>
      rw [Descriptor.fixing_of_not_unmaps hunmaps] at h
      obtain ⟨v, e', c'', happly⟩ := Descriptor.apply_not_unmapping stale e c' hunmaps
      rw [happly] at h
      cases hv : d.value with
      | none =>
        obtain ⟨rfl, rfl⟩ : true = b ∧ _ = s' := by simpa [hunmaps, hv, Step.outcome] using h
        refine changes_element hk hn hold (State.object_replace_self hs.lt) ?_
        exact (Function.update_eq_self_iff.mpr hold.symm).symm
      | some given =>
        obtain ⟨rfl, rfl⟩ : true = b ∧ _ = s' := by simpa [hunmaps, hv, Step.outcome] using h
        refine changes_element hk hn hold (State.object_replace_self hs.lt) ?_
        exact State.bound?_fill (s := s) (by simp [show s.bound? shared.scope name = _ from hold])

theorem changes_define (hs : s.Shares id scope) (hc : (s.sharing id scope).Coherent)
    (h : (define id key d).Gives m c s b s') : Changes id scope s (some key) d.value b s' := by
  have h := gives_look_bind.mp (gives_checked ((gives_define hs.isProxy).mp h))
  obtain ⟨shared, hk, rfl⟩ := hs
  rw [hk] at h
  cases hkey : shared.parameter? key with
  | some name =>
    obtain ⟨n, rfl⟩ := ArgumentMap.eq_index (show (shared.parameter? key).isSome = true by simp [hkey])
    exact changes_defineMapped hk hkey hc h
  | none =>
    have hs : s.Shares id shared.scope := ⟨shared, hk, rfl⟩
    have hnone (n : ArrayIndex) (hn : key = .index n) : s.standsFor? id n = none := by
      subst hn
      simpa [State.standsFor?, Object.standsFor?, hk] using hkey
    replace h : (defineArgument id shared key d).Gives m c s b s' := h
    rw [defineArgument_unmapped hkey] at h
    rcases gives_replaceWith.mp h with ⟨-, rfl, rfl⟩ | ⟨o, ho, rfl, rfl⟩
    · exact changes_refused hs
    · rcases Object.define?_cases ho with ⟨-, -, rfl⟩ | ⟨p, -, -, rfl⟩
      · exact changes_put hs hnone
      · exact changes_put hs hnone

theorem changes_without (hs : s.Shares id scope) (hc : (s.sharing id scope).Coherent) :
    Changes id scope s (some key) none true (s.replace id ((s.object id).without key)) := by
  have hlt := hs.lt
  obtain ⟨shared, hk, rfl⟩ := hs
  by_cases hindex : ∃ n, key = .index n
  · obtain ⟨n, rfl⟩ := hindex
    have hko : ((s.object id).without (.index n)).kind = .arguments (some (shared.without n.val)) := by
      rw [Object.without_index hk]
    cases hn : shared.parameter? (.index n) with
    | some name =>
      have hstands : (s.sharing id shared.scope).standsFor n = some name := by
        simp [State.sharing, State.standsFor?, Object.standsFor?, hk, hn]
      obtain ⟨old, hold⟩ := Option.isSome_iff_exists.mp (hc.value n name hstands)
      refine changes_unmap hk hn hold hko Object.own?_without fun q hq => ?_
      cases hq
    | none =>
      have hnone : (s.object id).standsFor? n = none := by simp [Object.standsFor?, hk, hn]
      refine ⟨.replace hlt hko rfl, ?_⟩
      rw [State.sharing_replace hlt, Object.own?_without, Object.standsFor?_without hk hko,
        Function.update_eq_self_iff.mpr hnone.symm]
      refine .property fun n' hn' => ?_
      cases hn'
      exact hnone
  · have hother (n : ArrayIndex) : key ≠ .index n := fun hn => hindex ⟨n, hn⟩
    refine ⟨.replace hlt (by rw [Object.without_other hother]; exact hk) rfl, ?_⟩
    rw [State.sharing_replace hlt, Object.own?_without]
    have hsame : ((s.object id).without key).standsFor? = (s.object id).standsFor? := by
      rw [Object.without_other hother]
      rfl
    rw [hsame]
    exact .property fun n hn => absurd hn (hother n)

theorem changes_delete (hs : s.Shares id scope) (hc : (s.sharing id scope).Coherent)
    (h : (delete id key).Gives m c s b s') : Changes id scope s (some key) none b s' := by
  have h := gives_look_bind.mp ((gives_bind_value (proxyOf_ordinary hs.isProxy)).mp h)
  obtain ⟨shared, hk, hscope⟩ := hs
  rw [hk] at h
  rw [if_neg Bool.false_ne_true] at h
  have hs : s.Shares id scope := ⟨shared, hk, hscope⟩
  split at h
  · obtain ⟨rfl, rfl⟩ := gives_pure.mp h
    exact ⟨hs, .aside fun _ => .inr rfl⟩
  · split at h
    · obtain ⟨rfl, rfl⟩ := gives_pure.mp h
      exact changes_refused hs
    · obtain ⟨_, s₁, herase, hdone⟩ := gives_bind.mp (gives_checked h)
      obtain ⟨rfl, rfl⟩ := gives_pure.mp hdone
      have herase := gives_change.mp herase
      rw [State.heap_modify] at herase
      subst herase
      exact changes_without hs hc

theorem changes_preventExtensions (hs : s.Shares id scope)
    (h : (preventExtensions id).Gives m c s b s') : Changes id scope s none none b s' := by
  have h := gives_look_bind.mp ((gives_bind_value (proxyOf_ordinary hs.isProxy)).mp h)
  dsimp only at h
  split at h
  · obtain ⟨_, s₁, hclose, hdone⟩ := gives_bind.mp (gives_checked h)
    obtain ⟨rfl, rfl⟩ := gives_pure.mp hdone
    have hclose := gives_change.mp hclose
    rw [State.heap_modify] at hclose
    subst hclose
    obtain ⟨shared, hk, hscope⟩ := hs
    have hlt : id.index < s.heap.size := State.lt_of_kind (by simp [hk])
    refine ⟨.replace hlt hk hscope, ?_⟩
    have hsame := @State.sharing_replace s id scope { s.object id with extensible := false } hlt
    refine hsame ▸ .aside fun _ => .inl rfl
  · obtain ⟨rfl, rfl⟩ := gives_pure.mp h
    exact ⟨hs, .aside fun _ => .inl rfl⟩

theorem changes_replaceScope {sc : Scope} {v : Value} (name : String) (hs : s.Shares id scope)
    (hset : (s.replaceScope scope sc).bound? scope = Function.update (s.bound? scope) name (some v)) :
    Changes id scope s none (some v) true (s.replaceScope scope sc) := by
  refine ⟨hs, ?_⟩
  have hsharing : (s.replaceScope scope sc).sharing id scope =
      ⟨s.standsFor? id, (s.object id).own?, (s.replaceScope scope sc).bound? scope⟩ := rfl
  rw [hsharing, hset]
  exact .assign

theorem changes_assign {name : String} {v : Value} {strict : Bool} {u : Unit} (hs : s.Shares id scope)
    (h : (assignIn scope name v strict).Gives m c s u s') : Changes id scope s none (some v) true s' := by
  have h := gives_look_bind.mp h
  split at h
  · rename_i changed hassign
    have h := gives_change.mp h
    rw [State.scopes_modify] at h
    replace h : s' = s.replaceScope scope changed := h
    subst h
    rcases Scope.value_assign hassign with rfl | hvalue
    · have hsame : s.replaceScope scope (s.scope scope) = s := by
        rw [State.replaceScope, State.scopes_self]
      rw [hsame]
      exact ⟨hs, .aside fun _ => .inl rfl⟩
    · have hbound : (s.scope scope).binds name = true := by
        unfold Scope.assign at hassign
        split at hassign <;> simp_all [Scope.binds]
      have hlt := State.lt_of_bound hbound
      refine changes_replaceScope name hs (funext fun other => ?_)
      rw [State.bound?_replaceScope hlt, hvalue, Function.update_apply]
      rfl
  · exact (gives_raise h).elim
  · exact (gives_raise h).elim
  · exact (gives_raise h).elim

theorem changes_bindIn {name : String} {kind : BindingKind} {v : Value} {u : Unit} (hs : s.Shares id scope)
    (h : (bindIn scope name kind (some v)).Gives m c s u s') : Changes id scope s none (some v) true s' := by
  have h := gives_change.mp h
  rw [State.scopes_modify] at h
  replace h : s' = s.replaceScope scope ((s.scope scope).bind name ⟨some v, kind⟩) := h
  subst h
  by_cases hlt : scope.index < s.scopes.size
  · refine changes_replaceScope name hs (funext fun other => ?_)
    rw [State.bound?_replaceScope hlt, Scope.binding?_bind, Function.update_apply]
    split <;> rfl
  · have hsame : s.replaceScope scope ((s.scope scope).bind name ⟨some v, kind⟩) = s := by
      rw [State.replaceScope, Array.setIfInBounds_eq_of_size_le (Nat.le_of_not_lt hlt)]
    rw [hsame]
    exact ⟨hs, .aside fun _ => .inl rfl⟩

end Exec

/-- An assignment to a property calls no function: none is met that sets the property, and no proxy. -/
def State.Stores (s : State) (id : ObjectId) (key : PropertyKey) : Prop :=
  (∀ p, s.lookup id key ≠ .proxy p) ∧
    ∀ getter setter e c, s.lookup id key ≠ .found ⟨.accessor getter (some setter), e, c⟩

namespace Exec
variable {m : Machine} {c : Context} {s s' : State} {id : ObjectId} {scope : ScopeId} {key : PropertyKey}
  {v : Value} {b : Bool}

theorem changes_set (hs : s.Shares id scope) (hc : (s.sharing id scope).Coherent) (hstores : s.Stores id key)
    (h : (set id key v).Gives m c s b s') : Changes id scope s (some key) (some v) b s' := by
  obtain ⟨outcome, s₁, hset, hdone⟩ := gives_bind.mp h
  obtain ⟨rfl, rfl⟩ := gives_pure.mp hdone
  have hset := gives_look_bind.mp hset
  split at hset
  · exact absurd ‹_› (hstores.1 _)
  · exact absurd ‹_› (hstores.1 _)
  · exact absurd ‹_› (hstores.2 _ _ _ _)
  · obtain ⟨rfl, rfl⟩ := gives_pure.mp hset
    exact changes_refused hs
  · obtain ⟨rfl, rfl⟩ := gives_pure.mp hset
    exact changes_refused hs
  · have hown := (gives_bind_value (getOwn_ordinary hs.isProxy)).mp hset
    split at hown
    · obtain ⟨done, s₂, hdefine, hdone⟩ := gives_bind.mp hown
      obtain ⟨rfl, rfl⟩ := gives_pure.mp hdone
      have hchanges := changes_define hs hc hdefine
      cases done with
      | true => exact hchanges
      | false => exact hchanges
    · obtain ⟨rfl, rfl⟩ := gives_pure.mp hown
      exact changes_refused hs
    · obtain ⟨done, s₂, hdefine, hdone⟩ := gives_bind.mp hown
      have hchanges := changes_define hs hc hdefine
      cases done with
      | true =>
        obtain ⟨rfl, rfl⟩ := gives_pure.mp hdone
        exact hchanges
      | false =>
        have hdone := (gives_bind_value (isExtensible_ordinary hchanges.shares.isProxy)).mp hdone
        obtain ⟨rfl, rfl⟩ := gives_pure.mp hdone
        split <;> exact hchanges

end Exec
end EcmaScript

import EcmaScript.Object.Write
import EcmaScript.Proofs.Act
import EcmaScript.Proofs.Property

/-! What the change of an object leaves as it was. -/
namespace EcmaScript

namespace State
variable {s : State} {id other : ObjectId} {o : Object}

theorem object_replace : (s.replace id o).object other =
    if other = id ∧ id.index < s.heap.size then o else s.object other := by
  obtain ⟨i⟩ := id
  obtain ⟨j⟩ := other
  simp only [object, replace, Array.getD_eq_getD_getElem?, Array.getElem?_setIfInBounds,
    ObjectId.mk.injEq]
  grind

theorem object_replace_self (h : id.index < s.heap.size) : (s.replace id o).object id = o := by
  simp [object_replace, h]

theorem object_replace_ne (h : other ≠ id) : (s.replace id o).object other = s.object other := by
  simp [object_replace, h]

@[simp] theorem size_replace : (s.replace id o).heap.size = s.heap.size := by simp [replace]

theorem object_push : ({ s with heap := s.heap.push o } : State).object other =
    if other.index = s.heap.size then o else s.object other := by
  simp only [object, Array.getD_eq_getD_getElem?, Array.getElem?_push]
  grind

theorem object_of_size_le (h : s.heap.size ≤ id.index) : s.object id = default := by
  simp [object, Array.getD_eq_getD_getElem?, Array.getElem?_eq_none h]

theorem lt_of_kind (h : (s.object id).kind ≠ .ordinary) : id.index < s.heap.size := by
  refine Nat.lt_of_not_le fun hle => h ?_
  rw [object_of_size_le hle]
  rfl

theorem heap_modify {f : Object → Object} :
    s.heap.modify id.index f = s.heap.setIfInBounds id.index (f (s.object id)) := by
  apply Array.ext_getElem?
  intro i
  simp only [object, Array.getD_eq_getD_getElem?, Array.getElem?_setIfInBounds,
    Array.getElem?_modify]
  grind

theorem scope_replace {id other : ScopeId} {sc : Scope} : (s.replaceScope id sc).scope other =
    if other = id ∧ id.index < s.scopes.size then sc else s.scope other := by
  obtain ⟨i⟩ := id
  obtain ⟨j⟩ := other
  simp only [scope, replaceScope, Array.getD_eq_getD_getElem?, Array.getElem?_setIfInBounds,
    ScopeId.mk.injEq]
  grind

theorem privateName?_declared {id : ScopeId} {spelling : String} (h : id.index < s.scopes.size) :
    (s.declared id spelling).privateName? id spelling =
      some ⟨s.nextPrivateName, "#" ++ spelling⟩ := by
  change ((s.replaceScope id _).scope id).privateNames.lookup spelling = _
  rw [scope_replace, if_pos ⟨rfl, h⟩]
  exact List.lookup_cons_self

theorem scope_push {other : ScopeId} {sc : Scope} :
    ({ s with scopes := s.scopes.push sc } : State).scope other =
      if other.index = s.scopes.size then sc else s.scope other := by
  simp only [scope, Array.getD_eq_getD_getElem?, Array.getElem?_push]
  grind

theorem scope_of_size_le {id : ScopeId} (h : s.scopes.size ≤ id.index) : s.scope id = default := by
  simp [scope, Array.getD_eq_getD_getElem?, Array.getElem?_eq_none h]

theorem scope_lt_of_kind {id : ScopeId} {a : Activation} (h : (s.scope id).kind = .function a) :
    id.index < s.scopes.size := by
  refine Nat.lt_of_not_le fun hle => ?_
  rw [scope_of_size_le hle] at h
  cases h

theorem scope_lt_of_name {id : ScopeId} {spelling : String} {name : PrivateName}
    (h : s.privateName? id spelling = some name) : id.index < s.scopes.size := by
  refine Nat.lt_of_not_le fun hle => ?_
  rw [privateName?, scope_of_size_le hle] at h
  cases h

theorem scopes_modify {id : ScopeId} {f : Scope → Scope} :
    s.scopes.modify id.index f = s.scopes.setIfInBounds id.index (f (s.scope id)) := by
  apply Array.ext_getElem?
  intro i
  simp only [scope, Array.getD_eq_getD_getElem?, Array.getElem?_setIfInBounds,
    Array.getElem?_modify]
  grind

theorem scopes_self {id : ScopeId} : s.scopes.setIfInBounds id.index (s.scope id) = s.scopes := by
  apply Array.ext_getElem?
  intro i
  simp only [scope, Array.getD_eq_getD_getElem?, Array.getElem?_setIfInBounds]
  grind

end State

theorem ArgumentMap.eq_index {shared : ArgumentMap} {key : PropertyKey}
    (h : (shared.parameter? key).isSome = true) : ∃ n, key = .index n := by
  cases key with
  | index n => exact ⟨n, rfl⟩
  | _ => cases h

namespace Object
variable {o o' : Object}

theorem define?_cases {key : PropertyKey} {d : Descriptor} (h : o.define? key d = some o') :
    o.own? key = none ∧ o.extensible = true ∧ o' = o.put key d.toProperty ∨
    ∃ p, o.own? key = some p ∧ (p.configurable || d.allowedOn p) = true ∧
      o' = o.put key (d.apply p) := by
  unfold define? at h
  cases hp : o.own? key with
  | none => simp_all
  | some p =>
    simp only [hp, Option.ite_none_right_eq_some, Option.some.injEq] at h
    exact .inr ⟨p, rfl, h.1, h.2.symm⟩

theorem own?_put {key other : PropertyKey} {p : Property} :
    (o.put key p).own? other = if other = key then some p else o.own? other :=
  PropertyTable.get?_put

theorem own?_erase {key other : PropertyKey} :
    ({ o with properties := o.properties.erase key } : Object).own? other =
      if other = key then none else o.own? other :=
  PropertyTable.get?_erase

def SameBut (o o' : Object) : Prop := o' = { o with properties := o'.properties }

theorem SameBut.refl : SameBut o o := rfl

theorem SameBut.trans {o₁ o₂ o₃ : Object} (h : SameBut o₁ o₂) (h' : SameBut o₂ o₃) :
    SameBut o₁ o₃ := by
  unfold SameBut at *
  rw [h', h]

theorem SameBut.kind_eq (h : SameBut o o') : o'.kind = o.kind := by
  unfold SameBut at h
  rw [h]

theorem SameBut.getD {x : Option Object} (h : ∀ o', x = some o' → SameBut o o') :
    SameBut o (x.getD o) := by
  cases x with
  | none => exact .refl
  | some o' => exact h o' rfl

theorem sameBut_put {key : PropertyKey} {p : Property} : SameBut o (o.put key p) := rfl

theorem sameBut_define? {key : PropertyKey} {d : Descriptor} (h : o.define? key d = some o') :
    SameBut o o' := by
  rcases define?_cases h with ⟨-, -, rfl⟩ | ⟨p, -, -, rfl⟩ <;> exact sameBut_put

theorem defineElement?_cases {n : ArrayIndex} {d : Descriptor} (h : o.defineElement? n d = some o') :
    ∃ o₁, o.define? (.index n) d = some o₁ ∧ (o.arrayLength ≤ n.val → o.lengthWritable = true) ∧
      o' = if o.arrayLength ≤ n.val then
        o₁.put lengthKey (.data (.ofNat (n.val + 1)) true false false) else o₁ := by
  unfold defineElement? at h
  cases hd : o.define? (.index n) d with
  | none => simp_all
  | some o₁ =>
    refine ⟨o₁, rfl, ?_⟩
    simp only [hd] at h
    split at h
    · cases h
    · split at h
      · simp_all
      · simp_all [Nat.not_le.mpr]

theorem sameBut_defineElement? {n : ArrayIndex} {d : Descriptor} (h : o.defineElement? n d = some o') :
    SameBut o o' := by
  obtain ⟨o₁, hd, -, rfl⟩ := defineElement?_cases h
  split
  · exact (sameBut_define? hd).trans sameBut_put
  · exact sameBut_define? hd

theorem sameBut_dropElements {length : Nat} {is : List ArrayIndex} :
    SameBut o (dropElements length is o).2 := by
  induction is generalizing o with
  | nil => exact .refl
  | cons i rest ih =>
    unfold dropElements
    split
    · split
      · exact SameBut.trans (show SameBut o { o with properties := o.properties.erase (.index i) } from rfl) ih
      · exact .refl
    · exact ih

theorem sameBut_defineLength {length : Nat} {d : Descriptor} :
    SameBut o (o.defineLength length d).2 := by
  unfold defineLength
  dsimp only
  split
  · split
    · exact sameBut_define? ‹_›
    · exact .refl
  · split
    · exact .refl
    · have h : SameBut o (dropElements length (o.properties.indicesFrom length) o).2 :=
        sameBut_dropElements
      exact h.trans (.getD fun _ => sameBut_define?)

theorem putPrivate_eq {name : PrivateName} {element : PrivateElement} :
    o.putPrivate name element = { o with privates := (o.putPrivate name element).privates } := by
  unfold putPrivate
  split <;> rfl

theorem keys_putPrivate {name : PrivateName} {element : PrivateElement} :
    (o.putPrivate name element).privates.map (·.1) =
      if o.hasPrivate name then o.privates.map (·.1) else o.privates.map (·.1) ++ [name] := by
  unfold putPrivate
  split
  · simp only [List.map_map]
    refine List.map_congr_left fun e _ => ?_
    simp only [Function.comp_apply, beq_iff_eq]
    split
    · exact (‹e.1 = name›).symm
    · rfl
  · simp

theorem hasPrivate_iff {name : PrivateName} :
    o.hasPrivate name = true ↔ name ∈ o.privates.map (·.1) := by
  simp [hasPrivate, private?]

theorem SameBut.privates_eq (h : SameBut o o') : o'.privates = o.privates := by
  unfold SameBut at h
  rw [h]

theorem Uses.congr {name : PrivateName} (hp : o'.privates = o.privates) (hk : o'.kind = o.kind)
    (h : o'.Uses name) : o.Uses name := by
  unfold Uses at *
  rwa [hp, hk] at h

theorem SameBut.uses {name : PrivateName} (h : SameBut o o') : o'.Uses name → o.Uses name :=
  .congr h.privates_eq h.kind_eq

variable {N : PrivateName → Prop}

theorem Alters.prototype_eq (h : Alters N o o') : o'.prototype = o.prototype := by
  induction h with
  | refl => rfl
  | define _ _ _ hd ih => rw [sameBut_define? hd, ← ih]
  | element _ _ hd ih => rw [sameBut_defineElement? hd, ← ih]
  | length _ _ _ ih => rw [sameBut_defineLength, ← ih]
  | putPrivate _ _ ih => rw [putPrivate_eq, ← ih]
  | _ => assumption

/-- What the change of an object leaves of its kind. -/
inductive KindKept : ObjectKind → ObjectKind → Prop where
  | same (k : ObjectKind) : KindKept k k
  | alters {N : PrivateName → Prop} {k k' k'' : ObjectKind} (h : KindKept k k') (h' : k'.Alters N k'') : KindKept k k''

theorem Alters.kind_kept (h : Alters N o o') : KindKept o.kind o'.kind := by
  induction h with
  | refl => exact .same _
  | define _ _ _ hd ih => rw [sameBut_define? hd]; exact ih
  | element _ _ hd ih => rw [sameBut_defineElement? hd]; exact ih
  | length _ _ _ ih => rw [sameBut_defineLength]; exact ih
  | putPrivate _ _ ih => rw [putPrivate_eq]; exact ih
  | kind _ hk ih => exact .alters ih hk
  | _ => assumption

theorem KindKept.name_eq {k k' : ObjectKind} (h : KindKept k k') : k'.name = k.name := by
  induction h with
  | same => rfl
  | alters _ h' ih =>
    rw [← ih]
    cases h' <;> rfl

theorem isArray_iff : o.isArray = true ↔ o.kind.name = "Array" := by
  unfold isArray ObjectKind.name
  cases o.kind <;> simp

theorem isArray_iff_kind : o.isArray = true ↔ o.kind = .array := by
  unfold isArray
  split <;> simp_all

theorem callable?_eq {f : Callable} (h : o.callable? = some f) : o.kind = .function f := by
  unfold callable? at h
  split at h <;> simp_all

theorem isProxy_iff : o.isProxy = true ↔ o.kind.name = "Proxy" := by
  unfold isProxy ObjectKind.name
  cases o.kind <;> simp

theorem isArguments_iff : o.isArguments = true ↔ o.kind.name = "Arguments" := by
  unfold isArguments ObjectKind.name
  cases o.kind <;> simp

theorem isProxy_eq (h : o'.kind.name = o.kind.name) : o'.isProxy = o.isProxy := by
  rw [Bool.eq_iff_iff, isProxy_iff, isProxy_iff, h]

theorem isArguments_eq (h : o'.kind.name = o.kind.name) : o'.isArguments = o.isArguments := by
  rw [Bool.eq_iff_iff, isArguments_iff, isArguments_iff, h]

theorem Alters.isProxy_eq (h : Alters N o o') : o'.isProxy = o.isProxy :=
  Object.isProxy_eq h.kind_kept.name_eq

theorem maps_eq (h : o'.kind = o.kind) (key : PropertyKey) : o'.maps key = o.maps key := by
  unfold maps
  rw [h]

theorem maps_eq_false (h : o.isArguments = false) (key : PropertyKey) : o.maps key = false := by
  unfold isArguments at h
  unfold maps
  split <;> simp_all

theorem maps_array (h : o.isArray = true) (key : PropertyKey) : o.maps key = false :=
  maps_eq_false (by simp_all [isArguments, isArray_iff_kind]) key

theorem maps_unmap {shared : ArgumentMap} {n : ArrayIndex} :
    ({ o with kind := .arguments (some (shared.without n.val)) } : Object).maps (.index n) =
      false := by
  simp only [maps, ArgumentMap.parameter?, ArgumentMap.without, Array.getElem?_setIfInBounds,
    ↓reduceIte]
  split <;> rfl

theorem define?_withKind {k : ObjectKind} {key : PropertyKey} {d : Descriptor}
    (h : o.define? key d = some o') :
    ({ o with kind := k } : Object).define? key d = some { o' with kind := k } := by
  unfold define? at *
  cases hp : o.own? key with
  | none =>
    have hp' : ({ o with kind := k } : Object).own? key = none := hp
    simp only [hp, hp', Option.ite_none_right_eq_some, Option.some.injEq] at h ⊢
    exact ⟨h.1, by rw [← h.2]; rfl⟩
  | some p =>
    have hp' : ({ o with kind := k } : Object).own? key = some p := hp
    simp only [hp, hp', Option.ite_none_right_eq_some, Option.some.injEq] at h ⊢
    exact ⟨h.1, by rw [← h.2]; rfl⟩

theorem MapsPlain.of_kind (h : o.isArguments = false) : o.MapsPlain := by
  intro key hmap
  rw [maps_eq_false h] at hmap
  cases hmap

theorem MapsPlain.congr (h : o.MapsPlain) (hk : o'.kind = o.kind)
    (hp : o'.properties = o.properties) : o'.MapsPlain := by
  intro key hmap
  rw [maps_eq hk] at hmap
  simpa only [own?, hp] using h key hmap

theorem MapsPlain.define? {key : PropertyKey} {d : Descriptor} (h : o.MapsPlain)
    (hmap : o.maps key = true → d.isAccessor = false ∧ d.writable ≠ some false)
    (hd : o.define? key d = some o') : o'.MapsPlain := by
  intro other hother
  rw [maps_eq (congrArg kind (sameBut_define? hd))] at hother
  obtain ⟨v, e, c, hown⟩ := h other hother
  rcases define?_cases hd with ⟨hnone, -, rfl⟩ | ⟨p, hp, -, rfl⟩
  · rw [own?_put]
    split
    · simp_all
    · exact ⟨v, e, c, hown⟩
  · rw [own?_put]
    split
    · subst other
      obtain ⟨ha, hw⟩ := hmap hother
      obtain rfl : p = .data v true e c := Option.some.inj (hp.symm.trans hown)
      refine ⟨d.value.getD v, d.enumerable.getD e, d.configurable.getD c, ?_⟩
      have hwritable : d.writable.getD true = true := by
        cases hw' : d.writable with
        | none => rfl
        | some b => cases b <;> simp_all
      simp only [Descriptor.apply, Descriptor.applySlot, Property.data, ha, hwritable]
      cases hdata : d.isData with
      | true => rfl
      | false => simp_all [Descriptor.isData]
    · exact ⟨v, e, c, hown⟩

theorem maps_of_alters {k : ObjectKind} {key : PropertyKey} (hk : o.kind.Alters N k)
    (hmap : ({ o with kind := k } : Object).maps key = true) : o.maps key = true := by
  generalize hkind : o.kind = k' at hk
  cases hk with
  | unmap shared n =>
    simp only [maps, hkind] at hmap ⊢
    cases key with
    | index m =>
      simp only [ArgumentMap.parameter?, ArgumentMap.without, Array.getElem?_setIfInBounds]
        at hmap ⊢
      split at hmap
      · split at hmap <;> simp at hmap
      · exact hmap
    | _ => cases hmap
  | _ => cases hmap

theorem MapsPlain.kind {k : ObjectKind} (h : o.MapsPlain) (hk : o.kind.Alters N k) :
    ({ o with kind := k } : Object).MapsPlain :=
  fun key hmap => h key (maps_of_alters hk hmap)

theorem Alters.mapsPlain (h : Alters N o o') (ho : o.MapsPlain) : o'.MapsPlain := by
  induction h with
  | refl => exact ho
  | define _ _ hmap hd ih => exact ih.define? hmap hd
  | element _ ha hd =>
    rw [isArray_iff_kind] at ha
    refine .of_kind ?_
    rw [sameBut_defineElement? hd]
    simp [isArguments, ha]
  | length _ ha =>
    rw [isArray_iff_kind] at ha
    refine .of_kind ?_
    rw [sameBut_defineLength]
    simp [isArguments, ha]
  | @erase o' key p _ hp hc hmap ih =>
    intro other hother
    obtain ⟨v, e, c, hown⟩ := ih other hother
    refine ⟨v, e, c, ?_⟩
    rw [own?_erase, if_neg ?_, hown]
    rintro rfl
    exact Bool.false_ne_true (hmap.symm.trans hother)
  | putPrivate _ _ ih => exact ih.congr (by rw [putPrivate_eq]) (by rw [putPrivate_eq])
  | close _ ih => exact ih.congr rfl rfl
  | stamp _ ih => exact ih.congr rfl rfl
  | kind _ hk ih => exact ih.kind hk

theorem KindKept.native {k k' : ObjectKind} {name : String} {f : Native} (h : KindKept k k')
    (hk : k = .function (.native name f)) : k' = .function (.native name f) := by
  induction h with
  | same => exact hk
  | alters _ h' ih => cases h' <;> simp_all

theorem KindKept.wakes?_eq {k k' : ObjectKind} (h : KindKept k k') : k'.wakes? = k.wakes? := by
  induction h with
  | same => rfl
  | alters _ h' ih =>
    rw [← ih]
    cases h' <;> rfl

theorem KindKept.promise_iff {k k' : ObjectKind} {p : PromiseData} (h : KindKept k k') :
    k' = .promise p ↔ k = .promise p := by
  induction h with
  | same => rfl
  | alters _ h' ih =>
    rw [← ih]
    cases h' <;> simp

theorem KindKept.bound_iff {k k' : ObjectKind} {target : ObjectId} {this : Value} {args : Array Value}
    (h : KindKept k k') :
    k' = .function (.bound target this args) ↔ k = .function (.bound target this args) := by
  induction h with
  | same => rfl
  | alters _ h' ih =>
    rw [← ih]
    cases h' <;> simp

theorem error_iff : o.kind = .error ↔ o.kind.name = "Error" := by
  unfold ObjectKind.name
  cases o.kind <;> simp

theorem Alters.stamped (h : Alters N o o') (hs : o.stamped = true) : o'.stamped = true := by
  induction h with
  | define _ _ _ hd ih => rw [sameBut_define? hd]; exact ih
  | element _ _ hd ih => rw [sameBut_defineElement? hd]; exact ih
  | length _ _ _ ih => rw [sameBut_defineLength]; exact ih
  | putPrivate _ _ ih => rw [putPrivate_eq]; exact ih
  | stamp => rfl
  | _ => assumption

theorem secret_of_kept (hk : KindKept o.kind o'.kind) (hs : o.stamped = true → o'.stamped = true)
    (h : o'.secret) : o.secret := by
  rcases h with ⟨herror, hstamped⟩ | hwakes
  · refine .inl ⟨?_, ?_⟩
    · rwa [error_iff, ← hk.name_eq, ← error_iff]
    · refine Bool.eq_false_iff.mpr fun h => ?_
      rw [hs h] at hstamped
      cases hstamped
  · exact .inr (hk.wakes?_eq ▸ hwakes)

theorem Alters.secret (h : Alters N o o') : o'.secret → o.secret :=
  secret_of_kept h.kind_kept h.stamped

theorem Alters.uses {name : PrivateName} (h : Alters N o o') (hu : o'.Uses name) :
    o.Uses name ∨ N name := by
  induction h with
  | refl => exact .inl hu
  | define _ _ _ hd ih => exact ih ((sameBut_define? hd).uses hu)
  | element _ _ hd ih => exact ih ((sameBut_defineElement? hd).uses hu)
  | length _ _ _ ih => exact ih ((sameBut_defineLength).uses hu)
  | erase _ _ _ _ ih => exact ih (hu.congr rfl rfl)
  | @putPrivate o' other element _ hn ih =>
    rcases hu with hu | ⟨c, hc, hu⟩
    · rw [keys_putPrivate] at hu
      split at hu
      · exact ih (.inl hu)
      · rcases List.mem_append.mp hu with hu | hu
        · exact ih (.inl hu)
        · obtain rfl := List.mem_singleton.mp hu
          exact .inr (hn.resolve_left ‹_›)
    · rw [putPrivate_eq] at hc
      exact ih (.inr ⟨c, hc, hu⟩)
  | close _ ih => exact ih (hu.congr rfl rfl)
  | stamp _ ih => exact ih (hu.congr rfl rfl)
  | @kind o' k _ hk ih =>
    rcases hu with hu | ⟨c, rfl, e, he, hname⟩
    · exact ih (.inl hu)
    · generalize hkind : o'.kind = k' at hk
      cases hk with
      | closure c h => exact .inr (h e he name hname)

theorem Alters.nodup (h : Alters N o o') (ho : (o.privates.map (·.1)).Nodup) :
    (o'.privates.map (·.1)).Nodup := by
  induction h with
  | define _ _ _ hd ih => rwa [(sameBut_define? hd).privates_eq]
  | element _ _ hd ih => rwa [(sameBut_defineElement? hd).privates_eq]
  | length _ _ _ ih => rwa [(sameBut_defineLength).privates_eq]
  | @putPrivate o' name element _ _ ih =>
    rw [keys_putPrivate]
    split
    · exact ih
    · rename_i hnone
      rw [List.nodup_append]
      refine ⟨ih, List.nodup_singleton _, fun a ha b hb hab => hnone ?_⟩
      obtain rfl := List.mem_singleton.mp hb
      exact (hasPrivate_iff).mpr (hab ▸ ha)
  | _ => assumption

theorem KindKept.arguments {k k' : ObjectKind} {shared : ArgumentMap} (h : KindKept k k')
    (hk : k' = .arguments (some shared)) :
    ∃ shared', k = .arguments (some shared') ∧ shared'.scope = shared.scope := by
  induction h generalizing shared with
  | same => exact ⟨shared, hk, rfl⟩
  | alters _ h' ih =>
    subst hk
    cases h' with
    | unmap shared' n =>
      obtain ⟨first, hfirst, hscope⟩ := @ih shared' rfl
      exact ⟨first, hfirst, hscope⟩

end Object

namespace Scope
variable {s s' : Scope}

theorem activation?_eq {a : Activation} (h : s.activation? = some a) : s.kind = .function a := by
  unfold activation? at h
  split at h <;> simp_all

def SameBut (s s' : Scope) : Prop := s' = { s with bindings := s'.bindings }

theorem SameBut.trans {s₁ : Scope} (h : SameBut s s') (h' : SameBut s' s₁) : SameBut s s₁ := by
  unfold SameBut at *
  rw [h', h]

theorem SameBut.kind_eq (h : SameBut s s') : s'.kind = s.kind := by
  unfold SameBut at h
  rw [h]

theorem SameBut.parent_eq (h : SameBut s s') : s'.parent = s.parent := by
  unfold SameBut at h
  rw [h]

theorem SameBut.privateNames_eq (h : SameBut s s') : s'.privateNames = s.privateNames := by
  unfold SameBut at h
  rw [h]

theorem sameBut_bind {name : String} {b : Binding} : SameBut s (s.bind name b) := by
  unfold bind SameBut
  split <;> rfl

theorem sameBut_fill {name : String} {v : Value} : SameBut s (s.fill name v) := by
  unfold fill SameBut
  split <;> rfl

theorem sameBut_assign {name : String} {v : Value} {strict : Bool}
    (h : s.assign name v strict = .ok s') : SameBut s s' := by
  unfold assign at h
  split at h
  · cases h
  · cases h
  · cases h
  · split at h <;> cases h
    rfl
  · cases h
    rfl

theorem sameBut_declare? {name : String} {kind : BindingKind} (h : s.declare? name kind = some s') :
    SameBut s s' := by
  unfold declare? at h
  split at h
  · split at h <;> cases h
    rfl
  · cases h
    rfl

theorem Alters.sameBut (h : Alters s s') : SameBut s s' := by
  induction h with
  | refl => rfl
  | bind _ _ _ ih => exact ih.trans sameBut_bind
  | fill _ _ _ ih => exact ih.trans sameBut_fill
  | assign _ ha ih => exact ih.trans (sameBut_assign ha)
  | declare _ hd ih => exact ih.trans (sameBut_declare? hd)

end Scope

/-! What the definition of an element that stands for a parameter comes to. -/

def State.argument? (s : State) (shared : ArgumentMap) (name : String) : Option Value :=
  ((s.scope shared.scope).binding? name).bind (·.value)

def Descriptor.fixing (d : Descriptor) (current : Option Value) : Descriptor :=
  if d.value.isNone && d.writable == some false then { d with value := current } else d

def Descriptor.unmaps (d : Descriptor) : Bool := d.isAccessor || d.writable == some false

namespace Exec
variable {m : Machine} {c : Context} {s : State} {id : ObjectId} {shared : ArgumentMap}
  {d : Descriptor}

theorem defineArgument_unmapped {key : PropertyKey} (h : shared.parameter? key = none) :
    defineArgument id shared key d = replaceWith id (·.define? key d) := by
  cases key with
  | index n =>
    unfold ArgumentMap.parameter? at h
    simp only [defineArgument, h, Option.map_none]
  | _ => rfl

/-- What a definition makes of an element that stands for a parameter. -/
theorem defineArgument_mapped {n : ArrayIndex} {name : String}
    (hk : (s.object id).kind = .arguments (some shared))
    (h : shared.parameter? (.index n) = some name) :
    defineArgument id shared (.index n) d m c s =
      let d := d.fixing (s.argument? shared name)
      match (s.object id).define? (.index n) d with
      | none => .value false s
      | some o => .value true <|
        if d.unmaps then s.replace id { o with kind := .arguments (some (shared.without n.val)) }
        else match d.value with
          | some v => (s.replace id o).replaceScope shared.scope ((s.scope shared.scope).fill name v)
          | none => s.replace id o := by
  unfold ArgumentMap.parameter? at h
  have hid : id.index < s.heap.size := State.lt_of_kind (by simp [hk])
  have hdone (d : Descriptor) : (do
      if !(← replaceWith id (·.define? (.index n) d)) then return false
      match d.value with
      | some v => if !d.unmaps then modifyScope shared.scope (·.fill name v)
      | none => pure ()
      if d.unmaps then
        modifyObject id fun o => { o with kind := .arguments (some (shared.without n.val)) }
      return true : Exec Bool) m c s =
      match (s.object id).define? (.index n) d with
      | none => .value false s
      | some o => .value true <|
        if d.unmaps then s.replace id { o with kind := .arguments (some (shared.without n.val)) }
        else match d.value with
          | some v => (s.replace id o).replaceScope shared.scope ((s.scope shared.scope).fill name v)
          | none => s.replace id o := by
    simp only [Bind.bind, Exec.bind, replaceWith]
    cases (s.object id).define? (.index n) d with
    | none => rfl
    | some o =>
      have hunmap := @State.heap_modify (s.replace id o) id fun o => { o with
        kind := .arguments (some (shared.without n.val)) }
      rw [State.object_replace_self hid] at hunmap
      have hmodify : modifyObject id (fun o => { o with
          kind := .arguments (some (shared.without n.val)) }) m c (s.replace id o) =
          .value () (s.replace id { o with kind := .arguments (some (shared.without n.val)) }) := by
        simp only [modifyObject, change, hunmap]
        simp [State.replace]
      have hfill (v : Value) : modifyScope shared.scope (·.fill name v) m c (s.replace id o) =
          .value () ((s.replace id o).replaceScope shared.scope
            ((s.scope shared.scope).fill name v)) := by
        simp only [modifyScope, change, State.scopes_modify]
        rfl
      have hreplace : { s with heap := s.heap.setIfInBounds id.index o } = s.replace id o := rfl
      cases d.value <;> cases d.unmaps <;>
        simp [Step.bind, Pure.pure, Exec.pure, Exec.bind, hmodify, hfill, hreplace]
  simp only [defineArgument, h, Option.map_some]
  exact hdone _

end Exec
end EcmaScript

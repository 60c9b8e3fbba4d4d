import EcmaScript.Proofs.Array
import EcmaScript.Proofs.Integrity
import EcmaScript.Proofs.Outcome

/-! A definition tells the truth: after yes the property is as described, after no the object is as
it was. -/
namespace EcmaScript

namespace Descriptor
variable {d : Descriptor} {p : Property}

/-- A property has everything that a description asks for. A function that is missing counts as
undefined. -/
structure Agrees (d : Descriptor) (p : Property) : Prop where
  value : ∀ v, d.value = some v → p.toDescriptor.value = some v
  writable : ∀ b, d.writable = some b → p.toDescriptor.writable = some b
  getter : ∀ v, d.getter = some v → p.toDescriptor.getter = some v
  setter : ∀ v, d.setter = some v → p.toDescriptor.setter = some v
  enumerable : ∀ b, d.enumerable = some b → p.toDescriptor.enumerable = some b
  configurable : ∀ b, d.configurable = some b → p.toDescriptor.configurable = some b

def Consistent (d : Descriptor) : Prop := d.isAccessor = false ∨ d.isData = false

theorem agrees_of_accessor {getter setter : Option Value} {enumerable configurable : Bool}
    (hd : d.isData = false) (hg : ∀ v, d.getter = some v → getter = functionOf v)
    (hs : ∀ v, d.setter = some v → setter = functionOf v)
    (he : ∀ b, d.enumerable = some b → enumerable = b)
    (hc : ∀ b, d.configurable = some b → configurable = b) :
    d.Agrees ⟨.accessor getter setter, enumerable, configurable⟩ where
  value v hv := by simp [isData, hv] at hd
  writable b hb := by simp [isData, hb] at hd
  getter v hv := by
    rw [hg v hv]
    exact congrArg some functionOf_getD
  setter v hv := by
    rw [hs v hv]
    exact congrArg some functionOf_getD
  enumerable b hb := congrArg some (he b hb)
  configurable b hb := congrArg some (hc b hb)

theorem agrees_of_data {value : Value} {writable enumerable configurable : Bool}
    (ha : d.isAccessor = false) (hv : ∀ v, d.value = some v → value = v)
    (hw : ∀ b, d.writable = some b → writable = b)
    (he : ∀ b, d.enumerable = some b → enumerable = b)
    (hc : ∀ b, d.configurable = some b → configurable = b) :
    d.Agrees (.data value writable enumerable configurable) where
  value v h := congrArg some (hv v h)
  writable b h := congrArg some (hw b h)
  getter v h := by simp [isAccessor, h] at ha
  setter v h := by simp [isAccessor, h] at ha
  enumerable b h := congrArg some (he b h)
  configurable b h := congrArg some (hc b h)

theorem agrees_toProperty (hd : d.Consistent) : d.Agrees d.toProperty := by
  unfold toProperty
  split
  · rename_i ha
    have hdata : d.isData = false := hd.resolve_left (by simp [ha])
    exact agrees_of_accessor hdata (by simp +contextual) (by simp +contextual)
      (by simp +contextual) (by simp +contextual)
  · rename_i ha
    exact agrees_of_data (by simpa using ha) (by simp +contextual) (by simp +contextual)
      (by simp +contextual) (by simp +contextual)

theorem agrees_apply (hd : d.Consistent) : d.Agrees (d.apply p) := by
  unfold apply applySlot
  split
  · rename_i ha
    have hdata : d.isData = false := hd.resolve_left (by simp [ha])
    exact agrees_of_accessor hdata (by simp +contextual) (by simp +contextual)
      (by simp +contextual) (by simp +contextual)
  · rename_i ha
    have ha : d.isAccessor = false := by simpa using ha
    split
    · exact agrees_of_data ha (by simp +contextual) (by simp +contextual) (by simp +contextual)
        (by simp +contextual)
    · rename_i hdata
      obtain ⟨hvalue, hwritable⟩ : d.value = none ∧ d.writable = none := by
        simpa [isData] using hdata
      obtain ⟨hgetter, hsetter⟩ : d.getter = none ∧ d.setter = none := by
        simpa [isAccessor] using ha
      obtain ⟨slot, enumerable, configurable⟩ := p
      cases slot with
      | data value writable =>
        exact agrees_of_data ha (by simp [hvalue]) (by simp [hwritable]) (by simp +contextual)
          (by simp +contextual)
      | accessor getter setter =>
        exact agrees_of_accessor (by simpa using hdata) (by simp [hgetter]) (by simp [hsetter])
          (by simp +contextual) (by simp +contextual)

theorem agrees_of_agreesWithElement {text : String} {key : PropertyKey}
    (hp : stringElement? text key = some p) (h : d.agreesWithElement p = true) : d.Agrees p := by
  obtain ⟨u, rfl⟩ : ∃ u, p = .data u false true false := by
    unfold stringElement? at hp
    split at hp
    · obtain ⟨u, -, hu⟩ := Option.map_eq_some_iff.mp hp
      exact ⟨_, hu.symm⟩
    · cases hp
  simp only [agreesWithElement, Property.data, Bool.and_eq_true, bne_iff_ne, ne_eq,
    Bool.not_eq_true'] at h
  obtain ⟨⟨⟨⟨hc, he⟩, ha⟩, hw⟩, hv⟩ := h
  refine agrees_of_data ha (fun v h => ?_) (fun b h => ?_) (fun b h => ?_) fun b h => ?_
  · rw [h] at hv
    exact (Value.same_iff.mp hv).symm
  · cases b <;> simp_all
  · cases b <;> simp_all
  · cases b <;> simp_all

theorem Agrees.withValue {v v' : Value} {w e c : Bool} (h : d.Agrees (.data v w e c))
    (hv : ∀ x, d.value = some x → v' = x) : d.Agrees (.data v' w e c) :=
  ⟨fun x hx => congrArg some (hv x hx), h.writable, h.getter, h.setter, h.enumerable,
    h.configurable⟩

theorem Agrees.of_fixing {current : Option Value} (h : (d.fixing current).Agrees p) : d.Agrees p := by
  unfold fixing at h
  split at h
  · rename_i hvalue
    refine ⟨fun v hv => ?_, h.writable, h.getter, h.setter, h.enumerable, h.configurable⟩
    simp [hv] at hvalue
  · exact h

theorem consistent_fixing {current : Option Value} (h : d.Consistent) :
    (d.fixing current).Consistent := by
  unfold fixing
  split
  · rename_i hw
    refine .inl (h.resolve_right fun hdata => ?_)
    simp_all [isData]
  · exact h

end Descriptor

namespace Object
variable {o o' : Object} {key : PropertyKey} {d : Descriptor}

theorem agrees_define? (hd : d.Consistent) (h : o.define? key d = some o') :
    ∃ p, o'.own? key = some p ∧ d.Agrees p := by
  rcases define?_cases h with ⟨-, -, rfl⟩ | ⟨p, -, -, rfl⟩
  · exact ⟨_, by rw [own?_put, if_pos rfl], Descriptor.agrees_toProperty hd⟩
  · exact ⟨_, by rw [own?_put, if_pos rfl], Descriptor.agrees_apply hd⟩

theorem agrees_defineElement? {n : ArrayIndex} (hd : d.Consistent)
    (h : o.defineElement? n d = some o') : ∃ p, o'.own? (.index n) = some p ∧ d.Agrees p := by
  obtain ⟨o₁, ho₁, -, rfl⟩ := defineElement?_cases h
  obtain ⟨p, hp, ha⟩ := agrees_define? hd ho₁
  refine ⟨p, ?_, ha⟩
  split
  · rw [own?_put, if_neg (by simp [lengthKey]), hp]
  · exact hp

end Object

/-- What the definition of a property comes to tells the truth: after yes the property agrees with
the description, and after no the state is as it was. -/
structure Truthful (s : State) (id : ObjectId) (key : PropertyKey) (d : Descriptor) (b : Bool)
    (s' : State) : Prop where
  agrees : b = true → ∃ p, s'.ownProperty? id key = some p ∧ d.Agrees p
  unchanged : b = false → s' = s

theorem Scope.lookup_replace {name : String} {b : Binding} {bindings : List (String × Binding)}
    (h : bindings.lookup name ≠ none) : (Scope.replace name b bindings).lookup name = some b := by
  induction bindings with
  | nil => simp at h
  | cons e rest ih =>
    obtain ⟨other, b'⟩ := e
    by_cases he : other = name
    · simp [Scope.replace, he]
    · have hne : (name == other) = false := by simpa using Ne.symm he
      simp only [List.lookup_cons, hne] at h
      simpa [Scope.replace, he, List.lookup_cons, hne] using ih h

theorem Scope.value_fill {sc : Scope} {name : String} {v x : Value}
    (h : ((sc.fill name v).binding? name).bind (·.value) = some x) : x = v := by
  unfold Scope.fill at h
  cases hb : sc.binding? name with
  | none => simp [hb] at h
  | some b =>
    rw [hb] at h
    dsimp only [Scope.binding?] at h hb
    rw [Scope.lookup_replace (by simp [hb])] at h
    exact (Option.some.inj h).symm

namespace State
variable {s : State} {id : ObjectId} {key : PropertyKey} {o : Object} {d : Descriptor}
  {shared : ArgumentMap} {name : String}

theorem argument?_fill {v x : Value} (h : (s.replaceScope shared.scope
    ((s.scope shared.scope).fill name v)).argument? shared name = some x) : x = v := by
  unfold argument? at h
  rw [scope_replace] at h
  split at h
  · exact Scope.value_fill h
  · rename_i hout
    have hdefault : s.scope shared.scope = default := by
      simp only [true_and, Nat.not_lt] at hout
      simp [scope, Array.getD_eq_getD_getElem?, Array.getElem?_eq_none hout]
    rw [hdefault] at h
    cases h

/-- An element that stands for a parameter agrees with a description when it would do so by itself
and the parameter has the value that the description gives. -/
theorem agrees_mapped (hk : (s.object id).kind = .arguments (some shared))
    (hmap : shared.parameter? key = some name)
    (h : ∃ p, (s.object id).own? key = some p ∧ d.Agrees p)
    (hv : ∀ v x, d.value = some v → s.argument? shared name = some x → x = v) :
    ∃ p, s.ownProperty? id key = some p ∧ d.Agrees p := by
  obtain ⟨n, rfl⟩ := ArgumentMap.eq_index (show (shared.parameter? key).isSome = true by simp [hmap])
  have hname : (shared.names[n.val]?).join = some name := hmap
  obtain ⟨p, hp, ha⟩ := h
  simp only [ownProperty?, hk, hname, hp]
  obtain ⟨slot, e, c⟩ := p
  unfold argument? at hv
  cases hx : ((s.scope shared.scope).binding? name).bind (·.value) with
  | none => exact ⟨_, rfl, ha⟩
  | some x =>
    cases slot with
    | data v w => exact ⟨_, rfl, ha.withValue fun v hd => hv v x hd hx⟩
    | accessor => exact ⟨_, rfl, ha⟩

theorem agrees_replace (hid : id.index < s.heap.size) (hk : o.kind = (s.object id).kind)
    (hm : (s.object id).maps key = false) (he : (s.object id).element? key = none)
    (h : ∃ p, o.own? key = some p ∧ d.Agrees p) :
    ∃ p, (s.replace id o).ownProperty? id key = some p ∧ d.Agrees p := by
  have ho : (s.replace id o).object id = o := object_replace_self hid
  obtain ⟨p, hp, ha⟩ := h
  refine ⟨p, ?_, ha⟩
  rw [ownProperty?_of_not_maps (by rw [ho, Object.maps_eq hk, hm]), ho, Object.element?_congr hk, he,
    hp]
  rfl

end State

namespace Exec
variable {m : Machine} {c : Context} {s s' : State} {id : ObjectId} {key : PropertyKey}
  {d : Descriptor} {b : Bool}

theorem truthful_replaceWith {f : Object → Option Object}
    (h : (replaceWith id f).Gives m c s b s') (hid : id.index < s.heap.size)
    (hm : (s.object id).maps key = false) (he : (s.object id).element? key = none)
    (hf : ∀ o, f (s.object id) = some o →
      o.kind = (s.object id).kind ∧ ∃ p, o.own? key = some p ∧ d.Agrees p) :
    Truthful s id key d b s' := by
  rcases gives_replaceWith.mp h with ⟨-, rfl, rfl⟩ | ⟨o, ho, rfl, rfl⟩
  · exact ⟨by simp, fun _ => rfl⟩
  · obtain ⟨hk, hagrees⟩ := hf o ho
    exact ⟨fun _ => State.agrees_replace hid hk hm he hagrees, by simp⟩

theorem truthful_define? (h : (replaceWith id (·.define? key d)).Gives m c s b s')
    (hid : id.index < s.heap.size) (hm : (s.object id).maps key = false)
    (he : (s.object id).element? key = none) (hd : d.Consistent) : Truthful s id key d b s' :=
  truthful_replaceWith h hid hm he fun _ ho =>
    ⟨(Object.sameBut_define? ho).kind_eq, Object.agrees_define? hd ho⟩

theorem truthful_defineArgument {shared : ArgumentMap}
    (h : (defineArgument id shared key d).Gives m c s b s')
    (hk : (s.object id).kind = .arguments (some shared)) (hd : d.Consistent) :
    Truthful s id key d b s' := by
  have hid : id.index < s.heap.size := State.lt_of_kind (by simp [hk])
  cases hmap : shared.parameter? key with
  | none =>
    rw [defineArgument_unmapped hmap] at h
    exact truthful_define? h hid (by simp [Object.maps, hk, hmap]) (by simp [Object.element?, hk]) hd
  | some name =>
    obtain ⟨n, rfl⟩ :=
      ArgumentMap.eq_index (show (shared.parameter? key).isSome = true by simp [hmap])
    rw [Gives, defineArgument_mapped hk hmap] at h
    have hd' : (d.fixing (s.argument? shared name)).Consistent := Descriptor.consistent_fixing hd
    have hfixed {p : Property} (ha : (d.fixing (s.argument? shared name)).Agrees p) : d.Agrees p :=
      ha.of_fixing
    generalize d.fixing (s.argument? shared name) = d' at *
    dsimp only at h
    cases hdef : (s.object id).define? (.index n) d' with
    | none =>
      simp only [hdef, Step.outcome, Option.some.injEq, Prod.mk.injEq, Except.ok.injEq] at h
      exact ⟨by simp [← h.1], fun _ => h.2.symm⟩
    | some o =>
      simp only [hdef, Step.outcome, Option.some.injEq, Prod.mk.injEq, Except.ok.injEq] at h
      obtain ⟨rfl, rfl⟩ := h
      refine ⟨fun _ => ?_, by simp⟩
      obtain ⟨p, hp, ha⟩ := Object.agrees_define? hd' hdef
      have hkind : o.kind = .arguments (some shared) := (Object.sameBut_define? hdef).kind_eq.trans hk
      have ho : (s.replace id o).object id = o := State.object_replace_self hid
      have hagrees (v : Option Value) (hv : d'.value = v) (s₁ : State)
          (hs₁ : s₁.object id = o) (hx : ∀ v' x, v = some v' → s₁.argument? shared name = some x → x = v') :
          ∃ p, s₁.ownProperty? id (.index n) = some p ∧ d.Agrees p := by
        obtain ⟨p, hp, ha⟩ := State.agrees_mapped (s := s₁) (d := d') (by rw [hs₁, hkind]) hmap
          (by rw [hs₁]; exact ⟨p, hp, ha⟩) (by rw [hv]; exact hx)
        exact ⟨p, hp, hfixed ha⟩
      split
      · refine ⟨p, ?_, hfixed ha⟩
        have hout := State.object_replace_self (s := s)
          (o := { o with kind := .arguments (some (shared.without n.val)) }) hid
        rw [State.ownProperty?_of_not_maps (by rw [hout]; exact Object.maps_unmap), hout]
        exact hp
      · split
        · rename_i v hv
          exact hagrees _ hv _ ho fun v' x he hx => by
            cases he
            exact State.argument?_fill hx
        · rename_i hv
          exact hagrees _ hv _ ho fun _ _ he => by cases he

def SetsLength (o : Object) (key : PropertyKey) (d : Descriptor) : Prop :=
  o.isArray = true ∧ key = Object.lengthKey ∧ d.value.isSome = true

theorem truthful_defineOnArray (h : (defineOnArray id d key).Gives m c s b s')
    (hid : id.index < s.heap.size) (ha : (s.object id).isArray = true)
    (hl : ¬ SetsLength (s.object id) key d) (hd : d.Consistent) : Truthful s id key d b s' := by
  have hm : (s.object id).maps key = false := Object.maps_array ha key
  have he : (s.object id).element? key = none := by
    simp [Object.element?, Object.isArray_iff_kind.mp ha]
  have hother (h : (replaceWith id (·.define? key d)).Gives m c s b s') : Truthful s id key d b s' :=
    truthful_define? h hid hm he hd
  unfold defineOnArray at h
  split at h
  · exact truthful_replaceWith h hid hm he fun _ ho =>
      ⟨(Object.sameBut_defineElement? ho).kind_eq, Object.agrees_defineElement? hd ho⟩
  · split at h
    · rename_i hkey
      unfold defineArrayLength at h
      split at h
      · exact hother (hkey ▸ h)
      · rename_i v hv
        exact absurd ⟨ha, hkey, by simp [hv]⟩ hl
    · exact hother h

theorem truthful_defineOrdinary (h : (defineOrdinary id key d).Gives m c s b s')
    (hid : id.index < s.heap.size) (hl : ¬ SetsLength (s.object id) key d) (hd : d.Consistent) :
    Truthful s id key d b s' := by
  have h := gives_look_bind.mp (gives_checked h)
  split at h
  · rename_i hk
    exact truthful_defineOnArray h hid (Object.isArray_iff_kind.mpr hk) hl hd
  · rename_i text hk
    split at h
    · rename_i p hp
      obtain ⟨rfl, rfl⟩ := gives_pure.mp h
      refine ⟨fun hagrees => ⟨p, ?_, Descriptor.agrees_of_agreesWithElement hp hagrees⟩, fun _ => rfl⟩
      have helement : (s'.object id).element? key = some p := by simp [Object.element?, hk, hp]
      rw [State.ownProperty?_of_not_maps (by simp [Object.maps, hk]), helement]
      rfl
    · rename_i hp
      exact truthful_define? h hid (by simp [Object.maps, hk]) (by simpa [Object.element?, hk]) hd
  · rename_i shared hk
    exact truthful_defineArgument h hk hd
  · rename_i harray hstring hshared
    refine truthful_define? h hid ?_ ?_ hd
    · unfold Object.maps
      split
      · rename_i shared hk
        exact absurd hk (hshared shared)
      · rfl
    · unfold Object.element?
      split
      · rename_i text hk
        exact absurd hk (hstring text)
      · rfl

end Exec

namespace Object
variable {o o' : Object} {length : Nat} {is : List ArrayIndex} {d : Descriptor}

/-- What is left of an array whose length was to go below `n`: an element that is not configurable
has stopped this, and exactly the elements up to that one remain. -/
structure Shrunk (o o' : Object) (n : Nat) : Prop where
  length : o'.arrayLength = n
  kept : ∀ i : ArrayIndex, i.val < n → o'.own? (.index i) = o.own? (.index i)
  gone : ∀ i : ArrayIndex, n ≤ i.val → o'.own? (.index i) = none
  stopped : ∃ (i : ArrayIndex) (p : Property), i.val + 1 = n ∧ o.own? (.index i) = some p ∧
    p.configurable = false

theorem dropElements_le {n : Nat} (hle : length ≤ n) (his : ∀ i ∈ is, i.val < n) :
    (dropElements length is o).1 ≤ n := by
  induction is generalizing o with
  | nil => exact hle
  | cons i rest ih =>
    have hrest := fun {o : Object} => ih (o := o) fun j hj => his j (List.mem_cons_of_mem _ hj)
    unfold dropElements
    cases o.own? (.index i) with
    | none => exact hrest
    | some p =>
      dsimp only
      split
      · exact hrest
      · exact his i List.mem_cons_self

theorem dropElements_kept (hsorted : is.Pairwise fun i j => j.val < i.val)
    (his : ∀ i ∈ is, length ≤ i.val) (i : ArrayIndex)
    (hi : i.val < (dropElements length is o).1) :
    (dropElements length is o).2.own? (.index i) = o.own? (.index i) := by
  induction is generalizing o with
  | nil => rfl
  | cons j rest ih =>
    obtain ⟨hfirst, hrest⟩ := List.pairwise_cons.mp hsorted
    have hrestLe := fun i hi => his i (List.mem_cons_of_mem _ hi)
    unfold dropElements at hi ⊢
    cases hp : o.own? (.index j) with
    | none =>
      rw [hp] at hi
      exact ih hrest hrestLe hi
    | some p =>
      rw [hp] at hi
      dsimp only at hi ⊢
      split
      · rename_i hc
        rw [if_pos hc] at hi
        rw [ih hrest hrestLe hi, own?_erase, if_neg]
        rintro he
        cases he
        exact absurd hi (Nat.not_lt_of_le (dropElements_le (his i List.mem_cons_self) hfirst))
      · rfl

theorem dropElements_stopped (h : (dropElements length is o).1 ≠ length)
    (hnodup : is.Nodup) : ∃ i ∈ is, ∃ p, i.val + 1 = (dropElements length is o).1 ∧
      o.own? (.index i) = some p ∧ p.configurable = false := by
  induction is generalizing o with
  | nil => exact absurd rfl h
  | cons j rest ih =>
    obtain ⟨hj, hrest⟩ := List.nodup_cons.mp hnodup
    unfold dropElements at h ⊢
    cases hp : o.own? (.index j) with
    | none =>
      rw [hp] at h
      obtain ⟨i, hmem, hstop⟩ := ih h hrest
      exact ⟨i, List.mem_cons_of_mem _ hmem, hstop⟩
    | some p =>
      rw [hp] at h
      dsimp only at h ⊢
      split
      · rename_i hc
        rw [if_pos hc] at h
        obtain ⟨i, hmem, q, hi, hq, hconf⟩ := ih h hrest
        refine ⟨i, List.mem_cons_of_mem _ hmem, q, hi, ?_, hconf⟩
        rw [own?_erase] at hq
        split at hq
        · cases hq
        · exact hq
      · rename_i hc
        exact ⟨j, List.mem_cons_self, p, rfl, hp, by simpa using hc⟩

def Overreaches (o : Object) (length : Nat) (d : Descriptor) : Prop :=
  length < o.arrayLength ∧ o.lengthWritable = true ∧
    (d.enumerable = some true ∨ d.configurable = some true)

theorem IsArray.define_writable {n : Nat} {v : Value} (h : o.IsArray n true)
    (ha : d.isAccessor = false) (hv : d.value = some v) (he : d.enumerable ≠ some true)
    (hc : d.configurable ≠ some true) :
    o.define? lengthKey d = some (o.put lengthKey (.data v (d.writable.getD true) false false)) := by
  have hen : d.enumerable.getD false = false := by
    cases hen : d.enumerable with
    | none => rfl
    | some b => cases b <;> simp_all
  have hconf : d.configurable.getD false = false := by
    cases hconf : d.configurable with
    | none => rfl
    | some b => cases b <;> simp_all
  have hallowed : d.allowedOn (.data (.ofNat n) true false false) = true := by
    simp [Descriptor.allowedOn, Property.data, Property.isAccessor, hen, ha, hc]
  have happly : d.apply (.data (.ofNat n) true false false) =
      .data v (d.writable.getD true) false false := by
    simp [Descriptor.apply, Property.data, Descriptor.applySlot_data ha, hv, hen, hconf]
  simp only [define?, h.length, hallowed, Bool.or_true, if_true, happly]

/-- Lowering a length that can be written gets as far as the elements let it. -/
theorem IsArray.defineLength_lowered {n : Nat} (h : o.IsArray n true) (hlt : length < n)
    (ha : d.isAccessor = false) (he : d.enumerable ≠ some true) (hc : d.configurable ≠ some true) :
    ∃ left w, (o.defineLength length d).1 = (left == length) ∧
      (∀ b, d.writable = some b → w = b) ∧ (o.defineLength length d).2.IsArray left w ∧
      (left ≠ length → length < left ∧ o.Shrunk (o.defineLength length d).2 left) := by
  have hsorted := @PropertyTable.pairwise_indicesFrom o.properties length
  have hfrom (i : ArrayIndex) (hi : i ∈ o.properties.indicesFrom length) : length ≤ i.val :=
    (PropertyTable.mem_indicesFrom.mp hi).1
  obtain ⟨hdropped, hleft, helement⟩ := h.dropElements (Nat.le_of_lt hlt) hsorted hfrom
    fun i hli hi => PropertyTable.mem_indicesFrom.mpr ⟨hli, hi⟩
  have hkept := @dropElements_kept o length _ hsorted hfrom
  have hnodup : (o.properties.indicesFrom length).Nodup := hsorted.imp fun h he => by simp [he] at h
  have hstopped (hne) := @dropElements_stopped o length _ hne hnodup
  have hw : o.lengthWritable = true := by simp [lengthWritable, h.length, Property.data]
  unfold Object.defineLength
  rw [h.arrayLength_eq, if_neg (Nat.not_le_of_lt hlt), hw, if_neg (by simp)]
  dsimp only
  generalize Object.dropElements length (o.properties.indicesFrom length) o = dropped at *
  have hdefine := hdropped.define_writable (v := .ofNat dropped.1)
    (d := { d with value := some (.ofNat dropped.1),
                   writable := if d.writable == some false then some false else none }) ha rfl he hc
  rw [hdefine, Option.getD_some]
  have harray (w' : Bool) :
      (dropped.2.put lengthKey (.data (.ofNat dropped.1) w' false false)).IsArray dropped.1 w' :=
    hdropped.put_length (Nat.lt_of_le_of_lt hleft h.lt) helement
  refine ⟨dropped.1, _, rfl, fun b hb => ?_, harray _, fun hne => ?_⟩
  · cases b <;> simp [hb]
  · obtain ⟨i, hmem, p, hi, hp, hconf⟩ := hstopped hne
    refine ⟨?_, (harray _).arrayLength_eq, fun j hj => ?_, fun j hj => ?_, i, p, hi, hp, hconf⟩
    · exact hi ▸ Nat.lt_succ_of_le (hfrom i hmem)
    · rw [own?_put, if_neg (by simp [lengthKey]), hkept j hj]
    · rw [own?_put, if_neg (by simp [lengthKey])]
      refine Option.eq_none_iff_forall_ne_some.mpr fun q hq => ?_
      exact absurd (helement j (by simp [hq])) (Nat.not_lt_of_le hj)

/-- Setting the length of an array tells the truth, unless it overreaches. -/
theorem WellFormed.defineLength_truthful (h : o.WellFormed) (ha : d.isAccessor = false)
    (hover : ¬ o.Overreaches length d) :
    ((o.defineLength length d).1 = true → ∃ p, (o.defineLength length d).2.own? lengthKey = some p ∧
      { d with value := some (.ofNat length) }.Agrees p) ∧
    ((o.defineLength length d).1 = false → (o.defineLength length d).2 = o ∨
      ∃ n, length < n ∧ o.Shrunk (o.defineLength length d).2 n) := by
  obtain ⟨n, w, h⟩ := h
  rcases Nat.lt_or_ge length n with hlt | hle
  · cases w with
    | false =>
      unfold Object.defineLength
      have hw : o.lengthWritable = false := by simp [lengthWritable, h.length, Property.data]
      rw [h.arrayLength_eq, if_neg (Nat.not_le_of_lt hlt), hw]
      simp
    | true =>
      obtain ⟨he, hc⟩ : d.enumerable ≠ some true ∧ d.configurable ≠ some true := by
        rw [← not_or]
        intro hasks
        refine hover ⟨by rwa [h.arrayLength_eq], ?_, hasks⟩
        simp [lengthWritable, h.length, Property.data]
      obtain ⟨left, w, hanswer, hw, harray, hshrunk⟩ := h.defineLength_lowered hlt ha he hc
      rw [hanswer]
      refine ⟨fun hdone => ?_, fun hstop => .inr ⟨left, hshrunk (by simpa using hstop)⟩⟩
      obtain rfl := eq_of_beq hdone
      refine ⟨_, harray.length, Descriptor.agrees_of_data ha (by simp) hw ?_ ?_⟩
      · intro b hb
        cases b <;> simp_all
      · intro b hb
        cases b <;> simp_all
  · unfold Object.defineLength
    rw [h.arrayLength_eq, if_pos hle]
    cases hdef : o.define? lengthKey { d with value := some (.ofNat length) } with
    | none => simp
    | some o' => exact ⟨fun _ => agrees_define? (.inl ha) hdef, by simp⟩

end Object
/-- What a definition that sets the length of an array comes to: the length is converted first, and
then the array is as before, or as far as the elements let it, or agrees with the description. -/
structure LengthTruthful (o o' : Object) (length : Nat) (d : Descriptor) (b : Bool) : Prop where
  agrees : b = true → ∃ p, o'.own? Object.lengthKey = some p ∧
    { d with value := some (.ofNat length) }.Agrees p
  unchanged : b = false → o' = o ∨ ∃ n, length < n ∧ o.Shrunk o' n

namespace Exec
variable {fuel : Nat} {c : Context} {s s' : State} {id : ObjectId} {key : PropertyKey}
  {d : Descriptor} {b : Bool}

theorem leads_of_gives {α : Type} {x : Exec α} {a : α} {Q : α → World → Prop}
    (hx : Safe (.same (machine fuel)) c (.bare s) x Q) (h : x.Gives (machine fuel) c s a s') :
    Leads (.bare s) s' := .of_safe hx h

theorem lengthTruthful_defineOrdinary (h : (defineOrdinary id key d).Gives (machine fuel) c s b s')
    (hid : id.index < s.heap.size) (hwf : (s.object id).WellFormed) {v : Value}
    (hl : SetsLength (s.object id) key d) (hv : d.value = some v) (hd : d.Consistent) :
    ∃ length s₁, (toArrayLength v).Gives (machine fuel) c s length s₁ ∧
      (¬ (s₁.object id).Overreaches length d →
        LengthTruthful (s₁.object id) (s'.object id) length d b) := by
  obtain ⟨harray, rfl, -⟩ := hl
  have h := gives_look_bind.mp (gives_checked h)
  rw [Object.isArray_iff_kind.mp harray] at h
  have honArray : defineOnArray id d Object.lengthKey = defineArrayLength id d := by
    simp [defineOnArray, Object.lengthKey]
  simp only [honArray, defineArrayLength, hv, gives_bind, gives_update] at h
  obtain ⟨length, s₂, hlength, rfl, rfl⟩ := h
  have hleads : Leads (.bare s) s₂ := leads_of_gives (toArrayLength_safe World.met_bare) hlength
  have hsize : id.index < s₂.heap.size := Nat.lt_of_lt_of_le hid hleads.size_le
  refine ⟨length, s₂, hlength, fun hover => ?_⟩
  have hwf₂ := hleads.wellFormed hid (Nat.le_refl _) hwf
  have ha : d.isAccessor = false := hd.resolve_right (by simp [Descriptor.isData, hv])
  obtain ⟨hagrees, hunchanged⟩ := hwf₂.defineLength_truthful ha hover
  change LengthTruthful _ ((s₂.replace id _).object id) _ _ _
  rw [State.object_replace_self hsize]
  exact ⟨hagrees, hunchanged⟩

/-- After a definition that is answered with yes, the property has everything that was asked for,
and after no everything is as it was. Where the length of an array is set, this goes for what the
value was converted to, a length that was lowered as far as the elements let it apart; nothing is
said of attributes that a length that is lowered cannot have. -/
theorem define_truthful (hid : id.index < s.heap.size) (hproxy : (s.object id).isProxy = false)
    (harray : (s.object id).isArray = true → (s.object id).WellFormed) (hd : d.Consistent)
    (h : (define id key d).Gives (machine fuel) c s b s') :
    (¬ SetsLength (s.object id) key d →
      (b = true → ∃ p, getOwn id key (machine fuel) c s' = .value (some p) s' ∧ d.Agrees p) ∧
      (b = false → s' = s)) ∧
    ∀ v, SetsLength (s.object id) key d → d.value = some v →
      ∃ length s₁, (toArrayLength v).Gives (machine fuel) c s length s₁ ∧
        (¬ (s₁.object id).Overreaches length d →
          (b = true → ∃ p, getOwn id key (machine fuel) c s' = .value (some p) s' ∧
            { d with value := some (.ofNat length) }.Agrees p) ∧
          (b = false → s'.object id = s₁.object id ∨
            ∃ n, length < n ∧ (s₁.object id).Shrunk (s'.object id) n)) := by
  have hleads : Leads (.bare s) s' := leads_of_gives (define_safe World.met_bare) h
  have hproxy' : (s'.object id).isProxy = false := (hleads.isProxy_eq hid).trans hproxy
  have h := (gives_define hproxy).mp h
  refine ⟨fun hl => ?_, fun v hl hv => ?_⟩
  · obtain ⟨hagrees, hunchanged⟩ := truthful_defineOrdinary h hid hl hd
    refine ⟨fun hb => ?_, hunchanged⟩
    obtain ⟨p, hp, ha⟩ := hagrees hb
    exact ⟨p, by rw [getOwn_ordinary hproxy', hp], ha⟩
  · obtain ⟨length, s₁, hlength, htruth⟩ :=
      lengthTruthful_defineOrdinary h hid (harray hl.1) hl hv hd
    refine ⟨length, s₁, hlength, fun hover => ⟨fun hb => ?_, (htruth hover).unchanged⟩⟩
    obtain ⟨p, hp, ha⟩ := (htruth hover).agrees hb
    refine ⟨p, ?_, ha⟩
    obtain ⟨n, w, hkind⟩ := hleads.wellFormed hid (Nat.le_refl _) (harray hl.1)
    rw [getOwn_ordinary hproxy', hl.2.1, State.ownProperty?_of_not_maps
      (Object.maps_array (Object.isArray_iff_kind.mpr hkind.kind) _), Object.element?, hkind.kind, hp]
    rfl

/-- An array is emptied. -/
theorem define_truthful_emptied : ∃ s' p,
    (define ⟨0⟩ Object.lengthKey { value := some (.ofNat 0) }).Gives (machine 1) default
      State.withArray true s' ∧
    getOwn ⟨0⟩ Object.lengthKey (machine 1) default s' = .value (some p) s' ∧
    p.toDescriptor.value = some (.ofNat 0) := by
  obtain ⟨s', h⟩ := Step.outcome_of_answers (show Step.answers true (define ⟨0⟩ Object.lengthKey
    { value := some (.ofNat 0) } (machine 1) default State.withArray) = true by decide +kernel)
  have hwf : (State.withArray.object ⟨0⟩).WellFormed :=
    Object.wellFormed_arrayObject (show #[Value.undefined].size < 2 ^ 32 by decide)
  obtain ⟨length, s₁, hlength, htruth⟩ := (define_truthful (by decide) rfl (fun _ => hwf)
    (.inl rfl) h).2 (.ofNat 0) ⟨rfl, rfl, rfl⟩ rfl
  obtain ⟨p, hp, ha⟩ := (htruth (by rintro ⟨-, -, h | h⟩ <;> cases h)).1 rfl
  have hzero : toArrayLength (.ofNat 0) (machine 1) default State.withArray =
    .value 0 State.withArray := by rfl
  obtain ⟨rfl, -⟩ := (gives_value hzero).mp hlength
  exact ⟨s', p, h, hp, ha.value _ rfl⟩

def listedLength : Descriptor := { value := some (.ofNat 0), enumerable := some true }

theorem define_overreaching : (State.withArray.object ⟨0⟩).WellFormed ∧ listedLength.Consistent ∧
    ∃ s', (define ⟨0⟩ Object.lengthKey listedLength).Gives (machine 1) default State.withArray true s' ∧
      ∀ p, getOwn ⟨0⟩ Object.lengthKey (machine 1) default s' = .value (some p) s' →
        ¬ listedLength.Agrees p := by
  refine ⟨Object.wellFormed_arrayObject (show #[Value.undefined].size < 2 ^ 32 by decide), .inl rfl, ?_⟩
  obtain ⟨s₂, h⟩ := Step.outcome_of_answers (show Step.answers true ((do
    let done ← define ⟨0⟩ Object.lengthKey listedLength
    let property ← getOwn ⟨0⟩ Object.lengthKey
    return done && property.all fun p => p.toDescriptor.enumerable == some false : Exec Bool)
      (machine 1) default State.withArray) = true by decide +kernel)
  obtain ⟨done, s', hdone, h⟩ := gives_bind.mp h
  obtain ⟨property, s₁, hget, h⟩ := gives_bind.mp h
  obtain ⟨hall, -⟩ := gives_pure.mp h
  simp only [Bool.true_eq, Bool.and_eq_true] at hall
  obtain ⟨rfl, hall⟩ := hall
  refine ⟨s', hdone, fun p hp ha => ?_⟩
  obtain ⟨rfl, -⟩ := (gives_value hp).mp hget
  simp [ha.enumerable true rfl] at hall

end Exec
end EcmaScript

import EcmaScript.Proofs.Outcome
import EcmaScript.Proofs.Number

/-! What is fixed in an object stays so, whatever is done to it. -/
namespace EcmaScript

namespace Property

def Fixed (p : Property) : Prop := p.configurable = false ∧ ∀ v, p.slot ≠ .data v true

/-- What becomes of a property that is not configurable: it stays data or stays a pair of functions,
and one that is fixed stays as it is. -/
structure Stays (p p' : Property) : Prop where
  configurable : p'.configurable = false
  isAccessor : p'.isAccessor = p.isAccessor
  fixed : p.Fixed → p'.Fixed ∧ p'.toDescriptor = p.toDescriptor

theorem Stays.refl {p : Property} (h : p.configurable = false) : p.Stays p :=
  ⟨h, rfl, fun hf => ⟨hf, rfl⟩⟩

theorem Stays.trans {p p₁ p₂ : Property} (h : p.Stays p₁) (h' : p₁.Stays p₂) : p.Stays p₂ where
  configurable := h'.configurable
  isAccessor := h'.isAccessor.trans h.isAccessor
  fixed hf := by
    obtain ⟨hf₁, heq⟩ := h.fixed hf
    obtain ⟨hf₂, heq'⟩ := h'.fixed hf₁
    exact ⟨hf₂, heq'.trans heq⟩

end Property

namespace Descriptor
variable {d : Descriptor}

theorem functionOf_getD {v : Value} : (functionOf v).getD .undefined = v := by
  unfold functionOf
  cases v <;> rfl

theorem keepsFunction_getD {current new : Option Value} (h : keepsFunction current new = true) :
    (match new with
      | some v => functionOf v
      | none => current).getD .undefined = current.getD .undefined := by
  cases new with
  | none => rfl
  | some v =>
    have hv : current.getD .undefined = v := Value.same_iff.mp h
    rw [hv]
    exact functionOf_getD

theorem applySlot_data {v : Value} {w : Bool} (h : d.isAccessor = false) :
    d.applySlot (.data v w) = .data (d.value.getD v) (d.writable.getD w) := by
  unfold applySlot
  rw [if_neg (by simp [h])]
  split
  · rfl
  · simp_all [isData]

theorem stays_apply {p : Property} (hc : p.configurable = false) (h : d.allowedOn p = true) :
    p.Stays (d.apply p) := by
  simp only [allowedOn, Bool.and_eq_true, bne_iff_ne, ne_eq, beq_iff_eq] at h
  obtain ⟨⟨⟨hconf, henum⟩, hkind⟩, hslot⟩ := h
  have hconfigurable : d.configurable.getD p.configurable = false := by
    cases hcon : d.configurable with
    | none => exact hc
    | some b => cases b <;> simp_all
  obtain ⟨slot, enumerable, configurable⟩ := p
  cases slot with
  | data v w =>
    have hdata : d.isAccessor = false := by
      simp only [isGeneric, Property.isAccessor] at hkind
      cases ha : d.isAccessor <;> simp_all
    have happly : d.apply ⟨.data v w, enumerable, configurable⟩ =
        ⟨.data (d.value.getD v) (d.writable.getD w), enumerable, false⟩ := by
      simp only [apply, applySlot_data hdata]
      simp_all
    rw [happly]
    refine ⟨rfl, rfl, fun hf => ?_⟩
    obtain rfl : w = false := Bool.eq_false_iff.mpr fun hw => hf.2 v (hw ▸ rfl)
    simp only [Bool.false_or, Bool.and_eq_true, bne_iff_ne, ne_eq] at hslot
    have hwritable : d.writable.getD false = false := by
      cases hw : d.writable with
      | none => rfl
      | some b => cases b <;> simp_all
    have hvalue : d.value.getD v = v := by
      cases hv : d.value with
      | none => rfl
      | some v' =>
        rw [hv] at hslot
        exact Value.same_iff.mp hslot.2
    rw [hwritable, hvalue]
    exact ⟨⟨rfl, by simp⟩, by rw [← hc]⟩
  | accessor getter setter =>
    simp only [Bool.and_eq_true] at hslot
    by_cases ha : d.isAccessor = true
    · have hnew : d.applySlot (.accessor getter setter) = .accessor
          (match d.getter with
            | some v => functionOf v
            | none => getter)
          (match d.setter with
            | some v => functionOf v
            | none => setter) := if_pos ha
      rw [apply, hnew, hconfigurable, henum]
      refine ⟨rfl, rfl, fun hf => ⟨⟨rfl, by simp⟩, ?_⟩⟩
      simp only [Property.toDescriptor, keepsFunction_getD hslot.1, keepsFunction_getD hslot.2,
        show configurable = false from hc]
    · have hdata : d.isData = false := by simp_all [isGeneric, Property.isAccessor]
      have happly : d.apply ⟨.accessor getter setter, enumerable, configurable⟩ =
          ⟨.accessor getter setter, enumerable, configurable⟩ := by
        simp only [apply, applySlot, if_neg ha, hdata]
        simp_all
      rw [happly]
      exact .refl hc

end Descriptor

namespace Object
variable {o o₁ o₂ o' : Object} {N : PrivateName → Prop}

/-- What an object keeps when its properties change. -/
structure Preserves (o o' : Object) : Prop where
  property : ∀ key p, o.own? key = some p → p.configurable = false →
    ∃ p', o'.own? key = some p' ∧ p.Stays p'
  closed : o.extensible = false →
    o'.extensible = false ∧ ∀ key, o.own? key = none → o'.own? key = none

theorem Preserves.trans (h : o.Preserves o₁) (h' : o₁.Preserves o₂) : o.Preserves o₂ where
  property key p hp hc := by
    obtain ⟨p₁, hp₁, hs₁⟩ := h.property key p hp hc
    obtain ⟨p₂, hp₂, hs₂⟩ := h'.property key p₁ hp₁ hs₁.configurable
    exact ⟨p₂, hp₂, hs₁.trans hs₂⟩
  closed hc := by
    obtain ⟨hc₁, hnone₁⟩ := h.closed hc
    obtain ⟨hc₂, hnone₂⟩ := h'.closed hc₁
    exact ⟨hc₂, fun key hkey => hnone₂ key (hnone₁ key hkey)⟩

theorem Preserves.congr (hp : o'.properties = o.properties)
    (hc : o.extensible = false → o'.extensible = false) : o.Preserves o' := by
  have hown (key : PropertyKey) : o'.own? key = o.own? key := by simp only [own?, hp]
  exact {
    property := fun key p hkey hconf => ⟨p, (hown key).trans hkey, .refl hconf⟩
    closed := fun h => ⟨hc h, fun key hkey => (hown key).trans hkey⟩ }

theorem Preserves.refl : o.Preserves o := .congr rfl id

theorem preserves_put {key : PropertyKey} {p p' : Property} (hp : o.own? key = some p)
    (h : p.configurable = false → p.Stays p') : o.Preserves (o.put key p') where
  property other q hq hc := by
    rw [own?_put]
    split
    · subst other
      obtain rfl : p = q := Option.some.inj (hp.symm.trans hq)
      exact ⟨p', rfl, h hc⟩
    · exact ⟨q, hq, .refl hc⟩
  closed hc := by
    refine ⟨hc, fun other hother => ?_⟩
    rw [own?_put, if_neg, hother]
    rintro rfl
    rw [hp] at hother
    cases hother

theorem preserves_define? {key : PropertyKey} {d : Descriptor} (h : o.define? key d = some o') :
    o.Preserves o' := by
  rcases define?_cases h with ⟨hnone, hext, rfl⟩ | ⟨p, hp, hallowed, rfl⟩
  · refine ⟨fun other q hq hc => ⟨q, ?_, .refl hc⟩, fun hc => ?_⟩
    · rw [own?_put, if_neg, hq]
      rintro rfl
      rw [hnone] at hq
      cases hq
    · rw [hext] at hc
      cases hc
  · refine preserves_put hp fun hc => Descriptor.stays_apply hc ?_
    simpa [hc] using hallowed

theorem preserves_erase {key : PropertyKey} {p : Property} (hp : o.own? key = some p)
    (hc : p.configurable = true) :
    o.Preserves { o with properties := o.properties.erase key } where
  property other q hq hfixed := by
    refine ⟨q, ?_, .refl hfixed⟩
    rw [own?_erase, if_neg, hq]
    rintro rfl
    obtain rfl : p = q := Option.some.inj (hp.symm.trans hq)
    rw [hc] at hfixed
    cases hfixed
  closed h := by
    refine ⟨h, fun other hother => ?_⟩
    rw [own?_erase]
    split
    · rfl
    · exact hother

theorem preserves_dropElements {length : Nat} {is : List ArrayIndex} :
    o.Preserves (dropElements length is o).2 := by
  induction is generalizing o with
  | nil => exact .refl
  | cons i rest ih =>
    unfold dropElements
    split
    · split
      · exact (preserves_erase ‹_› ‹_›).trans ih
      · exact .refl
    · exact ih

theorem preserves_defineLength {length : Nat} {d : Descriptor} :
    o.Preserves (o.defineLength length d).2 := by
  unfold defineLength
  dsimp only
  split
  · split
    · exact preserves_define? ‹_›
    · exact .refl
  · split
    · exact .refl
    · have hdrop : o.Preserves (dropElements length (o.properties.indicesFrom length) o).2 :=
        preserves_dropElements
      refine hdrop.trans ?_
      generalize (dropElements length (o.properties.indicesFrom length) o).2 = o₁
      cases h : o₁.define? lengthKey _ with
      | none => exact .refl
      | some o' => exact preserves_define? h

theorem preserves_defineElement? {n : ArrayIndex} {d : Descriptor}
    (h : o.defineElement? n d = some o') : o.Preserves o' := by
  obtain ⟨o₁, hd, hwritable, rfl⟩ := defineElement?_cases h
  split
  · rename_i hle
    -- The length can be written, so it is data, and may change.
    refine (preserves_define? hd).trans ?_
    have hlength := hwritable hle
    unfold lengthWritable at hlength
    split at hlength
    · rename_i v writable e c hown
      subst hlength
      have hown₁ : o₁.own? lengthKey = some ⟨.data v true, e, c⟩ := by
        rcases define?_cases hd with ⟨-, -, rfl⟩ | ⟨p, -, -, rfl⟩ <;>
          rw [own?_put, if_neg (by simp [lengthKey]), hown]
      exact preserves_put hown₁ fun _ => ⟨rfl, rfl, fun hf => absurd rfl (hf.2 v)⟩
    · cases hlength
  · exact preserves_define? hd

def element? (o : Object) (key : PropertyKey) : Option Property :=
  match o.kind with
  | .string text => stringElement? text key
  | _ => none

/-- What code sees of an object, the parameters that it stands for apart: its properties, the
elements of a string, and its prototype. -/
structure Keeps (o o' : Object) : Prop extends o.Preserves o' where
  element : o'.element? = o.element?
  maps : ∀ key, o'.maps key = true → o.maps key = true
  unstamped : o'.unstamped → o.unstamped
  prototype : o.extensible = false → o'.prototype = o.prototype

theorem element?_of_maps {key : PropertyKey} (h : o.maps key = true) : o.element? key = none := by
  unfold maps at h
  unfold element?
  split at h
  · simp [*]
  · cases h

theorem element?_congr (h : o'.kind = o.kind) : o'.element? = o.element? := by
  funext key
  simp only [element?, h]

theorem Keeps.congr (hk : o'.kind = o.kind) (hstamped : o.stamped = true → o'.stamped = true)
    (hprototype : o.extensible = false → o'.prototype = o.prototype) (h : o.Preserves o') :
    o.Keeps o' where
  toPreserves := h
  element := element?_congr hk
  maps key hm := by rwa [maps_eq hk] at hm
  unstamped := by
    rintro ⟨hkind, hs⟩
    refine ⟨hk ▸ hkind, Bool.eq_false_iff.mpr fun h => ?_⟩
    rw [hstamped h] at hs
    cases hs
  prototype := hprototype

theorem Keeps.trans (h : o.Keeps o₁) (h' : o₁.Keeps o₂) : o.Keeps o₂ where
  toPreserves := h.toPreserves.trans h'.toPreserves
  element := h'.element.trans h.element
  maps key hm := h.maps key (h'.maps key hm)
  unstamped hu := h.unstamped (h'.unstamped hu)
  prototype hc := (h'.prototype (h.closed hc).1).trans (h.prototype hc)

theorem Keeps.refl : o.Keeps o := .congr rfl id (fun _ => rfl) .refl

theorem keeps_kind {k : ObjectKind} (h : o.kind.Alters N k) : o.Keeps { o with kind := k } where
  toPreserves := .congr rfl id
  element := by
    funext key
    generalize hkind : o.kind = k' at h
    cases h <;> simp [element?, hkind]
  maps key hm := maps_of_alters h hm
  unstamped := by
    rintro ⟨hkind, -⟩
    obtain rfl : k = .error := hkind
    generalize o.kind = k' at h
    cases h
  prototype _ := rfl

theorem Alters.keeps (h : Alters N o o') : o.Keeps o' := by
  have hsame {o o' : Object} (hs : SameBut o o') (h : o.Preserves o') : o.Keeps o' := by
    unfold SameBut at hs
    exact .congr (by rw [hs]) (by rw [hs]; exact id) (by rw [hs]; exact fun _ => rfl) h
  induction h with
  | refl => exact .refl
  | define _ _ _ hd ih => exact ih.trans (hsame (sameBut_define? hd) (preserves_define? hd))
  | element _ _ hd ih =>
    exact ih.trans (hsame (sameBut_defineElement? hd) (preserves_defineElement? hd))
  | length _ _ _ ih => exact ih.trans (hsame sameBut_defineLength preserves_defineLength)
  | erase _ hp hc _ ih => exact ih.trans (.congr rfl id (fun _ => rfl) (preserves_erase hp hc))
  | putPrivate _ _ ih =>
    rw [putPrivate_eq]
    exact ih.trans (.congr rfl id (fun _ => rfl) (.congr rfl id))
  | close _ ih => exact ih.trans (.congr rfl id (fun _ => rfl) (.congr rfl fun _ => rfl))
  | stamp _ ih => exact ih.trans (.congr rfl (fun _ => rfl) (fun _ => rfl) (.congr rfl id))
  | kind _ hk ih => exact ih.trans (keeps_kind hk)

end Object

/-- What is expected of an object that code can have access to: the elements that stand for
parameters are data that can be written, and an error shows its call stack. -/
structure Object.Whole (o : Object) : Prop where
  mapsPlain : o.MapsPlain
  stamped : ¬ o.unstamped

theorem Act.keeps_object {w : World} {s : State} {id : ObjectId} (h : Act w s)
    (hid : id.index < w.since) (hsince : w.since ≤ w.state.heap.size)
    (ho : (w.state.object id).Whole) :
    (w.state.object id).Keeps (s.object id) ∧ (s.object id).Whole := by
  have hkeeps := h.keeps id (Nat.lt_of_lt_of_le hid hsince)
  suffices hobject : (w.state.object id).Keeps (s.object id) from
    ⟨hobject, hkeeps.mapsPlain ho.mapsPlain, fun hu => ho.stamped (hobject.unstamped hu)⟩
  have hnew : ¬ w.recent id := Nat.not_le_of_lt hid
  cases hkeeps with
  | same h => rw [h]; exact .refl
  | alters _ h => exact h.keeps
  | build _ h => exact (h.elim hnew ho.stamped).elim
  | reparent _ h heq =>
    rw [heq]
    refine .congr rfl (fun h => h) (fun hc => ?_) (.congr rfl fun h => h)
    rcases h with h | h
    · exact absurd h hnew
    · rw [hc] at h
      cases h
  | settle _ hk _ heq | register _ hk _ _ heq =>
    rw [heq]
    exact {
      toPreserves := .congr rfl fun h => h
      element := by funext key; simp [Object.element?, hk]
      maps := by simp [Object.maps]
      unstamped := by rintro ⟨hkind, -⟩; cases hkind
      prototype := fun _ => rfl }

theorem Leads.keeps_object {w : World} {s : State} {id : ObjectId} (h : Leads w s)
    (hid : id.index < w.since) (hsince : w.since ≤ w.state.heap.size)
    (ho : (w.state.object id).Whole) :
    (w.state.object id).Keeps (s.object id) ∧ (s.object id).Whole :=
  h.keeps (I := fun s => (w.state.object id).Keeps (s.object id) ∧ (s.object id).Whole) ⟨.refl, ho⟩
    fun _ _ hl hle hact ⟨hkeeps, hwhole⟩ => by
      have hstep := hact.keeps_object (hl.since ▸ hid) (hl.since ▸ Nat.le_trans hsince hle) hwhole
      exact ⟨hkeeps.trans hstep.1, hstep.2⟩

namespace State
variable {s s' : State} {id : ObjectId} {key : PropertyKey}

theorem ownProperty?_of_maps (h : (s.object id).MapsPlain) (hm : (s.object id).maps key = true) :
    ∃ v v' e c, (s.object id).own? key = some (.data v true e c) ∧
      s.ownProperty? id key = some (.data v' true e c) := by
  obtain ⟨v, e, c, hown⟩ := h key hm
  unfold Object.maps at hm
  split at hm
  · rename_i shared hk
    obtain ⟨n, rfl⟩ := ArgumentMap.eq_index hm
    obtain ⟨name, hname⟩ := Option.isSome_iff_exists.mp hm
    have hname : (shared.names[n.val]?).join = some name := hname
    refine ⟨v, ?_⟩
    simp only [ownProperty?, hk, hname, hown, Property.data]
    cases ((s.scope shared.scope).binding? name).bind (·.value) with
    | none => exact ⟨v, e, c, rfl, rfl⟩
    | some v' => exact ⟨v', e, c, rfl, rfl⟩
  · cases hm

theorem ownProperty?_of_not_maps (hm : (s.object id).maps key = false) :
    s.ownProperty? id key = ((s.object id).element? key).or ((s.object id).own? key) := by
  cases hk : (s.object id).kind with
  | string text =>
    simp only [ownProperty?, Object.element?, hk]
    cases key <;> rfl
  | arguments shared =>
    simp only [ownProperty?, Object.element?, hk]
    cases shared with
    | none => rfl
    | some shared =>
      cases key with
      | index n =>
        have hname : (shared.names[n.val]?).join = none := by
          simpa [Object.maps, hk, ArgumentMap.parameter?] using hm
        simp only [hname]
        rfl
      | _ => rfl
  | _ =>
    simp only [ownProperty?, Object.element?, hk]
    rfl

/-- What code sees of an object is kept: what cannot change stays as it is, what is not configurable
stays, and an object that is closed gains nothing and keeps its prototype. -/
structure Preserves (s s' : State) (id : ObjectId) : Prop where
  property : ∀ key p, s.ownProperty? id key = some p → p.configurable = false →
    ∃ p', s'.ownProperty? id key = some p' ∧ p.Stays p'
  closed : (s.object id).extensible = false → (s'.object id).extensible = false ∧
    (s'.object id).prototype = (s.object id).prototype ∧
    ∀ key, s.ownProperty? id key = none → s'.ownProperty? id key = none

/-- The values of parameters make no difference, since an element that stands for one can be
written. -/
theorem preserves_of_keeps (h : (s.object id).Keeps (s'.object id)) (hs : (s.object id).MapsPlain)
    (hs' : (s'.object id).MapsPlain) : s.Preserves s' id where
  property key p hp hc := by
    cases hm : (s.object id).maps key with
    | true =>
      obtain ⟨v, v', e, c, hown, hview⟩ := ownProperty?_of_maps hs hm
      obtain rfl : p = .data v' true e c := Option.some.inj (hp.symm.trans hview)
      obtain ⟨p₁, hown₁, hstays⟩ := h.property key _ hown hc
      have hany {p₂ : Property} (hc₂ : p₂.configurable = false) (ha : p₂.isAccessor = false) :
          (Property.data v' true e c).Stays p₂ := ⟨hc₂, ha, fun hf => absurd rfl (hf.2 v')⟩
      cases hm' : (s'.object id).maps key with
      | true =>
        obtain ⟨v₁, v₂, e₁, c₁, hown', hview'⟩ := ownProperty?_of_maps hs' hm'
        obtain rfl : p₁ = .data v₁ true e₁ c₁ := Option.some.inj (hown₁.symm.trans hown')
        exact ⟨_, hview', hany hstays.configurable rfl⟩
      | false =>
        rw [ownProperty?_of_not_maps hm', h.element, Object.element?_of_maps hm, hown₁]
        exact ⟨p₁, rfl, hany hstays.configurable hstays.isAccessor⟩
    | false =>
      have hm' : (s'.object id).maps key = false :=
        Bool.eq_false_iff.mpr fun hm' => by simp [h.maps key hm'] at hm
      rw [ownProperty?_of_not_maps hm] at hp
      rw [ownProperty?_of_not_maps hm', h.element]
      cases hq : (s.object id).element? key with
      | some q =>
        rw [hq] at hp
        cases hp
        exact ⟨_, rfl, .refl hc⟩
      | none =>
        rw [hq] at hp
        exact h.property key p hp hc
  closed hc := by
    obtain ⟨hc', hnone⟩ := h.closed hc
    refine ⟨hc', h.prototype hc, fun key hkey => ?_⟩
    cases hm : (s.object id).maps key with
    | true =>
      obtain ⟨_, _, _, _, -, hview⟩ := ownProperty?_of_maps hs hm
      rw [hkey] at hview
      cases hview
    | false =>
      have hm' : (s'.object id).maps key = false :=
        Bool.eq_false_iff.mpr fun hm' => by simp [h.maps key hm'] at hm
      rw [ownProperty?_of_not_maps hm, Option.or_eq_none_iff] at hkey
      rw [ownProperty?_of_not_maps hm', h.element, hkey.1, hnone key hkey.2]
      rfl

theorem Preserves.refl : s.Preserves s id where
  property _ p hp hc := ⟨p, hp, .refl hc⟩
  closed hc := ⟨hc, rfl, fun _ h => h⟩

theorem Preserves.trans {s₁ : State} (h : s.Preserves s₁ id) (h' : s₁.Preserves s' id) :
    s.Preserves s' id where
  property key p hp hc := by
    obtain ⟨p₁, hp₁, hs₁⟩ := h.property key p hp hc
    obtain ⟨p₂, hp₂, hs₂⟩ := h'.property key p₁ hp₁ hs₁.configurable
    exact ⟨p₂, hp₂, hs₁.trans hs₂⟩
  closed hc := by
    obtain ⟨hc₁, hprototype₁, hnone₁⟩ := h.closed hc
    obtain ⟨hc₂, hprototype₂, hnone₂⟩ := h'.closed hc₁
    exact ⟨hc₂, hprototype₂.trans hprototype₁, fun key hkey => hnone₂ key (hnone₁ key hkey)⟩

/-- An object that is there, and no proxy. -/
structure Ordinary (s : State) (id : ObjectId) : Prop where
  size : id.index < s.heap.size
  isProxy : (s.object id).isProxy = false
  whole : (s.object id).Whole

end State

theorem Leads.ordinary {s s' : State} {id : ObjectId} (h : Leads (.bare s) s') (ho : s.Ordinary id) :
    s'.Ordinary id ∧ s.Preserves s' id := by
  obtain ⟨hkeeps, hwhole⟩ := h.keeps_object ho.size (Nat.le_refl _) ho.whole
  exact ⟨⟨Nat.lt_of_lt_of_le ho.size h.size_le, (h.isProxy_eq ho.size).trans ho.isProxy, hwhole⟩,
    State.preserves_of_keeps hkeeps ho.whole.mapsPlain hwhole.mapsPlain⟩

end EcmaScript

import EcmaScript.Proofs.Definition

/-! Objects that have been frozen. After the operation that freezes an object was answered with yes, all
its properties are fixed and no more can be added. -/
namespace EcmaScript

/-- Every property of an object is fixed, and there will be no others. -/
structure State.Frozen (s : State) (id : ObjectId) : Prop where
  closed : (s.object id).extensible = false
  fixed : ∀ key p, s.ownProperty? id key = some p → p.Fixed

namespace PropertyTable
variable {t : PropertyTable} {key : PropertyKey}

theorem mem_keys_of_get? {p : Property} (h : t.get? key = some p) : key ∈ t.keys := by
  have hnamed (hindex : ∀ n, key ≠ .index n) : key ∈ t.named.toList.map (·.1) := by
    rw [get?_named hindex] at h
    obtain ⟨e, he, -⟩ := Option.map_eq_some_iff.mp h
    exact List.mem_map.mpr ⟨e, by simpa using Array.mem_of_find?_eq_some he,
      by simpa using Array.find?_some he⟩
  unfold keys
  cases key with
  | index n =>
    have hn : n ∈ t.indexed := Std.TreeMap.isSome_getElem?_iff_mem.mp (Option.isSome_iff_exists.mpr ⟨p, h⟩)
    simp [hn]
  | name => simpa [PropertyKey.isSymbol] using hnamed nofun
  | symbol => simpa [PropertyKey.isSymbol] using hnamed nofun

end PropertyTable

namespace Text

theorem length16_eq (s : String) : length16 s = (units s).size := by
  have hfold (cs : List Char) (n : Nat) :
      cs.foldl (fun n c => n + unitCount c) n = n + (cs.flatMap unitsOfChar).length := by
    induction cs generalizing n with
    | nil => rfl
    | cons c cs ih =>
      have hc : (unitsOfChar c).length = unitCount c := by
        unfold unitsOfChar unitCount
        dsimp only
        split <;> rfl
      rw [List.foldl_cons, ih, List.flatMap_cons, List.length_append, hc, Nat.add_assoc]
  rw [length16, String.foldl_eq_foldl_toList, hfold]
  simp [units]

end Text

namespace State
variable {s s' : State} {id : ObjectId} {key : PropertyKey}

theorem mem_ownKeys {p : Property} (h : s.ownProperty? id key = some p) :
    key ∈ (s.object id).ownKeys := by
  cases hm : (s.object id).maps key with
  | true =>
    unfold Object.maps at hm
    split at hm
    · rename_i shared hk
      obtain ⟨n, rfl⟩ := ArgumentMap.eq_index hm
      unfold Object.ownKeys
      rw [hk]
      simp only [ownProperty?, hk] at h
      cases hown : (s.object id).own? (.index n) with
      | none => simp [hown] at h
      | some q => exact PropertyTable.mem_keys_of_get? hown
    · cases hm
  | false =>
    rw [ownProperty?_of_not_maps hm] at h
    unfold Object.ownKeys
    split
    · rename_i text hk
      simp only [Object.element?, hk] at h
      dsimp only
      cases key with
      | index n =>
        by_cases hn : n.val < Text.length16 text
        · refine List.mem_append_left _ (List.mem_map.mpr
            ⟨n.val, List.mem_range.mpr (lt_min hn (Nat.lt_succ_of_lt n.isLt)), ?_⟩)
          simp [PropertyKey.ofNat]
        · have hnone : stringElement? text (.index n) = none := by
            rw [Text.length16_eq] at hn
            simp [stringElement?, Array.getElem?_eq_none (Nat.le_of_not_lt hn)]
          rw [hnone] at h
          refine List.mem_append_right _ (List.mem_filter.mpr ⟨PropertyTable.mem_keys_of_get? h, ?_⟩)
          simpa using Nat.le_of_not_lt hn
      | _ =>
        exact List.mem_append_right _ (List.mem_filter.mpr ⟨PropertyTable.mem_keys_of_get? h, rfl⟩)
    · rename_i hk
      have helement : (s.object id).element? key = none := by
        unfold Object.element?
        split
        · exact absurd ‹_› (hk _)
        · rfl
      rw [helement] at h
      exact PropertyTable.mem_keys_of_get? h

end State

theorem Object.isAccessor_element? {o : Object} {key : PropertyKey} {p : Property}
    (h : o.element? key = some p) : p.isAccessor = false := by
  unfold Object.element? at h
  split at h
  · unfold stringElement? at h
    split at h
    · obtain ⟨u, -, rfl⟩ := Option.map_eq_some_iff.mp h
      rfl
    · cases h
  · cases h

namespace Exec
variable {m : Machine} {c : Context} {s s' : State} {id : ObjectId} {key : PropertyKey} {d : Descriptor}

theorem accessor_define? {o o' : Object} {p : Property} (h : o.define? key d = some o')
    (hp : o.own? key = some p) (ha : p.isAccessor = true) (hd : d.isGeneric = true) :
    ∃ p', o'.own? key = some p' ∧ p'.isAccessor = true := by
  obtain ⟨hd, hd'⟩ : d.isAccessor = false ∧ d.isData = false := by simpa [Descriptor.isGeneric] using hd
  rcases Object.define?_cases h with ⟨hnone, -, -⟩ | ⟨q, hq, -, rfl⟩
  · rw [hp] at hnone
    cases hnone
  · obtain rfl : p = q := Option.some.inj (hp.symm.trans hq)
    refine ⟨_, by rw [Object.own?_put, if_pos rfl], ?_⟩
    simpa [Descriptor.apply, Descriptor.applySlot, hd, hd', Property.isAccessor] using ha

theorem accessor_defineOrdinary {p : Property} (h : (defineOrdinary id key d).Gives m c s true s')
    (hid : id.index < s.heap.size) (hs : (s.object id).MapsPlain)
    (hp : s.ownProperty? id key = some p) (ha : p.isAccessor = true) (hd : d.isGeneric = true) :
    ∃ p', s'.ownProperty? id key = some p' ∧ p'.isAccessor = true := by
  have hm : (s.object id).maps key = false := by
    refine Bool.eq_false_iff.mpr fun hm => ?_
    obtain ⟨_, v, e, c, -, hview⟩ := State.ownProperty?_of_maps hs hm
    rw [hp] at hview
    cases hview
    cases ha
  have he : (s.object id).element? key = none := by
    by_contra hne
    obtain ⟨q, hq⟩ := Option.ne_none_iff_exists'.mp hne
    rw [State.ownProperty?_of_not_maps hm, hq] at hp
    obtain rfl : q = p := Option.some.inj hp
    rw [Object.isAccessor_element? hq] at ha
    cases ha
  have hown : (s.object id).own? key = some p := by
    rw [State.ownProperty?_of_not_maps hm, he] at hp
    exact hp
  have hreplace {f : Object → Option Object} (h : (replaceWith id f).Gives m c s true s')
      (hf : ∀ o, f (s.object id) = some o → o.kind = (s.object id).kind ∧
        ∃ p', o.own? key = some p' ∧ p'.isAccessor = true) :
      ∃ p', s'.ownProperty? id key = some p' ∧ p'.isAccessor = true := by
    rcases gives_replaceWith.mp h with ⟨-, hfalse, -⟩ | ⟨o, ho, -, rfl⟩
    · cases hfalse
    · obtain ⟨hk, p', hp', ha'⟩ := hf o ho
      have hobject : (s.replace id o).object id = o := State.object_replace_self hid
      refine ⟨p', ?_, ha'⟩
      rw [State.ownProperty?_of_not_maps (by rw [hobject, Object.maps_eq hk, hm]), hobject,
        Object.element?_congr hk, he, hp']
      rfl
  have hdefine (h : (replaceWith id (·.define? key d)).Gives m c s true s') :
      ∃ p', s'.ownProperty? id key = some p' ∧ p'.isAccessor = true :=
    hreplace h fun o ho => ⟨(Object.sameBut_define? ho).kind_eq, accessor_define? ho hown ha hd⟩
  have h := gives_look_bind.mp (gives_checked h)
  split at h
  · unfold defineOnArray at h
    split at h
    · refine hreplace h fun o ho => ⟨(Object.sameBut_defineElement? ho).kind_eq, ?_⟩
      obtain ⟨o₁, ho₁, -, rfl⟩ := Object.defineElement?_cases ho
      obtain ⟨p', hp', ha'⟩ := accessor_define? ho₁ hown ha hd
      refine ⟨p', ?_, ha'⟩
      split
      · rw [Object.own?_put, if_neg (by simp [Object.lengthKey]), hp']
      · exact hp'
    · split at h
      · rename_i hkey
        unfold defineArrayLength at h
        have hvalue : d.value = none := by
          simp only [Descriptor.isGeneric, Descriptor.isData] at hd
          grind
        rw [hvalue] at h
        exact hdefine (hkey ▸ h)
      · exact hdefine h
  · rename_i text hk
    have hstring : stringElement? text key = none := by simpa [Object.element?, hk] using he
    rw [hstring] at h
    exact hdefine h
  · rename_i shared hk
    have hparameter : shared.parameter? key = none := by simpa [Object.maps, hk] using hm
    rw [defineArgument_unmapped hparameter] at h
    exact hdefine h
  · exact hdefine h

theorem gives_forM_cons {α : Type} {f : α → Exec PUnit} {a : α} {l : List α} {u : PUnit} :
    ((a :: l).forM f).Gives m c s u s' ↔
      ∃ s₁, (f a).Gives m c s ⟨⟩ s₁ ∧ (l.forM f).Gives m c s₁ u s' :=
  gives_bind.trans ⟨fun ⟨_, s₁, h⟩ => ⟨s₁, h⟩, fun ⟨s₁, h⟩ => ⟨⟨⟩, s₁, h⟩⟩

def freezing (p? : Option Property) : Descriptor :=
  { configurable := some false
    writable := if (p?.map (!·.isAccessor)).getD false then some false else none }

section Freezing
variable {fuel : Nat}

theorem fixed_of_freezing
    (h : (define id key (freezing (s.ownProperty? id key))).Gives (machine fuel) c s true s')
    (ho : s.Ordinary id) (hclosed : (s.object id).extensible = false) :
    ∃ p', s'.ownProperty? id key = some p' ∧ p'.Fixed := by
  have hkept := ((leads_of_gives (define_safe World.met_bare) h).ordinary ho).2
  have h := (gives_define ho.isProxy).mp h
  have hlength : ¬ SetsLength (s.object id) key (freezing (s.ownProperty? id key)) := by
    rintro ⟨-, -, hv⟩
    cases hv
  obtain ⟨p', hp', ha⟩ := (truthful_defineOrdinary h ho.size hlength (.inl rfl)).agrees rfl
  have hc : p'.configurable = false := by
    have hconfigurable := ha.configurable false rfl
    unfold Property.toDescriptor at hconfigurable
    split at hconfigurable <;> exact Option.some.inj hconfigurable
  refine ⟨p', hp', hc, ?_⟩
  cases hp : s.ownProperty? id key with
  | none =>
    rw [(hkept.closed hclosed).2.2 key hp] at hp'
    cases hp'
  | some p =>
    cases hacc : p.isAccessor with
    | true =>
      have hgeneric : (freezing (s.ownProperty? id key)).isGeneric = true := by
        simp [freezing, hp, hacc, Descriptor.isGeneric, Descriptor.isAccessor, Descriptor.isData]
      obtain ⟨p₁, hp₁, ha₁⟩ :=
        accessor_defineOrdinary h ho.size ho.whole.mapsPlain hp hacc hgeneric
      obtain rfl : p' = p₁ := Option.some.inj (hp'.symm.trans hp₁)
      intro v hv
      simp [Property.isAccessor, hv] at ha₁
    | false =>
      have hw := ha.writable false (by simp [freezing, hp, hacc])
      intro v hv
      simp [Property.toDescriptor, hv, Descriptor.data] at hw

/-- An object that is closed and on its way from one state to another, in which some properties are
fixed. -/
structure Fixes (id : ObjectId) (s s' : State) (keys : List PropertyKey) : Prop where
  ordinary : s'.Ordinary id
  kept : s.Preserves s' id
  fixed : ∀ key ∈ keys, ∀ p, s'.ownProperty? id key = some p → p.Fixed

/-- One property after the other is fixed, and those that are stay so. -/
theorem fixes_forM {f : PropertyKey → Exec PUnit} {keys : List PropertyKey} {u : PUnit}
    (hf : ∀ key s s' u, (f key).Gives m c s u s' → s.Ordinary id → (s.object id).extensible = false →
      Fixes id s s' [key])
    (h : (keys.forM f).Gives m c s u s') (ho : s.Ordinary id)
    (hclosed : (s.object id).extensible = false) : Fixes id s s' keys := by
  induction keys generalizing s with
  | nil =>
    obtain ⟨-, rfl⟩ := gives_pure.mp h
    exact ⟨ho, .refl, by simp⟩
  | cons key keys ih =>
    obtain ⟨s₁, hkey, hrest⟩ := (gives_forM_cons).mp h
    have h₁ := hf key s s₁ _ hkey ho hclosed
    have h₂ := ih hrest h₁.ordinary (h₁.kept.closed hclosed).1
    refine ⟨h₂.ordinary, h₁.kept.trans h₂.kept, fun other hother p hp => ?_⟩
    rcases List.mem_cons.mp hother with rfl | hother
    · cases hp₁ : s₁.ownProperty? id other with
      | none =>
        rw [(h₂.kept.closed (h₁.kept.closed hclosed).1).2.2 other hp₁] at hp
        cases hp
      | some p₁ =>
        have hfixed := h₁.fixed other (List.mem_singleton_self other) p₁ hp₁
        obtain ⟨p₂, hp₂, hstays⟩ := h₂.kept.property other p₁ hp₁ hfixed.1
        obtain rfl : p = p₂ := Option.some.inj (hp.symm.trans hp₂)
        exact (hstays.fixed hfixed).1
    · exact h₂.fixed other hother p hp

theorem gives_defineOrThrow {u : Unit} (h : (defineOrThrow id key d).Gives m c s u s') :
    (define id key d).Gives m c s true s' := by
  obtain ⟨b, s₁, hdefine, hthrow⟩ := gives_bind.mp h
  cases b with
  | true =>
    obtain ⟨-, rfl⟩ := gives_pure.mp hthrow
    exact hdefine
  | false =>
    have hthrow := gives_look_bind.mp hthrow
    dsimp only at hthrow
    split at hthrow
    · obtain ⟨_, _, hthrow, -⟩ := gives_bind.mp hthrow
      exact (gives_raise hthrow).elim
    · exact (gives_raise hthrow).elim

theorem gives_preventExtensions (hc : c.isDryRun = false) (hproxy : (s.object id).isProxy = false) :
    ∃ s', (preventExtensions id).Gives m c s true s' := by
  have hcheck : (checkObjectWrite id "preventExtensions").Gives m c s () s := by
    refine gives_bind.mpr ⟨c, s, gives_context.mpr ⟨rfl, rfl⟩, ?_⟩
    rw [hc]
    exact gives_pure.mpr ⟨rfl, rfl⟩
  have hask {s' : State} (h : (if (s.object id).extensible then
      (checkObjectWrite id "preventExtensions" >>= fun _ =>
        modifyObject id (fun o => { o with extensible := false }) >>= fun _ => pure true)
      else pure true : Exec Bool).Gives m c s true s') : (preventExtensions id).Gives m c s true s' :=
    gives_bind.mpr ⟨none, s, (gives_value (proxyOf_ordinary hproxy)).mpr ⟨rfl, rfl⟩,
      gives_look_bind.mpr h⟩
  cases hopen : (s.object id).extensible with
  | false =>
    rw [hopen] at hask
    exact ⟨s, hask (gives_pure.mpr ⟨rfl, rfl⟩)⟩
  | true =>
    rw [hopen] at hask
    exact ⟨_, hask (gives_bind.mpr ⟨(), s, hcheck,
      gives_bind.mpr ⟨(), _, gives_change.mpr rfl, gives_pure.mpr ⟨rfl, rfl⟩⟩⟩)⟩

theorem preventExtensions_closes {b : Bool} (h : (preventExtensions id).Gives m c s b s')
    (hid : id.index < s.heap.size) (hproxy : (s.object id).isProxy = false) :
    (s'.object id).extensible = false := by
  obtain ⟨p?, s₁, hp, hrest⟩ := gives_bind.mp h
  obtain ⟨rfl, rfl⟩ := (gives_value (proxyOf_ordinary hproxy)).mp hp
  have hrest := gives_look_bind.mp hrest
  dsimp only at hrest
  split at hrest
  · obtain ⟨_, s₂, hclose, hdone⟩ := gives_bind.mp (gives_checked hrest)
    obtain ⟨-, rfl⟩ := gives_pure.mp hdone
    rw [gives_change.mp hclose]
    simp [State.object, Array.getElem_modify, hid]
  · rename_i hopen
    obtain ⟨-, rfl⟩ := gives_pure.mp hrest
    exact Bool.eq_false_iff.mpr hopen

theorem setIntegrity_freezes {fuel : Nat} (h : (setIntegrity id .frozen).Gives (machine fuel) c s true s')
    (ho : s.Ordinary id) : s'.Frozen id := by
  obtain ⟨b, s₁, hprevent, hrest⟩ := gives_bind.mp h
  have hleads := leads_of_gives preventExtensions_safe hprevent
  have ho₁ := (hleads.ordinary ho).1
  have hclosed := preventExtensions_closes hprevent ho.size ho.isProxy
  cases b with
  | false => cases (gives_pure.mp hrest).1
  | true =>
    obtain ⟨keys, s₂, hkeys, hrest⟩ := gives_bind.mp hrest
    obtain ⟨rfl, hs₂⟩ := (gives_value (ownKeys_ordinary ho₁.isProxy)).mp hkeys
    subst hs₂
    obtain ⟨_, s₃, hall, hdone⟩ := gives_bind.mp hrest
    obtain ⟨-, rfl⟩ := gives_pure.mp hdone
    have hfixes := fixes_forM (fun key s s' u h ho hclosed => ?_) hall ho₁ hclosed
    · refine ⟨(hfixes.kept.closed hclosed).1, fun key p hp => ?_⟩
      cases hp₁ : s₂.ownProperty? id key with
      | none =>
        rw [(hfixes.kept.closed hclosed).2.2 key hp₁] at hp
        cases hp
      | some p₁ => exact hfixes.fixed key (State.mem_ownKeys hp₁) p hp
    · obtain ⟨p?, _, hget, hrest⟩ := gives_bind.mp h
      obtain ⟨rfl, rfl⟩ := (gives_value (getOwn_ordinary ho.isProxy)).mp hget
      obtain ⟨frozen, _, hfrozen, hdefine⟩ := gives_bind.mp hrest
      obtain ⟨rfl, rfl⟩ := gives_pure.mp hfrozen
      have hdefine := gives_defineOrThrow hdefine
      obtain ⟨ho', hkept⟩ := (leads_of_gives (define_safe World.met_bare) hdefine).ordinary ho
      obtain ⟨p', hp', hfixed⟩ := fixed_of_freezing hdefine ho hclosed
      refine ⟨ho', hkept, fun other hother p hp => ?_⟩
      obtain rfl := List.mem_singleton.mp hother
      obtain rfl : p = p' := Option.some.inj (hp.symm.trans hp')
      exact hfixed

end Freezing

theorem testIntegrity_frozen (h : s.Frozen id) (hproxy : (s.object id).isProxy = false) :
    (testIntegrity id .frozen).Gives m c s true s := by
  have hall (keys : List PropertyKey) : (allClosed id .frozen keys).Gives m c s true s := by
    induction keys with
    | nil => exact gives_pure.mpr ⟨rfl, rfl⟩
    | cons key keys ih =>
      refine gives_bind.mpr ⟨_, s, (gives_value (getOwn_ordinary hproxy)).mpr ⟨rfl, rfl⟩, ?_⟩
      cases hp : s.ownProperty? id key with
      | none => exact ih
      | some p =>
        obtain ⟨hc, hw⟩ := h.fixed key p hp
        have hopen : Integrity.frozen.isOpen p = false := by
          unfold Integrity.isOpen
          rw [hc]
          cases hslot : p.slot with
          | data v writable =>
            cases writable with
            | false => rfl
            | true => exact absurd hslot (hw v)
          | accessor => rfl
        simpa [hopen] using ih
  refine gives_bind.mpr ⟨_, s, (gives_value (isExtensible_ordinary hproxy)).mpr ⟨rfl, rfl⟩, ?_⟩
  rw [h.closed]
  exact gives_bind.mpr ⟨_, s, (gives_value (ownKeys_ordinary hproxy)).mpr ⟨rfl, rfl⟩, hall _⟩

end Exec

theorem State.Preserves.frozen {s s' : State} {id : ObjectId} (h : s.Preserves s' id)
    (hs : s.Frozen id) : s'.Frozen id ∧ ∀ key,
      (s'.ownProperty? id key).map Property.toDescriptor =
        (s.ownProperty? id key).map Property.toDescriptor := by
  obtain ⟨hclosed, -, hnone⟩ := h.closed hs.closed
  have hsome (key : PropertyKey) (p : Property) (hp : s.ownProperty? id key = some p) :
      ∃ p', s'.ownProperty? id key = some p' ∧ p'.Fixed ∧ p'.toDescriptor = p.toDescriptor := by
    have hfixed := hs.fixed key p hp
    obtain ⟨p', hp', hstays⟩ := h.property key p hp hfixed.1
    exact ⟨p', hp', hstays.fixed hfixed⟩
  refine ⟨⟨hclosed, fun key p' hp' => ?_⟩, fun key => ?_⟩
  all_goals cases hp : s.ownProperty? id key with
    | none => simp_all
    | some p =>
      obtain ⟨p₁, hp₁, hfixed, heq⟩ := hsome key p hp
      simp_all

end EcmaScript

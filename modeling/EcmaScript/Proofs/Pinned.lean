import EcmaScript.Proofs.Frozen

/-! Definitions that fix a property, and deletions: what the object has afterwards. -/
namespace EcmaScript

namespace Object
variable {o o' : Object} {key : PropertyKey} {d : Descriptor}

def Pins (o : Object) (key : PropertyKey) : Prop := ∃ q, o.own? key = some q ∧ q.configurable = false

theorem pins_define? (h : o.define? key d = some o') (hd : d.configurable = some false) :
    o'.Pins key := by
  rcases define?_cases h with ⟨-, -, rfl⟩ | ⟨q, -, -, rfl⟩
  · exact ⟨_, by rw [own?_put, if_pos rfl], by simp [Descriptor.toProperty, hd]⟩
  · exact ⟨_, by rw [own?_put, if_pos rfl], by simp [Descriptor.apply, hd]⟩

theorem pins_defineElement? {n : ArrayIndex} (h : o.defineElement? n d = some o')
    (hd : d.configurable = some false) : o'.Pins (.index n) := by
  obtain ⟨o₁, ho₁, -, rfl⟩ := defineElement?_cases h
  obtain ⟨q, hq, hc⟩ := pins_define? ho₁ hd
  refine ⟨q, ?_, hc⟩
  split
  · rw [own?_put, if_neg (by simp [lengthKey]), hq]
  · exact hq

theorem own?_dropElements (length : Nat) (is : List ArrayIndex) :
    (dropElements length is o).2.own? lengthKey = o.own? lengthKey := by
  induction is generalizing o with
  | nil => rfl
  | cons i rest ih =>
    unfold dropElements
    split
    · split
      · rw [ih, own?_erase, if_neg (by simp [lengthKey])]
      · rfl
    · exact ih

theorem pins_of_refused {q : Property} (h : o.define? key d = none) (hq : o.own? key = some q) :
    o.Pins key := by
  refine ⟨q, hq, Bool.eq_false_iff.mpr fun hc => ?_⟩
  simp [define?, hq, hc] at h

theorem pins_defineLength {length : Nat} (hd : d.configurable = some false)
    (h : (o.defineLength length d).1 = true) : (o.defineLength length d).2.Pins lengthKey := by
  unfold defineLength at *
  dsimp only at *
  split
  · rename_i hle
    rw [if_pos hle] at h
    split
    · rename_i ho'
      exact pins_define? ho' hd
    · rename_i hno
      rw [hno] at h
      cases h
  · rename_i hlt
    rw [if_neg hlt] at h
    split
    · rename_i hw
      rw [if_pos hw] at h
      cases h
    · rename_i hw
      have hown := own?_dropElements (o := o) length (o.properties.indicesFrom length)
      generalize dropElements length (o.properties.indicesFrom length) o = dropped at *
      cases hdef : dropped.2.define? lengthKey _ with
      | some o' => exact pins_define? hdef hd
      | none =>
        cases hq : o.own? lengthKey with
        | none => simp [lengthWritable, hq] at hw
        | some q => exact pins_of_refused hdef (hown.trans hq)

/-- An object without one of its properties. An element stands for no parameter any more. -/
def without (o : Object) (key : PropertyKey) : Object :=
  let o := { o with properties := o.properties.erase key }
  match o.kind, key with
  | .arguments (some shared), .index n =>
    { o with kind := .arguments (some { shared with names := shared.names.setIfInBounds n.val none }) }
  | _, _ => o

theorem gone_without (he : o.element? key = none) : (o.without key).own? key = none ∧
    (o.without key).maps key = false ∧ (o.without key).element? key = none := by
  have hown : ({ o with properties := o.properties.erase key } : Object).own? key = none := by
    rw [own?_erase, if_pos rfl]
  unfold without
  dsimp only
  split
  · rename_i n _
    exact ⟨hown, maps_unmap (o := { o with properties := o.properties.erase (.index n) }), rfl⟩
  · rename_i hk
    refine ⟨hown, Bool.eq_false_iff.mpr fun hm => ?_, he⟩
    unfold maps at hm
    split at hm
    · rename_i shared hshared
      obtain ⟨n, rfl⟩ := ArgumentMap.eq_index hm
      exact hk _ _ hshared rfl
    · cases hm

end Object

theorem State.ownProperty?_of_pins {s : State} {id : ObjectId} {key : PropertyKey}
    (h : (s.object id).Pins key) :
    ∃ q, s.ownProperty? id key = some q ∧ q.configurable = false := by
  obtain ⟨q, hq, hc⟩ := h
  unfold ownProperty?
  dsimp only
  split
  · rename_i text n _
    cases he : stringElement? text (.index n) with
    | none => exact ⟨q, by rw [Option.none_or, hq], hc⟩
    | some e =>
      refine ⟨e, rfl, ?_⟩
      obtain ⟨u, -, rfl⟩ := Option.map_eq_some_iff.mp he
      rfl
  · split
    · rename_i hq'
      obtain rfl := Option.some.inj (hq.symm.trans hq')
      split
      · exact ⟨_, rfl, hc⟩
      · exact ⟨q, rfl, hc⟩
    · exact ⟨q, hq, hc⟩
  · exact ⟨q, hq, hc⟩

namespace Exec
variable {m : Machine} {c : Context} {s s' : State} {id : ObjectId} {key : PropertyKey}

theorem pins_replaceWith {f : Object → Option Object} (h : (replaceWith id f).Gives m c s true s')
    (hid : id.index < s.heap.size) (hf : ∀ o, f (s.object id) = some o → o.Pins key) :
    (s'.object id).Pins key := by
  rcases gives_replaceWith.mp h with ⟨-, hno, -⟩ | ⟨o, ho, -, rfl⟩
  · cases hno
  · rw [State.object_replace_self hid]
    exact hf o ho

theorem pins_defineArgument {shared : ArgumentMap} {d : Descriptor}
    (h : (defineArgument id shared key d).Gives m c s true s')
    (hk : (s.object id).kind = .arguments (some shared)) (hd : d.configurable = some false) :
    (s'.object id).Pins key := by
  have hid : id.index < s.heap.size := State.lt_of_kind (by simp [hk])
  cases hmap : shared.parameter? key with
  | none =>
    rw [defineArgument_unmapped hmap] at h
    exact pins_replaceWith h hid fun _ ho => Object.pins_define? ho hd
  | some name =>
    obtain ⟨n, rfl⟩ :=
      ArgumentMap.eq_index (show (shared.parameter? key).isSome = true by simp [hmap])
    rw [Gives, defineArgument_mapped hk hmap] at h
    have hd : (d.fixing (s.argument? shared name)).configurable = some false := by
      unfold Descriptor.fixing
      split <;> exact hd
    generalize d.fixing (s.argument? shared name) = d' at *
    dsimp only at h
    cases hdef : (s.object id).define? (.index n) d' with
    | none => simp [hdef, Step.outcome] at h
    | some o =>
      have hpins := Object.pins_define? hdef hd
      simp only [hdef, Step.outcome, Option.some.injEq, Prod.mk.injEq, true_and] at h
      have hreplace (o : Object) (ho : o.Pins (.index n)) :
          ((s.replace id o).object id).Pins (.index n) := by rwa [State.object_replace_self hid]
      subst h
      split
      · exact hreplace { o with kind := .arguments (some (shared.without n.val)) } hpins
      · split
        · exact hreplace o hpins
        · exact hreplace o hpins

theorem pins_of_define {fuel : Nat} {d : Descriptor}
    (h : (define id key d).Gives (machine fuel) c s true s') (ho : s.Ordinary id)
    (hd : d.configurable = some false) :
    ∃ q, s'.ownProperty? id key = some q ∧ q.configurable = false := by
  have hother (h : (replaceWith id (·.define? key d)).Gives (machine fuel) c s true s') :
      ∃ q, s'.ownProperty? id key = some q ∧ q.configurable = false :=
    State.ownProperty?_of_pins (pins_replaceWith h ho.size fun _ ho => Object.pins_define? ho hd)
  replace h := gives_look_bind.mp (gives_checked ((gives_define ho.isProxy).mp h))
  split at h
  · unfold defineOnArray at h
    split at h
    · exact State.ownProperty?_of_pins
        (pins_replaceWith h ho.size fun _ ho => Object.pins_defineElement? ho hd)
    · split at h
      · rename_i hkey
        subst hkey
        unfold defineArrayLength at h
        split at h
        · exact hother h
        · obtain ⟨length, s₁, hlength, h⟩ := gives_bind.mp h
          have hleads := leads_of_gives (toArrayLength_safe World.met_bare) hlength
          obtain ⟨hdone, rfl⟩ := gives_update.mp h
          refine State.ownProperty?_of_pins ?_
          change ((s₁.replace id _).object id).Pins _
          rw [State.object_replace_self (hleads.ordinary ho).1.size]
          exact Object.pins_defineLength hd hdone.symm
      · exact hother h
  · rename_i text hk
    split at h
    · rename_i e he
      obtain ⟨-, rfl⟩ := gives_pure.mp h
      obtain ⟨u, rfl⟩ : ∃ u, e = .data u false true false := by
        unfold stringElement? at he
        split at he
        · obtain ⟨u, -, hu⟩ := Option.map_eq_some_iff.mp he
          exact ⟨_, hu.symm⟩
        · cases he
      have helement : (s'.object id).element? key = some (.data u false true false) := by
        simp [Object.element?, hk, he]
      refine ⟨.data u false true false, ?_, rfl⟩
      rw [State.ownProperty?_of_not_maps (by simp [Object.maps, hk]), helement]
      rfl
    · exact hother h
  · rename_i shared hk
    exact State.ownProperty?_of_pins (pins_defineArgument h hk hd)
  · exact hother h

/-- A property that may be deleted is gone afterwards, or was not there. -/
theorem gone_of_without (ho : s.Ordinary id) (he : (s.object id).element? key = none)
    (h : (match (s.object id).own? key with
      | none => return true
      | some p => do
        if !p.configurable then return false
        checkObjectWrite id "delete"
        modifyObject id (·.without key)
        return true : Exec Bool).Gives m c s true s') : s'.ownProperty? id key = none := by
  have hgone {s : State} (hm : (s.object id).maps key = false)
      (he : (s.object id).element? key = none) (hown : (s.object id).own? key = none) :
      s.ownProperty? id key = none := by
    rw [State.ownProperty?_of_not_maps hm, he, hown]
    rfl
  split at h
  · rename_i hown
    obtain ⟨-, rfl⟩ := gives_pure.mp h
    refine hgone (Bool.eq_false_iff.mpr fun hm => ?_) he hown
    obtain ⟨v, e, c, hplain⟩ := ho.whole.mapsPlain key hm
    simp [hown] at hplain
  · split at h
    · cases (gives_pure.mp h).1
    · obtain ⟨_, s₁, herase, hdone⟩ := gives_bind.mp (gives_checked h)
      obtain ⟨-, rfl⟩ := gives_pure.mp hdone
      have hobject : s'.object id = (s.object id).without key := by
        rw [gives_change.mp herase, State.heap_modify]
        exact State.object_replace_self ho.size
      obtain ⟨hown, hm, he⟩ := Object.gone_without he
      exact hgone (hobject ▸ hm) (hobject ▸ he) (hobject ▸ hown)

theorem gone_of_delete (h : (delete id key).Gives m c s true s') (ho : s.Ordinary id) :
    s'.ownProperty? id key = none := by
  have hask := gives_look_bind.mp ((gives_bind_value (proxyOf_ordinary ho.isProxy)).mp h)
  dsimp only at hask
  split at hask
  · rename_i text hk
    split at hask
    · cases (gives_pure.mp hask).1
    · rename_i helement
      exact gone_of_without ho (by simpa [Object.element?, hk] using helement) hask
  · rename_i hk
    rw [if_neg Bool.false_ne_true] at hask
    refine gone_of_without ho ?_ hask
    unfold Object.element?
    split
    · exact absurd ‹_› (hk _)
    · rfl

end Exec
end EcmaScript

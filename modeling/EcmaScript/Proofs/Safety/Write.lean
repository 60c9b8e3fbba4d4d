import EcmaScript.Object.Iterate
import EcmaScript.Proofs.Safety.Read

/-! Changing objects is safe. -/
namespace EcmaScript
open Exec

variable {w : World}

section Definitions
variable {o o' : Object} {d : Descriptor} {key : PropertyKey}

theorem met_functionOf {v : Value} (hv : Met w v) : Met w (Descriptor.functionOf v) := by
  unfold Descriptor.functionOf
  split
  · trivial
  · exact hv

theorem met_toProperty (hd : Met w d) : Met w d.toProperty := by
  have hfunction {v : Option Value} (hv : Met w v) : Met w (v.bind Descriptor.functionOf) := by
    cases v with
    | none => trivial
    | some v => exact met_functionOf hv
  have hslot : Met w d.toProperty.slot := by
    unfold Descriptor.toProperty
    dsimp only
    split
    · exact ⟨hfunction hd.2.1, hfunction hd.2.2⟩
    · cases hv : d.value with
      | none => trivial
      | some v =>
        have hvalue := (met_descriptor.mp hd).1
        rwa [hv] at hvalue
  exact hslot

theorem met_orFunction {f kept : Option Value} (hf : Met w f) (hk : Met w kept) :
    Met w (match f with
      | some v => Descriptor.functionOf v
      | none => kept) := by
  cases f with
  | none => exact hk
  | some v => exact met_functionOf hf

theorem met_applySlot {slot : Slot} (hd : Met w d) (hs : Met w slot) : Met w (d.applySlot slot) := by
  obtain ⟨hvalue, hgetter, hsetter⟩ := met_descriptor.mp hd
  have hgetD {v : Value} (hv : Met w v) : Met w (d.value.getD v) := by
    cases hdv : d.value with
    | none => exact hv
    | some v => rwa [hdv] at hvalue
  unfold Descriptor.applySlot
  split
  · cases slot with
    | data => exact ⟨met_orFunction hgetter trivial, met_orFunction hsetter trivial⟩
    | accessor => exact ⟨met_orFunction hgetter hs.1, met_orFunction hsetter hs.2⟩
  · split
    · cases slot with
      | data v => exact hgetD hs
      | accessor => exact hgetD (show Met w Value.undefined from trivial)
    · exact hs

theorem met_put {p : Property} (ho : Met w o) (hp : Met w p) : Met w (o.put key p) :=
  ⟨ho.1, ho.2.1, within_put ho.2.2.1 hp, ho.2.2.2⟩

theorem met_define? (ho : Met w o) (hd : Met w d) (h : o.define? key d = some o') : Met w o' := by
  rcases Object.define?_cases h with ⟨-, -, rfl⟩ | ⟨p, hp, -, rfl⟩
  · exact met_put ho (met_toProperty hd)
  · have hp' : Met w p := ho.2.2.1 key p hp
    have happly : Met w (d.apply p) := met_applySlot hd hp'
    exact met_put ho happly

theorem met_defineElement? {n : ArrayIndex} (ho : Met w o) (hd : Met w d)
    (h : o.defineElement? n d = some o') : Met w o' := by
  obtain ⟨o₁, h₁, -, rfl⟩ := Object.defineElement?_cases h
  have ho₁ := met_define? ho hd h₁
  split
  · exact met_put ho₁ trivial
  · exact ho₁

theorem met_dropElements {length : Nat} {is : List ArrayIndex} (ho : Met w o) :
    Met w (Object.dropElements length is o).2 := by
  induction is generalizing o with
  | nil => exact ho
  | cons i rest ih =>
    unfold Object.dropElements
    split
    · split
      · exact ih ⟨ho.1, ho.2.1, within_erase ho.2.2.1, ho.2.2.2⟩
      · exact ho
    · exact ih ho

theorem met_defineLength {length : Nat} (ho : Met w o) (hd : Met w d) :
    Met w (o.defineLength length d).2 := by
  have hwith {n : Nat} {writable : Option Bool} :
      Met w { d with value := some (.ofNat n), writable } := ⟨trivial, hd.2.1, hd.2.2⟩
  unfold Object.defineLength
  dsimp only
  split
  · split
    · rename_i o' ho'
      exact met_define? ho hwith ho'
    · exact ho
  · split
    · exact ho
    · have hleft : Met w (Object.dropElements length (o.properties.indicesFrom length) o).2 :=
        met_dropElements ho
      cases hdef : (Object.dropElements length (o.properties.indicesFrom length) o).2.define?
          Object.lengthKey _ with
      | none => exact hleft
      | some o' => exact met_define? hleft hwith hdef

end Definitions

variable {P : Pairing} {c : Context} {id : ObjectId} {key : PropertyKey}

theorem replaceWith_safe {f : Object → Option Object} {Q : Bool → World → Prop} (hid : w.owns id)
    (hf : ∀ o, f (w.state.object id) = some o → (w.state.object id).Alters w.Names o ∧ (w.Inv → Met w o))
    (hdone : ∀ o, f (w.state.object id) = some o → Q true { w with state := w.state.replace id o })
    (hnot : Q false w) : Safe P c w (replaceWith id f) Q := by
  intro _ hw
  unfold replaceWith
  cases hfo : f (w.state.object id) with
  | none => exact .value .refl rfl hnot
  | some o =>
    have hacts : Acts w { w with state := w.state.replace id o } :=
      .of_act (.object hid ((hf o hfo).2 hw) (hf o hfo).1)
    exact Runs.value hacts rfl (hdone o hfo)

/-- Defines a property where the key means nothing special. -/
theorem define?_safe {d : Descriptor} (hid : w.owns id) (hd : Met w d)
    (hkey : (w.state.object id).isArray = true →
      Object.plainKey key = true ∨ key = Object.lengthKey ∧ d.value = none)
    (hmap : (w.state.object id).maps key = false) :
    Safe P c w (replaceWith id (·.define? key d)) Known := by
  refine replaceWith_safe hid (fun o ho => ⟨.define .refl hkey (by simp [hmap]) ho, fun hw => ?_⟩)
    (fun _ _ => trivial) trivial
  exact met_define? (met_object hw.closed id) hd ho

theorem met_fixing {d : Descriptor} {shared : ArgumentMap} {name : String} (hw : w.Inv)
    (hd : Met w d) : Met w (d.fixing (w.state.argument? shared name)) := by
  unfold Descriptor.fixing
  split
  · exact ⟨met_option fun v hv => met_binding hw hv, hd.2.1, hd.2.2⟩
  · exact hd

theorem defineArgument_safe {shared : ArgumentMap} {d : Descriptor} (hid : w.owns id)
    (hk : (w.state.object id).kind = .arguments (some shared)) (hd : Met w d) :
    Safe P c w (defineArgument id shared key d) Known := by
  have hplain (o : Object) (ho : o.kind.name = "Arguments") (d : Descriptor) : o.isArray = true →
      Object.plainKey key = true ∨ key = Object.lengthKey ∧ d.value = none := by
    simp [Object.isArray_iff, ho]
  have hname : (w.state.object id).kind.name = "Arguments" := by rw [hk]; rfl
  cases hmap : shared.parameter? key with
  | none =>
    rw [defineArgument_unmapped hmap]
    refine define?_safe hid hd (hplain _ hname d) ?_
    cases key <;> simp_all [Object.maps, ArgumentMap.parameter?]
  | some name =>
    cases key with
    | index n =>
      intro _ hw
      rw [defineArgument_mapped hk hmap, defineArgument_mapped hk hmap]
      have hmet : Met w (d.fixing (w.state.argument? shared name)) := met_fixing hw hd
      generalize d.fixing (w.state.argument? shared name) = d' at hmet
      have ho := met_object hw.closed id
      dsimp only
      cases hdef : (w.state.object id).define? (.index n) d' with
      | none => exact .value .refl rfl trivial
      | some o =>
        have ho' := met_define? ho hmet hdef
        have hscope : w.ownsScope shared.scope := fun d hdry =>
          (hw.dry d hdry).arguments id shared (hid d hdry) hk
        suffices hacts : Acts w { w with state := _ } from
          Runs.value (Q := Known) (a := true) hacts rfl trivial
        cases hu : d'.unmaps with
        | true =>
          -- The element stops standing for the parameter before it becomes what it could not be then.
          refine .of_act (.object hid ⟨trivial, ho'.2⟩ (.define (.kind .refl (hk ▸ .unmap shared n))
            (hplain _ rfl d') (fun h => ?_) (Object.define?_withKind hdef)))
          rw [Object.maps_unmap] at h
          cases h
        | false =>
          have hdata : d'.isAccessor = false ∧ d'.writable ≠ some false := by
            simpa [Descriptor.unmaps] using hu
          have hacts : Acts w { w with state := w.state.replace id o } :=
            .of_act (.object hid ho' (.define .refl (hplain _ hname d') (fun _ => hdata) hdef))
          cases hv : d'.value with
          | none => exact hacts
          | some v =>
            refine hacts.step (.scope hscope ?_ (.fill name v .refl))
            have hvalue : Met w d'.value := (met_descriptor.mp hmet).1
            rw [hv] at hvalue
            exact (Later.mk hacts.grows rfl).met (met_fill (met_scope hw.closed shared.scope) hvalue)
    | _ => cases hmap

variable [Serves P]

theorem toArrayLength_safe {v : Value} (hv : Met w v) :
    Safe P c w (toArrayLength v) fun n _ => n < 2 ^ 32 := by
  refine .bind (toNumber_safe hv) fun x w₁ hl _ => ?_
  refine .bind (toNumber_safe (hl.met hv)) fun y w₂ _ _ => ?_
  split
  · exact .pure (UInt32.toNat_lt _)
  · exact throwRange_safe

theorem defineArrayLength_safe {d : Descriptor} (hid : w.owns id) (hd : Met w d)
    (ha : (w.state.object id).isArray = true) :
    Safe P c w (defineArrayLength id d) Known := by
  unfold defineArrayLength
  have hvalue := (met_descriptor.mp hd).1
  cases hv : d.value with
  | none => exact define?_safe hid hd (fun _ => .inr ⟨rfl, hv⟩) (Object.maps_array ha _)
  | some v =>
    rw [hv] at hvalue
    refine .bind (toArrayLength_safe hvalue) fun length w₁ hl hlength => ?_
    refine .update (fun hw => ?_) fun _ => trivial
    exact .of_act (.object (hl.owns hid) (met_defineLength (met_object hw.closed id) (hl.met hd))
      (.length .refl (hl.isArray ha) hlength))

theorem defineOnArray_safe {d : Descriptor} (hid : w.owns id) (hd : Met w d)
    (ha : (w.state.object id).isArray = true) :
    Safe P c w (defineOnArray id d key) Known := by
  have hnamed (key : PropertyKey) (hkey : key ≠ Object.lengthKey → Object.plainKey key = true) :
      Safe P c w (if key = Object.lengthKey then defineArrayLength id d
        else replaceWith id (·.define? key d)) Known :=
    .ite (fun _ => defineArrayLength_safe hid hd ha) fun h =>
      define?_safe hid hd (fun _ => .inl (hkey h)) (Object.maps_array ha _)
  cases key with
  | index n =>
    show Safe P c w (replaceWith id (·.defineElement? n d)) Known
    refine replaceWith_safe hid (fun o ho => ⟨.element .refl ha ho, fun hw => ?_⟩) (fun _ _ => trivial)
      trivial
    exact met_defineElement? (met_object hw.closed id) hd ho
  | name text => exact hnamed (.name text) fun h => bne_iff_ne.mpr h
  | symbol s => exact hnamed (.symbol s) fun _ => rfl

theorem defineOrdinary_safe {d : Descriptor} (hd : Met w d) :
    Safe P c w (defineOrdinary id key d) Known := by
  refine checkObjectWrite_bind fun hid => .look_bind fun _ => ?_
  have hother (hk : (w.state.object id).isArray = false)
      (hmap : (w.state.object id).maps key = false) :
      Safe P c w (replaceWith id (·.define? key d)) Known :=
    define?_safe hid hd (fun h => by simp [hk] at h) hmap
  cases hk : (w.state.object id).kind with
  | array => exact defineOnArray_safe hid hd (by simp [Object.isArray, hk])
  | string text =>
    dsimp only
    split
    · exact .pure trivial
    · exact hother (by simp [Object.isArray, hk]) (by simp [Object.maps, hk])
  | arguments shared =>
    cases shared with
    | none => exact hother (by simp [Object.isArray, hk]) (by simp [Object.maps, hk])
    | some shared => exact defineArgument_safe hid hk hd
  | _ => exact hother (by simp [Object.isArray, hk]) (by simp [Object.maps, hk])

theorem define_safe {d : Descriptor} (hd : Met w d) : Safe P c w (define id key d) Known := by
  refine .bind proxyOf_safe fun p w₁ hl hp => ?_
  cases p with
  | some p => exact .request ⟨hp, hl.met hd⟩ fun _ _ _ _ => trivial
  | none => exact defineOrdinary_safe (hl.met hd)

theorem defineOrThrow_safe {d : Descriptor} (hd : Met w d) :
    Safe P c w (defineOrThrow id key d) Known := by
  refine .bind (define_safe hd) fun done w₁ _ _ => ?_
  split
  · refine .look_bind fun _ => ?_
    split
    · exact throwType_safe
    · exact throwType_safe
  · exact .pure trivial

theorem createOrThrow_safe {v : Value} (hv : Met w v) : Safe P c w (createOrThrow id key v) Known :=
  defineOrThrow_safe ⟨hv, trivial, trivial⟩

theorem assignOwn_safe {value receiver : Value} (hv : Met w value) :
    Safe P c w (assignOwn key value receiver) Known := by
  cases receiver with
  | object target =>
    refine .bind getOwn_safe fun own w₁ h₁ _ => ?_
    split
    · exact .bind (define_safe ⟨h₁.met hv, trivial, trivial⟩) fun _ _ _ _ => .pure trivial
    · exact .pure trivial
    · refine .bind (define_safe ⟨h₁.met hv, trivial, trivial⟩) fun done w₂ _ _ => ?_
      split
      · exact .pure trivial
      · exact .bind isExtensible_safe fun _ _ _ _ => .pure trivial
  | _ => exact .pure trivial

theorem setFor_safe {value receiver : Value} (hv : Met w value) (hr : Met w receiver) :
    Safe P c w (setFor id key value receiver) Known := by
  refine .bind lookup_safe fun l w₁ h₁ hl => ?_
  match l, hl with
  | .proxy (some p), hp =>
    exact .bind (.request ⟨hp, h₁.met hv, h₁.met hr⟩ fun _ _ _ h => h) fun _ _ _ _ => .pure trivial
  | .proxy none, _ => exact throwType_safe
  | .found ⟨.accessor _ (some setter), _, _⟩, hs =>
    exact .bind (call_safe hs.2 (h₁.met hr) (.one (h₁.met hv))) fun _ _ _ _ => .pure trivial
  | .found ⟨.accessor _ none, _, _⟩, _ => exact .pure trivial
  | .found ⟨.data _ false, _, _⟩, _ => exact .pure trivial
  | .found ⟨.data _ true, _, _⟩, _ => exact assignOwn_safe (h₁.met hv)
  | .absent, _ => exact assignOwn_safe (h₁.met hv)

theorem putOf_safe {base value : Value} {strict : Bool} (hb : Met w base) (hv : Met w value) :
    Safe P c w (putOf base key value strict) Known := by
  unfold putOf
  dsimp only
  split
  · exact .raise_bind trivial
  · refine .bind (toObject_safe hb) fun target w₁ h₁ _ => ?_
    refine .bind (setFor_safe (h₁.met hv) (h₁.met hb)) fun outcome w₂ _ _ => ?_
    split
    · exact .look_bind fun _ => throwType_safe
    · exact .pure trivial

theorem delete_safe : Safe P c w (delete id key) Known := by
  refine .bind proxyOf_safe fun p w₁ _ hp => ?_
  cases p with
  | some p => exact .request hp fun _ _ _ _ => trivial
  | none =>
    refine .look_bind fun hw => ?_
    extract_lets isElement
    refine .ite (fun _ => .pure trivial) fun hne => ?_
    clear hne
    cases hown : (w₁.state.object id).own? key with
    | none => exact .pure trivial
    | some p =>
      refine .ite (fun _ => .pure trivial) fun hc => ?_
      refine checkObjectWrite_bind fun hid => ?_
      have ho := met_object hw.closed id
      have hconf : p.configurable = true := by simpa using hc
      refine .bind (modifyObject_safe hid (fun _ => ?_) fun _ => ?_) fun _ _ _ _ => .pure trivial
      · dsimp only
        split
        · rename_i shared n hk
          exact .erase (.kind .refl (hk ▸ .unmap shared n)) hown hconf Object.maps_unmap
        · rename_i hmap
          refine .erase .refl hown hconf ?_
          unfold Object.maps
          split
          · rename_i shared hk
            rw [Bool.eq_false_iff]
            intro h
            obtain ⟨n, rfl⟩ := ArgumentMap.eq_index h
            exact hmap shared n hk rfl
          · rfl
      · dsimp only
        split
        · exact ⟨trivial, ho.2.1, within_erase ho.2.2.1, ho.2.2.2⟩
        · exact ⟨ho.1, ho.2.1, within_erase ho.2.2.1, ho.2.2.2⟩

theorem setPrototype_safe {prototype : Option ObjectId} (hp : Met w prototype) :
    Safe P c w (setPrototype id prototype) Known := by
  refine .bind proxyOf_safe fun p w₁ h₁ hproxy => ?_
  cases p with
  | some p => exact .request ⟨hproxy, h₁.met hp⟩ fun _ _ _ _ => trivial
  | none =>
    refine .look_bind fun hw => ?_
    split
    · exact .pure trivial
    · split
      · exact .pure trivial
      · rename_i hext
        refine .look_bind fun _ => ?_
        split
        · exact .pure trivial
        · rename_i hchain
          refine checkObjectWrite_bind fun hid => ?_
          exact .bind (reparent_safe hid (h₁.met hp) (.inr (by simpa using hext))
            fun _ _ => .inl (by simpa using hchain)) fun _ _ _ _ => .pure trivial

theorem preventExtensions_safe : Safe P c w (preventExtensions id) Known := by
  refine .bind proxyOf_safe fun p w₁ _ hp => ?_
  cases p with
  | some p => exact .request hp fun _ _ _ _ => trivial
  | none =>
    refine .look_bind fun hw => ?_
    split
    · refine checkObjectWrite_bind fun hid => ?_
      have ho := met_object hw.closed id
      exact .bind (modifyObject_safe hid (fun _ => .close .refl) fun _ => ho)
        fun _ _ _ _ => .pure trivial
    · exact .pure trivial

theorem setIntegrity_safe {level : Integrity} : Safe P c w (setIntegrity id level) Known := by
  refine .bind preventExtensions_safe fun done w₁ _ _ => ?_
  split
  · exact .pure trivial
  · refine .bind ownKeys_safe fun keys w₂ _ _ => ?_
    refine .bind (Q := Known) (.forM (fun key _ w₃ _ => ?_) fun _ _ => trivial)
      fun _ _ _ _ => .pure trivial
    have hdefine {d : Descriptor} (h : d.value = none ∧ d.getter = none ∧ d.setter = none)
        (w' : World) : Safe P c w' (defineOrThrow id key d) Known := by
      have hd : Met w' d := by
        rw [met_descriptor, h.1, h.2.1, h.2.2]
        exact ⟨trivial, trivial, trivial⟩
      exact defineOrThrow_safe hd
    split
    · exact .bind getOwn_safe fun _ w₄ _ _ => hdefine ⟨rfl, rfl, rfl⟩ w₄
    · exact hdefine ⟨rfl, rfl, rfl⟩ w₃

theorem allClosed_safe {level : Integrity} {keys : List PropertyKey} :
    Safe P c w (allClosed id level keys) Known := by
  induction keys generalizing w with
  | nil => exact .pure trivial
  | cons key rest ih =>
    refine .bind getOwn_safe fun p w₁ _ _ => ?_
    split
    · split
      · exact .pure trivial
      · exact ih
    · exact ih

theorem testIntegrity_safe {level : Integrity} : Safe P c w (testIntegrity id level) Known := by
  refine .bind isExtensible_safe fun _ w₁ _ _ => ?_
  split
  · exact .pure trivial
  · exact .bind ownKeys_safe fun _ _ _ _ => allClosed_safe

theorem copyProperties_safe {source : Value} {leftOut : List PropertyKey} (hs : Met w source) :
    Safe P c w (copyProperties id source leftOut) Known := by
  unfold copyProperties
  split
  · exact .pure trivial
  · refine .bind (toObject_safe hs) fun from_ w₁ h₁ _ => .bind ownKeys_safe fun keys w₂ h₂ _ => ?_
    refine .forM (fun key _ w₃ h₃ => ?_) fun _ _ => trivial
    refine .bind checkInterrupts_safe fun _ w₄ h₄ _ => ?_
    split
    · exact .pure trivial
    · refine .bind getOwn_safe fun p w₅ h₅ _ => ?_
      have hs₅ := ((((h₁.trans h₂).trans h₃).trans h₄).trans h₅).met hs
      split
      · split
        · exact .bind (getFor_safe hs₅) fun v w₆ _ hv => createOrThrow_safe hv
        · exact .pure trivial
      · exact .pure trivial

theorem forInKeys_safe : Safe P c w (forInKeys id) Known := by
  refine .bind (Q := fun _ _ => True) ?_ fun _ _ _ _ => .pure fun _ _ => trivial
  refine .loop (I := fun _ _ => True) trivial fun r w₁ _ _ => ?_
  obtain ⟨at?, seen, out⟩ := r
  cases at? with
  | none => exact .pure trivial
  | some id =>
    refine .bind checkInterrupts_safe fun _ w₂ _ _ => .bind ownKeys_safe fun keys w₃ _ _ => ?_
    refine .bind (Q := fun _ _ => True) (.foldlM (fun (seen, out) key _ w₄ _ _ => ?_) trivial)
      fun _ w₄ _ _ => .bind prototypeOf_safe fun _ _ _ _ => .pure trivial
    cases key.string? with
    | none => exact .pure trivial
    | some name =>
      refine .ite (fun _ => .pure trivial) fun _ => .bind getOwn_safe fun p w₅ _ _ => ?_
      cases p with
      | none => exact .pure trivial
      | some p => exact .pure trivial

theorem inheritsFrom_safe {prototype : ObjectId} : Safe P c w (inheritsFrom prototype id) Known := by
  refine .loop (I := fun _ _ => True) trivial fun at_ w₁ _ _ => ?_
  refine .bind prototypeOf_safe fun p w₂ _ _ => ?_
  split
  · exact .pure trivial
  · split
    · exact .pure trivial
    · exact .pure trivial

theorem ordinaryHasInstance_safe {constructor value : Value} (hc : Met w constructor)
    (hv : Met w value) : Safe P c w (ordinaryHasInstance constructor value) Known := by
  cases constructor with
  | object f =>
    refine .look_bind fun hw => ?_
    split
    · exact .pure trivial
    · refine .look_bind fun hw => ?_
      split
      · rename_i target _ _ hcallable
        have hk := hw.kind (Object.callable?_eq hcallable)
        exact .request ⟨hv, hk.1⟩ fun _ _ _ _ => trivial
      · cases value with
        | object id =>
          refine .bind (getNamed_safe hc) fun p w₁ _ _ => ?_
          split
          · exact inheritsFrom_safe
          · exact throwType_safe
        | _ => exact .pure trivial
  | _ => exact .pure trivial

theorem instanceOf_safe {value target : Value} (hv : Met w value) (ht : Met w target) :
    Safe P c w (instanceOf value target) Known := by
  cases target with
  | object t =>
    refine .bind (get_safe ht) fun custom w₁ h₁ hcustom => ?_
    split
    · exact .bind (call_safe hcustom (h₁.met ht) (.one (h₁.met hv))) fun _ _ _ _ => .pure trivial
    · refine .look_bind fun _ => ?_
      split
      · exact throwType_safe
      · exact ordinaryHasInstance_safe (h₁.met ht) (h₁.met hv)
  | _ => exact throwType_safe

theorem hasIn_safe {k target : Value} (hk : Met w k) : Safe P c w (hasIn k target) Known := by
  cases target with
  | object id => exact .bind (toKey_safe hk) fun _ _ _ _ => has_safe
  | _ => exact throwType_safe

end EcmaScript

/-! Arrays and the protocol of iteration are safe. -/
namespace EcmaScript
open Exec

variable {P : Pairing} {c : Context} {w : World}

theorem met_arrayObject {prototype : ObjectId} {elements : PropertyTable} {length : Nat}
    (hp : Met w prototype) (he : Met w elements) :
    Met w (arrayObject prototype elements length) :=
  ⟨trivial, hp, within_put he trivial, within_nil⟩

theorem met_ofItems {items : Array Value} (hi : Met w items) :
    Met w (PropertyTable.ofItems items) := by
  refine Array.foldl_induction (motive := fun _ (b : PropertyTable × Nat) => Met w b.1)
    within_emptyTable fun i b hb => ?_
  have hv : Met w items[i] := hi _ (Array.getElem_mem i.isLt)
  exact within_put hb hv

theorem newArray_safe {items : Array Value} (hi : Met w items) :
    Safe P c w (newArray items) New := by
  refine .look_bind fun hw => allocate_safe ?_ trivial
  exact met_arrayObject (hw.intrinsic (by simp [Intrinsics.toList])) (met_ofItems hi)

theorem newPair_safe {a b : Value} (ha : Met w a) (hb : Met w b) :
    Safe P c w (newPair a b) Known :=
  .bind (newArray_safe (.two ha hb)) fun _ _ _ hid => .pure hid.met

theorem met_sparseElements {items : Array (Option Value)} (hi : Met w items) :
    Met w (sparseElements items).1 := by
  refine Array.foldl_induction (motive := fun _ (b : PropertyTable × Nat) => Met w b.1)
    within_emptyTable fun i b hb => ?_
  have hv : Met w items[i] := hi _ (Array.getElem_mem i.isLt)
  dsimp only
  split
  · rename_i v hitem
    rw [hitem] at hv
    exact within_put hb hv
  · exact hb

theorem newSparseArray_safe {items : Array (Option Value)} (hi : Met w items) :
    Safe P c w (newSparseArray items) New := by
  refine .look_bind fun hw => allocate_safe ?_ trivial
  exact met_arrayObject (hw.intrinsic (by simp [Intrinsics.toList])) (met_sparseElements hi)

variable [Serves P]

theorem lengthOf_safe {id : ObjectId} (hid : Met w id) : Safe P c w (lengthOf id) Known :=
  .bind (getNamed_safe hid) fun _ _ _ hv => toLength_safe hv

theorem getIndex_safe {id : ObjectId} {i : Nat} (hid : Met w id) :
    Safe P c w (getIndex id i) Known := get_safe hid

theorem hasIndex_safe {id : ObjectId} {i : Nat} : Safe P c w (hasIndex id i) Known := has_safe

theorem collect_safe {α : Type} [Mentions α] {n : Nat} {f : Nat → Exec α}
    (h : ∀ i w', Later w w' → Safe P c w' (f i) Known) : Safe P c w (collect n f) Known := by
  refine .loop (I := fun b w' => Met w' b.2) .empty fun r w₁ h₁ hout => ?_
  obtain ⟨i, out⟩ := r
  refine .ite (fun _ => ?_) fun _ => .pure hout
  exact .bind (h i w₁ h₁) fun v w₂ h₂ hv => .pure (within_push (h₂.met hout) hv)

theorem upTo_safe {n : Nat} {f : Nat → Exec Unit}
    (h : ∀ i w', Later w w' → Safe P c w' (f i) Known) : Safe P c w (upTo n f) Known := by
  refine .loop (I := fun _ _ => True) trivial fun i w₁ h₁ _ => ?_
  exact .ite (fun _ => .bind (h i w₁ h₁) fun _ _ _ _ => .pure trivial) fun _ => .pure trivial

theorem listFromArrayLike_safe {v : Value} (hv : Met w v) :
    Safe P c w (listFromArrayLike v) Known := by
  cases v with
  | object id =>
    refine .bind (lengthOf_safe hv) fun n w₁ h₁ _ => ?_
    exact collect_safe fun i w₂ h₂ => getIndex_safe ((h₁.trans h₂).met hv)
  | _ => exact throwType_safe

/-! Iteration. -/

theorem getIterator_safe {v : Value} (hv : Met w v) : Safe P c w (getIterator v) Known := by
  have huse (f : Value) (w₁ : World) (h₁ : Later w w₁) (hf : Met w₁ f) : Safe P c w₁ (do
      if !(← isCallable f) then throwType ((← describe v) ++ " is not iterable")
      let iterator ← call f v #[]
      if !iterator.isObject then throwType "Result of the Symbol.iterator method is not an object"
      return (⟨iterator, ← getOf iterator (.name "next")⟩ : IteratorRecord)) Known := by
    refine .look_bind fun _ => .ite (fun _ => .look_bind fun _ => .raise_bind trivial) fun _ => ?_
    refine .bind (call_safe hf (h₁.met hv) .empty) fun iterator w₂ _ hi => ?_
    refine .ite (fun _ => .raise_bind trivial) fun _ => ?_
    exact .bind (getOf_safe hi) fun next w₃ h₃ hn => .pure ⟨h₃.met hi, hn⟩
  unfold getIterator
  dsimp only
  refine .ite (fun _ => huse .undefined w .refl trivial) fun _ => ?_
  exact .bind (getOf_safe hv) huse

omit [Serves P] in
theorem notAResult_safe {α : Type} {Q : α → World → Prop} {v : Value} :
    Safe P c w (notAResult v) Q := .look_bind fun _ => throwType_safe

theorem readResult_safe {v : Value} (hv : Met w v) : Safe P c w (readResult v) Known := by
  cases v with
  | object id =>
    refine .bind (getNamed_safe hv) fun done w₁ h₁ _ => .ite (fun _ => .pure trivial) fun _ => ?_
    exact .bind (getNamed_safe (h₁.met hv)) fun _ _ _ hitem => .pure hitem
  | _ => exact notAResult_safe

theorem step_safe {r : IteratorRecord} (hr : Met w r) : Safe P c w (step r) Known := by
  refine .bind checkInterrupts_safe fun _ w₁ h₁ _ => ?_
  exact .bind (call_safe (h₁.met hr).2 (h₁.met hr).1 .empty) fun _ _ _ hv => readResult_safe hv

theorem close_safe {r : IteratorRecord} (hr : Met w r) : Safe P c w (close r) Known := by
  unfold close
  split
  · rename_i id hid
    have hiterator : Met w r.iterator := hr.1
    have hid : Met w id := by rwa [hid] at hiterator
    refine .bind (getNamed_safe hid) fun f w₁ h₁ hf => .ite (fun _ => .pure trivial) fun _ => ?_
    refine .bind (call_safe hf (h₁.met hiterator) .empty) fun result w₂ _ _ => ?_
    exact .ite (fun _ => notAResult_safe) fun _ => .pure trivial
  · exact .pure trivial

theorem closeOnError_safe {α : Type} {Q : α → World → Prop} {source : ItemSource} {e : Abrupt}
    (hs : Met w source) (he : Met w e) : Safe P c w (closeOnError source e) Q := by
  refine .ite (fun _ => ?_) fun _ => .raise he
  exact .attempt_locked (Serves.abandons source c w hs) (fun _ _ hl _ => .raise (hl.met he))
    fun _ _ hl _ => .raise (hl.met he)

theorem listFromIterable_safe {v : Value} (hv : Met w v) :
    Safe P c w (listFromIterable v) Known := by
  refine .bind (getIterator_safe hv) fun r w₁ h₁ hr => ?_
  refine .loop (I := Known) .empty fun out w₂ h₂ hout => ?_
  refine .bind (step_safe (h₂.met hr)) fun item w₃ h₃ hitem => ?_
  cases item with
  | none => exact .pure (h₃.met hout)
  | some item => exact .pure (within_push (h₃.met hout) hitem)

theorem forEachItem_safe {v : Value} {f : Value → Exec Unit} (hv : Met w v)
    (hf : ∀ item w', Later w w' → Met w' item → Safe P c w' (f item) Known) :
    Safe P c w (forEachItem v f) Known := by
  refine .bind (getIterator_safe hv) fun r w₁ h₁ hr => ?_
  refine .loop (I := fun _ _ => True) trivial fun _ w₂ h₂ _ => ?_
  refine .bind (step_safe (h₂.met hr)) fun item w₃ h₃ hitem => ?_
  cases item with
  | none => exact .pure trivial
  | some item =>
    refine .attempt (hf item w₃ ((h₁.trans h₂).trans h₃) hitem) (fun _ _ _ _ hk => ?_)
      (fun _ _ _ _ => .pure trivial) fun e w₄ h₄ he => ?_
    · exact Safe.passes_raise hk
    · exact closeOnError_safe ((h₂.trans (h₃.trans h₄)).met hr) he

end EcmaScript

import EcmaScript.Object.Descriptor
import EcmaScript.Proofs.Safety.Machine

/-! Reading and converting values is safe. -/
namespace EcmaScript
open Exec

instance : Mentions Lookup where
  within K
    | .found p => within K p
    | .proxy p => within K p
    | .absent => True
  mono {_ _ a} h ha := by cases a <;> first | exact Mentions.mono h ha | trivial
  all {_ a} h := by cases a <;> first | exact Mentions.all h | trivial

variable {w : World}

theorem met_binding {scope : ScopeId} {name : String} {v : Value} (hw : w.Inv)
    (h : ((w.state.scope scope).binding? name).bind (·.value) = some v) : Met w v := by
  obtain ⟨b, hb, hv⟩ := Option.bind_eq_some_iff.mp h
  have : Met w b := within_lookup (met_scope hw.closed scope).2 hb
  have : Met w b.value := this
  rwa [hv] at this

theorem met_own {o : Object} {key : PropertyKey} (h : Met w o) : Met w (o.own? key) := by
  cases hp : o.own? key with
  | none => trivial
  | some p => exact h.2.2.1 key p hp

theorem met_stringElement {text : String} {key : PropertyKey} {p : Property}
    (h : stringElement? text key = some p) : Met w p := by
  unfold stringElement? at h
  split at h
  · obtain ⟨u, -, rfl⟩ := Option.map_eq_some_iff.mp h
    trivial
  · cases h

theorem met_option {α : Type} [Mentions α] {a : Option α} (h : ∀ b, a = some b → Met w b) :
    Met w a := by
  cases a with
  | none => trivial
  | some b => exact h b rfl

theorem met_value {p : Property} {v : Value} (hp : Met w p) (h : p.value? = some v) : Met w v := by
  unfold Property.value? at h
  split at h
  · rename_i hs
    cases h
    have hslot : Met w p.slot := hp
    rwa [hs] at hslot
  · cases h

theorem met_or {α : Type} [Mentions α] {a b : Option α} (ha : Met w a) (hb : Met w b) :
    Met w (a.or b) := by
  cases a with
  | none => exact hb
  | some a => exact ha

theorem met_getD {o : Option Value} (h : Met w o) : Met w (o.getD .undefined) := by
  cases o with
  | none => trivial
  | some v => exact h

theorem met_argument {args : Array Value} {i : Nat} (ha : Met w args) : Met w (argument args i) :=
  met_getD (met_option fun _ h => within_getElem? ha h)

theorem met_peek (hw : w.Inv) {id : ObjectId} {key : PropertyKey} :
    Met w (w.state.peek id key) := by
  unfold State.peek
  generalize w.state.heap.size + 1 = fuel
  induction fuel generalizing id with
  | zero => trivial
  | succ fuel ih =>
    have ho := met_object hw.closed id
    unfold State.peekFrom
    dsimp only
    split
    · trivial
    · split
      · rename_i p hp
        exact met_option fun v hv => met_value (ho.2.2.1 key p hp) hv
      · split
        · exact ih
        · trivial

theorem met_ownProperty (hw : w.Inv) (id : ObjectId) (key : PropertyKey) :
    Met w (w.state.ownProperty? id key) := by
  have ho : Met w ((w.state.object id).own? key) := met_own (met_object hw.closed id)
  unfold State.ownProperty?
  dsimp only
  split
  · exact met_or (met_option fun p => met_stringElement) ho
  · split
    · rename_i hname hp
      rw [hp] at ho
      split
      · rename_i hv hslot
        exact met_binding hw hv
      · exact ho
    · exact ho
  · exact ho

theorem met_lookup (hw : w.Inv) (id : ObjectId) (key : PropertyKey) :
    Met w (w.state.lookup id key) := by
  unfold State.lookup
  generalize w.state.heap.size + 1 = fuel
  induction fuel generalizing id with
  | zero => trivial
  | succ fuel ih =>
    have ho := met_object hw.closed id
    unfold State.lookupFrom
    dsimp only
    split
    · rename_i hk
      have hkind : Met w (w.state.object id).kind := ho.1
      rwa [hk] at hkind
    · split
      · rename_i p hp
        have := met_ownProperty hw id key
        rwa [hp] at this
      · split
        · exact ih _
        · trivial

variable {P : Pairing} {c : Context}

theorem proxyOf_safe {id : ObjectId} {operation : String} :
    Safe P c w (proxyOf id operation) Known := by
  refine .look_bind fun hw => ?_
  have hk : Met w (w.state.object id).kind := (met_object hw.closed id).1
  split
  · rename_i hp
    rw [hp] at hk
    exact .pure hk
  · exact throwType_safe
  · exact .pure trivial

theorem lookup_safe {id : ObjectId} {key : PropertyKey} :
    Safe P c w (look (·.lookup id key)) Known := .look fun hw => met_lookup hw id key

theorem primitiveToNumber_safe {v : Value} : Safe P c w (primitiveToNumber v) Known := by
  unfold primitiveToNumber
  split
  · exact throwType_safe
  · exact .pure trivial

theorem primitiveToText_safe {v : Value} : Safe P c w (primitiveToText v) Known := by
  unfold primitiveToText
  split
  · exact throwType_safe
  · exact .pure trivial

theorem toObject_safe {v : Value} (hv : Met w v) : Safe P c w (toObject v) Known := by
  refine .look_bind fun hw => ?_
  have hp {id : ObjectId} (h : id ∈ w.state.intrinsics.toList) : Met w id := hw.intrinsic h
  cases v with
  | object id => exact .pure hv
  | undefined => exact throwType_safe
  | null => exact throwType_safe
  | boolean b =>
    exact .known (newOfKind_safe (hp (by simp [Intrinsics.toList])) trivial trivial)
  | number x =>
    exact .known (newOfKind_safe (hp (by simp [Intrinsics.toList])) trivial trivial)
  | symbol s =>
    exact .known (newOfKind_safe (hp (by simp [Intrinsics.toList])) trivial trivial)
  | string s =>
    refine .known (allocate_safe ?_ trivial)
    exact ⟨trivial, hp (by simp [Intrinsics.toList]), within_put within_emptyTable trivial,
      within_nil⟩

theorem shownValue_safe {v : Value} : Safe P c w (shownValue v) Known := by
  cases v with
  | object id => exact .look_bind fun _ => .pure trivial
  | _ => exact .pure trivial

variable [Serves P]

theorem call_safe {f this : Value} {args : Array Value} (hf : Met w f) (hthis : Met w this)
    (hargs : Met w args) : Safe P c w (call f this args) Known :=
  .request ⟨hf, hthis, hargs⟩ fun _ _ _ h => h

theorem construct_safe {f newTarget : Value} {args : Array Value} (hf : Met w f)
    (hargs : Met w args) (ht : Met w newTarget) : Safe P c w (construct f args newTarget) Known :=
  .request ⟨hf, hargs, ht⟩ fun _ _ _ h => h

theorem evaluate_safe {scope : ScopeId} {e : Expr} : Safe P c w (evaluate scope e) Known :=
  .request trivial fun _ _ _ h => h

theorem getOwn_safe {id : ObjectId} {key : PropertyKey} : Safe P c w (getOwn id key) Known := by
  refine (proxyOf_safe).bind fun p w₁ _ hp => ?_
  cases p with
  | some p => exact .request hp fun _ _ _ h => h
  | none => exact .look fun hw => met_ownProperty hw id key

theorem hasOwn_safe {id : ObjectId} {key : PropertyKey} : Safe P c w (hasOwn id key) Known :=
  (getOwn_safe).bind fun _ _ _ _ => .pure trivial

theorem has_safe {id : ObjectId} {key : PropertyKey} : Safe P c w (has id key) Known := by
  refine (lookup_safe).bind fun l w₁ _ hl => ?_
  match l, hl with
  | .found _, _ => exact .pure trivial
  | .absent, _ => exact .pure trivial
  | .proxy (some p), hp => exact .request hp fun _ _ _ h => h
  | .proxy none, _ => exact throwType_safe

theorem getFor_safe {id : ObjectId} {key : PropertyKey} {receiver : Value} (hr : Met w receiver) :
    Safe P c w (getFor id key receiver) Known := by
  refine (lookup_safe).bind fun l w₁ hlater hl => ?_
  match l, hl with
  | .found ⟨.data v _, _, _⟩, hv => exact .pure hv
  | .found ⟨.accessor (some getter) _, _, _⟩, hg =>
    exact call_safe hg.1 (hlater.met hr) .empty
  | .found ⟨.accessor none _, _, _⟩, _ => exact .pure trivial
  | .absent, _ => exact .pure trivial
  | .proxy (some p), hp => exact .request ⟨hp, hlater.met hr⟩ fun _ _ _ h => h
  | .proxy none, _ => exact throwType_safe

theorem get_safe {id : ObjectId} {key : PropertyKey} (hid : Met w id) :
    Safe P c w (get id key) Known := getFor_safe hid

theorem getNamed_safe {id : ObjectId} {name : String} (hid : Met w id) :
    Safe P c w (getNamed id name) Known := getFor_safe hid

theorem getOf_safe {base : Value} {key : PropertyKey} (hb : Met w base) :
    Safe P c w (getOf base key) Known := by
  unfold getOf
  split
  · exact getFor_safe hb
  · exact throwType_safe
  · exact throwType_safe
  · split
    · exact .pure trivial
    · split
      · rename_i v hv
        obtain ⟨p, hp, hv⟩ := Option.bind_eq_some_iff.mp hv
        exact .pure (met_value (met_stringElement hp) hv)
      · exact .look_bind fun _ => getFor_safe hb
  · exact .look_bind fun _ => getFor_safe hb

theorem methodOf_safe {base : Value} {key : PropertyKey} (hb : Met w base) :
    Safe P c w (methodOf base key) Known := by
  refine (getOf_safe hb).bind fun f w₁ _ hf => ?_
  split
  · exact .pure trivial
  · refine .look_bind fun _ => ?_
    split
    · exact .pure hf
    · exact .look_bind fun _ => throwType_safe

theorem prototypeOf_safe {id : ObjectId} : Safe P c w (prototypeOf id) Known := by
  refine (proxyOf_safe).bind fun p w₁ _ hp => ?_
  cases p with
  | some p => exact .request hp fun _ _ _ h => h
  | none => exact .look_bind fun hw => .pure (met_object hw.closed id).2.1

theorem isExtensible_safe {id : ObjectId} : Safe P c w (isExtensible id) Known := by
  refine (proxyOf_safe).bind fun p w₁ _ hp => ?_
  cases p with
  | some p => exact .request hp fun _ _ _ h => h
  | none => exact .look_bind fun _ => .pure trivial

theorem ownKeys_safe {id : ObjectId} :
    Safe P c w (ownKeys id) Known := by
  refine (proxyOf_safe).bind fun p w₁ _ hp => ?_
  cases p with
  | some p => exact .request hp fun _ _ _ _ _ _ => trivial
  | none => exact .look_bind fun _ => .pure fun _ _ => trivial

theorem enumerableKeys_safe {id : ObjectId} : Safe P c w (enumerableKeys id) Known := by
  refine (ownKeys_safe).bind fun keys w₁ _ _ => ?_
  refine .filterM (fun key _ w₂ _ => ?_) fun _ _ _ _ _ => trivial
  exact (getOwn_safe).bind fun _ _ _ _ => .pure trivial

/-! Conversions. -/

theorem firstPrimitive_safe {id : ObjectId} {names : List String} (hid : Met w id) :
    Safe P c w (firstPrimitive id names) Known := by
  induction names generalizing w with
  | nil => exact throwType_safe
  | cons name rest ih =>
    refine (getNamed_safe hid).bind fun f w₁ hl hf => .look_bind fun _ => ?_
    split
    · refine (call_safe hf (hl.met hid) .empty).bind fun v w₂ hl' hv => ?_
      split
      · exact .pure hv
      · exact ih ((hl.trans hl').met hid)
    · exact ih (hl.met hid)

theorem toPrimitive_safe {v : Value} {hint : Hint} (hv : Met w v) :
    Safe P c w (toPrimitive v hint) Known := by
  cases v with
  | object id =>
    refine (get_safe hv).bind fun custom w₁ hl hcustom => ?_
    split
    · exact firstPrimitive_safe (hl.met hv)
    · refine .look_bind fun _ => ?_
      split
      · exact throwType_safe
      · refine .bind (call_safe hcustom (hl.met hv) (.one trivial)) fun r w₂ _ hr => ?_
        split
        · exact throwType_safe
        · exact .pure hr
  | _ => exact .pure hv

theorem toNumber_safe {v : Value} (hv : Met w v) : Safe P c w (toNumber v) Known := by
  unfold toNumber
  split
  · exact .pure trivial
  · exact (toPrimitive_safe hv).bind fun _ _ _ _ => primitiveToNumber_safe
  · exact primitiveToNumber_safe

theorem toText_safe {v : Value} (hv : Met w v) : Safe P c w (toText v) Known := by
  unfold toText
  split
  · exact .pure trivial
  · exact (toPrimitive_safe hv).bind fun _ _ _ _ => primitiveToText_safe
  · exact primitiveToText_safe

theorem toKey_safe {v : Value} (hv : Met w v) : Safe P c w (toKey v) Known := by
  unfold toKey
  split
  · exact (toPrimitive_safe hv).bind fun _ _ _ _ => .pure trivial
  · exact .pure trivial

theorem toInt32_safe {v : Value} (hv : Met w v) : Safe P c w (toInt32 v) Known :=
  (toNumber_safe hv).bind fun _ _ _ _ => .pure trivial

theorem toUInt32_safe {v : Value} (hv : Met w v) : Safe P c w (toUInt32 v) Known :=
  (toNumber_safe hv).bind fun _ _ _ _ => .pure trivial

theorem toIntegerOrInfinity_safe {v : Value} (hv : Met w v) :
    Safe P c w (toIntegerOrInfinity v) Known :=
  (toNumber_safe hv).bind fun _ _ _ _ => .pure trivial

theorem toLength_safe {v : Value} (hv : Met w v) : Safe P c w (toLength v) Known := by
  refine (toIntegerOrInfinity_safe hv).bind fun n w₁ _ _ => ?_
  split
  · exact .pure trivial
  · exact .pure trivial

theorem looseEq_safe {a b : Value} (ha : Met w a) (hb : Met w b) :
    Safe P c w (looseEq a b) Known := by
  unfold looseEq
  split
  · exact .pure trivial
  · split
    · exact .pure trivial
    · exact (toPrimitive_safe ha).bind fun _ _ _ _ => .pure trivial
  · split
    · exact .pure trivial
    · exact (toPrimitive_safe hb).bind fun _ _ _ _ => .pure trivial
  · exact .pure trivial

/-! Descriptions of properties. -/

theorem field?_safe {id : ObjectId} {name : String} (hid : Met w id) :
    Safe P c w (field? id name) Known := by
  refine (has_safe).bind fun found w₁ hl _ => ?_
  split
  · exact (getNamed_safe (hl.met hid)).bind fun _ _ _ hv => .pure hv
  · exact .pure trivial

theorem functionField?_safe {id : ObjectId} {name role : String} (hid : Met w id) :
    Safe P c w (functionField? id name role) Known := by
  refine (field?_safe hid).bind fun v w₁ hl hv => ?_
  cases v with
  | none => exact .pure trivial
  | some v =>
    refine .look_bind fun _ => ?_
    split
    · exact .pure hv
    · exact (shownValue_safe).bind fun _ _ _ _ => throwType_safe

theorem toDescriptor_safe {id : ObjectId} (hid : Met w id) :
    Safe P c w (toDescriptor id) Known := by
  refine (field?_safe hid).bind fun enumerable w₁ h₁ _ => ?_
  refine (field?_safe (h₁.met hid)).bind fun configurable w₂ h₂ _ => ?_
  have h₂ := h₁.trans h₂
  refine (field?_safe (h₂.met hid)).bind fun value w₃ h₃ hvalue => ?_
  have h₃' := h₂.trans h₃
  refine (field?_safe (h₃'.met hid)).bind fun writable w₄ h₄ _ => ?_
  have h₄' := h₃'.trans h₄
  refine (functionField?_safe (h₄'.met hid)).bind fun getter w₅ h₅ hgetter => ?_
  have h₅' := h₄'.trans h₅
  refine (functionField?_safe (h₅'.met hid)).bind fun setter w₆ h₆ hsetter => ?_
  dsimp only
  split
  · exact throwType_safe
  · exact .pure ⟨((h₄.trans h₅).trans h₆).met hvalue, h₆.met hgetter, hsetter⟩

omit [Serves P] in
theorem fromDescriptor_safe {d : Descriptor} (hd : Met w d) :
    Safe P c w (fromDescriptor d) New := by
  refine newObject_safe fun e he => ?_
  obtain ⟨⟨name, v⟩, hmem, he⟩ := List.mem_filterMap.mp he
  obtain ⟨v, rfl, rfl⟩ := Option.map_eq_some_iff.mp he
  obtain ⟨hvalue, hgetter, hsetter⟩ := met_descriptor.mp hd
  refine ⟨trivial, ?_⟩
  simp only [List.mem_cons, Prod.mk.injEq, List.not_mem_nil, or_false] at hmem
  obtain ⟨-, h⟩ | ⟨-, h⟩ | ⟨-, h⟩ | ⟨-, h⟩ | ⟨-, h⟩ | ⟨-, h⟩ := hmem
  · rwa [← h] at hvalue
  · obtain ⟨b, -, rfl⟩ := Option.map_eq_some_iff.mp h.symm
    trivial
  · rwa [← h] at hgetter
  · rwa [← h] at hsetter
  · obtain ⟨b, -, rfl⟩ := Option.map_eq_some_iff.mp h.symm
    trivial
  · obtain ⟨b, -, rfl⟩ := Option.map_eq_some_iff.mp h.symm
    trivial

end EcmaScript

import EcmaScript.Library.Function
import EcmaScript.Library.Reflect
import EcmaScript.Proofs.Safety.Reference

/-! The functions of the library on objects, functions and proxies are safe. -/
namespace EcmaScript
open Exec

variable {P : Pairing} {c : Context} {w : World} {this : Value} {args : Array Value}

theorem objectArgument_safe {name : String} (ha : Met w args) :
    Safe P c w (objectArgument args name) Known := by
  have hfirst : Met w (argument args 0) := met_argument ha
  unfold objectArgument
  split
  · rename_i id hid
    rw [hid] at hfirst
    exact .pure hfirst
  · exact .look_bind fun _ => throwType_safe

theorem prototypeArgument_safe {v : Value} (hv : Met w v) :
    Safe P c w (prototypeArgument v) Known := by
  cases v with
  | object id => exact .pure hv
  | null => exact .pure trivial
  | _ => exact .look_bind fun _ => throwType_safe

theorem met_propertyDescriptor {p : Property} (hp : Met w p) : Met w p.toDescriptor := by
  have hslot : Met w p.slot := hp
  unfold Property.toDescriptor
  split
  · rename_i value writable hs
    rw [hs] at hslot
    exact ⟨hslot, trivial, trivial⟩
  · rename_i getter setter hs
    rw [hs] at hslot
    have hgetter : Met w (getter.getD .undefined) := met_getD hslot.1
    have hsetter : Met w (setter.getD .undefined) := met_getD hslot.2
    exact ⟨trivial, hgetter, hsetter⟩

theorem met_keyArray {keys : List PropertyKey} : Met w (keys.map (·.toValue)).toArray := by
  refine Met.toArray fun v hv => ?_
  obtain ⟨key, -, rfl⟩ := List.mem_map.mp hv
  exact met_key key

variable [Serves P]

theorem ownEntries_safe {v : Value} {kind : IterationKind} (hv : Met w v) :
    Safe P c w (ownEntries v kind) Known := by
  refine .bind (toObject_safe hv) fun id w₁ _ hid => .bind enumerableKeys_safe fun keys w₂ h₂ _ => ?_
  refine .bind (.mapM fun key _ w₃ h₃ => ?_) fun items w₃ _ hitems => ?_
  · have hid := (h₂.trans h₃).met hid
    cases kind with
    | keys => exact .pure (met_key key)
    | values => exact get_safe hid
    | entries => exact .bind (get_safe hid) fun v w₄ _ hv => newPair_safe (met_key key) hv
  · exact .bind (newArray_safe hitems.toArray) fun _ _ _ hid => .pure hid.met

theorem descriptorArgument_safe {v : Value} (hv : Met w v) :
    Safe P c w (descriptorArgument v) Known := by
  cases v with
  | object d => exact toDescriptor_safe hv
  | _ => exact .look_bind fun _ => throwType_safe

theorem defineAll_safe {target : ObjectId} {descriptions : Value} (hd : Met w descriptions) :
    Safe P c w (defineAll target descriptions) Known := by
  refine .bind (toObject_safe hd) fun id w₁ _ hid => .bind ownKeys_safe fun keys w₂ h₂ _ => ?_
  refine .bind (.filterMapM fun key _ w₃ h₃ => ?_) fun found w₃ _ hfound => ?_
  · refine .bind getOwn_safe fun p w₄ h₄ _ => ?_
    cases p with
    | none => exact .pure trivial
    | some p =>
      refine .ite (fun _ => ?_) fun _ => .pure trivial
      refine .bind (get_safe ((h₂.trans (h₃.trans h₄)).met hid)) fun v w₅ _ hv => ?_
      exact .bind (descriptorArgument_safe hv) fun d w₆ _ hd => .pure ⟨trivial, hd⟩
  · exact .forM (fun e he w₄ h₄ => defineOrThrow_safe (h₄.met (hfound e he)).2) fun _ _ => trivial

theorem describeOwn_safe {id : ObjectId} {key : PropertyKey} :
    Safe P c w (describeOwn id key) Known := by
  refine .bind getOwn_safe fun p w₁ _ hp => ?_
  cases p with
  | none => exact .pure trivial
  | some p => exact .bind (fromDescriptor_safe (met_propertyDescriptor hp)) fun _ _ _ hid => .pure hid.met

theorem assignAll_safe {target : Value} {sources : List Value} (ht : Met w target)
    (hs : Met w sources) : Safe P c w (assignAll target sources) Known := by
  induction sources generalizing w with
  | nil => exact .pure trivial
  | cons source rest ih =>
    obtain ⟨hsource, hrest⟩ := within_cons.mp hs
    have hnext {w' : World} (hl : Later w w') := ih (hl.met ht) (hl.met hrest)
    refine .ite (fun _ => ?_) fun _ => hnext .refl
    refine .bind (toObject_safe hsource) fun id w₁ h₁ hid => .bind ownKeys_safe fun keys w₂ h₂ _ => ?_
    refine .bind (Q := fun _ _ => True) (.forM (fun key _ w₃ h₃ => ?_) fun _ _ => trivial)
      fun _ w₃ h₃ _ => hnext ((h₁.trans h₂).trans h₃)
    have hl := (h₁.trans h₂).trans h₃
    refine .bind getOwn_safe fun p w₄ h₄ _ => ?_
    cases p with
    | none => exact .pure trivial
    | some p =>
      refine .ite (fun _ => ?_) fun _ => .pure trivial
      refine .bind (getFor_safe ((hl.trans h₄).met hsource)) fun v w₅ h₅ hv => ?_
      exact putOf_safe ((hl.trans (h₄.trans h₅)).met ht) hv

theorem readEntry_safe {entry : Value} (he : Met w entry) : Safe P c w (readEntry entry) Known := by
  refine .ite (fun _ => .look_bind fun _ => .raise_bind trivial) fun _ => ?_
  refine .bind (getOf_safe he) fun key w₁ h₁ hk => ?_
  exact .bind (getOf_safe (h₁.met he)) fun v w₂ h₂ hv => .pure ⟨h₂.met hk, hv⟩

theorem describeTag_safe (ht : Met w this) : Safe P c w (describeTag this) Known := by
  unfold describeTag
  split
  · exact .pure trivial
  · exact .pure trivial
  · refine .bind (toObject_safe ht) fun id w₁ _ hid => .bind (get_safe hid) fun v w₂ _ _ => ?_
    cases v with
    | string word => exact .pure trivial
    | _ => exact .look_bind fun _ => .pure trivial

theorem setPrototypeOrThrow_safe {id : ObjectId} {prototype : Option ObjectId}
    (hp : Met w prototype) : Safe P c w (setPrototypeOrThrow id prototype) Known :=
  .bind (setPrototype_safe hp) fun _ _ _ _ => .ite (fun _ => throwType_safe) fun _ => .pure trivial

theorem constructObject_safe {newTarget : Option ObjectId} (ha : Met w args)
    (hn : Met w newTarget) : Safe P c w (constructObject args newTarget) Known := by
  refine .look_bind fun hw => ?_
  have hbase : Met w w.state.intrinsics.objectPrototype := hw.intrinsic (by simp [Intrinsics.toList])
  have hmake {w' : World} {prototype : ObjectId} (hl : Later w w') (hp : Met w' prototype) :
      Safe P c w' (do
        if prototype != w.state.intrinsics.objectPrototype then
          return Value.object (← allocate { prototype := some prototype })
        let v := argument args 0
        if v.isNullish then return .object (← newObject [])
        return .object (← toObject v)) Known := by
    refine .ite (fun _ => ?_) fun _ => .ite (fun _ => ?_) fun _ => ?_
    · exact .bind (allocate_safe (o := { prototype := some prototype })
        ⟨trivial, hp, within_emptyTable, within_nil⟩ trivial) fun _ _ _ hid => .pure hid.met
    · exact .bind (newObject_safe .nil) fun _ _ _ hid => .pure hid.met
    · exact .bind (toObject_safe (hl.met (met_argument ha))) fun _ _ _ hid => .pure hid
  cases newTarget with
  | none => exact .pure_bind (hmake .refl hbase)
  | some target => exact .bind (prototypeFor_safe hn hbase) fun _ _ h₁ hp => hmake h₁ hp

theorem closeObject_safe {v : Value} {level : Integrity} {message : String} (hv : Met w v) :
    Safe P c w (closeObject v level message) Known := by
  cases v with
  | object id =>
    refine .bind setIntegrity_safe fun ok w₁ h₁ _ => ?_
    exact .ite (fun _ => .raise_bind trivial) fun _ => .pure (h₁.met hv)
  | _ => exact .pure hv

theorem isClosed_safe {v : Value} {level : Integrity} : Safe P c w (isClosed v level) Known := by
  cases v with
  | object id => exact .bind testIntegrity_safe fun _ _ _ _ => .pure trivial
  | _ => exact .pure trivial

theorem objectFunction_safe {f : ObjectFunction} (ht : Met w this) (ha : Met w args) :
    Safe P c w (objectFunction f this args) Known := by
  have hfirst : Met w (argument args 0) := met_argument ha
  have hnone : Met w (none : Option ObjectId) := trivial
  unfold objectFunction
  cases f with
  | construct => exact constructObject_safe ha hnone
  | keys => exact ownEntries_safe hfirst
  | values => exact ownEntries_safe hfirst
  | entries => exact ownEntries_safe hfirst
  | getPrototypeOf =>
    exact .bind (toObject_safe hfirst) fun _ _ _ _ =>
      .bind prototypeOf_safe fun _ _ _ hp => .pure (met_ofObject hp)
  | setPrototypeOf =>
    refine .ite (fun _ => .raise_bind trivial) fun _ => ?_
    refine .bind (prototypeArgument_safe (met_argument ha)) fun prototype w₁ h₁ hp => ?_
    dsimp only
    split
    · exact .bind (setPrototypeOrThrow_safe hp) fun _ _ h₂ _ => .pure ((h₁.trans h₂).met hfirst)
    · exact .pure (h₁.met hfirst)
  | getOwnPropertyNames =>
    refine .bind (toObject_safe hfirst) fun _ _ _ _ => .bind ownKeys_safe fun _ _ _ _ => ?_
    exact .bind (newArray_safe met_keyArray) fun _ _ _ hid => .pure hid.met
  | getOwnPropertySymbols =>
    refine .bind (toObject_safe hfirst) fun _ _ _ _ => .bind ownKeys_safe fun _ _ _ _ => ?_
    exact .bind (newArray_safe met_keyArray) fun _ _ _ hid => .pure hid.met
  | getOwnPropertyDescriptor =>
    refine .bind (toObject_safe hfirst) fun _ _ h₁ _ => ?_
    exact .bind (toKey_safe (h₁.met (met_argument ha))) fun _ _ _ _ => describeOwn_safe
  | getOwnPropertyDescriptors =>
    refine .bind (toObject_safe hfirst) fun id w₁ _ hid => ?_
    refine .bind (newObject_safe .nil) fun out w₂ _ hout => .bind ownKeys_safe fun keys w₃ h₃ _ => ?_
    refine .bind (Q := fun _ _ => True) (.forM (fun key _ w₄ h₄ => ?_) fun _ _ => trivial)
      fun _ w₄ h₄ _ => .pure ((h₃.trans h₄).new hout).met
    refine .bind getOwn_safe fun p w₅ _ hp => ?_
    cases p with
    | none => exact .pure trivial
    | some p =>
      refine .bind (fromDescriptor_safe (met_propertyDescriptor hp)) fun d w₆ _ hd => ?_
      exact createOrThrow_safe hd.met
  | defineProperty =>
    refine .bind (objectArgument_safe ha) fun id w₁ h₁ hid => ?_
    refine .bind (toKey_safe (h₁.met (met_argument ha))) fun key w₂ h₂ _ => ?_
    refine .bind (descriptorArgument_safe ((h₁.trans h₂).met (met_argument ha))) fun d w₃ h₃ hd => ?_
    exact .bind (defineOrThrow_safe hd) fun _ w₄ h₄ _ => .pure ((h₂.trans (h₃.trans h₄)).met hid)
  | defineProperties =>
    refine .bind (objectArgument_safe ha) fun id w₁ h₁ hid => ?_
    exact .bind (defineAll_safe (h₁.met (met_argument ha))) fun _ _ h₂ _ => .pure (h₂.met hid)
  | create =>
    refine .bind (prototypeArgument_safe hfirst) fun prototype w₁ h₁ hp => ?_
    refine .bind (allocate_safe (o := { prototype := prototype })
      ⟨trivial, hp, within_emptyTable, within_nil⟩ trivial) fun id w₂ h₂ hid => ?_
    refine .ite (fun _ => ?_) fun _ => .pure hid.met
    exact .bind (defineAll_safe ((h₁.trans h₂).met (met_argument ha))) fun _ _ h₃ _ =>
      .pure (h₃.new hid).met
  | assign =>
    refine .bind (toObject_safe hfirst) fun target w₁ h₁ htarget => ?_
    exact .bind (assignAll_safe htarget (h₁.met (within_toList ha)).drop) fun _ _ h₂ _ =>
      .pure (h₂.met htarget)
  | fromEntries =>
    refine .ite (fun _ => .look_bind fun _ => .raise_bind trivial) fun _ => ?_
    refine .bind (newObject_safe .nil) fun out w₁ h₁ hout => ?_
    refine .bind (forEachItem_safe (h₁.met hfirst) fun entry w₂ h₂ he => ?_) fun _ w₂ h₂ _ =>
      .pure (h₂.new hout).met
    refine .bind (readEntry_safe he) fun r w₃ h₃ hkv => ?_
    obtain ⟨key, v⟩ := r
    exact .bind (toKey_safe hkv.1) fun _ w₄ h₄ _ => createOrThrow_safe (h₄.met hkv).2
  | freeze => exact closeObject_safe hfirst
  | «seal» => exact closeObject_safe hfirst
  | preventExtensions =>
    dsimp only
    split
    · refine .bind preventExtensions_safe fun ok w₁ h₁ _ => ?_
      exact .ite (fun _ => .raise_bind trivial) fun _ => .pure (h₁.met hfirst)
    · exact .pure hfirst
  | isFrozen => exact isClosed_safe
  | isSealed => exact isClosed_safe
  | isExtensible =>
    dsimp only
    split
    · exact .bind isExtensible_safe fun _ _ _ _ => .pure trivial
    · exact .pure trivial
  | is => exact .pure trivial
  | hasOwn =>
    refine .bind (toObject_safe hfirst) fun _ _ h₁ _ => ?_
    exact .bind (toKey_safe (h₁.met (met_argument ha))) fun _ _ _ _ =>
      .bind hasOwn_safe fun _ _ _ _ => .pure trivial
  | hasOwnProperty =>
    refine .bind (toKey_safe hfirst) fun _ _ h₁ _ => .bind (toObject_safe (h₁.met ht)) fun _ _ _ _ => ?_
    exact .bind hasOwn_safe fun _ _ _ _ => .pure trivial
  | isPrototypeOf =>
    dsimp only
    split
    · exact .bind (toObject_safe ht) fun _ _ _ _ => .bind inheritsFrom_safe fun _ _ _ _ => .pure trivial
    · exact .pure trivial
  | propertyIsEnumerable =>
    refine .bind (toKey_safe hfirst) fun _ _ h₁ _ => .bind (toObject_safe (h₁.met ht)) fun _ _ _ _ => ?_
    exact .bind getOwn_safe fun _ _ _ _ => .pure trivial
  | toString => exact describeTag_safe ht
  | toLocaleString =>
    exact .bind (getOf_safe ht) fun f w₁ h₁ hf => call_safe hf (h₁.met ht) .empty
  | valueOf => exact .bind (toObject_safe ht) fun _ _ _ hid => .pure hid
  | getProto =>
    exact .bind (toObject_safe ht) fun _ _ _ _ =>
      .bind prototypeOf_safe fun _ _ _ hp => .pure (met_ofObject hp)
  | setProto =>
    refine .ite (fun _ => .raise_bind trivial) fun _ => ?_
    dsimp only
    split
    · rename_i id p hp _
      rw [hp] at hfirst
      exact .bind (setPrototypeOrThrow_safe hfirst) fun _ _ _ _ => .pure trivial
    · exact .bind (setPrototypeOrThrow_safe trivial) fun _ _ _ _ => .pure trivial
    · exact .pure trivial

/-! Reflection and proxies. -/

omit [Serves P] in
theorem reflectTarget_safe {f : ReflectFunction} (ha : Met w args) :
    Safe P c w (reflectTarget f args) Known := by
  have hfirst : Met w (argument args 0) := met_argument ha
  unfold reflectTarget
  split
  · rename_i id hid
    rw [hid] at hfirst
    exact .pure hfirst
  · exact .look_bind fun _ => throwType_safe

omit [Serves P] in
theorem requireConstructor_safe {v : Value} : Safe P c w (requireConstructor v) Known :=
  .look_bind fun _ => .ite (fun _ => .look_bind fun _ => throwType_safe) fun _ => .pure trivial

omit [Serves P] in
theorem met_argumentOr {i : Nat} {v : Value} (ha : Met w args) (hv : Met w v) :
    Met w ((args[i]?).getD v) := by
  cases h : args[i]? with
  | none => exact hv
  | some a => exact within_getElem? ha h

theorem reflectFunction_safe {f : ReflectFunction} (ha : Met w args) :
    Safe P c w (reflectFunction f args) Known := by
  have harg {w' : World} {i : Nat} (hl : Later w w') : Met w' (argument args i) :=
    hl.met (met_argument ha)
  unfold reflectFunction
  cases f with
  | apply =>
    refine .look_bind fun _ => .ite (fun _ => .look_bind fun _ => .raise_bind trivial) fun _ => ?_
    exact .bind (listFromArrayLike_safe (harg .refl)) fun _ w₁ h₁ hlist =>
      call_safe (harg h₁) (harg h₁) hlist
  | construct =>
    refine .bind requireConstructor_safe fun _ w₁ h₁ _ => ?_
    refine .bind requireConstructor_safe fun _ w₂ h₂ _ => ?_
    have hl := h₁.trans h₂
    refine .bind (listFromArrayLike_safe (harg hl)) fun _ w₃ h₃ hlist => ?_
    have hl := hl.trans h₃
    exact construct_safe (harg hl) hlist (met_argumentOr (hl.met ha) (harg hl))
  | defineProperty =>
    refine .bind (reflectTarget_safe ha) fun id w₁ h₁ _ => .bind (toKey_safe (harg h₁)) fun key w₂ h₂ _ => ?_
    have hd := @harg _ 2 (h₁.trans h₂)
    split
    · rename_i d hdesc
      rw [hdesc] at hd
      refine .bind (toDescriptor_safe hd) fun d w₃ _ hd => ?_
      exact .bind (define_safe hd) fun _ _ _ _ => .pure trivial
    · exact throwType_safe
  | deleteProperty =>
    refine .bind (reflectTarget_safe ha) fun id w₁ h₁ _ => .bind (toKey_safe (harg h₁)) fun key w₂ h₂ _ => ?_
    exact .bind delete_safe fun _ _ _ _ => .pure trivial
  | get =>
    refine .bind (reflectTarget_safe ha) fun id w₁ h₁ hid => ?_
    refine .bind (toKey_safe (harg h₁)) fun key w₂ h₂ _ => getFor_safe ?_
    have hreceiver : Met w₂ (Value.object id) := h₂.met hid
    exact met_argumentOr ((h₁.trans h₂).met ha) hreceiver
  | getOwnPropertyDescriptor =>
    refine .bind (reflectTarget_safe ha) fun id w₁ h₁ _ => ?_
    exact .bind (toKey_safe (harg h₁)) fun key w₂ h₂ _ => describeOwn_safe
  | getPrototypeOf =>
    refine .bind (reflectTarget_safe ha) fun id w₁ h₁ _ => ?_
    exact .bind prototypeOf_safe fun _ _ _ hp => .pure (met_ofObject hp)
  | has =>
    refine .bind (reflectTarget_safe ha) fun id w₁ h₁ _ => .bind (toKey_safe (harg h₁)) fun key w₂ h₂ _ => ?_
    exact .bind has_safe fun _ _ _ _ => .pure trivial
  | isExtensible =>
    exact .bind (reflectTarget_safe ha) fun _ _ _ _ =>
      .bind isExtensible_safe fun _ _ _ _ => .pure trivial
  | ownKeys =>
    refine .bind (reflectTarget_safe ha) fun _ _ _ _ => .bind ownKeys_safe fun _ _ _ _ => ?_
    exact .bind (newArray_safe met_keyArray) fun _ _ _ hid => .pure hid.met
  | preventExtensions =>
    exact .bind (reflectTarget_safe ha) fun _ _ _ _ =>
      .bind preventExtensions_safe fun _ _ _ _ => .pure trivial
  | set =>
    refine .bind (reflectTarget_safe ha) fun id w₁ h₁ hid => .bind (toKey_safe (harg h₁)) fun key w₂ h₂ _ => ?_
    have hreceiver : Met w₂ (Value.object id) := h₂.met hid
    refine .bind (setFor_safe (harg (h₁.trans h₂)) ?_) fun _ _ _ _ => .pure trivial
    exact met_argumentOr ((h₁.trans h₂).met ha) hreceiver
  | setPrototypeOf =>
    refine .bind (reflectTarget_safe ha) fun id w₁ h₁ hid => ?_
    have hp := @harg _ 1 h₁
    split
    · rename_i p hprototype
      rw [hprototype] at hp
      exact .bind (setPrototype_safe hp) fun _ _ _ _ => .pure trivial
    · exact .bind (setPrototype_safe trivial) fun _ _ _ _ => .pure trivial
    · exact throwType_safe

omit [Serves P] in
theorem newProxy_safe (ha : Met w args) : Safe P c w (newProxy args) New := by
  have htarget : Met w (argument args 0) := met_argument ha
  have hhandler : Met w (argument args 1) := met_argument ha
  unfold newProxy
  split
  · rename_i target handler ht hh
    rw [ht] at htarget
    rw [hh] at hhandler
    refine .look_bind fun _ => .look_bind fun _ => allocate_safe ?_ trivial
    exact ⟨⟨htarget, hhandler⟩, trivial, within_emptyTable, within_nil⟩
  · exact throwType_safe

omit [Serves P] in
theorem proxyFunction_safe {f : ProxyFunction} (ha : Met w args) :
    Safe P c w (proxyFunction f args) Known := by
  unfold proxyFunction
  cases f with
  | construct => exact throwType_safe
  | revocable =>
    refine .bind (newProxy_safe ha) fun proxy w₁ _ hp => ?_
    refine .bind (newCapturing_safe hp.met rfl) fun revoke w₂ h₂ hr => ?_
    have hproxy : Met w₂ (Value.object proxy) := h₂.met hp.met
    refine .bind (newObject_safe ?_) fun _ _ _ hid => .pure hid.met
    exact .cons ⟨trivial, hproxy⟩ (.cons ⟨trivial, hr⟩ .nil)

/-! Functions. -/

theorem bindFunction_safe (ht : Met w this) (ha : Met w args) :
    Safe P c w (bindFunction this args) Known := by
  cases this with
  | object target =>
    refine .look_bind fun _ => .ite (fun _ => .raise_bind trivial) fun _ => ?_
    extract_lets bound naming
    have hnaming {w' : World} {length : Float} (hl : Later w w') :
        Safe P c w' (naming length) Known := by
      refine .bind (getNamed_safe (hl.met ht)) fun v w₁ h₁ _ => ?_
      extract_lets making
      have hmaking {name : String} : Safe P c w₁ (making name) Known := by
        refine .bind prototypeOf_safe fun prototype w₂ h₂ hp => ?_
        have hl := hl.trans (h₁.trans h₂)
        refine .bind (allocate_safe ?_ trivial) fun _ _ _ hid => .pure hid.met
        exact ⟨⟨hl.met ht, met_argument (hl.met ha), (hl.met ha).extract⟩, hp,
          within_put met_functionProperties trivial, within_nil⟩
      cases v with
      | string s => exact hmaking
      | _ => exact hmaking
    refine .bind hasOwn_safe fun own w₁ h₁ _ => .ite (fun _ => ?_) fun _ => hnaming h₁
    refine .bind (getNamed_safe (h₁.met ht)) fun v w₂ h₂ _ => ?_
    cases v with
    | number n => exact hnaming (h₁.trans h₂)
    | _ => exact hnaming (h₁.trans h₂)
  | _ => exact throwType_safe

theorem functionFromText_safe (ha : Met w args) : Safe P c w (functionFromText args) Known := by
  refine .bind (.mapM fun v hv _ hl => toText_safe (hl.met (within_toList ha v hv))) fun texts w₁ _ _ => ?_
  dsimp only
  split
  · exact unsupported_safe
  · rename_i e _ _
    refine .raise ?_
    cases e <;> trivial
  · refine .bind (Q := fun _ _ => True) (.update (fun _ => .of_act .aside) fun _ => trivial)
      fun script w₂ _ _ => .within ⟨rfl, rfl, rfl⟩ (.context_bind fun _ => ?_)
    exact .bind newFunction_safe fun _ _ _ hid => .pure hid.met

theorem functionFunction_safe {f : FunctionFunction} (ht : Met w this) (ha : Met w args) :
    Safe P c w (functionFunction f this args) Known := by
  have harg {w' : World} {i : Nat} (hl : Later w w') : Met w' (argument args i) :=
    hl.met (met_argument ha)
  unfold functionFunction
  cases f with
  | construct => exact functionFromText_safe ha
  | call => exact call_safe ht (met_argument ha) ha.extract
  | apply =>
    refine .ite (fun _ => call_safe ht (met_argument ha) .empty) fun _ => ?_
    exact .bind (listFromArrayLike_safe (harg .refl)) fun _ w₁ h₁ hlist =>
      call_safe (h₁.met ht) (harg h₁) hlist
  | bind => exact bindFunction_safe ht ha
  | toString =>
    cases this with
    | object id =>
      refine .look_bind fun _ => ?_
      cases w.state.functionText? id with
      | some text => exact .pure trivial
      | none => exact throwType_safe
    | _ => exact throwType_safe
  | hasInstance =>
    exact .bind (ordinaryHasInstance_safe ht (harg .refl)) fun _ _ _ _ => .pure trivial
  | nothing => exact .pure trivial

end EcmaScript

import EcmaScript.Evaluate.Names
import EcmaScript.Function.Create
import EcmaScript.Proofs.Safety.Proxy

/-! Making functions is safe, and so is calling those of the library that a dry run admits. -/
namespace EcmaScript
open Exec

variable {P : Pairing} {c : Context} {w : World}

theorem met_functionProperties {name : String} {length : Nat} :
    Met w (functionProperties name length) :=
  within_put (within_put within_emptyTable trivial) trivial

theorem newNative_safe {name : String} {length : Nat} {f : Native} (hf : Met w f)
    (hwakes : f.wakes? = none) : Safe P c w (newNative name length f) New := by
  refine .look_bind fun hw => allocate_safe ?_ hwakes
  exact ⟨hf, hw.intrinsic (by simp [Intrinsics.toList]), met_functionProperties, within_nil⟩

theorem newCapturing_safe {length : Nat} {f : CapturingFunction} (hf : Met w f)
    (hwakes : (Native.capturing f).wakes? = none) :
    Safe P c w (newCapturing length f) Known :=
  .bind (newNative_safe hf hwakes) fun _ _ _ hid => .pure hid.met

theorem met_closure {closure : Closure} (he : closure.elements = []) : Met w closure := by
  have h : Met w closure.elements := he ▸ within_nil
  exact h

theorem newClosure_safe {closure : Closure} {name : String} (he : closure.elements = []) :
    Safe P c w (newClosure closure name) New := by
  refine .look_bind fun hw => .bind (allocate_safe ?_ he) fun id w₁ h₁ hid => ?_
  · exact ⟨met_closure he, hw.intrinsic (by simp [Intrinsics.toList]), met_functionProperties,
      within_nil⟩
  · refine .ite (fun _ => .bind (allocate_safe ?_ trivial) fun prototype w₂ h₂ hp => ?_) fun _ => .pure hid
    · exact ⟨trivial, h₁.met (hw.intrinsic (by simp [Intrinsics.toList])),
        within_put within_emptyTable hid.met, within_nil⟩
    · refine .bind (buildObject_safe (h₂.new hid).toMade rfl fun hw => ?_)
        fun _ w₃ h₃ _ => .pure ((h₂.trans h₃).new hid)
      exact met_put (met_object hw.closed id) hp.met

theorem newFunction_safe {node : FunctionNode} {scope : ScopeId} {name : String}
    {home : Option ObjectId} : Safe P c w (newFunction node scope name home) New :=
  .context_bind fun _ => newClosure_safe rfl

theorem nameFunction_safe {id : ObjectId} {key : PropertyKey} {kind : MethodKind}
    (hid : New id w) : Safe P c w (nameFunction id key kind) Known := by
  refine buildObject_safe hid.toMade rfl fun hw => ?_
  exact met_put (met_object hw.closed id) trivial

variable [Serves P]

theorem prototypeFor_safe {newTarget fallback : ObjectId} (ht : Met w newTarget)
    (hf : Met w fallback) : Safe P c w (prototypeFor newTarget fallback) Known := by
  refine .bind (getNamed_safe ht) fun v w₁ h₁ hv => ?_
  cases v with
  | object id => exact .pure hv
  | _ => exact .pure (h₁.met hf)

theorem defineMethod_safe {target f : ObjectId} {key : PropertyKey} {kind : MethodKind}
    {enumerable : Bool} (hf : Met w f) :
    Safe P c w (defineMethod target key kind f enumerable) Known := by
  cases kind with
  | method => exact defineOrThrow_safe ⟨hf, trivial, trivial⟩
  | getter => exact defineOrThrow_safe ⟨trivial, hf, trivial⟩
  | setter => exact defineOrThrow_safe ⟨trivial, trivial, hf⟩

/-- What follows a check of a call may run the native function that is called. -/
theorem checkCall_bind {α : Type} {Q : α → World → Prop} {f : ObjectId} {this : Value}
    {args : Array Value} {g : Unit → Exec α} (hf : Met w f)
    (h : (∀ name native, (w.state.object f).kind = .function (.native name native) →
      w.grants native this) → Safe P c w (g ()) Q) :
    Safe P c w (checkCall f this args >>= g) Q := by
  unfold checkCall
  rw [Exec.bind_assoc]
  have hwakes {name : String} {native : Native}
      (hk : (w.state.object f).kind = .function (.native name native)) (ht : w.tracked) (slot : Nat)
      (hslot : native.wakes? = some slot) : w.filling slot :=
    -- Code has no access to a function that wakes what waits.
    absurd (.inr (by simp [hk, ObjectKind.wakes?, hslot])) (hf ht).2.2
  refine .context_bind fun hc => ?_
  cases heffects : c.effects with
  | none =>
    refine .pure_bind (h fun name native hk => ⟨fun d hd => ?_, hwakes hk⟩)
    rw [(hc d hd).1] at heffects
    cases heffects
  | some table =>
    dsimp only
    rw [Exec.bind_assoc]
    refine .bind (Q := fun _ w' => w' = w) (.fuel rfl) fun limit w' _ hw' => ?_
    subst hw'
    rw [Exec.bind_assoc]
    refine .look_bind fun hw => ?_
    split
    · exact halt_bind trivial
    · rename_i hrefusal
      refine .pure_bind (h fun name native hk => ⟨fun d hd => ?_, hwakes hk⟩)
      obtain ⟨he, ho, -⟩ := hc d hd
      obtain rfl : table = d.table := by simpa [heffects] using he
      cases limit with
      | zero => cases hrefusal
      | succ limit =>
        unfold State.refusal? at hrefusal
        simp only [hk] at hrefusal
        split at hrefusal
        · cases hrefusal
        · rename_i flags hlookup
          split at hrefusal
          · cases hrefusal
          · rename_i hpure
            obtain ⟨name', f', hk', hregisters, hadvances⟩ :=
              (hw.dry d hd).table f flags hlookup (by simpa using hpure)
            obtain ⟨rfl, rfl⟩ : name' = name ∧ f' = native := by simpa [hk] using hk'.symm
            refine ⟨hregisters, fun ha id hid => ?_⟩
            subst hid
            rcases Nat.lt_or_ge id.index d.firstObject with hold | hnew
            · simp [hadvances ha, ho, hold] at hrefusal
            · exact hnew

end EcmaScript

/-! Names and declarations are safe. Names are declared only in scopes that the present computation
has made. -/
namespace EcmaScript
open Exec

variable {P : Pairing} {c : Context} {w : World} {scope : ScopeId} {name : String}

theorem World.Inv.scopeKind (hw : w.Inv) {id : ScopeId} {k : ScopeKind}
    (hk : (w.state.scope id).kind = k) : Met w k := hk ▸ (met_scope hw.closed id).1

theorem met_activation (hw : w.Inv) {id : ScopeId} {a : Activation}
    (h : (w.state.scope id).activation? = some a) : Met w a :=
  hw.scopeKind (Scope.activation?_eq h)

theorem superRequired_safe {α : Type} {Q : α → World → Prop} : Safe P c w superRequired Q :=
  throwReference_safe

theorem thisValue_safe : Safe P c w (thisValue scope) Known := by
  refine .look_bind fun hw => ?_
  split
  · rename_i object hk
    exact .pure (hw.scopeKind hk)
  · rename_i v _ _ _ _ hk
    exact .pure (hw.scopeKind hk).1
  · exact superRequired_safe
  · exact .pure trivial

theorem globalObject_safe : Safe P c w globalObject Known := .look fun hw => hw.closed.globalObject

theorem assignIn_safe {v : Value} {strict : Bool} (hs : w.ownsScope scope) (hv : Met w v) :
    Safe P c w (assignIn scope name v strict) Known := by
  refine .look_bind fun hw => ?_
  split
  · rename_i changed h
    exact modifyScope_safe hs (.assign .refl h) fun hw => met_assign (met_scope hw.closed scope) hv h
  · exact throwReference_safe
  · exact throwReference_safe
  · exact throwType_safe

theorem fillName_safe [Serves P] {v : Value} (hv : Met w v) : Safe P c w (fillName scope name v) Known := by
  refine checkScopeWrite_bind fun hs => modifyScope_safe hs (.fill name v .refl) fun hw => ?_
  exact met_fill (met_scope hw.closed scope) hv

theorem alreadyDeclared_safe {α : Type} {Q : α → World → Prop} {line column : Nat} :
    Safe P c w (alreadyDeclared name line column) Q := .raise trivial

theorem declareName_safe {kind : BindingKind} {span : Span} (hs : w.ownsScope scope) :
    Safe P c w (declareName scope name kind span) Known := by
  refine .look_bind fun hw => ?_
  split
  · rename_i changed h
    exact modifyScope_safe hs (.declare .refl h) fun hw => met_declare? (met_scope hw.closed scope) h
  · exact alreadyDeclared_safe

theorem blockDeclaring_safe {names : List String} {kind : BindingKind} :
    Safe P c w (blockDeclaring scope names kind) fun id w' => w'.ownsScope id := by
  refine .bind newBlock_safe fun block w₁ _ hs => ?_
  refine .bind (Q := Known) (.forM (fun name _ w₂ h₂ => ?_) fun _ _ => trivial)
    fun _ w₂ h₂ _ => .pure (h₂.ownsScope hs)
  exact declareName_safe (h₂.ownsScope hs)

theorem bindIn_safe {kind : BindingKind} {value : Option Value} (hs : w.ownsScope scope)
    (hv : Met w value) : Safe P c w (bindIn scope name kind value) Known := by
  refine modifyScope_safe hs (.bind name _ .refl) fun hw => ?_
  have hb : Met w (⟨value, kind⟩ : Binding) := hv
  exact met_bind (met_scope hw.closed scope) hb

theorem declareLexical_safe {names : List LexicalName} (hs : w.ownsScope scope) :
    Safe P c w (declareLexical scope names) Known :=
  .forM (fun _ _ _ h => declareName_safe (h.ownsScope hs)) fun _ _ => trivial

theorem hoistBlock_safe {body : List Statement} (hs : w.ownsScope scope) :
    Safe P c w (hoistBlock scope body) Known := by
  refine .bind (declareLexical_safe hs) fun _ w₁ h₁ _ => ?_
  refine .bind (Q := fun _ _ => True) (.foldlM (fun names node _ w₂ h₂ _ => ?_) trivial)
    fun names w₂ _ _ => .context_bind fun _ => .pure fun _ _ => trivial
  refine .look_bind fun _ => .ite (fun _ => .raise_bind trivial) fun _ => ?_
  refine .bind newFunction_safe fun f w₃ h₃ hf => ?_
  exact .bind (bindIn_safe ((h₁.trans (h₂.trans h₃)).ownsScope hs) hf.met) fun _ _ _ _ => .pure trivial

theorem hoistVars_safe {body : List Statement} {reserved : List String} (hs : w.ownsScope scope) :
    Safe P c w (hoistVars scope body reserved) Known := by
  have hbind {w' : World} {name : String} (hl : Later w w') : Safe P c w' (do
      if !(← binds scope name) then bindIn scope name .var (some .undefined)) Known :=
    .look_bind fun _ => .ite (fun _ => bindIn_safe (hl.ownsScope hs) trivial) fun _ => .pure trivial
  have hfunctions {w' : World} (hl : Later w w') : Safe P c w' (do
      (directFunctions body).forM fun node => do
        let f ← newFunction node scope node.boundName none
        bindIn scope node.boundName .var (some (.object f))
      declareLexical scope (lexicalNames body)) Known := by
    refine .bind (Q := Known) (.forM (fun node _ w₁ h₁ => ?_) fun _ _ => trivial)
      fun _ w₁ h₁ _ => declareLexical_safe ((hl.trans h₁).ownsScope hs)
    exact .bind newFunction_safe fun f w₂ h₂ hf =>
      bindIn_safe ((hl.trans (h₁.trans h₂)).ownsScope hs) hf.met
  refine .bind (Q := Known) (.forM (fun name _ w₁ h₁ => ?_) fun _ _ => trivial) fun _ w₁ h₁ _ => ?_
  · exact .ite (fun _ => .raise_bind trivial) fun _ => hbind h₁
  refine .context_bind fun _ => .ite (fun _ => ?_) fun _ => hfunctions h₁
  refine .bind (Q := Known) (.forM (fun name _ w₂ h₂ => ?_) fun _ _ => trivial)
    fun _ w₂ h₂ _ => hfunctions (h₁.trans h₂)
  exact .ite (fun _ => hbind (h₁.trans h₂)) fun _ => .pure trivial

variable [Serves P]

theorem readName_safe : Safe P c w (readName scope name) Known := by
  refine .look_bind fun hw => ?_
  split
  · refine .look_bind fun hw => ?_
    split
    · rename_i v hv
      exact .pure (met_binding hw hv)
    · exact throwReference_safe
  · refine .bind globalObject_safe fun g w₁ _ hg => .bind has_safe fun found w₂ h₂ _ => ?_
    exact .ite (fun _ => get_safe (h₂.met hg)) fun _ => throwReference_safe

theorem assignName_safe {v : Value} (hv : Met w v) : Safe P c w (assignName scope name v) Known := by
  refine .context_bind fun _ => .look_bind fun _ => ?_
  split
  · exact checkScopeWrite_bind fun hs => assignIn_safe hs hv
  · refine .bind globalObject_safe fun g w₁ h₁ hg => .ite (fun _ => ?_) fun _ => ?_
    · refine .bind has_safe fun found w₂ h₂ _ => .ite (fun _ => .raise_bind trivial) fun _ => ?_
      exact putOf_safe (h₂.met hg) ((h₁.trans h₂).met hv)
    · exact putOf_safe hg (h₁.met hv)

theorem bindName_safe {v : Value} {mode : BindingMode} (hv : Met w v) :
    Safe P c w (bindName scope name v mode) Known := by
  cases mode with
  | assign => exact assignName_safe hv
  | first => exact fillName_safe hv

theorem copyUp_safe {parent varScope : ScopeId} {v : Value} (hv : Met w v) :
    Safe P c w (copyUp parent varScope name v) Known := by
  refine .look_bind fun _ => ?_
  split
  · refine .look_bind fun _ => .ite (fun _ => ?_) fun _ => .pure trivial
    exact checkScopeWrite_bind fun hs => assignIn_safe hs hv
  · refine .look_bind fun hw => .ite (fun _ => ?_) fun _ => .pure trivial
    exact .bind globalObject_safe fun g w₁ h₁ hg => putOf_safe hg (h₁.met hv)

theorem copyUpFunctions_safe {block : ScopeId} {names : List String} :
    Safe P c w (copyUpFunctions block names) Known := by
  refine .look_bind fun _ => ?_
  split
  · exact .pure trivial
  · refine .look_bind fun _ => .forM (fun name _ w₁ _ => .look_bind fun hw => ?_) fun _ _ => trivial
    split
    · rename_i v hv
      exact copyUp_safe (met_binding hw hv)
    · exact .pure trivial

theorem declareGlobal_safe : Safe P c w (declareGlobal name) Known := by
  refine .bind globalObject_safe fun g w₁ _ _ => .bind getOwn_safe fun own w₂ _ _ => ?_
  exact .ite (fun _ => defineOrThrow_safe ⟨trivial, trivial, trivial⟩) fun _ => .pure trivial

theorem declareGlobalFunction_safe {node : FunctionNode} :
    Safe P c w (declareGlobalFunction scope node) Known := by
  refine .bind globalObject_safe fun g w₁ _ hg => .bind newFunction_safe fun f w₂ h₂ hf => ?_
  refine .bind getOwn_safe fun own w₃ h₃ _ => ?_
  have hf₃ := h₃.met hf.met
  cases own with
  | none => exact defineOrThrow_safe ⟨hf₃, trivial, trivial⟩
  | some p =>
    exact .ite (fun _ => defineOrThrow_safe ⟨hf₃, trivial, trivial⟩)
      fun _ => putOf_safe ((h₂.trans h₃).met hg) hf₃

theorem hoistGlobal_safe {body : List Statement} (hs : w.ownsScope scope) :
    Safe P c w (hoistGlobal scope body) Known := by
  have hfunctions {w' : World} (hl : Later w w') : Safe P c w' (do
      (directFunctions body).forM (declareGlobalFunction scope)
      declareLexical scope (lexicalNames body)) Known :=
    .bind (Q := Known) (.forM (fun _ _ _ _ => declareGlobalFunction_safe) fun _ _ => trivial)
      fun _ _ h₁ _ => declareLexical_safe ((hl.trans h₁).ownsScope hs)
  refine .bind globalObject_safe fun g w₁ h₁ _ => ?_
  refine .bind (Q := Known) (.forM (fun n _ w₂ _ => ?_) fun _ _ => trivial) fun _ w₂ h₂ _ => ?_
  · refine .look_bind fun _ => .ite (fun _ => .raise_bind trivial) fun _ => ?_
    refine .bind getOwn_safe fun own w₃ _ _ => ?_
    cases own with
    | none => exact .pure trivial
    | some p => exact .ite (fun _ => alreadyDeclared_safe) fun _ => .pure trivial
  refine .bind (Q := Known) (.forM (fun name _ w₃ _ => ?_) fun _ _ => trivial) fun _ w₃ h₃ _ => ?_
  · exact .look_bind fun _ => .ite (fun _ => alreadyDeclared_safe) fun _ => .pure trivial
  refine .bind (Q := Known) (.forM (fun _ _ _ _ => declareGlobal_safe) fun _ _ => trivial)
    fun _ w₄ h₄ _ => ?_
  have hl := h₁.trans (h₂.trans (h₃.trans h₄))
  refine .context_bind fun _ => .ite (fun _ => ?_) fun _ => hfunctions hl
  refine .bind (Q := Known) (.forM (fun name _ w₅ _ => ?_) fun _ _ => trivial)
    fun _ w₅ h₅ _ => hfunctions (hl.trans h₅)
  refine .ite (fun _ => .look_bind fun _ => ?_) fun _ => .pure trivial
  exact .ite (fun _ => declareGlobal_safe) fun _ => .pure trivial

end EcmaScript

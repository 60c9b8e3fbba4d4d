import EcmaScript.Evaluate.Body
import EcmaScript.Proofs.Safety.Expression

/-! Statements and bodies of functions are safe. -/
namespace EcmaScript
open Exec

variable {P : Pairing} {c : Context} {w : World} {scope : ScopeId}

section Completions
variable {completion : Completion} {last : Option Value}

theorem met_completionValue (hc : Met w completion) : Met w completion.value? := by
  cases completion <;> exact hc

theorem met_orValue (hc : Met w completion) (hl : Met w last) : Met w (completion.orValue last) := by
  match completion, hc with
  | .normal none, _ => exact hl
  | .normal (some _), hc => exact hc
  | .break _ none, _ => exact hl
  | .break _ (some _), hc => exact hc
  | .continue _ none, _ => exact hl
  | .continue _ (some _), hc => exact hc
  | .return _, hc => exact hc

theorem met_endLoop (hc : Met w completion) (hl : Met w last) : Met w (completion.endLoop last) := by
  unfold Completion.endLoop
  split
  · exact met_getD (met_or hc hl)
  · exact met_orValue hc hl

theorem met_loopDone (hl : Met w last) : Met w (loopDone last) := met_getD hl

end Completions

theorem observe_safe {f : Sink → Sink} : Safe P c w (observe f) Known := by
  refine .context_bind fun _ => ?_
  split
  · exact .change (fun _ => .of_act .aside) fun _ => trivial
  · exact .pure trivial

theorem copyScope_safe : Safe P c w (copyScope scope) fun id w' => w'.ownsScope id :=
  .look_bind fun hw => newScope_safe ⟨trivial, (met_scope hw.closed scope).2⟩ fun spelling _ h _ =>
    ⟨scope, spelling, h⟩

variable [Serves P]

theorem statement_safe {st : Statement} {labels : List String} :
    Safe P c w (request (.statement scope st labels)) Known := .request trivial fun _ _ _ h => h

theorem evaluateStatements_safe {body : List Statement} {last : Option Value} (hl : Met w last) :
    Safe P c w (evaluateStatements scope body last) Known := by
  induction body generalizing w last with
  | nil => exact .pure hl
  | cons st rest ih =>
    refine .bind statement_safe fun completion w₁ h₁ hc => ?_
    cases completion with
    | normal v => exact ih (met_or hc (h₁.met hl))
    | «return» v => exact .pure hc
    | «break» label v => exact .pure (met_orValue hc (h₁.met hl))
    | «continue» label v => exact .pure (met_orValue hc (h₁.met hl))

theorem evaluateBlock_safe {body : List Statement} :
    Safe P c w (evaluateBlock scope body) Known := by
  refine .ite (fun _ => evaluateStatements_safe trivial) fun _ => ?_
  refine .bind newBlock_safe fun block w₁ _ hs => .bind (hoistBlock_safe hs) fun functions w₂ _ _ => ?_
  refine .bind (evaluateStatements_safe trivial) fun completion w₃ _ hc => ?_
  exact .ite (fun _ => .bind copyUpFunctions_safe fun _ _ h₄ _ => .pure (h₄.met hc))
    fun _ => .pure hc

theorem declareVariable_safe {kind : VarKind} {d : Declarator} :
    Safe P c w (declareVariable scope kind d) Known := by
  obtain ⟨target, init⟩ := d
  unfold declareVariable
  dsimp only
  split
  · split
    · exact .bind evaluateNamed_safe fun _ _ _ hv => bindRequest_safe hv
    · exact .bind evaluate_safe fun _ _ _ hv => bindRequest_safe hv
  · exact .pure trivial
  · exact bindRequest_safe trivial

theorem runBody_safe {body : Statement} {labels : List String} {last : Option Value}
    (hl : Met w last) : Safe P c w (runBody scope body labels last) Known := by
  refine .bind statement_safe fun completion w₁ h₁ hc => .pure ?_
  have hlast := met_or (met_completionValue hc) (h₁.met hl)
  split
  · exact hlast
  · exact met_endLoop hc hlast

theorem runBody_turn {body : Statement} {labels : List String} {last : Option Value}
    (hl : Met w last) : Safe P c w (runBody scope body labels last) fun r w' =>
      r.elim (Known · w') (Known · w') := by
  refine .mono (runBody_safe hl) fun r w₁ _ hr => ?_
  cases r <;> exact hr

theorem evaluateWhile_safe {test : Expr} {body : Statement} {labels : List String} :
    Safe P c w (evaluateWhile scope test body labels) Known := by
  refine .loop (I := Known) trivial fun last w₁ _ hl => .bind checkInterrupts_safe fun _ w₂ h₂ _ => ?_
  refine .bind evaluate_safe fun v w₃ h₃ _ => ?_
  have hl₃ := (h₂.trans h₃).met hl
  exact .ite (fun _ => .pure (met_loopDone hl₃)) fun _ => runBody_turn hl₃

theorem evaluateDoWhile_safe {test : Expr} {body : Statement} {labels : List String} :
    Safe P c w (evaluateDoWhile scope body test labels) Known := by
  refine .loop (I := Known) trivial fun last w₁ _ hl => .bind checkInterrupts_safe fun _ w₂ h₂ _ => ?_
  refine .bind (runBody_safe (h₂.met hl)) fun r w₃ _ hr => ?_
  cases r with
  | inr completion => exact .pure hr
  | inl last =>
    refine .bind evaluate_safe fun v w₄ h₄ _ => ?_
    exact .ite (fun _ => .pure (h₄.met hr)) fun _ => .pure (met_loopDone (h₄.met hr))

theorem startFor_safe {init : Option Statement} :
    Safe P c w (startFor scope init) fun _ _ => True := by
  unfold startFor
  split
  · exact .bind (Q := Known) (.forM (fun _ _ _ _ => declareVariable_safe) fun _ _ => trivial)
      fun _ _ _ _ => .pure trivial
  · refine .bind blockDeclaring_safe fun block w₁ _ _ => ?_
    exact .bind (Q := Known) (.forM (fun _ _ _ _ => declareVariable_safe) fun _ _ => trivial)
      fun _ _ _ _ => .pure trivial
  · exact .bind evaluate_safe fun _ _ _ _ => .pure trivial
  · exact .pure trivial

theorem testFor_safe {test : Option Expr} : Safe P c w (testFor scope test) Known := by
  cases test with
  | none => exact .pure trivial
  | some e => exact .bind evaluate_safe fun _ _ _ _ => .pure trivial

theorem nextTurn_safe {copied : Bool} {update : Option Expr} :
    Safe P c w (nextTurn scope copied update) fun _ _ => True := by
  unfold nextTurn
  extract_lets updating
  have hupdating {w' : World} (inner : ScopeId) :
      Safe P c w' (updating inner) fun _ _ => True := by
    cases update with
    | none => exact .pure trivial
    | some e => exact .bind evaluate_safe fun _ _ _ _ => .pure trivial
  exact .ite (fun _ => .bind copyScope_safe fun inner _ _ _ => hupdating inner)
    fun _ => hupdating scope

theorem evaluateFor_safe {init : Option Statement} {test update : Option Expr} {body : Statement}
    {labels : List String} : Safe P c w (evaluateFor scope init test update body labels) Known := by
  refine .bind startFor_safe fun start w₁ _ _ => .bind nextTurn_safe fun first w₂ _ _ => ?_
  refine .loop (I := fun b w' => Met w' b.2) trivial fun r w₃ _ hl => ?_
  obtain ⟨inner, last⟩ := r
  refine .bind checkInterrupts_safe fun _ w₄ h₄ _ => .bind testFor_safe fun goesOn w₅ h₅ _ => ?_
  have hl₅ := (h₄.trans h₅).met hl
  refine .ite (fun _ => .pure (met_loopDone hl₅)) fun _ => .bind (runBody_safe hl₅) fun r w₆ _ hr => ?_
  cases r with
  | inr completion => exact .pure hr
  | inl last => exact .bind nextTurn_safe fun _ _ h₇ _ => .pure (h₇.met hr)

theorem bindHead_safe {kind : Option VarKind} {head : Pattern} {v : Value} (hv : Met w v) :
    Safe P c w (bindHead scope kind head v) fun _ _ => True := by
  have hblock {b : BindingKind} : Safe P c w (do
      let block ← blockDeclaring scope head.boundNames b
      request (.bind block head v .first)
      return block) fun _ _ => True :=
    .bind blockDeclaring_safe fun _ _ h₁ _ => .bind (bindRequest_safe (h₁.met hv))
      fun _ _ _ _ => .pure trivial
  have hassign : Safe P c w (do
      request (.bind scope head v .assign)
      return scope) fun _ _ => True := .bind (bindRequest_safe hv) fun _ _ _ _ => .pure trivial
  match kind with
  | some .let => exact hblock
  | some .const => exact hblock
  | some .var => exact hassign
  | none => exact hassign

omit [Serves P] in
theorem subjectScope_safe {kind : Option VarKind} {head : Pattern} :
    Safe P c w (subjectScope scope kind head) fun _ _ => True := by
  have hblock : Safe P c w (blockDeclaring scope head.boundNames .let) fun _ _ => True :=
    .mono blockDeclaring_safe fun _ _ _ _ => trivial
  match kind with
  | some .let => exact hblock
  | some .const => exact hblock
  | some .var => exact .pure trivial
  | none => exact .pure trivial

theorem visitKeys_safe {kind : Option VarKind} {head : Pattern} {id : ObjectId} {body : Statement}
    {labels names : List String} {last : Option Value} (hl : Met w last) :
    Safe P c w (visitKeys scope kind head id body labels names last) Known := by
  induction names generalizing w last with
  | nil => exact .pure (met_loopDone hl)
  | cons name rest ih =>
    refine .bind checkInterrupts_safe fun _ w₁ h₁ _ => .bind has_safe fun found w₂ h₂ _ => ?_
    have hl₂ := (h₁.trans h₂).met hl
    refine .ite (fun _ => ih hl₂) fun _ => .bind (bindHead_safe trivial) fun inner w₃ h₃ _ => ?_
    refine .bind (runBody_safe (h₃.met hl₂)) fun r w₄ _ hr => ?_
    cases r with
    | inr completion => exact .pure hr
    | inl last => exact ih hr

theorem evaluateForIn_safe {kind : Option VarKind} {head : Pattern} {subject : Expr}
    {body : Statement} {labels : List String} :
    Safe P c w (evaluateForIn scope kind head subject body labels) Known := by
  refine .bind subjectScope_safe fun inner w₁ _ _ => .bind evaluate_safe fun v w₂ _ hv => ?_
  refine .ite (fun _ => .pure trivial) fun _ => .bind (toObject_safe hv) fun id w₃ _ _ => ?_
  exact .bind forInKeys_safe fun _ _ _ _ => visitKeys_safe trivial

theorem itemSource_safe {v : Value} {isAwait : Bool} (hv : Met w v) :
    Safe P c w (itemSource v isAwait) Known := by
  refine .ite (fun _ => .bind (getIterator_safe hv) fun _ _ _ hr => .pure hr) fun _ => ?_
  refine .bind (methodOf_safe hv) fun f w₁ h₁ hf => ?_
  cases f with
  | none => exact .bind (getIterator_safe (h₁.met hv)) fun _ _ _ hr => .pure hr
  | some f =>
    refine .bind (call_safe hf (h₁.met hv) .empty) fun iterator w₂ _ hi => ?_
    refine .ite (fun _ => .raise_bind trivial) fun _ => ?_
    exact .bind (getOf_safe hi) fun _ _ h₃ hn => .pure ⟨h₃.met hi, hn⟩

theorem nextItem_safe {source : ItemSource} (hs : Met w source) :
    Safe P c w (nextItem source) Known := by
  cases source with
  | plain r => exact step_safe hs
  | awaited r =>
    refine .bind (step_safe hs) fun item w₁ _ hi => ?_
    cases item with
    | none => exact .pure trivial
    | some v => exact .bind (awaitValue_safe hi) fun _ _ _ hv => .pure hv
  | asynchronous r =>
    refine .bind checkInterrupts_safe fun _ w₁ h₁ _ => ?_
    have hr : Met w₁ r := h₁.met hs
    refine .bind (call_safe hr.2 hr.1 .empty) fun v w₂ _ hv => ?_
    exact .bind (awaitValue_safe hv) fun _ _ _ hv => readResult_safe hv

theorem closeSource_safe {source : ItemSource} (hs : Met w source) :
    Safe P c w (closeSource source) Known := by
  cases source with
  | plain r => exact close_safe hs
  | awaited r => exact close_safe hs
  | asynchronous r =>
    have hr : Met w r := hs
    refine .bind (methodOf_safe hr.1) fun f w₁ h₁ hf => ?_
    cases f with
    | none => exact .pure trivial
    | some f =>
      refine .bind (call_safe hf (h₁.met hr).1 .empty) fun v w₂ _ hv => ?_
      exact .bind (awaitValue_safe hv) fun _ _ _ _ => .pure trivial

theorem evaluateForOf_safe {kind : Option VarKind} {head : Pattern} {subject : Expr}
    {body : Statement} {isAwait : Bool} {labels : List String} :
    Safe P c w (evaluateForOf scope kind head subject body isAwait labels) Known := by
  refine .bind subjectScope_safe fun inner w₁ _ _ => .bind evaluate_safe fun v w₂ _ hv => ?_
  refine .bind (itemSource_safe hv) fun source w₃ _ hs => ?_
  refine .loop (I := Known) trivial fun last w₄ h₄ hl => ?_
  refine .bind (nextItem_safe (h₄.met hs)) fun item w₅ h₅ hi => ?_
  cases item with
  | none => exact .pure (met_loopDone (h₅.met hl))
  | some item =>
    have hturn : Safe P c w₅ (do runBody (← bindHead scope kind head item) body labels last) Known :=
      .bind (bindHead_safe hi) fun _ _ h₆ _ => runBody_safe ((h₅.trans h₆).met hl)
    refine .attempt hturn (fun _ _ _ _ hk => Safe.passes_raise hk) (fun r w₆ h₆ hr => ?_)
      fun e w₆ h₆ he => closeOnError_safe ((h₄.trans (h₅.trans h₆)).met hs) he
    cases r with
    | inl last => exact .pure hr
    | inr completion =>
      exact .bind (closeSource_safe ((h₄.trans (h₅.trans h₆)).met hs)) fun _ _ h₇ _ =>
        .pure (h₇.met hr)

theorem matchingCases_safe {v : Value} {cases : List SwitchCase} :
    Safe P c w (matchingCases scope v cases) fun _ _ => True := by
  induction cases generalizing w with
  | nil => exact .pure trivial
  | cons clause rest ih =>
    obtain ⟨test, body⟩ := clause
    cases test with
    | none => exact ih
    | some test =>
      exact .bind evaluate_safe fun _ _ _ _ => .ite (fun _ => .pure trivial) fun _ => ih

theorem runCases_safe {cases : List SwitchCase} {last : Option Value} (hl : Met w last) :
    Safe P c w (runCases scope cases last) Known := by
  induction cases generalizing w last with
  | nil => exact .pure hl
  | cons clause rest ih =>
    obtain ⟨test, body⟩ := clause
    refine .bind (evaluateStatements_safe trivial) fun completion w₁ h₁ hc => ?_
    match completion, hc with
    | .normal v, hc => exact ih (met_or hc (h₁.met hl))
    | .break none v, hc => exact .pure (met_or hc (h₁.met hl))
    | .break (some _) v, hc => exact .pure (met_orValue hc (h₁.met hl))
    | .continue label v, hc => exact .pure (met_orValue hc (h₁.met hl))
    | .return v, hc => exact .pure hc

theorem evaluateSwitch_safe {discriminant : Expr} {cases : List SwitchCase} :
    Safe P c w (evaluateSwitch scope discriminant cases) Known := by
  refine .bind evaluate_safe fun v w₁ _ _ => .bind newBlock_safe fun block w₂ _ hs => ?_
  refine .bind (hoistBlock_safe hs) fun functions w₃ _ _ => ?_
  refine .bind matchingCases_safe fun selected w₄ _ _ => ?_
  extract_lets running
  have hrunning (selected : List SwitchCase) : Safe P c w₄ (running selected) Known := by
    refine .bind (runCases_safe trivial) fun completion w₅ _ hc => ?_
    cases completion with
    | normal last => exact .bind copyUpFunctions_safe fun _ _ h₆ _ => .pure (met_loopDone (h₆.met hc))
    | _ => exact .pure hc
  cases selected with
  | none => exact hrunning _
  | some rest => exact hrunning rest

theorem evaluateCatch_safe {param : Option Pattern} {body : List Statement} {thrown : Value}
    (ht : Met w thrown) : Safe P c w (evaluateCatch scope param body thrown) Known := by
  cases param with
  | none => exact .bind newBlock_safe fun _ _ _ _ => evaluateBlock_safe
  | some p =>
    refine .bind blockDeclaring_safe fun block w₁ h₁ _ => ?_
    exact .bind (bindRequest_safe (h₁.met ht)) fun _ _ _ _ => evaluateBlock_safe

omit [Serves P] in
theorem finishTry_passes {finalizer : Option (List Statement)} {k : Condition}
    (hk : Met w k ∧ P.ends w.quiet k w.state) :
    Passes P c w (finishTry scope finalizer (.error (.condition k))) k := by
  cases finalizer with
  | none => exact Safe.passes_raise hk
  | some body => exact Safe.passes_raise hk

theorem finishTry_safe {finalizer : Option (List Statement)} {result : Except Abrupt Completion}
    (hr : Met w result) : Safe P c w (finishTry scope finalizer result) Known := by
  have hend {w' : World} (hl : Later w w') : Safe P c w' (do
      return (← ofExcept result).orValue (some .undefined)) Known := by
    cases result with
    | ok completion => exact .pure (met_orValue (hl.met hr) trivial)
    | error e => exact .raise_bind (hl.met hr)
  unfold finishTry
  cases finalizer with
  | none => exact hend .refl
  | some body =>
    dsimp -zeta only
    extract_lets ending
    have hending : Safe P c w (ending ⟨⟩) Known := by
      refine .bind evaluateBlock_safe fun completion w₁ h₁ hc => ?_
      cases completion with
      | normal v => exact hend h₁
      | _ => exact .pure hc
    cases result with
    | ok completion => exact hending
    | error e => exact .ite (fun _ => .raise_bind hr) fun _ => hending

theorem evaluateTry_safe {block : List Statement} {param : Option Pattern}
    {handler finalizer : Option (List Statement)} :
    Safe P c w (evaluateTry scope block param handler finalizer) Known := by
  refine .attempt evaluateBlock_safe (fun k w₁ _ _ hk => ?_) (fun completion w₁ _ hc => ?_)
    fun e w₁ _ he => ?_
  · cases handler with
    | none => exact finishTry_passes hk
    | some body => exact finishTry_passes hk
  · exact finishTry_safe hc
  · cases handler with
    | none => exact finishTry_safe he
    | some body =>
      refine .ite (fun _ => .bind (thrownValue_safe he) fun thrown w₂ _ ht => ?_)
        fun _ => finishTry_safe he
      exact .attempt (evaluateCatch_safe ht) (fun _ _ _ _ hk => finishTry_passes hk)
        (fun _ _ _ hc => finishTry_safe hc) fun _ _ _ he => finishTry_safe he

theorem evaluateStatement_safe {st : Statement} {labels : List String} :
    Safe P c w (evaluateStatement scope st labels) Known := by
  refine .bind atSpan_safe fun _ w₁ _ _ => .bind observe_safe fun _ w₂ _ _ => ?_
  split
  · exact .bind evaluate_safe fun _ _ _ hv => .pure hv
  · exact .bind (Q := Known) (.forM (fun _ _ _ _ => declareVariable_safe) fun _ _ => trivial)
      fun _ _ _ _ => .pure trivial
  · exact .pure trivial
  · exact .pure trivial
  · refine .bind (.request trivial fun _ _ _ h => h) fun f w₃ _ hf => ?_
    exact .bind (fillName_safe hf) fun _ _ _ _ => .pure trivial
  · exact .pure trivial
  · exact .bind evaluate_safe fun _ _ _ hv => .pure hv
  · exact .bind evaluate_safe fun _ _ _ hv => .pure hv
  · refine .bind evaluate_safe fun v w₃ _ _ => .ite (fun _ => ?_) fun _ => ?_
    · exact .bind statement_safe fun _ _ _ hc => .pure (met_orValue hc trivial)
    · split
      · exact .bind statement_safe fun _ _ _ hc => .pure (met_orValue hc trivial)
      · exact .pure trivial
  · exact evaluateBlock_safe
  · exact .bind evaluate_safe fun _ _ _ hv => .raise hv
  · exact .pure trivial
  · exact .pure trivial
  · refine .bind statement_safe fun completion w₃ _ hc => ?_
    match completion, hc with
    | .break (some l) v, hc =>
      refine .pure ?_
      split
      · exact hc
      · exact hc
    | .break none v, hc => exact .pure hc
    | .normal v, hc => exact .pure hc
    | .continue label v, hc => exact .pure hc
    | .return v, hc => exact .pure hc
  · exact evaluateWhile_safe
  · exact evaluateDoWhile_safe
  · exact evaluateFor_safe
  · exact evaluateForIn_safe
  · exact evaluateForOf_safe
  · exact evaluateSwitch_safe
  · exact evaluateTry_safe
  · exact .context_bind fun _ => .look_bind fun _ => .bind observe_safe fun _ _ _ _ => .pure trivial
  · exact unsupported_safe

/-! Bodies of functions. -/

theorem length_sharedNames {count : Nat} {params : List Pattern} :
    (sharedNames count params).length ≤ count := by
  induction params generalizing count with
  | nil => cases count <;> exact Nat.zero_le _
  | cons p rest ih =>
    cases count with
    | zero => exact Nat.le_refl _
    | succ count => exact Nat.succ_le_succ ih

/-- A table that holds arguments as its elements. -/
structure HoldsArguments (w : World) (args : Array Value) (t : PropertyTable) : Prop where
  met : Met w t
  element : ∀ n, t.get? (.index n) = (args[n.val]?).map .plain

theorem HoldsArguments.put {args : Array Value} {t : PropertyTable} {key : PropertyKey}
    {p : Property} (h : HoldsArguments w args t) (hp : Met w p)
    (hkey : ∀ n, PropertyKey.index n ≠ key) : HoldsArguments w args (t.put key p) where
  met := within_put h.met hp
  element n := by rw [PropertyTable.get?_put, if_neg (hkey n), h.element]

omit [Serves P] in
theorem argumentsObject_safe {f : ObjectId} {node : FunctionNode} {args : Array Value}
    (hs : w.ownsScope scope) (hf : Met w f) (ha : Met w args) :
    Safe P c w (argumentsObject scope f node args) Known := by
  refine .look_bind fun hw => .context_bind fun _ => .look_bind fun hw => ?_
  have hprototype : Met w w.state.intrinsics.objectPrototype :=
    hw.intrinsic (by simp [Intrinsics.toList])
  have helements : HoldsArguments w args ((PropertyTable.ofItems args).put (.name "length")
      (.standard (.ofNat args.size))) :=
    HoldsArguments.put ⟨met_ofItems ha, fun _ => PropertyTable.get?_ofItems⟩ trivial fun _ h => by cases h
  have hvalues : Met w (w.state.peek w.state.intrinsics.arrayPrototype (.name "values")) := met_peek hw
  extract_lets table allocating
  have htable : HoldsArguments w args table := by
    unfold table
    split
    · rename_i values hv
      rw [hv] at hvalues
      have hvalues : Met w values := hvalues
      exact helements.put hvalues fun _ h => by cases h
    · exact helements
  have hallocating {w' : World} {callee : Property} (hl : Later w w') (hc : Met w' callee) :
      Safe P c w' (allocating callee) Known := by
    refine allocate_known
      ⟨trivial, hl.met hprototype, within_put (hl.met htable.met) hc, within_nil⟩ ?_
      (by simp [Object.secret, Object.unstamped, ObjectKind.wakes?])
    refine Object.begins_iff.mpr ⟨rfl, ?_⟩
    cases !c.strict && node.hasSimpleParams with
    | false => trivial
    | true =>
      refine ⟨hl.ownsScope hs, fun key hkey => ?_⟩
      obtain ⟨n, rfl⟩ := ArgumentMap.eq_index hkey
      have hn : n.val < args.size := by
        refine Nat.lt_of_not_le fun hle => ?_
        have hlength : (sharedNames args.size node.params).length ≤ args.size := length_sharedNames
        simp [Object.maps, ArgumentMap.parameter?,
          List.getElem?_eq_none (Nat.le_trans hlength hle)] at hkey
      refine ⟨args[n.val], true, true, ?_⟩
      rw [Object.own?, PropertyTable.get?_put, if_neg (by simp), htable.element]
      simp [hn, Property.plain]
  refine .ite (fun _ => .pure_bind (hallocating .refl hf)) fun _ => ?_
  refine .bind (newCapturing_safe trivial rfl) fun refuse w₁ h₁ hr => .pure_bind ?_
  exact hallocating h₁ ⟨hr, hr⟩

theorem bindParameters_safe {args : Array Value} {i : Nat} {params : List Pattern}
    (ha : Met w args) : Safe P c w (bindParameters scope args i params) Known := by
  induction params generalizing w i with
  | nil => exact .pure trivial
  | cons p rest ih =>
    have hbind {w' : World} (hl : Later w w') (p : Pattern) (v : Value) (hv : Met w' v) :
        Safe P c w' (do
          request (.bind scope p v .first)
          bindParameters scope args (i + 1) rest) Known :=
      .bind (Q := Known) (.request hv fun _ _ _ _ => trivial) fun _ _ h₁ _ => ih ((hl.trans h₁).met ha)
    unfold bindParameters
    split
    · exact .pure trivial
    · rename_i heq
      cases heq
      exact .bind (newArray_safe ha.extract) fun items w₁ h₁ hi => hbind h₁ _ _ hi.met
    · rename_i heq
      cases heq
      exact hbind .refl _ _ (met_argument ha)

omit [Serves P] in
theorem met_filled {args : Array Value} {names : List String} {start sc : Scope} {i : Nat}
    (h : start.Alters sc) (hs : Met w sc) (ha : Met w args) :
    let filled := (names.foldl (fun (sc, i) name => (sc.fill name (argument args i), i + 1)) (sc, i)).1
    start.Alters filled ∧ Met w filled := by
  induction names generalizing sc i with
  | nil => exact ⟨h, hs⟩
  | cons name rest ih => exact ih (.fill name _ h) (met_fill hs (met_argument ha))

theorem bindArguments_safe {node : FunctionNode} {args : Array Value} (hs : w.ownsScope scope)
    (ha : Met w args) : Safe P c w (bindArguments scope node args) Known := by
  refine .ite (fun _ => fun hc hw => ?_) fun _ => bindParameters_safe ha
  have hfilled := @met_filled w args (boundNamesOf node.params) _ _ 0 .refl
    (met_scope hw.closed scope) ha
  exact modifyScope_safe hs hfilled.1 (fun _ => hfilled.2) hc hw

theorem evaluateBody_safe {node : FunctionNode} (hs : w.ownsScope scope) :
    Safe P c w (evaluateBody scope node) Known := by
  unfold evaluateBody
  split
  · exact evaluate_safe
  · refine .bind (hoistVars_safe hs) fun _ w₁ _ _ => ?_
    refine .bind (evaluateStatements_safe trivial) fun completion w₂ _ hc => ?_
    cases completion with
    | «return» v => exact .pure hc
    | _ => exact .pure trivial

theorem evaluateFunction_safe {node : FunctionNode} {f : ObjectId} {args : Array Value}
    (hs : w.ownsScope scope) (hf : Met w f) (ha : Met w args) :
    Safe P c w (evaluateFunction scope node f args) Known := by
  have hbody {w' : World} (hl : Later w w') : Safe P c w' (do
      bindArguments scope node args
      evaluateBody scope node) Known :=
    .bind (bindArguments_safe (hl.ownsScope hs) (hl.met ha)) fun _ w₁ h₁ _ =>
      evaluateBody_safe ((hl.trans h₁).ownsScope hs)
  refine .bind (Q := Known) (.forM (fun _ _ _ hl => bindIn_safe (hl.ownsScope hs) trivial)
    fun _ _ => trivial) fun _ w₁ h₁ _ => .ite (fun _ => ?_) fun _ => hbody h₁
  refine .bind (argumentsObject_safe (h₁.ownsScope hs) (h₁.met hf) (h₁.met ha))
    fun id w₂ h₂ hid => ?_
  exact .bind (bindIn_safe ((h₁.trans h₂).ownsScope hs) hid) fun _ w₃ h₃ _ =>
    hbody ((h₁.trans h₂).trans h₃)

end EcmaScript

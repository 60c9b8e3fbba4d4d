import EcmaScript.Evaluate.Expression
import EcmaScript.Proofs.Safety.Class
import EcmaScript.Proofs.Safety.Promise

/-! Expressions are safe. -/
namespace EcmaScript
open Exec

variable {P : Pairing} {c : Context} {w : World} {scope : ScopeId}

theorem notA_safe {α : Type} {Q : α → World → Prop} {e : Expr} {what : String} :
    Safe P c w (notA e what) Q := .context_bind fun _ => .look_bind fun _ => throwType_safe

theorem notA_bind {α β : Type} {Q : β → World → Prop} {e : Expr} {what : String} {f : α → Exec β} :
    Safe P c w (notA e what >>= f) Q :=
  .bind (Q := fun _ _ => False) notA_safe fun _ _ _ h => h.elim

theorem World.Inv.childless (hw : w.Inv) (ht : w.tracked) {id : ObjectId}
    (hid : w.hidden (.object id)) : w.state.Childless id := by
  intro other hp
  have hprototype : Met w (w.state.object other).prototype := (met_object hw.closed other).2.1
  rw [hp] at hprototype
  exact (hprototype ht).2.1 hid

theorem reparentHidden_safe {target : ObjectId} {prototype : Option ObjectId}
    (hown : w.own (.object target)) (ht : w.owns target) (hnew : w.recent target) (hp : Met w prototype) :
    Safe P c w (modifyObject target fun o => { o with prototype }) Known := by
  refine reparent_safe ht hp (.inl hnew) fun hw htracked => .inr ⟨hw.childless htracked (hw.own _ hown), ?_⟩
  rintro rfl
  exact (hp htracked).2.1 (hw.own _ hown)

variable [Serves P]

theorem chain_safe {e : Expr} : Safe P c w (request (.chain scope e)) Known :=
  .request trivial fun _ _ _ h => h

theorem evaluateChain_safe {e : Expr} : Safe P c w (evaluateChain scope e) Known := by
  unfold evaluateChain
  split
  · refine .bind chain_safe fun r w₁ h₁ hr => ?_
    split
    · exact .pure trivial
    · rename_i base this
      refine .ite (fun _ => .pure trivial) fun _ => ?_
      refine .bind (memberOf_safe hr.1) fun r w₂ h₂ hmember => ?_
      exact .bind (readReference_safe hmember) fun v w₃ h₃ hv =>
        .pure ⟨hv, ((h₂.trans h₃).met hr).1⟩
  · refine .bind superMember_safe fun r w₁ _ hr => ?_
    refine .bind (readReference_safe hr) fun v w₂ h₂ hv => ?_
    split
    · exact .pure ⟨hv, (h₂.met hr).2⟩
    · exact .pure ⟨hv, trivial⟩
  · refine .bind chain_safe fun r w₁ h₁ hr => ?_
    split
    · exact .pure trivial
    · rename_i f this
      refine .ite (fun _ => .pure trivial) fun _ => ?_
      refine .bind evaluateArguments_safe fun args w₂ h₂ ha => .look_bind fun _ => ?_
      refine .ite (fun _ => notA_bind) fun _ => .bind atSpan_safe fun _ w₃ h₃ _ => ?_
      have hr₃ := (h₂.trans h₃).met hr
      exact .bind (call_safe hr₃.1 hr₃.2 (h₃.met ha)) fun _ _ _ hv => .pure ⟨hv, trivial⟩
  · exact .bind evaluate_safe fun _ _ _ hv => .pure ⟨hv, trivial⟩

theorem chainValue_safe {e : Expr} : Safe P c w (chainValue scope e) Known := by
  refine .bind evaluateChain_safe fun r w₁ _ hr => .pure ?_
  cases r with
  | none => trivial
  | some r => exact hr.1

theorem templateText_safe {span : Span} {chunks : List TemplateChunk} {parts : List Expr}
    {out : String} : Safe P c w (templateText scope span chunks parts out) Known := by
  induction chunks generalizing w parts out with
  | nil => exact .pure trivial
  | cons chunk chunks ih =>
    unfold templateText
    split
    · exact throwSyntaxAt_safe
    · cases parts with
      | nil => exact ih
      | cons e parts =>
        exact .bind evaluate_safe fun _ _ _ hv => .bind (toText_safe hv) fun _ _ _ _ => ih

theorem templateObject_safe {place : Nat} {chunks : List TemplateChunk} :
    Safe P c w (templateObject place chunks) Known := by
  refine .context_bind fun _ => .look_bind fun hw => ?_
  split
  · rename_i id hid
    exact .pure (within_lookup hw.closed.templates hid)
  · refine .bind (newArray_safe (Met.toArray fun v hv => ?_)) fun strings w₁ h₁ hstrings => ?_
    · obtain ⟨chunk, -, rfl⟩ := List.mem_map.mp hv
      cases chunk.cooked <;> trivial
    refine .bind (newArray_safe (Met.toArray fun v hv => ?_)) fun raw w₂ h₂ hraw => ?_
    · obtain ⟨chunk, -, rfl⟩ := List.mem_map.mp hv
      trivial
    refine .bind setIntegrity_safe fun _ w₃ h₃ _ => ?_
    have hstrings₃ := (h₂.trans h₃).new hstrings
    refine .bind (buildObject_safe hstrings₃.toMade rfl fun hw => ?_)
      fun _ w₄ h₄ _ => .bind setIntegrity_safe fun _ w₅ h₅ _ => ?_
    · exact met_put (met_object hw.closed strings) (h₃.met hraw.met)
    have hstrings₅ := (h₄.trans h₅).met hstrings₃.met
    exact .bind (Q := Known) (.change (fun _ => .of_act (.template hstrings₅)) fun _ => trivial)
      fun _ w₆ h₆ _ => .pure (h₆.met hstrings₅)

theorem taggedTemplate_safe {span : Span} {tag : Expr} {chunks : List TemplateChunk}
    {parts : List Expr} : Safe P c w (taggedTemplate scope span tag chunks parts) Known := by
  refine .bind chain_safe fun r w₁ h₁ hr => ?_
  have hr : Met w₁ (r.getD (.undefined, .undefined)) := by
    cases r with
    | none => exact ⟨trivial, trivial⟩
    | some r => exact hr
  refine .bind templateObject_safe fun strings w₂ h₂ hs => ?_
  refine .bind (appendItems_safe (fun _ _ h => h) (fun _ => trivial) (.one hs)) fun args w₃ h₃ ha => ?_
  refine .look_bind fun _ => .ite (fun _ => notA_bind) fun _ => .bind atSpan_safe fun _ w₄ h₄ _ => ?_
  have hr₄ := (h₂.trans (h₃.trans h₄)).met hr
  exact call_safe hr₄.1 hr₄.2 (h₄.met ha)

theorem addMember_safe {target : ObjectId} {m : Member} (hown : w.own (.object target))
    (ht : w.owns target) (hnew : w.recent target) : Safe P c w (addMember scope target m) Known := by
  have hproperty (key : Key) (value : Expr) : Safe P c w (do
      let key ← keyOf scope key
      createOrThrow target key (← evaluateNamed scope value key.functionName)) Known :=
    .bind keyOf_safe fun _ _ _ _ => .bind evaluateNamed_safe fun _ _ _ hv => createOrThrow_safe hv
  unfold addMember
  split
  · refine .bind evaluate_safe fun v w₁ h₁ hv => ?_
    have hown₁ : w₁.own (.object target) := h₁.own ▸ hown
    split
    · exact reparentHidden_safe hown₁ (h₁.owns ht) (h₁.recent hnew) hv
    · exact reparentHidden_safe hown₁ (h₁.owns ht) (h₁.recent hnew) trivial
    · exact .pure trivial
  · exact hproperty _ _
  · exact throwSyntaxAt_safe
  · exact .bind evaluate_safe fun _ _ _ hv => copyProperties_safe hv
  · refine .bind keyOf_safe fun key w₁ h₁ _ => .bind newFunction_safe fun f w₂ h₂ hf => ?_
    exact .bind (nameFunction_safe hf) fun _ w₃ h₃ _ => defineMethod_safe (h₃.met hf.met)
  · exact .pure trivial
  · exact .pure trivial

theorem objectLiteral_safe {members : List Member} : Safe P c w (do
    let id ← newObject []
    members.forM (addMember scope id)
    return Value.object id) Known := by
  unfold newObject
  rw [Exec.bind_assoc]
  refine .look_bind fun hw => ?_
  refine .allocate_hidden ?_ trivial (?_ : Safe P c _ _ fun v _ => v = .object ⟨w.state.heap.size⟩) ?_
  · exact ⟨trivial, hw.intrinsic (by simp [Intrinsics.toList]), within_emptyTable, within_nil⟩
  · refine .bind (Q := Known) (.forM (fun m _ w₁ h₁ => ?_) fun _ _ => trivial)
      fun _ _ _ _ => .pure rfl
    refine addMember_safe (h₁.own ▸ .inr rfl) (fun d hd => ?_) (h₁.recent hw.since)
    exact (hw.dry d (h₁.dry ▸ hd)).objects
  · rintro v w₁ hg _ rfl _
    refine ⟨Nat.lt_of_lt_of_le (by simp [World.hide, World.push]) hg.objects, fun h => h.2 rfl,
      fun hs => ?_⟩
    have hs := hg.secrets ⟨w.state.heap.size⟩ (by simp [World.hide, World.push]) hs
    rw [World.hide, World.push, State.object_push, if_pos rfl] at hs
    have hfresh : ObjectKind.ordinary.Fresh := trivial
    exact hfresh.not_secret hs

theorem deleteExpression_safe {operand : Expr} : Safe P c w (deleteExpression scope operand) Known := by
  unfold deleteExpression
  split
  · refine .bind evaluate_safe fun base w₁ _ hb => .bind keyOf_safe fun key w₂ h₂ _ => ?_
    refine .bind (toObject_safe (h₂.met hb)) fun id w₃ _ _ => .bind delete_safe fun deleted w₄ _ _ => ?_
    refine .context_bind fun _ => .ite (fun _ => .look_bind fun _ => .raise_bind trivial) fun _ => ?_
    exact .pure trivial
  · exact throwReference_safe
  · refine .look_bind fun _ => .ite (fun _ => .pure trivial) fun _ => ?_
    exact .bind globalObject_safe fun _ _ _ _ => .bind delete_safe fun _ _ _ _ => .pure trivial
  · refine .bind chain_safe fun r w₁ _ _ => .ite (fun _ => halt_bind trivial) fun _ => ?_
    exact .pure trivial
  · exact .bind evaluate_safe fun _ _ _ _ => .pure trivial

theorem typeOfExpression_safe {operand : Expr} : Safe P c w (typeOfExpression scope operand) Known := by
  have htype {w' : World} (undeclared : Bool) : Safe P c w' (do
      if undeclared then return Value.string "undefined"
      let v ← evaluate scope operand
      return .string (← look (·.typeOf v))) Known :=
    .ite (fun _ => .pure trivial) fun _ => .bind evaluate_safe fun _ _ _ _ => .look_bind
      fun _ => .pure trivial
  unfold typeOfExpression
  dsimp only
  split
  · refine .look_bind fun _ => .ite (fun _ => htype false) fun _ => ?_
    exact .bind globalObject_safe fun _ _ _ _ => .bind has_safe fun _ _ _ _ => htype _
  · exact htype false

theorem evaluateUnary_safe {op : UnaryOp} {operand : Expr} :
    Safe P c w (evaluateUnary scope op operand) Known := by
  have hnumber {f : Float → Value} (hf : ∀ w x, Met w (f x)) : Safe P c w (do
      return f (← toNumber (← evaluate scope operand))) Known :=
    .bind evaluate_safe fun _ _ _ hv => .bind (toNumber_safe hv) fun _ w' _ _ => .pure (hf w' _)
  cases op with
  | delete => exact deleteExpression_safe
  | typeOf => exact typeOfExpression_safe
  | minus => exact hnumber (f := fun x => .number (-x)) fun _ _ => trivial
  | plus => exact hnumber (f := .number) fun _ _ => trivial
  | not => exact .bind evaluate_safe fun _ _ _ _ => .pure trivial
  | bitNot =>
    exact .bind evaluate_safe fun _ _ _ hv => .bind (toInt32_safe hv) fun _ _ _ _ => .pure trivial
  | void => exact .bind evaluate_safe fun _ _ _ _ => .pure trivial

theorem evaluateUpdate_safe {increment before : Bool} {target : Expr} :
    Safe P c w (evaluateUpdate scope increment before target) Known := by
  refine .bind referenceTo_safe fun r w₁ _ hr => .bind (readReference_safe hr) fun v w₂ h₂ hv => ?_
  refine .bind (toNumber_safe hv) fun old w₃ h₃ _ => ?_
  exact .bind (writeReference_safe ((h₂.trans h₃).met hr) trivial) fun _ _ _ _ => .pure trivial

theorem evaluateAssign_safe {target : Pattern} {value : Expr} :
    Safe P c w (evaluateAssign scope target value) Known := by
  unfold evaluateAssign
  split
  · refine .bind evaluateNamed_safe fun v w₁ _ hv => ?_
    exact .bind (assignName_safe hv) fun _ _ h₂ _ => .pure (h₂.met hv)
  · refine .bind referenceTo_safe fun r w₁ _ hr => .bind evaluate_safe fun v w₂ h₂ hv => ?_
    exact .bind (writeReference_safe (h₂.met hr) hv) fun _ _ h₃ _ => .pure (h₃.met hv)
  · refine .bind evaluate_safe fun v w₁ _ hv => ?_
    exact .bind (bindRequest_safe hv) fun _ _ h₂ _ => .pure (h₂.met hv)

theorem evaluateCompound_safe {op : AssignOp} {target value : Expr} :
    Safe P c w (evaluateCompound scope op target value) Known := by
  refine .bind referenceTo_safe fun r w₁ _ hr => ?_
  refine .bind (readReference_safe hr) fun current w₂ h₂ hcurrent => ?_
  have hwrite {w' : World} (hl : Later w₂ w') (v : Value) (hv : Met w' v) : Safe P c w' (do
      writeReference scope r v
      return v) Known :=
    .bind (writeReference_safe ((h₂.trans hl).met hr) hv) fun _ _ h _ => .pure (h.met hv)
  split
  · refine .ite (fun _ => .pure hcurrent) fun _ => ?_
    split
    · exact .bind evaluateNamed_safe fun v w₃ h₃ hv => hwrite h₃ v hv
    · exact .bind evaluate_safe fun v w₃ h₃ hv => hwrite h₃ v hv
  · refine .bind evaluate_safe fun v w₃ h₃ hv => ?_
    exact .bind (applyBinary_safe (h₃.met hcurrent) hv) fun v w₄ h₄ hv => hwrite (h₃.trans h₄) v hv
  · exact halt_safe trivial

theorem evaluateSequence_safe {parts : List Expr} :
    Safe P c w (evaluateSequence scope parts) Known := by
  induction parts generalizing w with
  | nil => exact .pure trivial
  | cons e rest ih =>
    cases rest with
    | nil => exact evaluate_safe
    | cons e' rest => exact .bind evaluate_safe fun _ _ _ _ => ih

theorem hasPrivateIn_safe {name : String} {target : Expr} {span : Span} :
    Safe P c w (hasPrivateIn scope name target span) Known := by
  refine .bind privateName_safe fun name w₁ _ _ => .bind evaluate_safe fun v w₂ _ _ => ?_
  split
  · exact .look_bind fun _ => .pure trivial
  · exact throwType_safe

theorem awaitExpression_safe {operand : Expr} : Safe P c w (do
    let slot ← slotFor (← evaluate scope operand)
    let outcome ← attempt (waitFor slot)
    checkInterrupts
    ofExcept outcome) Known := by
  refine .bind evaluate_safe fun v w₁ _ hv => .bind (slotFor_safe hv) fun slot w₂ _ hopen => ?_
  refine .attempt_locked (waitFor_safe hopen) (fun v w₃ _ hv => ?_) fun e w₃ _ he => ?_
  · exact .bind checkInterrupts_safe fun _ w₄ h₄ _ => .pure (h₄.met hv)
  · exact .bind checkInterrupts_safe fun _ w₄ h₄ _ => .raise (h₄.met he)

theorem evaluateExpression_safe {e : Expr} : Safe P c w (evaluateExpression scope e) Known := by
  unfold evaluateExpression
  split
  · exact .pure trivial
  · exact .pure trivial
  · exact .pure trivial
  · exact .pure trivial
  · exact unsupported_safe
  · exact unsupported_safe
  · exact .bind templateText_safe fun _ _ _ _ => .pure trivial
  · exact taggedTemplate_safe
  · exact readName_safe
  · exact thisValue_safe
  · refine .look_bind fun hw => .pure ?_
    cases ha : (w.state.scope (w.state.thisScope scope)).activation? with
    | none => trivial
    | some a => exact (met_activation hw ha).2.1
  · refine .bind (appendItems_safe (fun _ _ h => h) (fun _ => trivial) .empty) fun items w₁ _ hi => ?_
    exact .bind (newSparseArray_safe hi) fun _ _ _ hid => .pure hid.met
  · exact objectLiteral_safe
  · exact functionValue_safe
  · exact .bind (.request trivial fun _ _ _ h => h) fun _ _ _ hid => .pure hid
  · exact evaluateUnary_safe
  · exact evaluateUpdate_safe
  · exact .bind evaluate_safe fun a w₁ _ ha => .bind evaluate_safe fun b w₂ h₂ hb =>
      applyBinary_safe (h₂.met ha) hb
  · exact .bind evaluate_safe fun a w₁ _ ha => .ite (fun _ => .pure ha) fun _ => evaluate_safe
  · exact hasPrivateIn_safe
  · exact evaluateAssign_safe
  · exact evaluateCompound_safe
  · exact .bind evaluate_safe fun _ _ _ _ => .ite (fun _ => evaluate_safe) fun _ => evaluate_safe
  · exact chainValue_safe
  · exact chainValue_safe
  · exact chainValue_safe
  · exact chainValue_safe
  · refine .bind evaluateArguments_safe fun args w₁ _ ha => .bind atSpan_safe fun _ w₂ h₂ _ => ?_
    exact callSuper_safe (h₂.met ha)
  · refine .bind evaluate_safe fun f w₁ _ hf => .bind evaluateArguments_safe fun args w₂ h₂ ha => ?_
    refine .look_bind fun _ => .ite (fun _ => notA_bind) fun _ => .bind atSpan_safe fun _ w₃ h₃ _ => ?_
    have hf₃ := (h₂.trans h₃).met hf
    exact construct_safe hf₃ (h₃.met ha) hf₃
  · exact evaluateSequence_safe
  · exact awaitExpression_safe
  · exact unsupported_safe
  · exact .pure trivial
  · exact evaluate_safe

end EcmaScript

import EcmaScript.Evaluate.Operator
import EcmaScript.Evaluate.Reference
import EcmaScript.Proofs.Safety.Names

/-! Places, patterns and operators are safe. -/
namespace EcmaScript
open Exec

instance : Mentions Reference where
  within K
    | .name _ => True
    | .property base _ this => within K (base, this)
    | .hidden base _ => within K base
  mono {_ _ a} h ha := by cases a <;> first | exact Mentions.mono h ha | trivial
  all {_ a} h := by cases a <;> first | exact Mentions.all h | trivial

variable {P : Pairing} {c : Context} {w : World} {scope : ScopeId}

theorem met_ofObject {id : Option ObjectId} (h : Met w id) : Met w (Value.ofObject? id) := by
  cases id with
  | none => trivial
  | some id => exact h

theorem met_putPrivate {o : Object} {name : PrivateName} {element : PrivateElement} (ho : Met w o)
    (he : Met w element) : Met w (o.putPrivate name element) := by
  unfold Object.putPrivate
  split
  · refine ⟨ho.1, ho.2.1, ho.2.2.1, fun e hmem => ?_⟩
    obtain ⟨e', hmem', rfl⟩ := List.mem_map.mp hmem
    split
    · exact ⟨trivial, he⟩
    · exact ho.2.2.2 e' hmem'
  · exact ⟨ho.1, ho.2.1, ho.2.2.1,
      within_append.mpr ⟨ho.2.2.2, within_cons.mpr ⟨⟨trivial, he⟩, within_nil⟩⟩⟩

theorem met_private {o : Object} {name : PrivateName} {element : PrivateElement} (ho : Met w o)
    (h : o.private? name = some element) : Met w element := within_lookup ho.2.2.2 h

theorem undeclaredPrivate_safe {α : Type} {Q : α → World → Prop} {verb preposition : String}
    {name : PrivateName} : Safe P c w (undeclaredPrivate verb preposition name) Q := throwType_safe

theorem privateName_safe {name : String} {span : Span} :
    Safe P c w (privateName scope name span) Known := by
  refine .look_bind fun _ => ?_
  split
  · exact .pure trivial
  · exact throwSyntaxAt_safe

theorem functionValue_safe {node : FunctionNode} {hint : String} :
    Safe P c w (functionValue scope node hint) Known := by
  unfold functionValue
  split
  · refine .bind newBlock_safe fun inner w₁ _ hs => ?_
    refine .bind (bindIn_safe hs trivial) fun _ w₂ h₂ _ => .bind newFunction_safe fun f w₃ h₃ hf => ?_
    refine .bind (modifyScope_safe ((h₂.trans h₃).ownsScope hs) (.fill _ _ .refl) fun hw => ?_)
      fun _ w₄ h₄ _ => .pure (h₄.met hf.met)
    exact met_fill (met_scope hw.closed inner) hf.met
  · exact .bind newFunction_safe fun _ _ _ hf => .pure hf.met

variable [Serves P]

theorem readPrivate_safe {base : Value} {name : PrivateName} (hb : Met w base) :
    Safe P c w (readPrivate base name) Known := by
  cases base with
  | object id =>
    refine .look_bind fun hw => ?_
    have hmet {element : PrivateElement} (h : (w.state.object id).private? name = some element) :=
      met_private (met_object hw.closed id) h
    split
    · exact .pure (hmet ‹_›)
    · exact .pure (hmet ‹_›)
    · rename_i getter setter h
      have hgetter : Met w (some getter, setter) := hmet h
      exact call_safe hgetter.1 hb .empty
    · exact throwType_safe
    · exact undeclaredPrivate_safe
  | _ => exact undeclaredPrivate_safe

theorem writePrivate_safe {base v : Value} {name : PrivateName} (hb : Met w base) (hv : Met w v) :
    Safe P c w (writePrivate base name v) Known := by
  cases base with
  | object id =>
    refine .look_bind fun hw => ?_
    have hmet {element : PrivateElement} (h : (w.state.object id).private? name = some element) :=
      met_private (met_object hw.closed id) h
    split
    · rename_i hold
      refine checkObjectWrite_bind fun hid => ?_
      have hold : (w.state.object id).hasPrivate name = true := by
        simp only [Object.hasPrivate, hold, Option.isSome_some]
      refine modifyObject_safe hid (fun _ => .putPrivate .refl (.inl hold)) fun hw => ?_
      have hfield : Met w (PrivateElement.field v) := hv
      exact met_putPrivate (met_object hw.closed id) hfield
    · exact throwType_safe
    · rename_i getter setter h
      have hsetter : Met w (getter, some setter) := hmet h
      exact .bind (call_safe hsetter.2 hb (.one hv)) fun _ _ _ _ => .pure trivial
    · exact throwType_safe
    · exact undeclaredPrivate_safe
  | _ => exact undeclaredPrivate_safe

theorem keyOf_safe {key : Key} : Safe P c w (keyOf scope key) Known := by
  cases key with
  | fixed name => exact .pure trivial
  | computed e => exact .bind evaluate_safe fun _ _ _ hv => toKey_safe hv
  | hidden name => exact halt_safe trivial

theorem memberOf_safe {base : Value} {key : Key} {span : Span} (hb : Met w base) :
    Safe P c w (memberOf scope base key span) Known := by
  cases key with
  | hidden name => exact .bind privateName_safe fun _ _ h₁ _ => .pure (h₁.met hb)
  | fixed name => exact .bind keyOf_safe fun _ _ h₁ _ => .pure ⟨h₁.met hb, h₁.met hb⟩
  | computed e => exact .bind keyOf_safe fun _ _ h₁ _ => .pure ⟨h₁.met hb, h₁.met hb⟩

theorem superMember_safe {key : Key} : Safe P c w (superMember scope key) Known := by
  refine .look_bind fun _ => ?_
  split
  · exact throwReference_safe
  · rename_i home _
    refine .bind thisValue_safe fun this w₁ _ hthis => .look_bind fun hw => ?_
    have hprototype : Met w₁ (w₁.state.object home).prototype := (met_object hw.closed home).2.1
    have hbase := met_ofObject hprototype
    exact .bind keyOf_safe fun key w₂ h₂ _ => .pure ⟨h₂.met hbase, h₂.met hthis⟩

theorem referenceTo_safe {e : Expr} : Safe P c w (referenceTo scope e) Known := by
  unfold referenceTo
  split
  · exact .pure trivial
  · exact .bind evaluate_safe fun _ _ _ hb => memberOf_safe hb
  · exact superMember_safe
  · exact throwSyntaxAt_safe

theorem readReference_safe {r : Reference} (hr : Met w r) :
    Safe P c w (readReference scope r) Known := by
  cases r with
  | name name => exact readName_safe
  | property base key this =>
    cases base with
    | object id => exact getFor_safe hr.2
    | _ => exact getOf_safe hr.1
  | hidden base name => exact readPrivate_safe hr

theorem writeReference_safe {r : Reference} {v : Value} (hr : Met w r) (hv : Met w v) :
    Safe P c w (writeReference scope r v) Known := by
  refine .context_bind fun _ => ?_
  cases r with
  | name name => exact assignName_safe hv
  | property base key this =>
    cases base with
    | object id =>
      refine .bind (setFor_safe hv hr.2) fun outcome w₁ _ _ => ?_
      exact .ite (fun _ => .look_bind fun _ => throwType_safe) fun _ => .pure trivial
    | _ => exact putOf_safe hr.1 hv
  | hidden base name => exact writePrivate_safe hr hv

theorem evaluateNamed_safe {e : Expr} {name : String} :
    Safe P c w (evaluateNamed scope e name) Known := by
  unfold evaluateNamed
  split
  · exact .ite (fun _ => functionValue_safe) fun _ => evaluate_safe
  · refine .ite (fun _ => ?_) fun _ => evaluate_safe
    exact .bind (.request trivial fun _ _ _ h => h) fun _ _ _ hid => .pure hid
  · exact evaluate_safe

/-- The items of an iterator that are left. -/
theorem collectItems_safe {α : Type} [Mentions α] {r : IteratorRecord} {item : Value → α}
    {out : Array α} (hr : Met w r) (hitem : ∀ w v, Met w v → Met w (item v)) (hout : Met w out) :
    Safe P c w (loop out fun out => do
      match ← step r with
      | some v => return .inl (out.push (item v))
      | none => return .inr out) Known := by
  refine .loop (I := Known) hout fun out w₁ h₁ hout => ?_
  refine .bind (step_safe (h₁.met hr)) fun v w₂ h₂ hv => ?_
  cases v with
  | none => exact .pure (h₂.met hout)
  | some v => exact .pure (within_push (h₂.met hout) (hitem w₂ v hv))

theorem appendItems_safe {α : Type} [Mentions α] {item : Value → α} {hole : α}
    {exprs : List Expr} {out : Array α} (hitem : ∀ w v, Met w v → Met w (item v))
    (hhole : ∀ w, Met w hole) (hout : Met w out) :
    Safe P c w (appendItems scope item hole exprs out) Known := by
  induction exprs generalizing w out with
  | nil => exact .pure hout
  | cons e rest ih =>
    unfold appendItems
    split
    · exact ih (within_push hout (hhole w))
    · refine .bind evaluate_safe fun v w₁ h₁ hv => .bind (getIterator_safe hv) fun r w₂ h₂ hr => ?_
      exact .bind (collectItems_safe hr hitem ((h₁.trans h₂).met hout)) fun _ _ _ hout => ih hout
    · exact .bind evaluate_safe fun v w₁ h₁ hv => ih (within_push (h₁.met hout) (hitem w₁ v hv))

theorem evaluateArguments_safe {args : List Expr} :
    Safe P c w (evaluateArguments scope args) Known :=
  appendItems_safe (fun _ _ h => h) (fun _ => trivial) .empty

/-! Patterns. -/

theorem bindRequest_safe {p : Pattern} {v : Value} {mode : BindingMode} (hv : Met w v) :
    Safe P c w (request (.bind scope p v mode)) Known := .request hv fun _ _ _ _ => trivial

theorem bindElements_safe {mode : BindingMode} {r : IteratorRecord} {ended : Bool}
    {elements : List Pattern} (hr : Met w r) :
    Safe P c w (bindElements scope mode r ended elements) Known := by
  induction elements generalizing w ended with
  | nil => exact .ite (fun _ => .pure trivial) fun _ => close_safe hr
  | cons p rest ih =>
    cases p with
    | rest target =>
      have hbind {w' : World} (items : Array Value) (hi : Met w' items) : Safe P c w' (do
          request (.bind scope target (.object (← newArray items)) mode)) Known :=
        .bind (newArray_safe hi) fun _ _ _ hid => bindRequest_safe hid.met
      refine .ite (fun _ => hbind #[] .empty) fun _ => ?_
      exact .bind (collectItems_safe hr (fun _ _ h => h) .empty) fun items w₁ _ hi => hbind items hi
    | hole =>
      exact .ite (fun _ => ih hr) fun _ => .bind (step_safe hr) fun _ _ h₁ _ => ih (h₁.met hr)
    | _ =>
      unfold bindElements
      extract_lets binding
      have hbinding {w' : World} (hl : Later w w') (item : Option Value) (hitem : Met w' item) :
          Safe P c w' (binding item) Known := by
        refine .attempt (bindRequest_safe (met_getD hitem)) (fun k w₁ _ _ hk => ?_)
          (fun _ w₁ h₁ _ => ih ((hl.trans h₁).met hr)) fun e w₁ h₁ he => ?_
        · dsimp only
          split
          · exact Safe.passes_raise hk
          · exact Safe.passes_raise hk
        · exact .ite (fun _ => .raise he) fun _ => closeOnError_safe ((hl.trans h₁).met hr) he
      refine .ite (fun _ => hbinding .refl none trivial) fun _ => ?_
      exact .bind (step_safe hr) fun item w₁ h₁ hitem => hbinding h₁ item hitem

theorem bindProperties_safe {mode : BindingMode} {v : Value} {used : List PropertyKey}
    {patterns : List Pattern} (hv : Met w v) :
    Safe P c w (bindProperties scope mode v used patterns) Known := by
  induction patterns generalizing w used with
  | nil => exact .pure trivial
  | cons p rest ih =>
    cases p with
    | property name target =>
      refine .bind keyOf_safe fun key w₁ h₁ _ => .bind (getOf_safe (h₁.met hv)) fun item w₂ h₂ hi => ?_
      exact .bind (bindRequest_safe hi) fun _ w₃ h₃ _ => ih ((h₁.trans (h₂.trans h₃)).met hv)
    | rest target =>
      refine .bind (newObject_safe within_nil) fun id w₁ h₁ hid => ?_
      refine .bind (copyProperties_safe (h₁.met hv)) fun _ w₂ h₂ _ => ?_
      exact .bind (bindRequest_safe (h₂.met hid.met)) fun _ w₃ h₃ _ =>
        ih ((h₁.trans (h₂.trans h₃)).met hv)
    | _ => exact ih hv

theorem bindPattern_safe {pattern : Pattern} {v : Value} {mode : BindingMode} (hv : Met w v) :
    Safe P c w (bindPattern scope pattern v mode) Known := by
  cases pattern with
  | identifier name => exact bindName_safe hv
  | place target =>
    exact .bind referenceTo_safe fun r w₁ h₁ hr => writeReference_safe hr (h₁.met hv)
  | fallback target default =>
    refine .ite (fun _ => ?_) fun _ => bindRequest_safe hv
    split
    · exact .bind evaluateNamed_safe fun _ _ _ hv => bindRequest_safe hv
    · exact .bind evaluateNamed_safe fun _ _ _ hv => bindRequest_safe hv
  | array elements => exact .bind (getIterator_safe hv) fun _ _ _ hr => bindElements_safe hr
  | object properties =>
    exact .ite (fun _ => .raise_bind trivial) fun _ => bindProperties_safe hv
  | rest target => exact bindRequest_safe hv
  | property key target => exact bindRequest_safe hv
  | hole => exact .pure trivial

/-! Operators. -/

omit [Serves P] in
theorem primitiveLess_safe {a b : Value} : Safe P c w (primitiveLess a b) Known := by
  unfold primitiveLess
  split
  · exact .pure trivial
  · exact .bind primitiveToNumber_safe fun _ _ _ _ => .bind primitiveToNumber_safe
      fun _ _ _ _ => .pure (met_option fun _ _ => trivial)

theorem less_safe {a b : Value} (ha : Met w a) (hb : Met w b) : Safe P c w (less a b) Known :=
  .bind (toPrimitive_safe ha) fun _ _ h₁ _ => .bind (toPrimitive_safe (h₁.met hb))
    fun _ _ _ _ => primitiveLess_safe

theorem greater_safe {a b : Value} (ha : Met w a) (hb : Met w b) : Safe P c w (greater a b) Known :=
  .bind (toPrimitive_safe ha) fun _ _ h₁ _ => .bind (toPrimitive_safe (h₁.met hb))
    fun _ _ _ _ => primitiveLess_safe

theorem arithmetic_safe {f : Float → Float → Float} {a b : Value} (ha : Met w a) (hb : Met w b) :
    Safe P c w (arithmetic f a b) Known :=
  .bind (toNumber_safe ha) fun _ _ h₁ _ => .bind (toNumber_safe (h₁.met hb))
    fun _ _ _ _ => .pure trivial

theorem bitwise_safe {f : Int32 → Int32 → Int32} {a b : Value} (ha : Met w a) (hb : Met w b) :
    Safe P c w (bitwise f a b) Known :=
  .bind (toInt32_safe ha) fun _ _ h₁ _ => .bind (toInt32_safe (h₁.met hb))
    fun _ _ _ _ => .pure trivial

theorem add_safe {a b : Value} (ha : Met w a) (hb : Met w b) : Safe P c w (add a b) Known := by
  refine .bind (toPrimitive_safe ha) fun x w₁ h₁ _ => ?_
  refine .bind (toPrimitive_safe (h₁.met hb)) fun y w₂ _ _ => ?_
  split
  · exact .bind primitiveToText_safe fun _ _ _ _ => .pure trivial
  · exact .bind primitiveToText_safe fun _ _ _ _ => .pure trivial
  · exact .bind primitiveToNumber_safe fun _ _ _ _ => .bind primitiveToNumber_safe
      fun _ _ _ _ => .pure trivial

theorem shiftBy_safe {v : Value} (hv : Met w v) : Safe P c w (shiftBy v) Known :=
  .bind (toUInt32_safe hv) fun _ _ _ _ => .pure trivial

theorem applyBinary_safe {op : BinaryOp} {a b : Value} (ha : Met w a) (hb : Met w b) :
    Safe P c w (applyBinary op a b) Known := by
  have hshift {α : Type} [Mentions α] {x : Exec α} {f : α → UInt32 → Float}
      (hx : Safe P c w x Known) : Safe P c w (do
        let a ← x
        return Value.number (f a (← shiftBy b))) Known :=
    .bind hx fun _ _ h₁ _ => .bind (shiftBy_safe (h₁.met hb)) fun _ _ _ _ => .pure trivial
  cases op with
  | add => exact add_safe ha hb
  | sub => exact arithmetic_safe ha hb
  | mul => exact arithmetic_safe ha hb
  | div => exact arithmetic_safe ha hb
  | mod => exact arithmetic_safe ha hb
  | exp => exact arithmetic_safe ha hb
  | shl => exact hshift (toInt32_safe ha)
  | shr => exact hshift (toInt32_safe ha)
  | ushr => exact hshift (toUInt32_safe ha)
  | bitAnd => exact bitwise_safe ha hb
  | bitOr => exact bitwise_safe ha hb
  | bitXor => exact bitwise_safe ha hb
  | equal => exact .bind (looseEq_safe ha hb) fun _ _ _ _ => .pure trivial
  | notEqual => exact .bind (looseEq_safe ha hb) fun _ _ _ _ => .pure trivial
  | strictEqual => exact .pure trivial
  | strictNotEqual => exact .pure trivial
  | less => exact .bind (less_safe ha hb) fun _ _ _ _ => .pure trivial
  | greater => exact .bind (greater_safe ha hb) fun _ _ _ _ => .pure trivial
  | lessEqual => exact .bind (greater_safe ha hb) fun _ _ _ _ => .pure trivial
  | greaterEqual => exact .bind (less_safe ha hb) fun _ _ _ _ => .pure trivial
  | instanceOf => exact .bind (instanceOf_safe ha hb) fun _ _ _ _ => .pure trivial
  | isIn => exact .bind (hasIn_safe ha) fun _ _ _ _ => .pure trivial

end EcmaScript

import EcmaScript.Evaluate.Class
import EcmaScript.Evaluate.Expression
import EcmaScript.Proofs.Level.Reference

/-! Classes leave the call stack as they find it. Their constructors never wait. -/
namespace EcmaScript.Exec
variable {P : Watch} {W : Prop} {p : Place} {α : Type}

@[grind ←] theorem declarePrivate_level {scope : ScopeId} {name : String} :
    Level P W (declarePrivate scope name) := by
  refine .update fun s L hs => ?_
  split
  · exact hs
  · exact hs.aside rfl rfl rfl rfl

@[grind ←] theorem addPrivate_level {id : ObjectId} {name : PrivateName} {element : PrivateElement} :
    Level P W (addPrivate id name element) := by
  grind [addPrivate, Object.kind_putPrivate]

@[grind ←] theorem defineField_level {target : ObjectId} {key : FieldKey} {v : Value} :
    Level P W (defineField target key v) := by
  unfold defineField
  grind

@[grind ←] theorem initialValue_level {initializer : Option Value} {this : Value} :
    Level P W (initialValue initializer this) := by
  unfold initialValue
  grind

@[grind ←] theorem addInstanceElements_level {this constructor : ObjectId} :
    Level P W (addInstanceElements this constructor) := by
  refine object_bind fun o => ?_
  split
  · refine .bind (.forM fun e _ => ?_) fun _ => .forM fun e _ => ?_
    · cases e <;> grind
    · cases e <;> grind
  · exact .pure

theorem heritageOf_level {scope : ScopeId} {heritage : Option Expr} (hp : P.Hosts W p)
    (hheritage : Calm W (sitesOfExpr? p heritage)) : Level P W (heritageOf scope heritage) := by
  refine intrinsics_level.bind fun i => ?_
  cases heritage with
  | none => exact .pure
  | some e =>
    refine .bind (evaluate_level hp hheritage) fun v => ?_
    cases v <;> grind

grind_pattern heritageOf_level => Level P W (heritageOf scope heritage), P.Hosts W p,
  Calm W (sitesOfExpr? p heritage)

theorem addElement_level {scope : ScopeId} {constructor prototype : ObjectId}
    {pending : PendingElements} {m : Member} (hp : P.Hosts W p) (hm : Calm W (m.sites p)) :
    Level P W (addElement scope constructor prototype pending m) := by
  cases m with
  | method key kind isStatic node =>
    obtain ⟨hkey, hnode⟩ : Calm W (key.sites p) ∧ Calm W node.sites := by simpa using hm
    refine (newFunction_level hnode.lawful).bind fun f => ?_
    split
    · grind [Object.kind_putPrivate]
    · refine (keyOf_level hp hkey).bind fun key => ?_
      grind
  | field key isStatic initializer =>
    obtain ⟨hkey, hinitializer⟩ : Calm W (key.sites p) ∧ Calm W (sitesOfPlain? initializer) := by
      simpa using hm
    have hkeyOf : Level P W (keyOf scope key) := keyOf_level hp hkey
    have hnew {node : FunctionNode} {home : Option ObjectId} (h : initializer = some node) :
        Level P W (newFunction node scope "" home) := newFunction_level (Calm.plain (h ▸ hinitializer)).lawful
    unfold addElement
    dsimp only
    split
    · refine (declarePrivate_level).bind fun name => .bind .pure fun key => ?_
      cases initializer <;> grind
    · refine hkeyOf.bind fun name => .bind .pure fun key => ?_
      cases initializer <;> grind
  | staticBlock node => exact (newFunction_level (Calm.plain hm).lawful).bind fun f => .pure
  | _ => exact .pure

@[grind ←] theorem classScope_level {scope : ScopeId} {node : ClassNode} :
    Level P W (classScope scope node) := by
  unfold classScope
  extract_lets rest
  have hrest : Level P W (rest ()) := by
    refine newBlock_level.bind fun inner => ?_
    extract_lets declare
    have hdeclare : Level P W (declare ()) := by
      refine .bind (.forM fun m _ => ?_) fun _ => .pure
      split
      · exact (declarePrivate_level).bind fun _ => .pure
      · exact .pure
    split
    · exact bindIn_level.bind fun _ => hdeclare
    · exact hdeclare
  split
  · exact throwSyntaxAt_level.bind fun _ => hrest
  · exact hrest

theorem defaultConstructor_plain {node : ClassNode} {derived : Bool} :
    (node.defaultConstructor derived).Plain := by
  cases derived <;> simp [ClassNode.defaultConstructor, FunctionNode.Plain]

theorem newConstructor_level {inner : ScopeId} {node : ClassNode} {name : String}
    (hp : P.Hosts W p) (hnode : Calm W (node.sites p)) :
    Level P W (newConstructor inner node name) := by
  obtain ⟨_, heritage, constructor, elements, span⟩ := node
  obtain ⟨hheritage, hconstructor, -⟩ : Calm W (sitesOfExpr? p heritage) ∧
      Calm W (sitesOfPlain? constructor) ∧ Calm W (sitesOfMembers p elements) := by
    simpa [and_assoc] using hnode
  refine (heritageOf_level hp hheritage).bind fun parents => ?_
  refine .bind (allocate_level (Object.lawful_of_kind nofun)) fun prototype => .bind .context fun c => ?_
  refine .bind (newClosure_level ⟨nofun, fun _ => ?_⟩) fun f => ?_
  · cases constructor with
    | none => exact defaultConstructor_plain
    | some f => exact Calm.plain hconstructor
  · refine .bind (modifyObject_kind fun _ => rfl) fun _ => .bind (modifyObject_kind fun _ => rfl) fun _ => ?_
    exact .bind (modifyObject_kind fun _ => rfl) fun _ => .pure

@[grind ←] theorem runStatic_level {constructor : ObjectId} {element : StaticElement} :
    Level P W (runStatic constructor element) := by
  unfold runStatic
  grind

theorem setElements_level {id : ObjectId} {elements : List InstanceElement} :
    Level P W (modifyObject id (·.modifyKind fun
      | .function (.closure c) => .function (.closure { c with elements })
      | kind => kind)) := by
  refine modifyObject_level fun o ho c hc => ?_
  have hc : (match o.kind with
      | .function (.closure c) => .function (.closure { c with elements })
      | kind => kind) = ObjectKind.function (.closure c) := hc
  split at hc
  · rename_i c' hkind
    cases hc
    exact ⟨(ho c' hkind).node, (ho c' hkind).plain⟩
  · exact ho c hc

theorem defineClass_level {scope : ScopeId} {node : ClassNode} {name : String} (hp : P.Hosts W p)
    (hnode : Calm W (node.sites p)) : Level P W (defineClass scope node name) := by
  have helements : ∀ m ∈ node.elements, Calm W (m.sites p) := by
    obtain ⟨_, _, _, elements, _⟩ := node
    simp_all [ClassNode.elements]
  refine .within ((classScope_level).bind fun inner => (newConstructor_level hp hnode).bind fun made => ?_)
  refine .bind (.foldlM fun pending m hm => addElement_level hp (helements m hm)) fun pending => ?_
  refine (setElements_level).bind fun _ => ?_
  grind

@[grind ←] theorem callSuper_level {scope : ScopeId} {args : Array Value} :
    Level P W (callSuper scope args) := by
  refine .bind .look fun inner => .bind .look fun sc => ?_
  extract_lets activation
  split
  · refine prototypeOf_level.bind fun parent => ?_
    split
    · refine isConstructor_level.bind fun _ => ?_
      extract_lets rest
      have hrest : Level P W (rest ()) := by
        refine construct_level.bind fun result => ?_
        split
        · refine .bind .look fun sc => ?_
          extract_lets finish
          have hfinish : Level P W (finish ()) := by grind
          split
          · exact throwReference_level.bind fun _ => hfinish
          · exact hfinish
        · exact halt_level (by simp [Condition.suspended])
      exact .ite (fun _ => describe_level.bind fun _ => throwType_level.bind fun _ => hrest)
        fun _ => hrest
    · exact throwType_level
  · exact throwReference_level

end EcmaScript.Exec

/-! Expressions leave the call stack as they find it, and wait only where `await` allows it. -/
namespace EcmaScript.Exec
variable {P : Watch} {W : Prop} {p : Place} {α : Type}

@[grind ←] theorem notA_level {e : Expr} {what : String} : Level P W (notA e what : Exec α) := by
  grind [notA]

theorem evaluateChain_level {scope : ScopeId} {e : Expr} (hp : P.Hosts W p)
    (he : Calm W (e.sites p)) : Level P W (evaluateChain scope e) := by
  have hother : Level P W (do return some (← evaluate scope e, Value.undefined)) :=
    (evaluate_level hp he).bind fun _ => .pure
  obtain ⟨span, node⟩ := e
  unfold evaluateChain
  cases node with
  | member inner key optional =>
    obtain ⟨hinner, hkey⟩ : Calm W (inner.sites p) ∧ Calm W (key.sites p) := by simpa using he
    refine (chain_level hp hinner).bind fun found => ?_
    grind
  | superMember key =>
    refine (superMember_level hp he).bind fun r => readReference_level.bind fun v => ?_
    grind
  | call callee arguments optional =>
    obtain ⟨hcallee, harguments⟩ : Calm W (callee.sites p) ∧ Calm W (sitesOfExprs p arguments) := by
      simpa using he
    refine (chain_level hp hcallee).bind fun found => ?_
    have harguments : Level P W (evaluateArguments scope arguments) :=
      evaluateArguments_level hp harguments
    grind
  | _ => exact hother

grind_pattern evaluateChain_level => Level P W (evaluateChain scope e), P.Hosts W p,
  Calm W (e.sites p)

theorem chainValue_level {scope : ScopeId} {e : Expr} (hp : P.Hosts W p)
    (he : Calm W (e.sites p)) : Level P W (chainValue scope e) := by
  grind [chainValue]

grind_pattern chainValue_level => Level P W (chainValue scope e), P.Hosts W p, Calm W (e.sites p)

theorem templateText_level {scope : ScopeId} {span : Span} {chunks : List TemplateChunk}
    {parts : List Expr} {out : String} (hp : P.Hosts W p) (hparts : Calm W (sitesOfExprs p parts)) :
    Level P W (templateText scope span chunks parts out) := by
  induction chunks generalizing parts out with
  | nil => exact .pure
  | cons chunk chunks ih =>
    unfold templateText
    split
    · exact throwSyntaxAt_level
    · split
      · exact ih hparts
      · rename_i e parts
        obtain ⟨he, hparts⟩ : Calm W (e.sites p) ∧ Calm W (sitesOfExprs p parts) := by
          simpa using hparts
        exact (evaluate_level hp he).bind fun _ => toText_level.bind fun _ => ih hparts

grind_pattern templateText_level => Level P W (templateText scope span chunks parts out), P.Hosts W p,
  Calm W (sitesOfExprs p parts)

@[grind ←] theorem templateObject_level {place : Nat} {chunks : List TemplateChunk} :
    Level P W (templateObject place chunks) := by
  refine .bind .context fun c => .bind .look fun found => ?_
  split
  · exact .pure
  · refine newArray_level.bind fun strings => newArray_level.bind fun raw => ?_
    refine setIntegrity_level.bind fun _ => .bind (modifyObject_kind fun _ => rfl) fun _ => ?_
    refine setIntegrity_level.bind fun _ => .bind (.change fun s L hs => ?_) fun _ => .pure
    exact hs.aside rfl rfl rfl rfl

theorem taggedTemplate_level {scope : ScopeId} {span : Span} {tag : Expr}
    {chunks : List TemplateChunk} {parts : List Expr} (hp : P.Hosts W p)
    (htag : Calm W (tag.sites p)) (hparts : Calm W (sitesOfExprs p parts)) :
    Level P W (taggedTemplate scope span tag chunks parts) := by
  grind [taggedTemplate]

grind_pattern taggedTemplate_level => Level P W (taggedTemplate scope span tag chunks parts),
  P.Hosts W p, Calm W (tag.sites p), Calm W (sitesOfExprs p parts)

theorem addMember_level {scope : ScopeId} {target : ObjectId} {a : Member} (hp : P.Hosts W p)
    (ha : Calm W (a.sites p)) : Level P W (addMember scope target a) := by
  unfold addMember
  grind

grind_pattern addMember_level => Level P W (addMember scope target a), P.Hosts W p,
  Calm W (a.sites p)

theorem deleteExpression_level {scope : ScopeId} {operand : Expr} (hp : P.Hosts W p)
    (hoperand : Calm W (operand.sites p)) : Level P W (deleteExpression scope operand) := by
  have hother : Level P W (do
      let _ ← evaluate scope operand
      return Value.boolean true) := (evaluate_level hp hoperand).bind fun _ => .pure
  obtain ⟨span, node⟩ := operand
  unfold deleteExpression
  cases node with
  | member inner key optional =>
    obtain ⟨hinner, hkey⟩ : Calm W (inner.sites p) ∧ Calm W (key.sites p) := by simpa using hoperand
    refine (evaluate_level hp hinner).bind fun base => (keyOf_level hp hkey).bind fun key => ?_
    grind
  | superMember key => exact throwReference_level
  | identifier name =>
    refine .bind .look fun found => ?_
    grind
  | optionalChain inner =>
    have hinner : Calm W (inner.sites p) := by simpa using hoperand
    refine (chain_level hp hinner).bind fun found => ?_
    grind
  | _ => exact hother

grind_pattern deleteExpression_level => Level P W (deleteExpression scope operand), P.Hosts W p,
  Calm W (operand.sites p)

theorem typeOfExpression_level {scope : ScopeId} {operand : Expr} (hp : P.Hosts W p)
    (hoperand : Calm W (operand.sites p)) : Level P W (typeOfExpression scope operand) := by
  unfold typeOfExpression
  split <;> grind

grind_pattern typeOfExpression_level => Level P W (typeOfExpression scope operand), P.Hosts W p,
  Calm W (operand.sites p)

theorem evaluateUnary_level {scope : ScopeId} {op : UnaryOp} {operand : Expr} (hp : P.Hosts W p)
    (hoperand : Calm W (operand.sites p)) : Level P W (evaluateUnary scope op operand) := by
  unfold evaluateUnary
  grind

grind_pattern evaluateUnary_level => Level P W (evaluateUnary scope op operand), P.Hosts W p,
  Calm W (operand.sites p)

theorem evaluateUpdate_level {scope : ScopeId} {increment before : Bool} {target : Expr}
    (hp : P.Hosts W p) (htarget : Calm W (target.sites p)) :
    Level P W (evaluateUpdate scope increment before target) := by
  grind [evaluateUpdate]

grind_pattern evaluateUpdate_level => Level P W (evaluateUpdate scope increment before target),
  P.Hosts W p, Calm W (target.sites p)

theorem evaluateAssign_level {scope : ScopeId} {target : Pattern} {value : Expr}
    (hp : P.Hosts W p) (htarget : Calm W (target.sites p)) (hvalue : Calm W (value.sites p)) :
    Level P W (evaluateAssign scope target value) := by
  unfold evaluateAssign
  grind

grind_pattern evaluateAssign_level => Level P W (evaluateAssign scope target value), P.Hosts W p,
  Calm W (target.sites p), Calm W (value.sites p)

theorem evaluateCompound_level {scope : ScopeId} {op : AssignOp} {target value : Expr}
    (hp : P.Hosts W p) (htarget : Calm W (target.sites p)) (hvalue : Calm W (value.sites p)) :
    Level P W (evaluateCompound scope op target value) := by
  refine (referenceTo_level hp htarget).bind fun r => readReference_level.bind fun current => ?_
  have hevaluate : Level P W (evaluate scope value) := evaluate_level hp hvalue
  have hnamed {name : String} : Level P W (evaluateNamed scope value name) := evaluateNamed_level hp hvalue
  split
  · refine .ite (fun _ => .pure) fun _ => ?_
    grind
  · grind
  · exact halt_level (by simp [Condition.suspended])

grind_pattern evaluateCompound_level => Level P W (evaluateCompound scope op target value),
  P.Hosts W p, Calm W (target.sites p), Calm W (value.sites p)

theorem evaluateSequence_level {scope : ScopeId} {es : List Expr} (hp : P.Hosts W p)
    (hes : Calm W (sitesOfExprs p es)) : Level P W (evaluateSequence scope es) := by
  induction es with
  | nil => exact .pure
  | cons e rest ih =>
    obtain ⟨he, hrest⟩ : Calm W (e.sites p) ∧ Calm W (sitesOfExprs p rest) := by simpa using hes
    cases rest with
    | nil => exact evaluate_level hp he
    | cons => exact (evaluate_level hp he).bind fun _ => ih hrest

grind_pattern evaluateSequence_level => Level P W (evaluateSequence scope es), P.Hosts W p,
  Calm W (sitesOfExprs p es)

theorem hasPrivateIn_level {scope : ScopeId} {name : String} {target : Expr} {span : Span}
    (hp : P.Hosts W p) (htarget : Calm W (target.sites p)) :
    Level P W (hasPrivateIn scope name target span) := by
  grind [hasPrivateIn]

grind_pattern hasPrivateIn_level => Level P W (hasPrivateIn scope name target span), P.Hosts W p,
  Calm W (target.sites p)

theorem evaluateExpression_level {scope : ScopeId} {e : Expr} (hp : P.Hosts W p)
    (he : Calm W (e.sites p)) : Level P W (evaluateExpression scope e) := by
  have hchain : Level P W (chainValue scope e) := chainValue_level hp he
  obtain ⟨span, node⟩ := e
  unfold evaluateExpression
  cases node with
  | await operand =>
    have hw : W := he.waits (by simp) hp
    have hoperand : Calm W (operand.sites p) := (calm_cons.mp he).2
    refine .bind (evaluate_level hp hoperand) fun v => slotFor_level.bind fun slot => ?_
    exact .bind (.attempt (waitFor_level hw)) fun _ => checkInterrupts_level.bind fun _ => .ofExcept
  | member | superMember | call => exact hchain
  | _ => grind [Expr.node, Expr.span]

grind_pattern evaluateExpression_level => Level P W (evaluateExpression scope e), P.Hosts W p,
  Calm W (e.sites p)

end EcmaScript.Exec

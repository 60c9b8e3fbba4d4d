import EcmaScript.Evaluate.Body
import EcmaScript.Proofs.Level.Reference

/-! Statements and bodies of functions leave the call stack as they find it, and wait only where `await`
allows it. -/
namespace EcmaScript.Exec
variable {P : Watch} {W : Prop} {p : Place} {α : Type}

@[grind ←] theorem observe_level {f : Sink → Sink} : Level P W (observe f) := by
  refine .bind .context fun c => ?_
  split
  · exact .change fun _ _ hs => hs.aside rfl rfl rfl rfl
  · exact .pure

theorem evaluateStatements_level {scope : ScopeId} {body : List Statement} {last : Option Value}
    (hp : P.Hosts W p) (hbody : Calm W (sitesOfStatements p body)) :
    Level P W (evaluateStatements scope body last) := by
  induction body generalizing last with
  | nil => exact .pure
  | cons st rest ih =>
    obtain ⟨hst, hrest⟩ : Calm W (st.sites p) ∧ Calm W (sitesOfStatements p rest) := by
      simpa using hbody
    refine (statement_level hp hst).bind fun c => ?_
    split
    · exact ih hrest
    · exact .pure

grind_pattern evaluateStatements_level => Level P W (evaluateStatements scope body last),
  P.Hosts W p, Calm W (sitesOfStatements p body)

theorem evaluateBlock_level {scope : ScopeId} {body : List Statement} (hp : P.Hosts W p)
    (hbody : Calm W (sitesOfStatements p body)) : Level P W (evaluateBlock scope body) := by
  grind [evaluateBlock]

grind_pattern evaluateBlock_level => Level P W (evaluateBlock scope body), P.Hosts W p,
  Calm W (sitesOfStatements p body)

theorem declareVariable_level {scope : ScopeId} {kind : VarKind} {a : Declarator}
    (hp : P.Hosts W p) (ha : Calm W (a.sites p)) : Level P W (declareVariable scope kind a) := by
  unfold declareVariable
  grind

grind_pattern declareVariable_level => Level P W (declareVariable scope kind a), P.Hosts W p,
  Calm W (a.sites p)

theorem runBody_level {scope : ScopeId} {body : Statement} {labels : List String}
    {last : Option Value} (hp : P.Hosts W p) (hbody : Calm W (body.sites p)) :
    Level P W (runBody scope body labels last) := by
  grind [runBody]

grind_pattern runBody_level => Level P W (runBody scope body labels last), P.Hosts W p,
  Calm W (body.sites p)

theorem evaluateWhile_level {scope : ScopeId} {test : Expr} {body : Statement}
    {labels : List String} (hp : P.Hosts W p) (htest : Calm W (test.sites p))
    (hbody : Calm W (body.sites p)) : Level P W (evaluateWhile scope test body labels) := by
  grind [evaluateWhile]

grind_pattern evaluateWhile_level => Level P W (evaluateWhile scope test body labels),
  P.Hosts W p, Calm W (test.sites p), Calm W (body.sites p)

theorem evaluateDoWhile_level {scope : ScopeId} {body : Statement} {test : Expr}
    {labels : List String} (hp : P.Hosts W p) (hbody : Calm W (body.sites p))
    (htest : Calm W (test.sites p)) : Level P W (evaluateDoWhile scope body test labels) := by
  grind [evaluateDoWhile]

grind_pattern evaluateDoWhile_level => Level P W (evaluateDoWhile scope body test labels),
  P.Hosts W p, Calm W (body.sites p), Calm W (test.sites p)

theorem startFor_level {scope : ScopeId} {a : Option Statement} (hp : P.Hosts W p)
    (ha : Calm W (sitesOfStatement? p a)) : Level P W (startFor scope a) := by
  unfold startFor
  grind

grind_pattern startFor_level => Level P W (startFor scope a), P.Hosts W p,
  Calm W (sitesOfStatement? p a)

@[grind ←] theorem copyScope_level {scope : ScopeId} : Level P W (copyScope scope) := by
  grind [copyScope]

theorem testFor_level {scope : ScopeId} {a : Option Expr} (hp : P.Hosts W p)
    (ha : Calm W (sitesOfExpr? p a)) : Level P W (testFor scope a) := by
  unfold testFor
  grind

grind_pattern testFor_level => Level P W (testFor scope a), P.Hosts W p, Calm W (sitesOfExpr? p a)

theorem nextTurn_level {scope : ScopeId} {copied : Bool} {update : Option Expr} (hp : P.Hosts W p)
    (hupdate : Calm W (sitesOfExpr? p update)) : Level P W (nextTurn scope copied update) := by
  grind [nextTurn]

grind_pattern nextTurn_level => Level P W (nextTurn scope copied update), P.Hosts W p,
  Calm W (sitesOfExpr? p update)

theorem evaluateFor_level {scope : ScopeId} {init : Option Statement} {test update : Option Expr}
    {body : Statement} {labels : List String} (hp : P.Hosts W p)
    (hinit : Calm W (sitesOfStatement? p init)) (htest : Calm W (sitesOfExpr? p test))
    (hupdate : Calm W (sitesOfExpr? p update)) (hbody : Calm W (body.sites p)) :
    Level P W (evaluateFor scope init test update body labels) := by
  refine (startFor_level hp hinit).bind fun first => ?_
  refine .bind (nextTurn_level hp (by simp)) fun inner => .loop fun turn => ?_
  refine checkInterrupts_level.bind fun _ => (testFor_level hp htest).bind fun goes => ?_
  grind

grind_pattern evaluateFor_level => Level P W (evaluateFor scope init test update body labels),
  P.Hosts W p, Calm W (sitesOfStatement? p init), Calm W (sitesOfExpr? p test),
  Calm W (sitesOfExpr? p update), Calm W (body.sites p)

theorem bindHead_level {scope : ScopeId} {kind : Option VarKind} {head : Pattern} {v : Value}
    (hp : P.Hosts W p) (hhead : Calm W (head.sites p)) :
    Level P W (bindHead scope kind head v) := by
  unfold bindHead
  grind

grind_pattern bindHead_level => Level P W (bindHead scope kind head v), P.Hosts W p,
  Calm W (head.sites p)

@[grind ←] theorem subjectScope_level {scope : ScopeId} {kind : Option VarKind} {head : Pattern} :
    Level P W (subjectScope scope kind head) := by
  unfold subjectScope
  grind

theorem visitKeys_level {scope : ScopeId} {kind : Option VarKind} {head : Pattern} {id : ObjectId}
    {body : Statement} {labels names : List String} {last : Option Value}
    (hp : P.Hosts W p) (hhead : Calm W (head.sites p)) (hbody : Calm W (body.sites p)) :
    Level P W (visitKeys scope kind head id body labels names last) := by
  induction names generalizing last with
  | nil => exact .pure
  | cons name rest ih =>
    refine checkInterrupts_level.bind fun _ => has_level.bind fun present => ?_
    refine .ite (fun _ => ih) fun _ => ?_
    refine (bindHead_level hp hhead).bind fun inner => (runBody_level hp hbody).bind fun r => ?_
    grind

grind_pattern visitKeys_level => Level P W (visitKeys scope kind head id body labels names last),
  P.Hosts W p, Calm W (head.sites p), Calm W (body.sites p)

theorem evaluateForIn_level {scope : ScopeId} {kind : Option VarKind} {head : Pattern}
    {subject : Expr} {body : Statement} {labels : List String} (hp : P.Hosts W p)
    (hhead : Calm W (head.sites p)) (hsubject : Calm W (subject.sites p))
    (hbody : Calm W (body.sites p)) :
    Level P W (evaluateForIn scope kind head subject body labels) := by
  grind [evaluateForIn]

grind_pattern evaluateForIn_level =>
  Level P W (evaluateForIn scope kind head subject body labels), P.Hosts W p,
  Calm W (head.sites p), Calm W (subject.sites p), Calm W (body.sites p)

theorem itemSource_level {v : Value} {isAwait : Bool} (h : isAwait = true → W) :
    LevelWith P W (itemSource v isAwait) (·.Waits W) := by
  have hplain : Level P W (getIterator v) := getIterator_level
  unfold itemSource
  refine .ite (fun _ => .bind hplain fun r _ => .pure trivial) fun hawait => ?_
  have hw : W := h (by simpa using hawait)
  refine .bind methodOf_level fun method _ => ?_
  split
  · exact .bind hplain fun r _ => .pure hw
  · refine .bind call_level fun iterator _ => ?_
    have hnext : LevelWith P W (do
        return ItemSource.asynchronous ⟨iterator, ← getOf iterator (.name "next")⟩) (·.Waits W) :=
      .bind getOf_level fun _ _ => .pure hw
    exact .ite (fun _ => .bind throwType_level fun _ _ => hnext) fun _ => hnext

theorem nextItem_level {source : ItemSource} (h : source.Waits W) : Level P W (nextItem source) := by
  cases source with
  | plain r => exact step_level
  | awaited r =>
    have hw : W := h
    refine step_level.bind fun item => ?_
    grind
  | asynchronous r =>
    have hw : W := h
    refine checkInterrupts_level.bind fun _ => call_level.bind fun answer => ?_
    grind

theorem closeSource_level {source : ItemSource} (h : source.Waits W) :
    Level P W (closeSource source) := by
  cases source with
  | asynchronous r =>
    have hw : W := h
    refine methodOf_level.bind fun method => ?_
    grind
  | _ => exact close_level

theorem evaluateForOf_level {scope : ScopeId} {kind : Option VarKind} {head : Pattern}
    {subject : Expr} {body : Statement} {isAwait : Bool} {labels : List String} (hp : P.Hosts W p)
    (hhead : Calm W (head.sites p)) (hsubject : Calm W (subject.sites p))
    (hbody : Calm W (body.sites p)) (hawait : isAwait = true → W) :
    Level P W (evaluateForOf scope kind head subject body isAwait labels) := by
  refine (subjectScope_level).bind fun inner => (evaluate_level hp hsubject).bind fun v => ?_
  refine .bind_with (itemSource_level hawait) fun source hsource => .loop fun last => ?_
  refine (nextItem_level hsource).bind fun item => ?_
  split
  · exact .pure
  · have hbody {item : Value} : Level P W (do
        runBody (← bindHead scope kind head item) body labels last) :=
      (bindHead_level hp hhead).bind fun _ => runBody_level hp hbody
    refine .bind (.attempt hbody) fun outcome => ?_
    split
    · exact .pure
    · exact (closeSource_level hsource).bind fun _ => .pure
    · exact closeOnError_level hsource

theorem matchingCases_level {scope : ScopeId} {v : Value} {cases : List SwitchCase}
    (hp : P.Hosts W p) (hcases : Calm W (sitesOfCases p cases)) :
    LevelWith P W (matchingCases scope v cases) fun found =>
      ∀ rest, found = some rest → Calm W (sitesOfCases p rest) := by
  induction cases with
  | nil => exact .pure nofun
  | cons c rest ih =>
    obtain ⟨test, body⟩ := c
    obtain ⟨⟨htest, -⟩, hrest⟩ : (Calm W (sitesOfExpr? p test) ∧ Calm W (sitesOfStatements p body)) ∧
        Calm W (sitesOfCases p rest) := by simpa using hcases
    cases test with
    | none => exact ih hrest
    | some test =>
      refine .bind (evaluate_level hp htest) fun found _ => .ite (fun _ => .pure fun rest h => ?_) fun _ => ?_
      · cases h
        exact hcases
      · exact ih hrest

theorem runCases_level {scope : ScopeId} {cases : List SwitchCase} {last : Option Value}
    (hp : P.Hosts W p) (hcases : Calm W (sitesOfCases p cases)) :
    Level P W (runCases scope cases last) := by
  induction cases generalizing last with
  | nil => exact .pure
  | cons c rest ih =>
    obtain ⟨test, body⟩ := c
    obtain ⟨⟨-, hbody⟩, hrest⟩ : (Calm W (sitesOfExpr? p test) ∧ Calm W (sitesOfStatements p body)) ∧
        Calm W (sitesOfCases p rest) := by simpa using hcases
    refine (evaluateStatements_level hp hbody).bind fun completion => ?_
    split
    · exact ih hrest
    · exact .pure
    · exact .pure

grind_pattern runCases_level => Level P W (runCases scope cases last), P.Hosts W p,
  Calm W (sitesOfCases p cases)

theorem evaluateSwitch_level {scope : ScopeId} {discriminant : Expr} {cases : List SwitchCase}
    (hp : P.Hosts W p) (hdiscriminant : Calm W (discriminant.sites p))
    (hcases : Calm W (sitesOfCases p cases)) :
    Level P W (evaluateSwitch scope discriminant cases) := by
  have hbodies : Calm W (sitesOfStatements p (cases.flatMap (·.body))) := by
    simp only [calm_cases, calm_statements, List.mem_flatMap] at hcases ⊢
    rintro st ⟨⟨test, body⟩, hc, hst⟩
    exact calm_statements.mp (calm_append.mp (hcases _ hc)).2 st hst
  have hdefault : Calm W (sitesOfCases p (cases.dropWhile (!·.isDefault))) :=
    calm_cases.mpr fun c hc => calm_cases.mp hcases c (List.dropWhile_sublist _ |>.subset hc)
  refine (evaluate_level hp hdiscriminant).bind fun v => newBlock_level.bind fun block => ?_
  refine (hoistBlock_level hbodies).bind fun functions => ?_
  refine .bind_with (matchingCases_level hp hcases) fun found hfound => ?_
  extract_lets run
  have hrun {selected : List SwitchCase} (h : Calm W (sitesOfCases p selected)) :
      Level P W (run selected) := by
    refine (runCases_level hp h).bind fun completion => ?_
    split
    · exact copyUpFunctions_level.bind fun _ => .pure
    · exact .pure
  cases found with
  | some rest =>
    exact .bind_with (Q := fun r => Calm W (sitesOfCases p r)) (.pure (hfound rest rfl)) fun _ => hrun
  | none => exact .bind_with (Q := fun r => Calm W (sitesOfCases p r)) (.pure hdefault) fun _ => hrun

grind_pattern evaluateSwitch_level => Level P W (evaluateSwitch scope discriminant cases),
  P.Hosts W p, Calm W (discriminant.sites p), Calm W (sitesOfCases p cases)

theorem evaluateCatch_level {scope : ScopeId} {param : Option Pattern} {body : List Statement}
    {thrown : Value} (hp : P.Hosts W p) (hparam : Calm W (sitesOfPattern? p param))
    (hbody : Calm W (sitesOfStatements p body)) :
    Level P W (evaluateCatch scope param body thrown) := by
  unfold evaluateCatch
  grind

grind_pattern evaluateCatch_level => Level P W (evaluateCatch scope param body thrown),
  P.Hosts W p, Calm W (sitesOfPattern? p param), Calm W (sitesOfStatements p body)

theorem finishTry_level {scope : ScopeId} {finalizer : Option (List Statement)}
    {result : Except Abrupt Completion} (hp : P.Hosts W p)
    (hfinalizer : Calm W (sitesOfBlock? p finalizer)) :
    Level P W (finishTry scope finalizer result) := by
  unfold finishTry
  split <;> grind

grind_pattern finishTry_level => Level P W (finishTry scope finalizer result), P.Hosts W p,
  Calm W (sitesOfBlock? p finalizer)

theorem evaluateTry_level {scope : ScopeId} {block : List Statement} {param : Option Pattern}
    {handler finalizer : Option (List Statement)} (hp : P.Hosts W p)
    (hblock : Calm W (sitesOfStatements p block)) (hparam : Calm W (sitesOfPattern? p param))
    (hhandler : Calm W (sitesOfBlock? p handler))
    (hfinalizer : Calm W (sitesOfBlock? p finalizer)) :
    Level P W (evaluateTry scope block param handler finalizer) := by
  grind [evaluateTry]

grind_pattern evaluateTry_level => Level P W (evaluateTry scope block param handler finalizer),
  P.Hosts W p, Calm W (sitesOfStatements p block), Calm W (sitesOfPattern? p param),
  Calm W (sitesOfBlock? p handler), Calm W (sitesOfBlock? p finalizer)

theorem evaluateStatement_level {scope : ScopeId} {st : Statement} {labels : List String}
    (hp : P.Hosts W p) (hst : Calm W (st.sites p)) :
    Level P W (evaluateStatement scope st labels) := by
  obtain ⟨span, node⟩ := st
  refine atSpan_level.bind fun _ => (observe_level).bind fun _ => ?_
  cases node with
  | forOf kind head subject body isAwait =>
    have hawait : isAwait = true → W := fun h => by
      subst h
      exact Calm.waits hst (by simp) hp
    obtain ⟨⟨⟨-, hhead⟩, hsubject⟩, hbody⟩ : ((Calm W (if isAwait then [⟨.forAwait, p⟩] else []) ∧
        Calm W (head.sites p)) ∧ Calm W (subject.sites p)) ∧ Calm W (body.sites p) := by
      simpa only [Statement.sites, StatementNode.sites, calm_append] using hst
    exact evaluateForOf_level hp hhead hsubject hbody hawait
  | labeled label body =>
    have hbody : Calm W (body.sites p) := by simpa using hst
    refine .bind (statement_level hp hbody) fun completion => ?_
    split <;> exact .pure
  | _ => grind [Statement.node, Statement.span]

grind_pattern evaluateStatement_level => Level P W (evaluateStatement scope st labels),
  P.Hosts W p, Calm W (st.sites p)

@[grind ←] theorem argumentsObject_level {scope : ScopeId} {f : ObjectId} {node : FunctionNode}
    {args : Array Value} : Level P W (argumentsObject scope f node args) := by
  refine intrinsics_level.bind fun i => .bind .context fun c => .bind .look fun values => ?_
  extract_lets table finish
  have hfinish {callee : Property} : Level P W (finish callee) :=
    allocate_level (Object.lawful_of_kind nofun)
  refine .ite (fun _ => .bind .pure fun _ => hfinish) fun _ => ?_
  exact newCapturing_level.bind fun refuse => .bind .pure fun _ => hfinish

theorem bindParameters_level {scope : ScopeId} {args : Array Value} {i : Nat} {ts : List Pattern}
    (hp : P.Hosts W p) (hts : Calm W (sitesOfPatterns p ts)) :
    Level P W (bindParameters scope args i ts) := by
  induction ts generalizing i with
  | nil => exact .pure
  | cons t rest ih =>
    obtain ⟨ht, hrest⟩ : Calm W (t.sites p) ∧ Calm W (sitesOfPatterns p rest) := by simpa using hts
    cases t with
    | rest target =>
      have htarget : Calm W (target.sites p) := by simpa using ht
      exact newArray_level.bind fun id => (bind_level hp htarget).bind fun _ => ih hrest
    | _ => exact (bind_level hp ht).bind fun _ => ih hrest

theorem bindArguments_level {scope : ScopeId} {node : FunctionNode} {args : Array Value}
    (hp : P.Hosts W p) (hnode : Calm W (node.sitesAt p)) :
    Level P W (bindArguments scope node args) := by
  obtain ⟨name, params, body⟩ := node
  obtain ⟨hparams, -⟩ : Calm W (sitesOfPatterns p params) ∧ Calm W (sitesOfStatements p body) := by
    simpa using hnode
  exact .ite (fun _ => modifyScope_level) fun _ => bindParameters_level hp hparams

theorem evaluateBody_level {scope : ScopeId} {node : FunctionNode} (hp : P.Hosts W p)
    (hnode : Calm W (node.sitesAt p)) : Level P W (evaluateBody scope node) := by
  obtain ⟨name, params, body⟩ := node
  obtain ⟨-, hbody⟩ : Calm W (sitesOfPatterns p params) ∧ Calm W (sitesOfStatements p body) := by
    simpa using hnode
  unfold evaluateBody
  split
  · rename_i e hconcise
    obtain rfl : body = _ := hconcise
    exact evaluate_level hp (by simpa using hbody)
  · refine (hoistVars_level hbody).bind fun _ => (evaluateStatements_level hp hbody).bind fun c => ?_
    split <;> exact .pure

theorem evaluateFunction_level {scope : ScopeId} {node : FunctionNode} {f : ObjectId}
    {args : Array Value} (hp : P.Hosts W p) (hnode : Calm W (node.sitesAt p)) :
    Level P W (evaluateFunction scope node f args) := by
  have hrest : Level P W (do
      bindArguments scope node args
      evaluateBody scope node) :=
    (bindArguments_level hp hnode).bind fun _ => evaluateBody_level hp hnode
  refine .bind (.forM fun name _ => bindIn_level) fun _ => .ite (fun _ => ?_) fun _ => hrest
  exact (argumentsObject_level).bind fun id => bindIn_level.bind fun _ => hrest

end EcmaScript.Exec

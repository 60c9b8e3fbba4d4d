import EcmaScript.Evaluate.Names
import EcmaScript.Evaluate.Reference
import EcmaScript.Proofs.Level.Names

/-! Declarations, references and patterns leave the call stack as they find it. -/
namespace EcmaScript.Exec
variable {P : Watch} {W : Prop} {p : Place} {α : Type}

@[grind ←] theorem declareLexical_level {scope : ScopeId} {names : List LexicalName} :
    Level P W (declareLexical scope names) := by
  grind [declareLexical]

theorem hoistBlock_level {scope : ScopeId} {body : List Statement}
    (hbody : Calm W (sitesOfStatements p body)) : Level P W (hoistBlock scope body) := by
  unfold hoistBlock
  refine .bind (by grind) fun _ => ?_
  grind

grind_pattern hoistBlock_level => Level P W (hoistBlock scope body),
  Calm W (sitesOfStatements p body)

@[grind ←] theorem copyUp_level {parent varScope : ScopeId} {name : String} {v : Value} :
    Level P W (copyUp parent varScope name v) := by
  grind [copyUp]

@[grind ←] theorem copyUpFunctions_level {block : ScopeId} {names : List String} :
    Level P W (copyUpFunctions block names) := by
  unfold copyUpFunctions
  refine .bind (by grind) fun _ => ?_
  grind

theorem hoistVars_level {scope : ScopeId} {body : List Statement} {reserved : List String}
    (hbody : Calm W (sitesOfStatements p body)) :
    Level P W (hoistVars scope body reserved) := by
  unfold hoistVars
  grind

grind_pattern hoistVars_level => Level P W (hoistVars scope body reserved),
  Calm W (sitesOfStatements p body)

@[grind ←] theorem declareGlobal_level {name : String} : Level P W (declareGlobal name) := by
  grind [declareGlobal]

@[grind ←] theorem declareGlobalFunction_level {scope : ScopeId} {node : FunctionNode}
    (hnode : node.Lawful) : Level P W (declareGlobalFunction scope node) := by
  grind [declareGlobalFunction]

theorem hoistGlobal_level {scope : ScopeId} {body : List Statement}
    (hbody : Calm W (sitesOfStatements p body)) : Level P W (hoistGlobal scope body) := by
  unfold hoistGlobal
  refine .bind (by grind) fun _ => ?_
  refine .bind (by grind) fun _ => ?_
  grind

grind_pattern hoistGlobal_level => Level P W (hoistGlobal scope body),
  Calm W (sitesOfStatements p body)

@[grind ←] theorem undeclaredPrivate_level {verb preposition : String} {name : PrivateName} :
    Level P W (undeclaredPrivate verb preposition name : Exec α) := by
  grind [undeclaredPrivate]

@[grind ←] theorem readPrivate_level {base : Value} {name : PrivateName} :
    Level P W (readPrivate base name) := by
  unfold readPrivate
  grind

@[grind ←] theorem writePrivate_level {base : Value} {name : PrivateName} {v : Value} :
    Level P W (writePrivate base name v) := by
  unfold writePrivate
  split
  · refine object_bind fun o => ?_
    split <;> grind [Object.kind_putPrivate]
  · grind

@[grind ←] theorem privateName_level {scope : ScopeId} {name : String} {span : Span} :
    Level P W (privateName scope name span) := by
  grind [privateName]

theorem keyOf_level {scope : ScopeId} {key : Key} (hp : P.Hosts W p) (hkey : Calm W (key.sites p)) :
    Level P W (keyOf scope key) := by
  cases key with
  | fixed => exact .pure
  | computed e => exact (evaluate_level hp hkey).bind fun _ => toKey_level
  | hidden name =>
    refine halt_level fun h => ?_
    have htext := Condition.internal.inj h
    have hhead := congrArg (fun s : String => s.toList.head?) htext
    simp at hhead

grind_pattern keyOf_level => Level P W (keyOf scope key), P.Hosts W p, Calm W (key.sites p)

theorem memberOf_level {scope : ScopeId} {base : Value} {key : Key} {span : Span}
    (hp : P.Hosts W p) (hkey : Calm W (key.sites p)) :
    Level P W (memberOf scope base key span) := by
  unfold memberOf
  grind

grind_pattern memberOf_level => Level P W (memberOf scope base key span), P.Hosts W p,
  Calm W (key.sites p)

theorem superMember_level {scope : ScopeId} {key : Key} (hp : P.Hosts W p)
    (hkey : Calm W (key.sites p)) : Level P W (superMember scope key) := by
  grind [superMember]

grind_pattern superMember_level => Level P W (superMember scope key), P.Hosts W p,
  Calm W (key.sites p)

theorem referenceTo_level {scope : ScopeId} {e : Expr} (hp : P.Hosts W p)
    (he : Calm W (e.sites p)) : Level P W (referenceTo scope e) := by
  obtain ⟨span, node⟩ := e
  unfold referenceTo
  cases node <;> grind [Expr.node]

grind_pattern referenceTo_level => Level P W (referenceTo scope e), P.Hosts W p,
  Calm W (e.sites p)

@[grind ←] theorem readReference_level {scope : ScopeId} {a : Reference} :
    Level P W (readReference scope a) := by
  unfold readReference
  grind

@[grind ←] theorem writeReference_level {scope : ScopeId} {r : Reference} {v : Value} :
    Level P W (writeReference scope r v) := by
  unfold writeReference
  grind

@[grind ←] theorem functionValue_level {scope : ScopeId} {node : FunctionNode} {hint : String}
    (hnode : node.Lawful) : Level P W (functionValue scope node hint) := by
  grind [functionValue]

theorem evaluateNamed_level {scope : ScopeId} {e : Expr} {name : String} (hp : P.Hosts W p)
    (he : Calm W (e.sites p)) : Level P W (evaluateNamed scope e name) := by
  have hevaluate : Level P W (evaluate scope e) := evaluate_level hp he
  obtain ⟨span, node⟩ := e
  unfold evaluateNamed
  cases node <;> grind [Expr.node]

grind_pattern evaluateNamed_level => Level P W (evaluateNamed scope e name), P.Hosts W p,
  Calm W (e.sites p)

theorem appendItems_level {scope : ScopeId} {some : Value → α} {hole : α} {es : List Expr}
    {out : Array α} (hp : P.Hosts W p) (hes : Calm W (sitesOfExprs p es)) :
    Level P W (appendItems scope some hole es out) := by
  induction es generalizing out with
  | nil => exact .pure
  | cons e rest ih =>
    obtain ⟨he, hrest⟩ : Calm W (e.sites p) ∧ Calm W (sitesOfExprs p rest) := by simpa using hes
    have hevaluate : Level P W (evaluate scope e) := evaluate_level hp he
    obtain ⟨span, node⟩ := e
    unfold appendItems
    cases node with
    | hole => exact ih hrest
    | spread inner =>
      refine .bind (evaluate_level hp he) fun v => getIterator_level.bind fun r => ?_
      exact .bind (.loop fun out => by grind) fun out => ih hrest
    | _ => exact hevaluate.bind fun v => ih hrest

grind_pattern appendItems_level => Level P W (appendItems scope some hole es out), P.Hosts W p,
  Calm W (sitesOfExprs p es)

theorem evaluateArguments_level {scope : ScopeId} {args : List Expr} (hp : P.Hosts W p)
    (hargs : Calm W (sitesOfExprs p args)) : Level P W (evaluateArguments scope args) := by
  grind [evaluateArguments]

grind_pattern evaluateArguments_level => Level P W (evaluateArguments scope args), P.Hosts W p,
  Calm W (sitesOfExprs p args)

theorem bindElements_level {scope : ScopeId} {mode : BindingMode} {r : IteratorRecord}
    {ended : Bool} {ts : List Pattern} (hp : P.Hosts W p) (hts : Calm W (sitesOfPatterns p ts)) :
    Level P W (bindElements scope mode r ended ts) := by
  induction ts generalizing ended with
  | nil =>
    unfold bindElements
    grind
  | cons t rest ih =>
    obtain ⟨ht, hrest⟩ : Calm W (t.sites p) ∧ Calm W (sitesOfPatterns p rest) := by simpa using hts
    unfold bindElements
    cases t with
    | rest target =>
      have hitems {items : Array Value} : Level P W (do
          request (.bind scope target (.object (← newArray items)) mode)) :=
        newArray_level.bind fun id => bind_level hp ht
      cases ended with
      | true => exact .bind .pure fun items => hitems
      | false => exact .bind (.loop fun out => by grind) fun items => hitems
    | hole =>
      cases ended with
      | true => exact .bind .pure fun item => ih hrest
      | false => exact step_level.bind fun item => ih hrest
    | _ =>
      have hbind {v : Value} : Level P W (request (.bind scope _ v mode)) := bind_level hp ht
      cases ended with
      | true =>
        refine .bind .pure fun item => .bind (.attempt hbind) fun outcome => ?_
        grind [ItemSource.Waits]
      | false =>
        refine step_level.bind fun item => .bind (.attempt hbind) fun outcome => ?_
        grind [ItemSource.Waits]

grind_pattern bindElements_level => Level P W (bindElements scope mode r ended ts), P.Hosts W p,
  Calm W (sitesOfPatterns p ts)

theorem bindProperties_level {scope : ScopeId} {mode : BindingMode} {v : Value}
    {used : List PropertyKey} {ts : List Pattern} (hp : P.Hosts W p)
    (hts : Calm W (sitesOfPatterns p ts)) : Level P W (bindProperties scope mode v used ts) := by
  induction ts generalizing used with
  | nil => exact .pure
  | cons t rest ih =>
    obtain ⟨ht, hrest⟩ : Calm W (t.sites p) ∧ Calm W (sitesOfPatterns p rest) := by simpa using hts
    cases t with
    | property name target =>
      obtain ⟨hname, htarget⟩ : Calm W (name.sites p) ∧ Calm W (target.sites p) := by simpa using ht
      refine (keyOf_level hp hname).bind fun key => getOf_level.bind fun item => ?_
      exact (bind_level hp htarget).bind fun _ => ih hrest
    | rest target =>
      refine newObject_level.bind fun id => copyProperties_level.bind fun _ => ?_
      have htarget : Calm W (target.sites p) := by simpa using ht
      exact (bind_level hp htarget).bind fun _ => ih hrest
    | _ => exact ih hrest

grind_pattern bindProperties_level => Level P W (bindProperties scope mode v used ts), P.Hosts W p,
  Calm W (sitesOfPatterns p ts)

theorem bindPattern_level {scope : ScopeId} {pattern : Pattern} {v : Value} {mode : BindingMode}
    (hp : P.Hosts W p) (hpattern : Calm W (pattern.sites p)) :
    Level P W (bindPattern scope pattern v mode) := by
  unfold bindPattern
  grind

grind_pattern bindPattern_level => Level P W (bindPattern scope pattern v mode), P.Hosts W p,
  Calm W (pattern.sites p)

end EcmaScript.Exec

import EcmaScript.Evaluate.Names
import EcmaScript.Evaluate.Operator
import EcmaScript.Function.Call
import EcmaScript.Proofs.Level.Promise
import EcmaScript.Syntax.Names

/-! Running parts of trees that are calm. -/
namespace EcmaScript
variable {P : Watch} {W : Prop} {p : Place} {a b : List Site}

@[simp, grind .] theorem calm_nil : Calm W [] := by simp [Calm]

@[simp, grind =] theorem calm_append : Calm W (a ++ b) ↔ Calm W a ∧ Calm W b := by
  simp only [Calm, List.mem_append]
  grind

@[simp, grind =] theorem calm_cons {x : Site} :
    Calm W (x :: a) ↔ (x.isLawful = true ∧ (x.place = .outside → W)) ∧ Calm W a := by
  simp [Calm]

theorem calm_lists {α : Type} {l : List α} {f : α → List Site} {sites : List Site}
    (h : ∀ x, x ∈ sites ↔ ∃ a ∈ l, x ∈ f a) : Calm W sites ↔ ∀ a ∈ l, Calm W (f a) := by
  simp only [Calm, h]
  grind

@[simp, grind =] theorem calm_exprs {es : List Expr} :
    Calm W (sitesOfExprs p es) ↔ ∀ e ∈ es, Calm W (e.sites p) := calm_lists fun _ => mem_sitesOfExprs

@[simp, grind =] theorem calm_members {ms : List Member} :
    Calm W (sitesOfMembers p ms) ↔ ∀ m ∈ ms, Calm W (m.sites p) := calm_lists fun _ => mem_sitesOfMembers

@[simp, grind =] theorem calm_patterns {ts : List Pattern} :
    Calm W (sitesOfPatterns p ts) ↔ ∀ t ∈ ts, Calm W (t.sites p) :=
  calm_lists fun _ => mem_sitesOfPatterns

@[simp, grind =] theorem calm_declarators {ds : List Declarator} :
    Calm W (sitesOfDeclarators p ds) ↔ ∀ d ∈ ds, Calm W (d.sites p) :=
  calm_lists fun _ => mem_sitesOfDeclarators

@[simp, grind =] theorem calm_cases {cs : List SwitchCase} :
    Calm W (sitesOfCases p cs) ↔ ∀ c ∈ cs, Calm W (c.sites p) := calm_lists fun _ => mem_sitesOfCases

@[simp, grind =] theorem calm_statements {body : List Statement} :
    Calm W (sitesOfStatements p body) ↔ ∀ st ∈ body, Calm W (st.sites p) :=
  calm_lists fun _ => mem_sitesOfStatements

theorem Calm.waits {x : Suspension} (h : Calm W (⟨x, p⟩ :: a)) (hx : x ≠ .yield) (hp : P.Hosts W p) :
    W := by
  obtain ⟨⟨hlawful, houtside⟩, -⟩ := (calm_cons).mp h
  have hwait : p.mayWait = true := by cases x <;> simp_all [Site.isLawful]
  cases p with
  | outside => exact houtside rfl
  | inside isAsync isGenerator => exact hp.waits isGenerator (by simp_all [Place.mayWait])

theorem Calm.lawful {f : FunctionNode} (h : Calm W f.sites) : f.Lawful := fun x hx => (h x hx).1

theorem Calm.plain {f : FunctionNode} (h : Calm W (f.sitesAt (.inside false false))) : f.Plain :=
  fun x hx => (h x hx).1

theorem calm_inside {f : FunctionNode} {isAsync isGenerator : Bool}
    (h : ∀ x ∈ f.sitesAt (.inside isAsync isGenerator), x.isLawful = true) :
    Calm W (f.sitesAt (.inside isAsync isGenerator)) :=
  fun x hx => ⟨h x hx, fun hp => (shifts_sitesAt f .outside x hx).elim (fun ho => absurd hp ho.1)
    fun ho => Place.noConfusion (hp.symm.trans ho.1)⟩

theorem FunctionNode.sites_eq {f : FunctionNode} :
    f.sites = f.sitesAt (.inside f.isAsync f.isGenerator) := by
  cases f
  rfl

theorem FunctionNode.Lawful.calm {f : FunctionNode} (h : f.Lawful) :
    Calm W (f.sitesAt (.inside f.isAsync f.isGenerator)) := calm_inside (sites_eq ▸ h)

theorem FunctionNode.Plain.lawful {f : FunctionNode} (h : f.Plain) : f.Lawful := by
  rw [FunctionNode.Lawful, sites_eq]
  intro x hx
  rcases shifts_sitesAt f (.inside false false) x hx with ⟨-, hx⟩ | ⟨-, hx⟩
  · exact h x hx
  · have hlawful : (⟨x.suspension, .inside false false⟩ : Site).isLawful = true := h _ hx
    cases hs : x.suspension <;> simp [Site.isLawful, hs, Place.mayWait, Place.mayYield] at hlawful

theorem FunctionNode.Plain.calm {f : FunctionNode} (h : f.Plain) :
    Calm W (f.sitesAt (.inside false false)) := calm_inside h

mutual

theorem Statement.sites_function? {st : Statement} {f : FunctionNode} (h : st.function? = some f) :
    ∀ x ∈ f.sites, x ∈ st.sites p := by
  obtain ⟨span, node⟩ := st
  exact StatementNode.sites_function? h
termination_by structural st

theorem StatementNode.sites_function? {node : StatementNode} {f : FunctionNode}
    (h : node.function? = some f) : ∀ x ∈ f.sites, x ∈ node.sites p := by
  cases node with
  | function =>
    cases h
    exact fun x hx => hx
  | labeled _ body => exact body.sites_function? h
  | _ => cases h
termination_by structural node

end

theorem Calm.directFunctions {body : List Statement} (h : Calm W (sitesOfStatements p body)) :
    ∀ f ∈ directFunctions body, f.Lawful := by
  intro f hf x hx
  obtain ⟨st, hst, hf⟩ := List.mem_filterMap.mp hf
  exact (h x (mem_sitesOfStatements.mpr ⟨st, hst, Statement.sites_function? hf x hx⟩)).1

attribute [grind =] Expr.sites ExprNode.sites sitesOfExpr? Key.sites Member.sites Pattern.sites
  sitesOfPattern? sitesOfPlain? ClassNode.sites Declarator.sites SwitchCase.sites Statement.sites
  StatementNode.sites sitesOfStatement? sitesOfBlock?

attribute [grind →] Calm.lawful Calm.plain Calm.directFunctions

namespace Exec

theorem evaluate_level {scope : ScopeId} {e : Expr} (hp : P.Hosts W p) (h : Calm W (e.sites p)) :
    Level P W (evaluate scope e) := .request ⟨p, hp, h⟩

grind_pattern evaluate_level => Level P W (evaluate scope e), P.Hosts W p, Calm W (e.sites p)

theorem chain_level {scope : ScopeId} {e : Expr} (hp : P.Hosts W p) (h : Calm W (e.sites p)) :
    Level P W (request (.chain scope e)) := .request ⟨p, hp, h⟩

grind_pattern chain_level => Level P W (request (.chain scope e)), P.Hosts W p, Calm W (e.sites p)

theorem statement_level {scope : ScopeId} {st : Statement} {labels : List String} (hp : P.Hosts W p)
    (h : Calm W (st.sites p)) : Level P W (request (.statement scope st labels)) := .request ⟨p, hp, h⟩

grind_pattern statement_level => Level P W (request (.statement scope st labels)), P.Hosts W p,
  Calm W (st.sites p)

theorem bind_level {scope : ScopeId} {t : Pattern} {v : Value} {mode : BindingMode} (hp : P.Hosts W p)
    (h : Calm W (t.sites p)) : Level P W (request (.bind scope t v mode)) := .request ⟨p, hp, h⟩

grind_pattern bind_level => Level P W (request (.bind scope t v mode)), P.Hosts W p, Calm W (t.sites p)

theorem classDefinition_level {scope : ScopeId} {c : ClassNode} {name : String} (hp : P.Hosts W p)
    (h : Calm W (c.sites p)) : Level P W (request (.classDefinition scope c name)) := .request ⟨p, hp, h⟩

grind_pattern classDefinition_level => Level P W (request (.classDefinition scope c name)), P.Hosts W p,
  Calm W (c.sites p)

end Exec
end EcmaScript

/-! Names and operators leave the call stack as they find it. -/
namespace EcmaScript.Exec
variable {P : Watch} {W : Prop} {α : Type}

@[grind ←] theorem checkCall_level {f : ObjectId} {this : Value} {args : Array Value} :
    Level P W (checkCall f this args) := by
  unfold checkCall
  grind

@[grind ←] theorem superRequired_level : Level P W (superRequired : Exec α) := by
  grind [superRequired]

@[grind ←] theorem thisValue_level {scope : ScopeId} : Level P W (thisValue scope) := by
  grind [thisValue]

@[grind ←] theorem notDefined_level {name : String} : Level P W (notDefined name : Exec α) := by
  grind [notDefined]

@[grind ←] theorem uninitialized_level {name : String} :
    Level P W (uninitialized name : Exec α) := by
  grind [uninitialized]

@[grind ←] theorem readName_level {scope : ScopeId} {name : String} :
    Level P W (readName scope name) := by
  grind [readName]

@[grind ←] theorem assignIn_level {scope : ScopeId} {name : String} {v : Value} {strict : Bool} :
    Level P W (assignIn scope name v strict) := by
  grind [assignIn]

@[grind ←] theorem assignName_level {scope : ScopeId} {name : String} {v : Value} :
    Level P W (assignName scope name v) := by
  grind [assignName]

@[grind ←] theorem fillName_level {scope : ScopeId} {name : String} {v : Value} :
    Level P W (fillName scope name v) := by
  grind [fillName]

@[grind ←] theorem bindName_level {scope : ScopeId} {name : String} {v : Value} {a : BindingMode}
    : Level P W (bindName scope name v a) := by
  unfold bindName
  grind

@[grind ←] theorem alreadyDeclared_level {name : String} {line column : Nat} :
    Level P W (alreadyDeclared name line column : Exec α) := by
  grind [alreadyDeclared]

@[grind ←] theorem declareName_level {scope : ScopeId} {name : String} {kind : BindingKind}
    {span : Span} : Level P W (declareName scope name kind span) := by
  grind [declareName]

@[grind ←] theorem blockDeclaring_level {scope : ScopeId} {names : List String}
    {kind : BindingKind} : Level P W (blockDeclaring scope names kind) := by
  grind [blockDeclaring]

@[grind ←] theorem bindIn_level {scope : ScopeId} {name : String} {kind : BindingKind}
    {value : Option Value} : Level P W (bindIn scope name kind value) := by
  grind [bindIn]

@[grind ←] theorem binds_level {scope : ScopeId} {name : String} :
    Level P W (binds scope name) := by
  grind [binds]

@[grind ←] theorem primitiveLess_level {a b : Value} : Level P W (primitiveLess a b) := by
  unfold primitiveLess
  grind

@[grind ←] theorem less_level {a b : Value} : Level P W (less a b) := by
  grind [less]

@[grind ←] theorem greater_level {a b : Value} : Level P W (greater a b) := by
  grind [greater]

@[grind ←] theorem arithmetic_level {f : Float → Float → Float} {a b : Value} :
    Level P W (arithmetic f a b) := by
  grind [arithmetic]

@[grind ←] theorem bitwise_level {f : Int32 → Int32 → Int32} {a b : Value} :
    Level P W (bitwise f a b) := by
  grind [bitwise]

@[grind ←] theorem add_level {a b : Value} : Level P W (add a b) := by
  grind [add]

@[grind ←] theorem shiftBy_level {v : Value} : Level P W (shiftBy v) := by
  grind [shiftBy]

@[grind ←] theorem applyBinary_level {op : BinaryOp} {a b : Value} :
    Level P W (applyBinary op a b) := by
  unfold applyBinary
  grind

end EcmaScript.Exec

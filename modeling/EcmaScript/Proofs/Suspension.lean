import EcmaScript.Syntax.Tree

/-! Where the constructs stand that make a computation wait. -/
namespace EcmaScript

/-- What makes a computation wait or give way. -/
inductive Suspension where
  | await | forAwait | yield
deriving DecidableEq

/-- Where code stands: outside all functions, or in a function of a certain kind and in no function
inside it. -/
inductive Place where
  | outside
  | inside (isAsync isGenerator : Bool)
deriving DecidableEq

/-- A suspension and where it stands. -/
structure Site where
  suspension : Suspension
  place : Place
deriving DecidableEq

/-- Whether there may be a wait: outside all functions, and in those that are async. -/
def Place.mayWait : Place → Bool
  | .outside => true
  | .inside isAsync _ => isAsync

def Place.mayYield : Place → Bool
  | .outside => false
  | .inside _ isGenerator => isGenerator

/-- Whether a suspension may stand where it does. -/
def Site.isLawful (x : Site) : Bool :=
  match x.suspension with
  | .yield => x.place.mayYield
  | _ => x.place.mayWait

/-! The suspensions in a tree that stands at some place. -/

mutual

def Expr.sites (p : Place) : Expr → List Site
  | .mk _ node => node.sites p

def ExprNode.sites (p : Place) : ExprNode → List Site
  | .template _ parts => sitesOfExprs p parts
  | .taggedTemplate tag _ parts => tag.sites p ++ sitesOfExprs p parts
  | .array elements => sitesOfExprs p elements
  | .object members => sitesOfMembers p members
  | .function f => f.sites
  | .classExpr c => c.sites p
  | .unary _ operand => operand.sites p
  | .update _ _ target => target.sites p
  | .binary _ left right => left.sites p ++ right.sites p
  | .logical _ left right => left.sites p ++ right.sites p
  | .privateIn _ object => object.sites p
  | .assign target value => target.sites p ++ value.sites p
  | .compoundAssign _ target value => target.sites p ++ value.sites p
  | .conditional test consequent alternate =>
    test.sites p ++ consequent.sites p ++ alternate.sites p
  | .member object key _ => object.sites p ++ key.sites p
  | .superMember key => key.sites p
  | .call callee arguments _ => callee.sites p ++ sitesOfExprs p arguments
  | .superCall arguments => sitesOfExprs p arguments
  | .new callee arguments => callee.sites p ++ sitesOfExprs p arguments
  | .optionalChain body => body.sites p
  | .sequence parts => sitesOfExprs p parts
  | .await operand => ⟨.await, p⟩ :: operand.sites p
  | .yield operand _ => ⟨.yield, p⟩ :: sitesOfExpr? p operand
  | .spread value => value.sites p
  | .number _ | .string _ | .boolean _ | .null | .bigInt _ | .regExp .. | .identifier _ | .this
  | .newTarget | .hole => []

def sitesOfExprs (p : Place) : List Expr → List Site
  | [] => []
  | e :: rest => e.sites p ++ sitesOfExprs p rest

def sitesOfExpr? (p : Place) : Option Expr → List Site
  | none => []
  | some e => e.sites p

def Key.sites (p : Place) : Key → List Site
  | .computed name => name.sites p
  | .fixed _ | .hidden _ => []

def Member.sites (p : Place) : Member → List Site
  | .property key value _ => key.sites p ++ value.sites p
  | .initialized _ fallback _ => fallback.sites p
  | .spread value => value.sites p
  | .method key _ _ f => key.sites p ++ f.sites
  | .field key _ initializer _ => key.sites p ++ sitesOfPlain? initializer
  | .staticBlock body => body.sitesAt (.inside false false)

def sitesOfMembers (p : Place) : List Member → List Site
  | [] => []
  | m :: rest => m.sites p ++ sitesOfMembers p rest

def Pattern.sites (p : Place) : Pattern → List Site
  | .place target => target.sites p
  | .array elements _ => sitesOfPatterns p elements
  | .object properties _ => sitesOfPatterns p properties
  | .fallback target value => target.sites p ++ value.sites p
  | .rest target => target.sites p
  | .property key target => key.sites p ++ target.sites p
  | .identifier .. | .hole => []

def sitesOfPatterns (p : Place) : List Pattern → List Site
  | [] => []
  | t :: rest => t.sites p ++ sitesOfPatterns p rest

def sitesOfPattern? (p : Place) : Option Pattern → List Site
  | none => []
  | some t => t.sites p

def FunctionNode.sitesAt (p : Place) : FunctionNode → List Site
  | .mk _ params body _ _ _ _ _ => sitesOfPatterns p params ++ sitesOfStatements p body

/-- Parameters and body are in the function. -/
def FunctionNode.sites : FunctionNode → List Site
  | .mk _ params body _ isAsync isGenerator _ _ =>
    sitesOfPatterns (.inside isAsync isGenerator) params ++
      sitesOfStatements (.inside isAsync isGenerator) body

/-- The first values of fields, static blocks and the constructor of a class are in functions that are
neither async nor generators. -/
def sitesOfPlain? : Option FunctionNode → List Site
  | none => []
  | some f => f.sitesAt (.inside false false)

def ClassNode.sites (p : Place) : ClassNode → List Site
  | .mk _ heritage constructor elements _ =>
    sitesOfExpr? p heritage ++ sitesOfPlain? constructor ++ sitesOfMembers p elements

def Declarator.sites (p : Place) : Declarator → List Site
  | .mk target init => target.sites p ++ sitesOfExpr? p init

def sitesOfDeclarators (p : Place) : List Declarator → List Site
  | [] => []
  | d :: rest => d.sites p ++ sitesOfDeclarators p rest

def SwitchCase.sites (p : Place) : SwitchCase → List Site
  | .mk test body => sitesOfExpr? p test ++ sitesOfStatements p body

def sitesOfCases (p : Place) : List SwitchCase → List Site
  | [] => []
  | c :: rest => c.sites p ++ sitesOfCases p rest

def Statement.sites (p : Place) : Statement → List Site
  | .mk _ node => node.sites p

def StatementNode.sites (p : Place) : StatementNode → List Site
  | .expression value => value.sites p
  | .declaration _ declarators => sitesOfDeclarators p declarators
  | .function f => f.sites
  | .classDecl c => c.sites p
  | .return value => sitesOfExpr? p value
  | .concise value => value.sites p
  | .if test consequent alternate =>
    test.sites p ++ consequent.sites p ++ sitesOfStatement? p alternate
  | .for init test update body =>
    sitesOfStatement? p init ++ sitesOfExpr? p test ++ sitesOfExpr? p update ++ body.sites p
  | .forIn _ head object body => head.sites p ++ object.sites p ++ body.sites p
  | .forOf _ head iterable body isAwait =>
    (if isAwait then [⟨.forAwait, p⟩] else []) ++ head.sites p ++ iterable.sites p ++ body.sites p
  | .while test body => test.sites p ++ body.sites p
  | .doWhile body test => body.sites p ++ test.sites p
  | .switch discriminant cases => discriminant.sites p ++ sitesOfCases p cases
  | .block body => sitesOfStatements p body
  | .labeled _ body => body.sites p
  | .try block param handler finalizer =>
    sitesOfStatements p block ++ sitesOfPattern? p param ++ sitesOfBlock? p handler ++
      sitesOfBlock? p finalizer
  | .throw value => value.sites p
  | .empty | .break _ | .continue _ | .debugger | .moduleDecl _ => []

def sitesOfStatements (p : Place) : List Statement → List Site
  | [] => []
  | st :: rest => st.sites p ++ sitesOfStatements p rest

def sitesOfStatement? (p : Place) : Option Statement → List Site
  | none => []
  | some st => st.sites p

def sitesOfBlock? (p : Place) : Option (List Statement) → List Site
  | none => []
  | some body => sitesOfStatements p body

end

attribute [simp] Expr.sites ExprNode.sites sitesOfExpr? Key.sites Member.sites Pattern.sites
  sitesOfPattern? FunctionNode.sitesAt FunctionNode.sites sitesOfPlain? ClassNode.sites
  Declarator.sites SwitchCase.sites Statement.sites StatementNode.sites sitesOfStatement? sitesOfBlock?

section Lists
variable {p : Place} {x : Site}

@[simp] theorem mem_sitesOfExprs {es : List Expr} : x ∈ sitesOfExprs p es ↔ ∃ e ∈ es, x ∈ e.sites p := by
  induction es <;> simp_all [sitesOfExprs]

@[simp] theorem mem_sitesOfMembers {ms : List Member} :
    x ∈ sitesOfMembers p ms ↔ ∃ m ∈ ms, x ∈ m.sites p := by
  induction ms <;> simp_all [sitesOfMembers]

@[simp] theorem mem_sitesOfPatterns {ts : List Pattern} :
    x ∈ sitesOfPatterns p ts ↔ ∃ t ∈ ts, x ∈ t.sites p := by
  induction ts <;> simp_all [sitesOfPatterns]

@[simp] theorem mem_sitesOfDeclarators {ds : List Declarator} :
    x ∈ sitesOfDeclarators p ds ↔ ∃ d ∈ ds, x ∈ d.sites p := by
  induction ds <;> simp_all [sitesOfDeclarators]

@[simp] theorem mem_sitesOfCases {cs : List SwitchCase} :
    x ∈ sitesOfCases p cs ↔ ∃ c ∈ cs, x ∈ c.sites p := by
  induction cs <;> simp_all [sitesOfCases]

@[simp] theorem mem_sitesOfStatements {body : List Statement} :
    x ∈ sitesOfStatements p body ↔ ∃ st ∈ body, x ∈ st.sites p := by
  induction body <;> simp_all [sitesOfStatements]

end Lists

/-! Code that is taken to stand elsewhere has the same suspensions: those in functions inside it stay, and
the others stand elsewhere too. -/

def Shifts (p q : Place) (a b : List Site) : Prop :=
  ∀ x ∈ a, (x.place ≠ .outside ∧ x ∈ b) ∨ x.place = p ∧ ⟨x.suspension, q⟩ ∈ b

section Shifts
variable {p q : Place} {a a' b b' : List Site}

@[simp] theorem shifts_nil : Shifts p q [] b := by simp [Shifts]

theorem Shifts.cons {x : Suspension} (h : Shifts p q a b) : Shifts p q (⟨x, p⟩ :: a) (⟨x, q⟩ :: b) := by
  simp only [Shifts, List.mem_cons] at h ⊢
  grind

theorem Shifts.append (h : Shifts p q a b) (h' : Shifts p q a' b') : Shifts p q (a ++ a') (b ++ b') := by
  simp only [Shifts, List.mem_append] at h h' ⊢
  grind

theorem Shifts.of_inside {isAsync isGenerator : Bool}
    (h : Shifts (.inside isAsync isGenerator) (.inside isAsync isGenerator) a a) : Shifts p q a a :=
  fun x hx => .inl ⟨(h x hx).elim And.left fun hp => hp.1 ▸ nofun, hx⟩

theorem shifts_sitesAt (f : FunctionNode) : ∀ q, Shifts p q (f.sitesAt p) (f.sitesAt q) := by
  revert p f
  apply FunctionNode.sitesAt.induct
    (fun p e => ∀ q, Shifts p q (e.sites p) (e.sites q))
    (fun p node => ∀ q, Shifts p q (node.sites p) (node.sites q))
    (fun p e => ∀ q, Shifts p q (sitesOfExpr? p e) (sitesOfExpr? q e))
    (fun p key => ∀ q, Shifts p q (key.sites p) (key.sites q))
    (fun p t => ∀ q, Shifts p q (t.sites p) (t.sites q))
    (fun p ts => ∀ q, Shifts p q (sitesOfPatterns p ts) (sitesOfPatterns q ts))
    (fun p c => ∀ q, Shifts p q (c.sites p) (c.sites q))
    (fun p ms => ∀ q, Shifts p q (sitesOfMembers p ms) (sitesOfMembers q ms))
    (fun p m => ∀ q, Shifts p q (m.sites p) (m.sites q))
    (fun p f => ∀ q, Shifts p q (f.sitesAt p) (f.sitesAt q))
    (fun p body => ∀ q, Shifts p q (sitesOfStatements p body) (sitesOfStatements q body))
    (fun p st => ∀ q, Shifts p q (st.sites p) (st.sites q))
    (fun p node => ∀ q, Shifts p q (node.sites p) (node.sites q))
    (fun p body => ∀ q, Shifts p q (sitesOfBlock? p body) (sitesOfBlock? q body))
    (fun p t => ∀ q, Shifts p q (sitesOfPattern? p t) (sitesOfPattern? q t))
    (fun p cs => ∀ q, Shifts p q (sitesOfCases p cs) (sitesOfCases q cs))
    (fun p c => ∀ q, Shifts p q (c.sites p) (c.sites q))
    (fun p st => ∀ q, Shifts p q (sitesOfStatement? p st) (sitesOfStatement? q st))
    (fun f => ∀ p q, Shifts p q f.sites f.sites)
    (fun p ds => ∀ q, Shifts p q (sitesOfDeclarators p ds) (sitesOfDeclarators q ds))
    (fun p d => ∀ q, Shifts p q (d.sites p) (d.sites q))
    (fun f => ∀ p q, Shifts p q (sitesOfPlain? f) (sitesOfPlain? f))
    (fun p es => ∀ q, Shifts p q (sitesOfExprs p es) (sitesOfExprs q es))
  -- The parts of a function are inside it, wherever it is written.
  case case54 =>
    intro _ _ _ _ _ _ _ _ hparams hbody p q
    exact ((hparams _).append (hbody _)).of_inside
  case case44 =>
    intro _ _ hbody q
    exact (hbody _).of_inside
  case case88 =>
    intro _ hf p q
    exact (hf _).of_inside
  case case66 =>
    intro p _ _ _ _ hinit htest hupdate hbody q
    exact (((hinit q).append (htest q)).append (hupdate q)).append (hbody q)
  case case68 =>
    intro p _ _ _ _ isAwait hhead hiterable hbody q
    have hawait : Shifts p q (if isAwait then [⟨.forAwait, p⟩] else [])
        (if isAwait then [⟨.forAwait, q⟩] else []) := by
      cases isAwait <;> simp [Shifts.cons]
    exact ((hawait.append (hhead q)).append (hiterable q)).append (hbody q)
  case case74 =>
    intro p _ _ _ _ hblock hparam hhandler hfinalizer q
    exact (((hblock q).append (hparam q)).append (hhandler q)).append (hfinalizer q)
  all_goals
    intros
    solve_by_elim [Shifts.append, Shifts.cons, shifts_nil]

end Shifts
end EcmaScript

import EcmaScript.Proofs.Safety.Course
import EcmaScript.Proofs.Arguments.Sharing

/-! Each turn of a `for` loop has variables of its own, when its head declares them by `let`. -/
namespace EcmaScript
open Exec Relation

section Turns
variable {α β : Type} {m : Machine} {c : Context} {body : β → Exec (β ⊕ α)} {b : β} {s s' : State}

/-- The turns that a loop has come to, the last one first: what each begins with, and in which state. -/
inductive Exec.Turns (m : Machine) (c : Context) (body : β → Exec (β ⊕ α)) (b : β) (s : State) :
    List (β × State) → Prop where
  | first : Turns m c body b s [(b, s)]
  | next {b₁ b₂ : β} {s₁ s₂ : State} {turns : List (β × State)}
    (h : Turns m c body b s ((b₁, s₁) :: turns)) (hturn : (body b₁).Comes m c s₁ (.ok (.inl b₂)) s₂) :
    Turns m c body b s ((b₂, s₂) :: (b₁, s₁) :: turns)

theorem Exec.Comes.turns {r : Except Abrupt α} (h : (Exec.loop b body).Comes m c s r s') :
    ∃ b₁ s₁ turns, Turns m c body b s ((b₁, s₁) :: turns) ∧ (body b₁).Comes m c s₁ (r.map .inr) s' := by
  refine h.loop (P := fun b' s₁ => ∀ turns, Turns m c body b s ((b', s₁) :: turns) → _)
    (fun b₁ b₂ s₁ s₂ hturn ih turns hturns => ?_) (fun b₁ s₁ hlast turns hturns => ?_) [] .first
  · exact ih _ (.next hturns hturn)
  · exact ⟨b₁, s₁, turns, hturns, hlast⟩

end Turns

def State.copied (s : State) (id : ScopeId) : State :=
  { s with scopes := s.scopes.push (s.scope id).copyForIteration }

def State.StandsIn (s : State) (id parent : ScopeId) : Prop := (s.scope id).parent = some parent

/-- A scope that exists, stands in a certain one directly, and has come up since an earlier state. -/
structure State.Inner (s₀ : State) (outer : ScopeId) (s : State) (id : ScopeId) : Prop where
  new : s₀.scopes.size ≤ id.index
  present : id.index < s.scopes.size
  stands : s.StandsIn id outer

namespace State
variable {s₀ s s' : State} {outer id : ScopeId}

theorem Inner.later (h : s₀.Inner outer s id) (hs : s.Before s') : s₀.Inner outer s' id where
  new := h.new
  present := Nat.lt_of_lt_of_le h.present hs.scopes
  stands := (hs.parents id h.present).trans h.stands

theorem before_push {scope : Scope} : s.Before { s with scopes := s.scopes.push scope } :=
  (Act.newScope (w := .bare s) World.met_bare fun _ _ _ h => h.elim).before

theorem Inner.copied (h : s₀.Inner outer s id) : s₀.Inner outer (s.copied id) ⟨s.scopes.size⟩ where
  new := Nat.le_trans h.new (Nat.le_of_lt h.present)
  present := by simp [State.copied]
  stands := by
    rw [StandsIn, State.copied, scope_push, if_pos rfl]
    exact h.stands

theorem bindings_copied : ((s.copied id).scope ⟨s.scopes.size⟩).bindings = (s.scope id).bindings := by
  rw [State.copied, scope_push, if_pos rfl]
  rfl

end State

section Steps
variable {n : Nat} {c : Context} {scope inner next : ScopeId} {test update : Option Expr}
  {body : Statement} {labels : List String} {s s' : State}

/-- A turn of a `for` loop in its scope, with the last value so far. -/
def Exec.forTurn (copied : Bool) (test update : Option Expr) (body : Statement) (labels : List String) :
    ScopeId × Option Value → Exec ((ScopeId × Option Value) ⊕ Completion)
  | (inner, last) => do
    checkInterrupts
    if !(← testFor inner test) then return .inr (loopDone last)
    match ← runBody inner body labels last with
    | .inr c => return .inr c
    | .inl last => return .inl (← nextTurn inner copied update, last)

theorem evaluateFor_eq {init : Option Statement} :
    evaluateFor scope init test update body labels = (do
      let start ← startFor scope init
      let inner ← nextTurn start.1 start.2 none
      loop (inner, none) (forTurn start.2 test update body labels)) := rfl

/-- The update expression has been evaluated, if there is one. -/
def Updates (n : Nat) (c : Context) (scope : ScopeId) (update : Option Expr) (s s' : State) : Prop :=
  match update with
  | some e => ∃ v, (evaluate scope e).Comes (machine n) c s (.ok v) s'
  | none => s' = s

theorem Updates.before (h : Updates n c scope update s s') : s.Before s' := by
  cases update with
  | some e =>
    obtain ⟨v, h⟩ := h
    exact h.before evaluate_safe
  | none => exact h ▸ .refl

/-- What lies between the beginning of a turn and that of the next one. The scope of the next one is made
when the body has ended, and is a copy of that of the turn as it is then; the update acts on it. -/
inductive ForStep (n : Nat) (c : Context) (test update : Option Expr) (body : Statement)
    (labels : List String) (inner : ScopeId) (s : State) (next : ScopeId) (s' : State) : Prop where
  | intro {s₁ s₂ s₃ : State} {completion : Completion} (hs : s₁ = { s with clock := s.clock + checkNanos })
    (htest : (testFor inner test).Comes (machine n) c s₁ (.ok true) s₂)
    (hbody : (request (.statement inner body [])).Comes (machine n) c s₂ (.ok completion) s₃)
    (hcontinues : completion.continuesLoop labels = true) (hnext : next = ⟨s₃.scopes.size⟩)
    (hbindings : ((s₃.copied inner).scope next).bindings = (s₃.scope inner).bindings)
    (hupdate : Updates n c next update (s₃.copied inner) s')

theorem comes_nextTurn (h : (nextTurn inner true update).Comes (machine n) c s (.ok next) s') :
    next = ⟨s.scopes.size⟩ ∧ Updates n c next update (s.copied inner) s' := by
  unfold nextTurn at h
  extract_lets updating at h
  obtain ⟨copy, s₁, hcopy, h⟩ := comes_bind_ok.mp h
  replace hcopy := comes_look_bind.mp hcopy
  obtain ⟨he, rfl⟩ := comes_newScope.mp hcopy
  cases he
  cases update with
  | some e =>
    obtain ⟨v, s₂, hupdate, h⟩ := comes_bind_ok.mp h
    obtain ⟨he, rfl⟩ := comes_pure.mp h
    cases he
    exact ⟨rfl, v, hupdate⟩
  | none =>
    obtain ⟨he, rfl⟩ := comes_pure.mp h
    cases he
    exact ⟨rfl, rfl⟩

theorem comes_forTurn {last last' : Option Value}
    (h : (forTurn true test update body labels (inner, last)).Comes (machine n) c s
      (.ok (.inl (next, last'))) s') : ForStep n c test update body labels inner s next s' := by
  obtain ⟨_, s₁, hchecked, h⟩ := comes_bind_ok.mp h
  obtain ⟨goesOn, s₂, htest, h⟩ := comes_bind_ok.mp h
  split at h
  · nomatch (comes_pure.mp h).1
  · rename_i hgoesOn
    obtain ⟨r, s₃, hbody, h⟩ := comes_bind_ok.mp h
    obtain ⟨completion, s₄, hstatement, hbody⟩ := comes_bind_ok.mp hbody
    obtain ⟨hr, rfl⟩ := comes_pure.mp hbody
    cases r with
    | inr completion' => nomatch (comes_pure.mp h).1
    | inl last₁ =>
      obtain ⟨next', s₄, hnext, h⟩ := comes_bind_ok.mp h
      obtain ⟨he, rfl⟩ := comes_pure.mp h
      cases he
      obtain ⟨rfl, hupdate⟩ := comes_nextTurn hnext
      have hcontinues : completion.continuesLoop labels = true := by
        by_contra hends
        simp [hends] at hr
      have htrue : goesOn = true := by simpa using hgoesOn
      exact .intro (comes_checkInterrupts hchecked) (htrue ▸ htest) hstatement hcontinues rfl
        State.bindings_copied hupdate

theorem ForStep.before (h : ForStep n c test update body labels inner s next s') :
    ∃ s₃, s.Before s₃ ∧ next = ⟨s₃.scopes.size⟩ ∧ (s₃.copied inner).Before s' := by
  obtain ⟨rfl, htest, hbody, -, rfl, -, hupdate⟩ := h
  have hclock : s.Before { s with clock := s.clock + checkNanos } := .of_eq rfl rfl rfl rfl
  exact ⟨_, (hclock.trans (htest.before testFor_safe)).trans (hbody.before statement_safe), rfl,
    hupdate.before⟩

theorem comes_startFor {span : Span} {declarators : List Declarator} {head : ScopeId} {copied : Bool}
    (h : (startFor scope (some (.mk span (.declaration .let declarators)))).Comes (machine n) c s
      (.ok (head, copied)) s') : copied = true ∧ s.Inner scope s' head := by
  obtain ⟨block, s₁, hblock, h⟩ := comes_bind_ok.mp h
  obtain ⟨_, s₂, hdeclared, h⟩ := comes_bind_ok.mp h
  obtain ⟨he, rfl⟩ := comes_pure.mp h
  cases he
  obtain ⟨block, s₃, hnew, hblock⟩ := comes_bind_ok.mp hblock
  obtain ⟨_, s₄, hnames, hblock⟩ := comes_bind_ok.mp hblock
  obtain ⟨he, rfl⟩ := comes_pure.mp hblock
  cases he
  obtain ⟨he, rfl⟩ := comes_newScope.mp hnew
  cases he
  have howns {s : State} {id : ScopeId} : (World.bare s).ownsScope id := fun _ hd => nomatch hd
  have hnamed := hnames.before (Q := Known)
    (.forM (fun _ _ _ h => declareName_safe (h.ownsScope howns)) fun _ _ => trivial)
  have hinitialized := hdeclared.before (Q := Known)
    (.forM (fun _ _ _ _ => declareVariable_safe) fun _ _ => trivial)
  refine ⟨rfl, State.Inner.later ?_ (hnamed.trans hinitialized)⟩
  exact {
    new := Nat.le_refl _
    present := by simp
    stands := by rw [State.StandsIn, State.scope_push, if_pos rfl] }

end Steps

section Isolation
variable {s s₀ s' : State} {outer : ScopeId}

def State.Founded (s : State) (scope : ScopeId) : Prop :=
  ∀ id, ReflTransGen s.StandsIn scope id → id.index < s.scopes.size

theorem gives_readName {m : Machine} {c : Context} {b k : ScopeId} {name : String} {v : Value}
    (hk : s.resolve b name = some k) : (readName b name).Gives m c s v s' ↔
      ((s.scope k).binding? name).bind (·.value) = some v ∧ s' = s := by
  rw [readName, gives_look_bind, hk]
  refine gives_look_bind.trans ?_
  cases hv : ((s.scope k).binding? name).bind (·.value) with
  | some u =>
    dsimp only
    exact gives_pure.trans (by simp [eq_comm])
  | none =>
    dsimp only
    exact ⟨fun h => (gives_raise h).elim, fun h => nomatch h.1⟩

theorem State.Before.stands {id : ScopeId} (hb : s.Before s') (hf : s.Founded outer)
    (h : ReflTransGen s'.StandsIn outer id) : ReflTransGen s.StandsIn outer id := by
  induction h with
  | refl => exact .refl
  | tail _ hparent ih => exact ih.tail ((hb.parents _ (hf _ ih)).symm.trans hparent)

theorem State.Inner.eq_of_reaches {i j : ScopeId} (hi : s₀.Inner outer s i) (hj : s₀.Inner outer s j)
    (hb : s₀.Before s) (hf : s₀.Founded outer) (h : ReflTransGen s.StandsIn i j) : i = j := by
  rcases h.cases_head with rfl | ⟨parent, hparent, h⟩
  · rfl
  · obtain rfl : outer = parent := Option.some.inj (hi.stands.symm.trans hparent)
    have hold := hf _ (hb.stands hf h)
    have hnew := hj.new
    omega

theorem State.findScope_reaches {p : Scope → Bool} {fuel : Nat} {a k : ScopeId}
    (h : s.findScope p fuel a = some k) : ReflTransGen s.StandsIn a k := by
  induction fuel generalizing a with
  | zero => cases h
  | succ fuel ih =>
    rw [findScope] at h
    split at h
    · cases h
      exact .refl
    · split at h
      · exact .head ‹_› (ih h)
      · cases h

theorem State.findScope_congr {p : Scope → Bool} {fuel : Nat} {a : ScopeId}
    (hp : ∀ id, p (s'.scope id) = p (s.scope id)) (hparent : ∀ id, (s'.scope id).parent = (s.scope id).parent) :
    s'.findScope p fuel a = s.findScope p fuel a := by
  induction fuel generalizing a with
  | zero => rfl
  | succ fuel ih =>
    rw [findScope, findScope, hp, hparent]
    simp only [ih]

theorem comes_checkScopeWrite {n : Nat} {c : Context} {id : ScopeId} {name : String}
    {r : Except Abrupt Unit} (h : (checkScopeWrite id name).Comes (machine n) c s r s') : s' = s := by
  rw [checkScopeWrite, comes_context_bind] at h
  split at h
  · exact (comes_halt h).2
  · exact (comes_pure.mp h).2

theorem Scope.binds_assign {sc sc' : Scope} {name other : String} {v : Value} {strict : Bool}
    (h : sc.assign name v strict = .ok sc') : sc'.binds other = sc.binds other := by
  unfold assign at h
  split at h
  · cases h
  · cases h
  · cases h
  · split at h <;> cases h
    rfl
  · rename_i hb
    cases h
    rw [binds, binding?_replaced (by simp [hb])]
    by_cases ho : other = name
    · simp [binds, ho, hb]
    · simp [binds, ho]

theorem comes_assignName {n : Nat} {c : Context} {a k : ScopeId} {name : String} {v : Value}
    {r : Except Abrupt Unit} (hk : s.resolve a name = some k)
    (h : (assignName a name v).Comes (machine n) c s r s') :
    s' = s ∨ ∃ changed, (s.scope k).assign name v c.strict = .ok changed ∧ s' = s.replaceScope k changed := by
  rw [assignName, comes_context_bind, comes_look_bind, hk] at h
  obtain ⟨_, s₁, hcheck, hassign⟩ | ⟨e, hcheck, -⟩ := comes_bind.mp h
  · cases comes_checkScopeWrite hcheck
    replace hassign := comes_look_bind.mp hassign
    split at hassign
    · rename_i changed hchanged
      refine .inr ⟨changed, hchanged, ?_⟩
      rw [(comes_change.mp hassign).2, State.scopes_modify]
      rfl
    · exact .inl (comes_raise.mp hassign).2
    · exact .inl (comes_raise.mp hassign).2
    · exact .inl (comes_raise.mp hassign).2
  · exact .inl (comes_checkScopeWrite hcheck)

/-- What is assigned to a variable from within one scope changes nothing in another one, nor what is read
of its variables, wherever they are seen from. -/
def State.Isolates (s : State) (i j : ScopeId) : Prop :=
  ∀ a b name, ReflTransGen s.StandsIn a i → s.resolve b name = some j →
    ∀ assigned k v n c r s', s.resolve a assigned = some k →
      (assignName a assigned v).Comes (machine n) c s r s' →
      s'.scope j = s.scope j ∧ ∀ m c u,
        (readName b name).Gives m c s' u s' ↔ (readName b name).Gives m c s u s

theorem State.Inner.isolates {i j : ScopeId} (hi : s₀.Inner outer s i) (hj : s₀.Inner outer s j)
    (hne : i ≠ j) (hb : s₀.Before s) (hf : s₀.Founded outer) : s.Isolates i j := by
  intro a b name ha hname assigned k v n c r s' hk hassign
  have hother : k ≠ j := by
    rintro rfl
    have hunique : Relator.RightUnique s.StandsIn := fun _ _ _ h h' => Option.some.inj (h.symm.trans h')
    rcases ReflTransGen.total_of_right_unique hunique ha (findScope_reaches hk) with h | h
    · exact hne (hi.eq_of_reaches hj hb hf h)
    · exact hne (hj.eq_of_reaches hi hb hf h).symm
  rcases comes_assignName hk hassign with rfl | ⟨changed, hchanged, rfl⟩
  · exact ⟨rfl, fun _ _ _ => .rfl⟩
  · have hscope : (s.replaceScope k changed).scope j = s.scope j := by
      rw [scope_replace, if_neg fun h => hother h.1.symm]
    have hresolve : (s.replaceScope k changed).resolve b name = some j := by
      rw [← hname, resolve, resolve, show (s.replaceScope k changed).scopes.size = s.scopes.size by
        simp [replaceScope]]
      refine findScope_congr (fun id => ?_) fun id => ?_ <;> rw [scope_replace] <;> split
      · rename_i h
        rw [h.1, Scope.binds_assign hchanged]
      · rfl
      · rename_i h
        rw [h.1, (Scope.sameBut_assign hchanged).parent_eq]
      · rfl
    refine ⟨hscope, fun m c u => ?_⟩
    rw [gives_readName hresolve, gives_readName hname, hscope]
    simp

end Isolation

section Loops
variable {n : Nat} {c : Context} {scope head : ScopeId} {span : Span} {declarators : List Declarator}
  {test update : Option Expr} {body : Statement} {labels : List String} {s s₁ s' : State}
  {turns : List ((ScopeId × Option Value) × State)}

def letHead (span : Span) (declarators : List Declarator) : Option Statement :=
  some (.mk span (.declaration .let declarators))

/-- A run of a `for` loop whose head is a `let` declaration, as far as it has come: the scope of its head,
the state after the initialiser, and the turns, the last one first. The first one begins with a copy of
that scope. -/
structure LetRun (n : Nat) (c : Context) (scope : ScopeId) (span : Span) (declarators : List Declarator)
    (test update : Option Expr) (body : Statement) (labels : List String) (s : State) (head : ScopeId)
    (s₁ : State) (turns : List ((ScopeId × Option Value) × State)) : Prop where
  start : (startFor scope (letHead span declarators)).Comes (machine n) c s (.ok (head, true)) s₁
  turns : Turns (machine n) c (forTurn true test update body labels) (⟨s₁.scopes.size⟩, none)
    (s₁.copied head) turns

/-- How a `for` loop whose head is a `let` declaration ends: it fails in the head, or ends in the last
turn of a run. -/
inductive LetEnds (n : Nat) (c : Context) (scope : ScopeId) (span : Span) (declarators : List Declarator)
    (test update : Option Expr) (body : Statement) (labels : List String) (s : State)
    (r : Except Abrupt Completion) (s' : State) : Prop where
  | head {e : Abrupt} (hr : r = .error e)
    (h : (startFor scope (letHead span declarators)).Comes (machine n) c s (.error e) s')
  | turn {head : ScopeId} {turn : ScopeId × Option Value} {s₁ s₂ : State}
    {turns : List ((ScopeId × Option Value) × State)}
    (h : LetRun n c scope span declarators test update body labels s head s₁ ((turn, s₂) :: turns))
    (hlast : (forTurn true test update body labels turn).Comes (machine n) c s₂ (r.map .inr) s')

theorem comes_evaluateFor {r : Except Abrupt Completion}
    (h : (evaluateFor scope (letHead span declarators) test update body labels).Comes (machine n) c s r s') :
    LetEnds n c scope span declarators test update body labels s r s' := by
  rw [evaluateFor_eq] at h
  rcases comes_bind.mp h with ⟨⟨head, copied⟩, s₁, hstart, h⟩ | ⟨e, hstart, rfl⟩
  · obtain ⟨rfl, -⟩ := comes_startFor hstart
    replace h := (comes_bind_value rfl).mp h
    obtain ⟨turn, s₂, turns, hturns, hlast⟩ := h.turns
    exact .turn ⟨hstart, hturns⟩ hlast
  · exact .head rfl hstart

def scopesOf (head : ScopeId) (turns : List ((ScopeId × Option Value) × State)) : List ScopeId :=
  turns.map (·.1.1) ++ [head]

/-- A copy is newer than all the scopes that a loop has made before it. -/
theorem State.Inner.grow {s₀ : State} {inner : ScopeId} {scopes : List ScopeId} (hinner : inner ∈ scopes)
    (hold : ∀ id ∈ scopes, s₀.Inner scope s id)
    (hpairwise : scopes.Pairwise fun later earlier => earlier.index < later.index)
    (hs : (s.copied inner).Before s') :
    ((⟨s.scopes.size⟩ :: scopes).Pairwise fun later earlier => earlier.index < later.index) ∧
      ∀ id ∈ ⟨s.scopes.size⟩ :: scopes, s₀.Inner scope s' id := by
  refine ⟨List.pairwise_cons.mpr ⟨fun id hid => (hold id hid).present, hpairwise⟩, fun id hid => ?_⟩
  rcases List.mem_cons.mp hid with rfl | hid
  · exact (hold inner hinner).copied.later hs
  · exact (hold id hid).later ((before_push).trans hs)

/-- The scopes have been made one after the other, and all stand where the loop does. -/
theorem LetRun.scopes {turn : ScopeId × Option Value} {s₂ : State}
    (h : LetRun n c scope span declarators test update body labels s head s₁ ((turn, s₂) :: turns)) :
    s.Before s₂ ∧
    ((scopesOf head ((turn, s₂) :: turns)).Pairwise fun later earlier => earlier.index < later.index) ∧
    ∀ id ∈ scopesOf head ((turn, s₂) :: turns), s.Inner scope s₂ id := by
  obtain ⟨hstart, hturns⟩ := h
  have hbefore : s.Before s₁ := hstart.before startFor_safe
  have hhead := (comes_startFor hstart).2
  generalize hall : (turn, s₂) :: turns = all at hturns
  induction hturns generalizing turn s₂ turns with
  | first =>
    cases hall
    refine ⟨hbefore.trans State.before_push, State.Inner.grow ?_ ?_ ?_ .refl⟩
    · exact List.mem_singleton_self head
    · simpa using hhead
    · exact List.pairwise_singleton _ _
  | @next b₁ b₂ s₃ s₄ rest _ hturn ih =>
    cases hall
    obtain ⟨inner, last⟩ := b₁
    obtain ⟨next, last'⟩ := b₂
    obtain ⟨hb, hpairwise, hinner⟩ := ih rfl
    obtain ⟨s₅, hbody, rfl, hafter⟩ := (comes_forTurn hturn).before
    refine ⟨(hb.trans hbody).trans ((State.before_push).trans hafter), ?_⟩
    exact State.Inner.grow (List.mem_cons_self ..) (fun id hid => (hinner id hid).later hbody)
      hpairwise hafter

theorem Exec.Turns.steps {b : ScopeId × Option Value}
    (h : Turns (machine n) c (forTurn true test update body labels) b s turns) :
    turns.IsChain fun later earlier =>
      ForStep n c test update body labels earlier.1.1 earlier.2 later.1.1 later.2 := by
  induction h with
  | first => exact .singleton _
  | next _ hturn ih => exact .cons_cons (comes_forTurn hturn) ih

/-- What the turns of a run have of their own. -/
structure LetRun.Separates (n : Nat) (c : Context) (scope : ScopeId) (test update : Option Expr)
    (body : Statement) (labels : List String) (s : State) (head : ScopeId) (s₁ : State)
    (turns : List ((ScopeId × Option Value) × State)) (s₂ : State) : Prop where
  distinct : (scopesOf head turns).Nodup
  /-- The first turn begins with the bindings that the initialiser has left. -/
  first : ((s₁.copied head).scope ⟨s₁.scopes.size⟩).bindings = (s₁.scope head).bindings
  /-- Each other one begins with those that the body of the turn before has left. -/
  steps : turns.IsChain fun later earlier =>
    ForStep n c test update body labels earlier.1.1 earlier.2 later.1.1 later.2
  isolated : s.Founded scope → ∀ s', s₂.Before s' → ∀ i ∈ scopesOf head turns,
    ∀ j ∈ scopesOf head turns, i ≠ j → s'.Isolates i j

/-- Every turn of a `for` loop has variables of its own, if its head declares them by `let`: in any run,
as far as it has come, the scopes of the turns and of the head differ, each turn begins with a copy, on
which the update acts, and whatever comes later, what is assigned from within one of the scopes cannot be
seen in another. -/
theorem let_loop_scopes :
    (∀ (n : Nat) (c : Context) (scope : ScopeId) (span : Span) (declarators : List Declarator)
      (test update : Option Expr) (body : Statement) (labels : List String) (s s' : State)
      (r : Except Abrupt Completion),
      (evaluateFor scope (letHead span declarators) test update body labels).Comes (machine n) c s r s' →
      LetEnds n c scope span declarators test update body labels s r s') ∧
    ∀ (n : Nat) (c : Context) (scope head : ScopeId) (span : Span) (declarators : List Declarator)
      (test update : Option Expr) (body : Statement) (labels : List String) (s s₁ s₂ : State)
      (turn : ScopeId × Option Value) (turns : List ((ScopeId × Option Value) × State)),
      LetRun n c scope span declarators test update body labels s head s₁ ((turn, s₂) :: turns) →
      LetRun.Separates n c scope test update body labels s head s₁ ((turn, s₂) :: turns) s₂ := by
  refine ⟨fun n c scope span declarators test update body labels s s' r => comes_evaluateFor,
    fun n c scope head span declarators test update body labels s s₁ s₂ turn turns h => ?_⟩
  obtain ⟨hbefore, hpairwise, hinner⟩ := h.scopes
  exact {
    distinct := by
      refine List.Pairwise.imp (fun hlt => ?_) hpairwise
      rintro rfl
      exact Nat.lt_irrefl _ hlt
    first := State.bindings_copied
    steps := h.turns.steps
    isolated := fun hf s' hs' i hi j hj hne =>
      ((hinner i hi).later hs').isolates ((hinner j hj).later hs') hne (hbefore.trans hs') hf }

end Loops

/-- The loop `for (let i = true; ; ) break` ends, and `for (let i = true; ; ) ;` comes to a second turn:
what is then assigned to `i` in the scope of the head is not seen in that of the first turn. -/
theorem let_loop_scopes_second_turn :
    let s : State := { scopes := #[{ kind := .block, parent := none }] }
    let declarators : List Declarator := [.mk (.identifier "i" default) (some (.mk default (.boolean true)))]
    ∃ s₁ s₂ turns s₃ s₄,
      LetEnds 3 default ⟨0⟩ default declarators none none (.mk default (.break none)) [] s
        (.ok (.normal (some .undefined))) s₃ ∧
      LetRun.Separates 3 default ⟨0⟩ none none (.mk default .empty) [] s ⟨1⟩ s₁
        (((⟨3⟩, none), s₂) :: turns) s₂ ∧
      (assignName ⟨1⟩ "i" .null).Comes (machine 3) default s₂ (.ok ()) s₄ ∧
      (readName ⟨2⟩ "i").Gives (machine 3) default s₄ (.boolean true) s₄ := by
  intro s declarators
  have hends : (evaluateFor ⟨0⟩ (letHead default declarators) none none (.mk default (.break none)) []).Comes
      (machine 3) default s (.ok (.normal (some .undefined))) _ := (comes_value rfl).mpr ⟨rfl, rfl⟩
  have hstart : (startFor ⟨0⟩ (letHead default declarators)).Comes (machine 3) default s (.ok (⟨1⟩, true)) _ :=
    (comes_value rfl).mpr ⟨rfl, rfl⟩
  have hrun : LetRun 3 default ⟨0⟩ default declarators none none (.mk default .empty) [] s ⟨1⟩ _
      [((⟨3⟩, none), _), ((⟨2⟩, none), _)] :=
    ⟨hstart, .next .first ((comes_value rfl).mpr ⟨rfl, rfl⟩)⟩
  have hseparates := let_loop_scopes.2 _ _ _ _ _ _ _ _ _ _ _ _ _ _ _ hrun
  have hfounded : s.Founded ⟨0⟩ := by
    intro id h
    rcases h.cases_head with rfl | ⟨parent, hparent, -⟩
    · decide
    · cases hparent
  refine ⟨_, _, _, _, _, let_loop_scopes.1 _ _ _ _ _ _ _ _ _ _ _ _ hends, hseparates,
    (comes_value rfl).mpr ⟨rfl, rfl⟩, ?_⟩
  have hisolates := hseparates.isolated hfounded _ .refl ⟨1⟩ (by decide) ⟨2⟩ (by decide) (by decide)
  have hunseen := hisolates ⟨1⟩ ⟨2⟩ "i" .refl rfl "i" ⟨1⟩ .null 3 default _ _ rfl
    ((comes_value rfl).mpr ⟨rfl, rfl⟩)
  exact (hunseen.2 _ _ _).mpr rfl

end EcmaScript

import EcmaScript.Parser.Expression
import EcmaScript.Proofs.Progress.Function

/-! Expressions get on. -/
namespace EcmaScript.Grammar
open Parse TokenStream

variable {α : Type} {g : Grammar} {s s₁ : TokenStream} {p : α → Prop}

theorem expression_passes (hg : g.Open s 4) : Passes s g.expression := by
  refine .span_bind (hg.assignment.bind fun first s₁ h₁ => .at_bind fun _ _ => ?_)
  refine .ite (fun _ => Walks.pure) fun _ => Walks.bind (loop_walks fun before s₂ h₂ => ?_) fun _ _ _ =>
    .finish_bind Walks.pure
  refine eat_tries.ite (fun s₃ h₃ => ?_) (.pure nofun)
  exact (hg.past (h₁.trans_to (h₂.trans h₃.to))).assignment.bind fun _ _ _ => .pure

theorem expressionIn_passes (hg : g.Open s 4) : Passes s (withIn g.expression) :=
  Goes.withReader (expression_passes hg)

theorem substitution_walks {tokens : List Lexeme}
    (hg : ∀ s₁ last, s₁.left = tokens ++ [last] → last.token = .endOfInput → g.Open s₁ 4) :
    Walks s (g.substitution tokens) := by
  unfold Grammar.substitution
  refine .get_bind ?_
  cases tokens.getLast? with
  | none => exact .fail
  | some last =>
    refine .closed fun hs => Runs.set_bind ⟨?_, ?_⟩ ?_
    · simp
    · simp [Lexeme.token]
    · refine Runs.bind (expressionIn_passes (hg _ _ rfl rfl)) fun e s₂ _ => ?_
      extract_lets rest
      have hrest : Runs s₂ (rest ()) fun _ s' => s.To s' ∧ (False → s.Past s') :=
        Runs.modify_bind ⟨hs.pos, hs.last⟩ fun hs' _ => ⟨hs', ⟨rfl, le_rfl⟩, False.elim⟩
      refine Runs.peek_bind ?_
      split
      · exact hrest
      · exact .unexpected

theorem substitutions_walks {substitutions : List (List Lexeme)}
    (hg : ∀ tokens ∈ substitutions, ∀ s₁ last, s₁.left = tokens ++ [last] → last.token = .endOfInput →
      g.Open s₁ 4) : Walks s (substitutions.mapM g.substitution) := by
  induction substitutions generalizing s with
  | nil => exact Walks.pure
  | cons tokens rest ih =>
    rw [List.mapM_cons]
    obtain ⟨hfirst, hrest⟩ := List.forall_mem_cons.mp hg
    exact (substitution_walks hfirst).bind fun _ _ _ => (ih hrest).bind fun _ _ _ => Walks.pure

theorem templateParts_walks {chunks : List TemplateChunk} {substitutions : List (List Lexeme)}
    (hg : g.Open s 0) (hs : s.Closed) (htoken : (s.ahead 0).token = .template chunks substitutions) :
    Walks s₁ (substitutions.mapM g.substitution) := by
  refine substitutions_walks fun tokens htokens s₂ last hleft hlast => ?_
  exact hg.deeper (.enter hs.ahead_mem_left (htoken ▸ htokens) hleft hlast)

/-- An item of a list, which may be spread. -/
theorem item_bind {start : Span} {k : Expr → Parse α} (hg : g.Open s 4)
    (hk : ∀ e s₁, s.Past s₁ → Walks s₁ (k e)) :
    Goes s (eat .spread >>= fun b =>
      if b then do
        let e ← g.assignment
        let y ← finish start
        k (.mk y (.spread e))
      else g.assignment >>= k) p := by
  refine eat_tries.ite (fun s₁ h₁ => ?_) (hg.assignment.bind hk)
  exact (hg.later h₁.to).assignment.bind fun e s₂ h₂ => .finish_bind (hk _ s₂ (h₁.trans_to h₂.to))

theorem arguments_passes (hg : g.Open s 0) : Passes s g.arguments := by
  refine expect_passes.bind fun _ s₁ h₁ => Walks.bind (Goes.withReader (loop_walks fun before s₂ h₂ => ?_))
    fun _ _ _ => expect_passes.bind fun _ _ _ => .pure
  refine .at_bind fun _ _ => .ite (fun _ => .pure nofun) fun _ => .span_bind ?_
  refine item_bind (hg.past (h₁.trans_to h₂)) fun item s₃ _ => ?_
  exact eat_tries.ite (fun _ _ => .pure) Walks.pure

theorem memberName_passes : Passes s memberName := by
  refine .peek_bind ?_
  split
  · next h => exact (advance_passes (.of_eq h nofun)).bind fun _ _ _ => .pure
  · next h => exact (advance_passes (.of_eq h nofun)).bind fun _ _ _ => .pure
  · exact .unexpected

theorem computedName_passes (hg : g.Open s 4) : Passes s g.computedName :=
  advance_walks.bind fun _ _ h₁ => (expressionIn_passes (hg.later h₁)).bind fun _ _ _ =>
    expect_passes.bind fun _ _ _ => .pure

theorem superRule_passes (hg : g.Open s 0) (hs : s.More) : Passes s g.superRule := by
  refine (advance_passes hs).bind fun _ s₁ h₁ => .peek_bind ?_
  split
  · exact (arguments_passes (hg.past h₁)).bind fun _ _ _ => .finish_bind Walks.pure
  · refine advance_walks.bind fun _ _ _ => (memberName_passes).bind fun key _ _ => ?_
    split
    · exact .lastSpan_bind .fail
    · exact .finish_bind Walks.pure
  · exact (computedName_passes (hg.past h₁)).bind fun _ _ _ => .finish_bind Walks.pure
  · exact .fail

theorem taggedTemplate_passes {tag : Expr} {start : Span} {chunks : List TemplateChunk}
    {substitutions : List (List Lexeme)} (hg : g.Open s 0)
    (htoken : (s.ahead 0).token = .template chunks substitutions) :
    Passes s (g.taggedTemplate tag start chunks substitutions) :=
  .closed fun hs => (advance_passes (.of_eq htoken nofun)).bind fun _ _ _ =>
    (templateParts_walks hg hs htoken).bind fun _ _ _ => .finish_bind Walks.pure

theorem arrayLiteral_passes (hg : g.Open s 0) (hs : s.More) : Passes s g.arrayLiteral := by
  refine (advance_passes hs).bind fun _ s₁ h₁ => Walks.bind (Goes.withReader
    (loop_walks fun before s₂ h₂ => .span_bind (.peek_bind ?_))) fun _ _ _ =>
      expect_passes.bind fun _ _ _ => .finish_bind Walks.pure
  split
  · exact .pure nofun
  · next h => exact (advance_passes (.of_eq h nofun)).bind fun _ _ _ => .pure
  · refine item_bind (hg.past (h₁.trans_to h₂)) fun item s₃ _ => ?_
    exact eat_tries.ite (fun _ _ => .pure) Walks.pure

theorem objectMember_passes (hg : g.Open s 0) : Passes s g.objectMember := by
  refine .span_bind (methodModifiers_walks.bind fun modifiers s₁ h₁ => .lexeme_bind ?_)
  refine (propertyName_passes (hg.later h₁)).bind fun key s₂ h₂ => .at_bind fun _ _ => ?_
  have hg₂ {k : Nat} : g.Open s₂ k := (hg.later h₁).past h₂
  refine .ite (fun _ => ?_) fun _ => .ite (fun _ => .unexpected_bind) fun _ => ?_
  · exact (functionRest_passes hg₂).bind fun _ _ _ => .pure
  · refine eat_tries.ite (fun s₃ h₃ => (hg₂.later h₃.to).assignment.bind fun _ _ _ => .pure) ?_
    split
    · refine .ite (fun _ => .unexpected_bind) fun _ => .read_bind fun m => ?_
      refine .ite (fun _ => .fail_bind) fun _ => eat_tries.ite (fun s₃ h₃ => ?_) Walks.pure
      exact (hg₂.later h₃.to).assignment.bind fun _ _ _ => .finish_bind Walks.pure
    · exact .unexpected

theorem objectLiteral_passes (hg : g.Open s 0) (hs : s.More) : Passes s g.objectLiteral := by
  refine (advance_passes hs).bind fun _ s₁ h₁ => ?_
  refine Walks.bind (Goes.withReader (loop_walks fun before s₂ h₂ => ?_)) fun _ _ _ =>
    expect_passes.bind fun _ _ _ => .finish_bind Walks.pure
  have hg₂ {k : Nat} : g.Open s₂ k := hg.past (h₁.trans_to h₂)
  refine .at_bind fun _ _ => .ite (fun _ => .pure nofun) fun _ => ?_
  extract_lets rest
  have hrest (member : Member) (s₃ : TokenStream) : Walks s₃ (rest member) :=
    eat_tries.ite (fun _ _ => .pure) Walks.pure
  refine eat_tries.ite (fun s₃ h₃ => ?_) ((objectMember_passes hg₂).bind fun m s₃ _ => hrest m s₃)
  exact (hg₂.later h₃.to).assignment.bind fun e s₄ _ => hrest (.spread e) s₄

theorem wordExpression_passes {start : Span} {name : String} (hg : g.Open s 0) (hs : s.More) :
    Passes s (g.wordExpression start name) := by
  have hliteral {node : ExprNode} : Passes s (do
      let _ ← advance
      return Expr.mk start node) := (advance_passes hs).bind fun _ _ _ => .pure
  unfold Grammar.wordExpression
  dsimp only
  split
  · exact hliteral
  · exact hliteral
  · exact hliteral
  · exact hliteral
  · exact (function_passes hg).bind fun _ _ _ => .pure
  · exact (classRule_passes hg).bind fun _ _ _ => .pure
  · exact .unsupported
  · refine .lexemeAt_bind (.ite (fun _ => ?_) fun _ => .ite (fun _ => .unexpected_bind) fun _ => ?_)
    · exact advance_walks.bind fun _ _ h₁ => (function_passes (hg.later h₁)).bind fun _ _ _ => .pure
    · exact bindingName_passes.bind fun _ _ _ => .pure

theorem primary_passes (hg : g.Open s 0) : Passes s g.primary := by
  refine .lexeme_bind ?_
  have hliteral {node : ExprNode} (hs : s.More) : Passes s (do
      let _ ← advance
      return Expr.mk (s.ahead 0).span node) := (advance_passes hs).bind fun _ _ _ => .pure
  dsimp only
  split
  · next h => exact hliteral (.of_eq h nofun)
  · next h => exact hliteral (.of_eq h nofun)
  · next h => exact hliteral (.of_eq h nofun)
  · next h => exact hliteral (.of_eq h nofun)
  · next h =>
    refine .closed fun hs => (advance_passes (.of_eq h nofun)).bind fun _ _ _ => ?_
    refine .ite (fun _ => .fail_bind) fun _ => ?_
    exact (templateParts_walks hg hs h).bind fun _ _ _ => Walks.pure
  · next h =>
    refine (advance_passes (.of_eq h nofun)).bind fun _ s₁ h₁ => ?_
    refine (expressionIn_passes (hg.past h₁)).bind fun _ _ _ => expect_passes.bind fun _ _ _ => ?_
    exact .finish_bind Walks.pure
  · next h => exact arrayLiteral_passes hg (.of_eq h nofun)
  · next h => exact objectLiteral_passes hg (.of_eq h nofun)
  · next h => exact wordExpression_passes hg (.of_eq h nofun)
  · exact .unexpected

theorem chainHead_passes {newRule : Parse Expr} (hg : g.Open s 0) (hnew : s.More → Passes s newRule) :
    Passes s (g.chainHead newRule) := by
  refine .atWord_bind fun _ hb => .ite (fun h => hnew (hb h)) fun _ => ?_
  exact .atWord_bind fun _ hb => .ite (fun h => superRule_passes hg (hb h)) fun _ => primary_passes hg

theorem newRule_passes {fuel : Nat} (hg : g.Open s 0) (hs : s.More) (hfuel : s.tokens.size < s.pos + fuel) :
    Passes s (g.newRule fuel) := by
  induction fuel generalizing s with
  | zero =>
    refine .closed fun hs => ?_
    have hpos := hs.pos
    omega
  | succ fuel ih =>
    refine (advance_passes hs).bind fun _ s₁ h₁ => eat_tries.ite (fun s₂ h₂ => ?_) ?_
    · refine expectWord_passes.bind fun _ _ _ => .read_bind fun m => .ite (fun _ => .fail_bind) fun _ => ?_
      exact .finish_bind Walks.pure
    · have hpos := h₁.pos
      have hg₁ {k : Nat} : g.Open s₁ k := hg.past h₁
      refine (chainHead_passes hg₁ fun hs₁ => ih hg₁ hs₁ ?_).bind fun head s₂ h₂ => ?_
      · rw [h₁.tokens]
        omega
      refine Walks.bind (loop_walks fun callee s₃ h₃ => .peek_bind ?_) fun callee s₃ h₃ => ?_
      · have hg₃ {k : Nat} : g.Open s₃ k := hg₁.later (h₂.to.trans h₃)
        split
        · refine advance_walks.bind fun _ _ _ => (memberName_passes).bind fun _ _ _ => ?_
          exact .finish_bind Walks.pure
        · exact (computedName_passes hg₃).bind fun _ _ _ => .finish_bind Walks.pure
        · next h => exact (taggedTemplate_passes hg₃ h).bind fun _ _ _ => .pure
        · exact .span_bind .fail
        · exact .pure nofun
      · extract_lets rest
        have hrest (found : List Expr) (s₄ : TokenStream) : Walks s₄ (rest found) := .finish_bind Walks.pure
        refine .at_bind fun _ _ => .ite (fun _ => ?_) fun _ => hrest [] s₃
        exact (arguments_passes (hg₁.later (h₂.to.trans h₃))).bind fun found s₄ _ => hrest found s₄

theorem optionalLink_passes {object : Expr} {start : Span} (hg : g.Open s 4) :
    Passes s (g.optionalLink object start) := by
  refine .peek_bind ?_
  split
  · exact (arguments_passes hg.zero).bind fun _ _ _ => .finish_bind Walks.pure
  · exact (computedName_passes hg).bind fun _ _ _ => .finish_bind Walks.pure
  · exact (memberName_passes).bind fun _ _ _ => .finish_bind Walks.pure

theorem leftHandSideRule_passes (hg : g.Open s 0) : Passes s g.leftHandSideRule := by
  have hnew (hs : s.More) : Passes s (do g.newRule ((← get).tokens.size + 1)) :=
    .get_bind (newRule_passes hg hs (by omega))
  refine .span_bind ((chainHead_passes hg hnew).bind fun head s₁ h₁ => loop_walks fun r s₂ h₂ => ?_)
  obtain ⟨e, inChain⟩ := r
  have hg₂ {k : Nat} : g.Open s₂ k := hg.past (h₁.trans_to h₂)
  refine .peek_bind ?_
  split
  · refine advance_walks.bind fun _ _ _ => (memberName_passes).bind fun _ _ _ => ?_
    exact .finish_bind Walks.pure
  · refine advance_walks.bind fun _ _ h₃ => (optionalLink_passes (hg₂.later h₃)).bind fun _ _ _ => ?_
    exact Walks.pure
  · exact (computedName_passes hg₂).bind fun _ _ _ => .finish_bind Walks.pure
  · exact (arguments_passes hg₂).bind fun _ _ _ => .finish_bind Walks.pure
  · next h =>
    refine .ite (fun _ => .span_bind .fail_bind) fun _ => ?_
    exact (taggedTemplate_passes hg₂ h).bind fun _ _ _ => Walks.pure
  · exact .pure nofun

theorem more_of_unaryOp? {op : UnaryOp} (h : unaryOp? (s.ahead 0).token = some op) : s.More := by
  intro htoken
  rw [htoken] at h
  cases h

theorem more_of_updateMark? {increment : Bool} (h : updateMark? (s.ahead 0).token = some increment) :
    s.More := by
  intro htoken
  rw [htoken] at h
  cases h

theorem more_of_infixOp? {noIn : Bool} {r : Nat × InfixOp} (h : infixOp? noIn (s.ahead 0).token = some r) :
    s.More := by
  intro htoken
  rw [htoken] at h
  cases h

theorem unaryRule_passes (hg : g.Open s 1) : Passes s g.unaryRule := by
  refine .span_bind (.peek_bind ?_)
  split
  · refine (advance_passes (more_of_unaryOp? ‹_›)).bind fun _ s₁ h₁ => ?_
    exact (hg.past h₁).unary.bind fun _ _ _ => .finish_bind Walks.pure
  · refine (advance_passes (more_of_updateMark? ‹_›)).bind fun _ s₁ h₁ => ?_
    refine (hg.past h₁).unary.bind fun _ _ _ => .ite (fun _ => .fail_bind) fun _ => ?_
    exact .finish_bind Walks.pure
  · refine .awaitAllowed_bind fun allowed => .ite (fun h => ?_) fun _ => ?_
    · have hawait : (s.ahead 0).token.isWord "await" = true := by simp_all
      have hs : s.More := .of_isWord hawait
      refine (advance_passes hs).bind fun _ s₁ h₁ => noteAwait_walks.bind fun _ s₂ h₂ => ?_
      exact (hg.past (h₁.trans_to h₂)).unary.bind fun _ _ _ => .finish_bind Walks.pure
    · refine hg.leftHandSide.bind fun e s₁ _ => .lexeme_bind ?_
      split
      · refine .ite (fun _ => Walks.pure) fun _ => .ite (fun _ => .fail_bind) fun _ => ?_
        exact advance_walks.bind fun _ _ _ => .finish_bind Walks.pure
      · exact Walks.pure

theorem firstOperand_passes (hg : g.Open s 2) : Passes s g.firstOperand := by
  refine .span_bind (.peek_bind ?_)
  split
  · next h =>
    refine .peekAt_bind (.ite (fun _ => ?_) fun _ => hg.unary)
    refine (advance_passes (.of_eq h nofun)).bind fun _ s₁ h₁ => advance_walks.bind fun _ s₂ h₂ => ?_
    exact ((hg.past (h₁.trans_to h₂)).binary 8).bind fun _ _ _ => .finish_bind Walks.pure
  · exact hg.unary

theorem binaryRule_passes {floor : Nat} (hg : g.Open s 2) : Passes s (g.binaryRule floor) := by
  refine .span_bind (.at_bind fun _ _ => (firstOperand_passes hg).bind fun first s₁ h₁ => ?_)
  refine .read_bind fun m => loop_walks fun left s₂ h₂ => .peek_bind ?_
  split
  · exact .pure nofun
  · next h =>
    refine .ite (fun _ => .pure nofun) fun _ => .ite (fun _ => .span_bind .fail_bind) fun _ => ?_
    refine (advance_passes (more_of_infixOp? h)).bind fun _ s₃ h₃ => ?_
    exact ((hg.past (h₁.trans_to (h₂.trans h₃.to))).binary _).bind fun _ _ _ => .finish_bind Walks.pure

theorem conditional_passes (hg : g.Open s 3) : Passes s g.conditional := by
  refine .span_bind ((hg.binary 0).bind fun test s₁ h₁ => eat_tries.not_ite (fun s₂ h₂ => ?_) Walks.pure)
  have hg₂ {k : Nat} : g.Open s₂ k := hg.past (h₁.trans_to h₂.to)
  refine (assignmentIn_passes hg₂).bind fun consequent s₃ h₃ => expect_passes.bind fun _ s₄ h₄ => ?_
  exact (hg₂.later (h₃.trans_to h₄.to).to).assignment.bind fun _ _ _ => .finish_bind Walks.pure

theorem yieldRule_passes (hg : g.Open s 0) (hs : s.More) : Passes s g.yieldRule := by
  refine (advance_passes hs).bind fun _ s₁ h₁ => eat_tries.walks.bind fun delegate s₂ h₂ => .lexeme_bind ?_
  extract_lets rest
  have hrest (operand : Option Expr) (s₃ : TokenStream) : Walks s₃ (rest operand) := .finish_bind Walks.pure
  refine .ite (fun _ => hrest none s₂) fun _ => ?_
  exact (hg.past (h₁.trans_to h₂)).assignment.bind fun e s₃ _ => hrest (some e) s₃

theorem assignmentRule_passes (hg : g.Open s 3) : Passes s g.assignmentRule := by
  refine .closed fun hs => .get_bind (.ofExcept_bind (arrowAhead?_ne_stuck hs) fun ahead => ?_)
  split
  · exact arrow_passes hg.zero
  · refine .read_bind fun m => .atWord_bind fun b hb => .ite (fun h => ?_) fun _ => ?_
    · exact yieldRule_passes hg.zero (hb (by simp_all))
    · refine .span_bind ((conditional_passes hg).bind fun left s₁ h₁ => .peek_bind ?_)
      split
      · refine advance_walks.bind fun _ s₂ h₂ => ?_
        refine .ofExcept_bind (Expr.toPattern_ne_stuck left) fun target => ?_
        exact (hg.past (h₁.trans_to h₂)).assignment.bind fun _ _ _ => .finish_bind Walks.pure
      · refine .ite (fun _ => .fail_bind) fun _ => advance_walks.bind fun _ s₂ h₂ => ?_
        exact (hg.past (h₁.trans_to h₂)).assignment.bind fun _ _ _ => .finish_bind Walks.pure
      · exact Walks.pure

end EcmaScript.Grammar

import EcmaScript.Parser.Statement
import EcmaScript.Proofs.Progress.Expression

/-! Statements and whole scripts get on: parsing terminates. -/
namespace EcmaScript
open Parse TokenStream

namespace Grammar
variable {α : Type} {g : Grammar} {s : TokenStream} {p : α → Prop}

theorem parenthesized_passes (hg : g.Open s 0) : Passes s g.parenthesized :=
  expect_passes.bind fun _ _ h₁ => (expressionIn_passes (hg.past h₁)).bind fun _ _ _ =>
    expect_passes.bind fun _ _ _ => .pure

theorem declarationAhead_goes {k : Option VarKind → Parse α} (h : ∀ kind, Goes s (k kind) p) :
    Goes s (declarationAhead >>= k) p := by
  have hahead : Runs s declarationAhead fun _ s' => s' = s := by
    refine Runs.peek_bind ?_
    split
    · refine .peekAt_bind ?_
      split <;> exact fun hs _ => ⟨hs, rfl⟩
    · exact fun hs _ => ⟨hs, rfl⟩
  exact Runs.bind hahead fun kind s₁ hsame => hsame ▸ h kind

theorem atForEach_walks : Walks s atForEach := .atWord_bind fun _ _ => .atWord_bind fun _ _ => Walks.pure

theorem declarators_walks {kind : VarKind} (hg : g.Open s 1) : Walks s (g.declarators kind) := by
  refine loop_walks fun before s₁ h₁ => (hg.later h₁).binding.bind fun target s₂ h₂ => ?_
  extract_lets rest
  have hrest (init : Option Expr) (s₃ : TokenStream) : Walks s₃ (rest init) := by
    refine .read_bind fun m => .ite (fun _ => .lastSpan_bind .fail_bind) fun _ => ?_
    exact eat_tries.ite (fun _ _ => .pure) Walks.pure
  refine eat_tries.ite (fun s₃ h₃ => ?_) (hrest none s₂)
  exact (hg.past (h₁.past (h₂.trans_to h₃.to))).assignment.bind fun e s₄ _ => hrest (some e) s₄

theorem variableStatement_passes {kind : VarKind} (hg : g.Open s 0) (hs : s.More) :
    Passes s (g.variableStatement kind) :=
  (advance_passes hs).bind fun _ _ h₁ => (declarators_walks (hg.past h₁)).bind fun _ _ _ =>
    semicolon_walks.bind fun _ _ _ => Walks.pure

theorem ifRule_passes (hg : g.Open s 0) (hs : s.More) : Passes s g.ifRule := by
  refine (advance_passes hs).bind fun _ s₁ h₁ => (parenthesized_passes (hg.past h₁)).bind fun test s₂ h₂ => ?_
  have hg₂ {k : Nat} : g.Open s₂ k := hg.past (h₁.trans_to h₂.to)
  refine hg₂.statement.bind fun consequent s₃ h₃ => eatWord_tries.ite (fun s₄ h₄ => ?_) Walks.pure
  exact (hg₂.later (h₃.to.trans h₄.to)).statement.bind fun _ _ _ => .pure

theorem forEach_passes {kind : Option VarKind} {head : Pattern} {isAwait : Bool} (hg : g.Open s 5) :
    Passes s (g.forEach kind head isAwait) := by
  refine .atWord_bind fun isOf _ => advance_walks.bind fun _ s₁ h₁ => ?_
  have hg₁ : g.Open s₁ 4 := (hg.later h₁).mono (Nat.le_succ 4)
  have hobject : Passes s₁ (withIn (if isOf = true then g.assignment else g.expression)) :=
    Goes.withReader (.ite (fun _ => hg₁.assignment) fun _ => expression_passes hg₁)
  refine hobject.bind fun object s₂ h₂ => expect_passes.bind fun _ s₃ h₃ => ?_
  refine (hg.later (h₁.trans (h₂.to.trans h₃.to))).statement.bind fun body s₄ _ => ?_
  exact .ite (fun _ => Walks.pure) fun _ => .ite (fun _ => .fail_bind) fun _ => Walks.pure

theorem forRest_passes {keyword : Span} {init : Option Statement} {isAwait : Bool} (hg : g.Open s 0) :
    Passes s (g.forRest keyword init isAwait) := by
  refine .ite (fun _ => .fail_bind) fun _ => expect_passes.bind fun _ s₁ h₁ => ?_
  have hg₁ {k : Nat} : g.Open s₁ k := hg.past h₁
  extract_lets rest
  have hbody (test update : Option Expr) (s₂ : TokenStream) (h₂ : s₁.To s₂) : Walks s₂ (do
      let _ ← expect .rParen
      return StatementNode.for init test update (← g.statement)) :=
    expect_passes.bind fun _ s₃ h₃ => (hg₁.later (h₂.trans h₃.to)).statement.bind fun _ _ _ => Walks.pure
  have hrest (test : Option Expr) (s₂ : TokenStream) (h₂ : s₁.To s₂) : Walks s₂ (rest test) := by
    refine expect_passes.bind fun _ s₃ h₃ => .at_bind fun _ _ => .ite (fun _ => ?_) fun _ => ?_
    · exact hbody test none s₃ (h₂.trans h₃.to)
    · exact (expressionIn_passes (hg₁.later (h₂.trans h₃.to))).bind fun e s₄ h₄ =>
        hbody test (some e) s₄ (h₂.trans (h₃.to.trans h₄.to))
  refine .at_bind fun _ _ => .ite (fun _ => hrest none s₁ (.refl s₁)) fun _ => ?_
  exact (expressionIn_passes hg₁).bind fun e s₂ h₂ => hrest (some e) s₂ h₂.to

theorem forDeclaration_passes {keyword : Span} {kind : VarKind} {isAwait : Bool} (hg : g.Open s 5) :
    Passes s (g.forDeclaration keyword kind isAwait) := by
  refine advance_walks.bind fun _ s₁ h₁ => ?_
  have htarget : Passes s₁ (withoutIn g.binding) :=
    Goes.withReader ((hg.later h₁).mono (by decide)).binding
  refine htarget.bind fun target s₂ h₂ => (atForEach_walks).bind fun _ s₃ h₃ => ?_
  have h : s.To s₃ := h₁.trans (h₂.to.trans h₃)
  refine .ite (fun _ => (forEach_passes (hg.later h)).walks) fun _ => ?_
  extract_lets declared
  have hdeclared (init : Option Expr) (s₄ : TokenStream) (h₄ : s₃.To s₄) : Walks s₄ (declared init) := by
    refine .ite (fun _ => .lastSpan_bind .fail_bind) fun _ => ?_
    extract_lets rest
    have hrest (others : List Declarator) (s₅ : TokenStream) (h₅ : s₄.To s₅) : Walks s₅ (rest others) :=
      .finish_bind (forRest_passes (hg.later (h.trans (h₄.trans h₅))).zero).walks
    refine eat_tries.ite (fun s₅ h₅ => ?_) (hrest [] s₄ (.refl s₄))
    have hg₅ : g.Open s₅ 1 := (hg.later (h.trans (h₄.trans h₅.to))).mono (by decide)
    exact Walks.bind (Goes.withReader (declarators_walks hg₅)) fun others s₆ h₆ =>
      hrest others s₆ (h₅.to.trans h₆)
  refine eat_tries.ite (fun s₄ h₄ => ?_) (hdeclared none s₃ (.refl s₃))
  have hg₄ : g.Open s₄ 4 := (hg.later (h.trans h₄.to)).mono (Nat.le_succ 4)
  exact Passes.bind (Goes.withReader hg₄.assignment) fun e s₅ h₅ => hdeclared (some e) s₅ (h₄.to.trans h₅.to)

theorem forRule_passes (hg : g.Open s 0) (hs : s.More) : Passes s g.forRule := by
  refine (advance_passes hs).bind fun _ s₁ h₁ => ?_
  extract_lets _ rest waiting
  have hrest (isAwait : Bool) (s₂ : TokenStream) (h₂ : s₁.To s₂) : Walks s₂ (rest isAwait) := by
    refine expect_passes.bind fun _ s₃ h₃ => declarationAhead_goes fun ahead => ?_
    have hg₃ {k : Nat} : g.Open s₃ k := hg.past (h₁.trans_to (h₂.trans h₃.to))
    cases ahead with
    | some kind => exact (forDeclaration_passes hg₃).walks
    | none =>
      refine .at_bind fun _ _ => .ite (fun _ => (forRest_passes hg₃).walks) fun _ => ?_
      refine Passes.bind (Goes.withReader (expression_passes hg₃)) fun e s₄ h₄ => ?_
      refine (atForEach_walks).bind fun _ s₅ h₅ => .ite (fun _ => ?_) fun _ => ?_
      · cases htarget : e.toPattern with
        | ok target => exact (forEach_passes (hg₃.later (h₄.to.trans h₅))).walks
        | error fault => exact fun _ _ hfault => Expr.toPattern_ne_stuck e (hfault ▸ htarget)
      · exact (forRest_passes (hg₃.later (h₄.to.trans h₅))).walks
  refine .atWord_bind fun _ _ => .ite (fun _ => ?_) fun _ => hrest false s₁ (.refl s₁)
  refine .awaitAllowed_bind fun _ => .ite (fun _ => .unexpected_bind) fun _ => noteAwait_walks.bind fun _ s₂ h₂ => ?_
  exact advance_walks.bind fun _ s₃ h₃ => hrest true s₃ (h₂.trans h₃)

theorem tryRule_passes (hg : g.Open s 0) (hs : s.More) : Passes s g.tryRule := by
  refine (advance_passes hs).bind fun _ s₁ h₁ => (block_passes (hg.past h₁)).bind fun body s₂ h₂ => ?_
  have hg₂ {k : Nat} : g.Open s₂ k := hg.past (h₁.trans_to h₂.to)
  extract_lets rest handled
  have hrest (r : Option Pattern × Option (List Statement)) (s₃ : TokenStream) (h₃ : s₂.To s₃) :
      Walks s₃ (rest r) := by
    refine eatWord_tries.ite (fun s₄ h₄ => ?_) (.ite (fun _ => .fail_bind) fun _ => Walks.pure)
    exact (block_passes (hg₂.later (h₃.trans h₄.to))).bind fun _ _ _ =>
      .ite (fun _ => .fail_bind) fun _ => Walks.pure
  have hhandled (param : Option Pattern) (s₃ : TokenStream) (h₃ : s₂.To s₃) : Walks s₃ (handled param) :=
    (block_passes (hg₂.later h₃)).bind fun handler s₄ h₄ => hrest (param, some handler) s₄ (h₃.trans h₄.to)
  refine eatWord_tries.ite (fun s₃ h₃ => eat_tries.ite (fun s₄ h₄ => ?_) ?_) ?_
  · refine (hg₂.later (h₃.to.trans h₄.to)).binding.bind fun param s₅ h₅ => ?_
    refine expect_passes.bind fun _ s₆ h₆ => ?_
    exact hhandled (some param) s₆ (h₃.to.trans (h₄.to.trans (h₅.to.trans h₆.to)))
  · exact hhandled none s₃ h₃.to
  · exact hrest (none, none) s₂ (.refl s₂)

theorem caseBody_walks (hg : g.Open s 5) : Walks s g.caseBody := by
  refine loop_walks fun before s₁ h₁ => .peek_bind ?_
  split
  · exact .pure nofun
  · exact .pure nofun
  · exact .pure nofun
  · exact .pure nofun
  · exact (hg.later h₁).statement.bind fun _ _ _ => .pure

theorem switchRule_passes (hg : g.Open s 0) (hs : s.More) : Passes s g.switchRule := by
  refine (advance_passes hs).bind fun _ s₁ h₁ => (parenthesized_passes (hg.past h₁)).bind fun _ s₂ h₂ => ?_
  refine expect_passes.bind fun _ s₃ h₃ => Walks.bind (loop_walks fun r s₄ h₄ => ?_) fun _ _ _ => Walks.pure
  have hg₄ {k : Nat} : g.Open s₄ k := hg.past (h₁.trans_to (h₂.to.trans (h₃.to.trans h₄)))
  obtain ⟨before, seenDefault⟩ := r
  refine eat_tries.ite (fun _ _ => Walks.pure) (eatWord_tries.ite (fun s₅ h₅ => ?_) ?_)
  · refine (expressionIn_passes (hg₄.later h₅.to)).bind fun test s₆ h₆ => expect_passes.bind fun _ s₇ h₇ => ?_
    exact (caseBody_walks (hg₄.later (h₅.to.trans (h₆.to.trans h₇.to)))).bind fun _ _ _ => Walks.pure
  · refine .atWord_bind fun _ hb => .ite (fun h => ?_) fun _ => .unexpected
    refine (advance_passes (hb h)).bind fun _ s₅ h₅ => .ite (fun _ => .fail_bind) fun _ => ?_
    refine expect_passes.bind fun _ s₆ h₆ => ?_
    exact (caseBody_walks (hg₄.later (h₅.to.trans h₆.to))).bind fun _ _ _ => Walks.pure

theorem skipModuleDecl_passes (hs : s.More) : Passes s skipModuleDecl := by
  refine (advance_passes hs).bind fun _ s₁ h₁ => loop_walks fun depth s₂ h₂ => .lexeme_bind ?_
  split
  · exact .pure nofun
  · next hmore =>
    refine .ite (fun _ => advance_walks.bind fun _ _ _ => .pure nofun) fun _ => .ite (fun _ => .pure nofun)
      fun _ => ?_
    have hnext {depth : Nat} : Passes s₂ (do
        let _ ← advance
        return .inl depth : Parse (Nat ⊕ Unit)) := (advance_passes hmore).bind fun _ _ _ => .pure
    split
    · exact hnext.goes
    · exact hnext.goes
    · exact hnext.goes
    · exact .ite (fun _ => .pure nofun) fun _ => hnext.goes
    · exact .ite (fun _ => .pure nofun) fun _ => hnext.goes
    · exact .ite (fun _ => .pure nofun) fun _ => hnext.goes
    · exact hnext.goes

theorem returnRule_passes {start : Span} (hg : g.Open s 0) (hs : s.More) : Passes s (g.returnRule start) := by
  refine .read_bind fun m => .ite (fun _ => .fail_bind) fun _ => (advance_passes hs).bind fun _ s₁ h₁ => ?_
  refine .lexeme_bind ?_
  extract_lets bare rest
  have hrest (value : Option Expr) (s₂ : TokenStream) : Walks s₂ (rest value) :=
    semicolon_walks.bind fun _ _ _ => Walks.pure
  refine .ite (fun _ => hrest none s₁) fun _ => ?_
  exact (expression_passes (hg.past h₁)).bind fun e s₂ _ => hrest (some e) s₂

theorem label_passes (hs : s.More) : Passes s label? := by
  refine (advance_passes hs).bind fun _ s₁ _ => .lexeme_bind ?_
  extract_lets rest
  have hrest (label : Option String) (s₂ : TokenStream) : Walks s₂ (rest label) :=
    semicolon_walks.bind fun _ _ _ => Walks.pure
  split
  · exact .ite (fun _ => advance_walks.bind fun _ s₂ _ => hrest _ s₂) fun _ => hrest none s₁
  · exact hrest none s₁

theorem throwRule_passes (hg : g.Open s 0) (hs : s.More) : Passes s g.throwRule := by
  refine (advance_passes hs).bind fun _ s₁ h₁ => .lexeme_bind ?_
  refine .ite (fun _ => .span_bind .fail_bind) fun _ => ?_
  exact (expression_passes (hg.past h₁)).bind fun _ _ _ => semicolon_walks.bind fun _ _ _ => Walks.pure

theorem expressionStatement_passes (hg : g.Open s 4) : Passes s g.expressionStatement :=
  (expression_passes hg).bind fun _ _ _ => semicolon_walks.bind fun _ _ _ => Walks.pure

theorem otherStatement_passes {word : String} (hg : g.Open s 4) (hs : s.More) :
    Passes s (g.otherStatement word) := by
  refine .peekAt_bind (.ite (fun _ => ?_) fun _ => expressionStatement_passes hg)
  refine (advance_passes hs).bind fun _ s₁ h₁ => advance_walks.bind fun _ s₂ h₂ => ?_
  exact (hg.past (h₁.trans_to h₂)).statement.bind fun _ _ _ => .pure

theorem wordStatement_passes {start : Span} {word : String} (hg : g.Open s 4) (hs : s.More) :
    Passes s (g.wordStatement start word) := by
  unfold Grammar.wordStatement
  split
  · exact variableStatement_passes hg.zero hs
  · exact variableStatement_passes hg.zero hs
  · refine declarationAhead_goes fun ahead => .ite (fun _ => variableStatement_passes hg.zero hs) fun _ => ?_
    exact otherStatement_passes hg hs
  · exact (function_passes hg.zero).bind fun _ _ _ => .pure
  · refine .lexemeAt_bind (.ite (fun _ => ?_) fun _ => otherStatement_passes hg hs)
    exact (advance_passes hs).bind fun _ _ h₁ => (function_passes (hg.past h₁)).bind fun _ _ _ => Walks.pure
  · exact (classRule_passes hg.zero).bind fun _ _ _ => .pure
  · exact ifRule_passes hg.zero hs
  · exact forRule_passes hg.zero hs
  · refine (advance_passes hs).bind fun _ s₁ h₁ => ?_
    refine (parenthesized_passes (hg.past h₁)).bind fun test s₂ h₂ => ?_
    exact (hg.past (h₁.trans_to h₂.to)).statement.bind fun _ _ _ => .pure
  · refine (advance_passes hs).bind fun _ s₁ h₁ => (hg.past h₁).statement.bind fun body s₂ h₂ => ?_
    refine expectWord_passes.bind fun _ s₃ h₃ => ?_
    refine (parenthesized_passes (hg.past (h₁.trans_to (h₂.to.trans h₃.to)))).bind fun test s₄ _ => ?_
    exact eat_tries.walks.bind fun _ _ _ => Walks.pure
  · exact returnRule_passes hg.zero hs
  · exact (label_passes hs).bind fun _ _ _ => .pure
  · exact (label_passes hs).bind fun _ _ _ => .pure
  · exact throwRule_passes hg.zero hs
  · exact tryRule_passes hg.zero hs
  · exact switchRule_passes hg.zero hs
  · exact (advance_passes hs).bind fun _ _ _ => semicolon_walks.bind fun _ _ _ => Walks.pure
  · exact .unsupported
  · refine .peekAt_bind ?_
    split
    · exact otherStatement_passes hg hs
    · exact otherStatement_passes hg hs
    · exact (skipModuleDecl_passes hs).bind fun _ _ _ => .pure
  · exact (skipModuleDecl_passes hs).bind fun _ _ _ => .pure
  · exact otherStatement_passes hg hs

theorem statementRule_passes (hg : g.Open s 4) : Passes s g.statementRule := by
  refine .lexeme_bind ?_
  extract_lets rest
  have hrest (node : StatementNode) (s₁ : TokenStream) : Walks s₁ (rest node) := .finish_bind Walks.pure
  split
  · exact (block_passes hg.zero).bind fun _ s₁ _ => hrest _ s₁
  · next h => exact (advance_passes (.of_eq h nofun)).bind fun _ s₁ _ => hrest .empty s₁
  · next h => exact (wordStatement_passes hg (.of_eq h nofun)).bind fun node s₁ _ => hrest node s₁
  · exact (expressionStatement_passes hg).bind fun node s₁ _ => hrest node s₁

theorem rules_passes {goal : Goal} (hg : g.Open s goal.rank) : Passes s (g.rules.run goal) := by
  cases goal with
  | statement => exact statementRule_passes hg
  | assignment => exact assignmentRule_passes hg
  | binary floor => exact binaryRule_passes hg
  | unary => exact unaryRule_passes hg
  | leftHandSide => exact leftHandSideRule_passes hg
  | binding => exact bindingRule_passes hg

end Grammar

theorem parseGoal_passes {depth : Nat} {goal : Goal} {s : TokenStream} (hdepth : goal.load s < depth) :
    Passes s (parseGoal depth goal) := by
  induction depth generalizing goal s with
  | zero => cases hdepth
  | succ depth ih =>
    refine Grammar.rules_passes fun goal' s' h => .closed fun hs' => ih ?_
    exact (Goal.Opens.load_lt ⟨hs', h⟩).trans_le (Nat.le_of_lt_succ hdepth)

theorem Grammar.ofLength_open {length : Nat} {s : TokenStream} (hs : s.weight ≤ length + 1) :
    (Grammar.ofLength length).Open s 5 := by
  refine fun goal s' h => .closed fun hs' => parseGoal_passes ?_
  have hrank := goal.rank_lt
  have hweight : s'.weight ≤ s.weight := by
    obtain hdeeper | ⟨hto, -⟩ := h
    · exact (transGen_weight_lt hdeeper hs'.left_ne_nil).le
    · exact hto.weight_le
  unfold Goal.load
  omega

theorem parseText_ne_stuck {α : Type} (source : String) {read : Grammar → Parse α}
    (hread : ∀ g s, g.Open s 5 → Walks s (read g)) : parseText source read ≠ .error .stuck := by
  unfold parseText
  cases htokens : tokenize source with
  | error e =>
    rintro ⟨⟩
    exact tokenize_ne_stuck source htokens
  | ok tokens =>
    obtain ⟨found, last, rfl, htiles, hgap⟩ := tokenize_found htokens
    let s : TokenStream := { tokens := (found ++ [endOfInput source.toList last]).toArray }
    have hs : s.Closed := ⟨by simp [s], by simp [s, endOfInput, Lexeme.token]⟩
    have hweight : s.weight ≤ source.length + 1 := by
      have hfound := htiles.weight_le
      have hlast := hgap.1
      have hlength : source.length = source.toList.length := (String.length_toList).symm
      show weightOfLexemes (List.drop 0 (found ++ [endOfInput source.toList last])) ≤ _
      rw [List.drop_zero, weightOfLexemes_append, weightOfLexemes, weightOfLexemes, Lexeme.weight_eq]
      simp only [endOfInput, Lexeme.token, Token.substitutions, weightOfSubstitutions]
      omega
    exact (hread _ s (Grammar.ofLength_open hweight)).ne_stuck hs {}

theorem Grammar.script_walks {g : Grammar} {s : TokenStream} (hg : g.Open s 5) : Walks s g.script := by
  refine loop_walks fun before s₁ h₁ => .peek_bind ?_
  split
  · exact .pure nofun
  · exact (hg.later h₁).statement.bind fun _ _ _ => .pure

/-- Parsing terminates. Every text has tokens and a tree, or an error that is not the one of a reader that
does not get on: of a loop in which a step passed no token, of a look ahead past the end of input, or of
constructs nested deeper than the tokens allow. The rule of a construct needs others only where a token
was passed or a substitution entered, or in the same place with a lower rank, and no construct opens
others in this way for ever. -/
theorem parsing_terminates :
    (∀ source, tokenize source ≠ .error .stuck) ∧
    (∀ source, parseScript source ≠ .error .stuck) ∧
    (∀ (g : Grammar) (goal : Goal) (s : TokenStream),
      (∀ goal' s', goal.Opens s goal' s' → Passes s' (g.run goal')) → Passes s (g.rules.run goal)) ∧
    WellFounded fun (a b : Goal × TokenStream) => b.1.Opens b.2 a.1 a.2 := by
  refine ⟨tokenize_ne_stuck, fun source => ?_, fun g goal s hg => ?_, Goal.opens_wellFounded⟩
  · refine Except.bind_ne_error (parseText_ne_stuck source fun g s hg => ?_) fun _ => nofun
    exact Grammar.script_walks hg
  · exact Grammar.rules_passes fun goal' s' h => .closed fun hs' => hg goal' s' ⟨hs', h⟩

/-- A class that the end of input breaks off is refused and not read for ever. -/
theorem parsing_terminates_unfinished_class :
    let s : TokenStream := { tokens := #[.mk (.identifier "class") ⟨0, 5, 1, 1⟩ false,
      .mk (.punctuator .lBrace) ⟨6, 7, 1, 7⟩ false, .mk .endOfInput ⟨7, 7, 1, 8⟩ false] }
    let g := Grammar.ofLength 7
    (∀ goal s', Goal.statement.Opens s goal s' → Passes s' (g.run goal)) ∧
      Passes s (g.rules.run .statement) ∧ s.Closed := by
  intro s g
  have hg : ∀ goal s', Goal.statement.Opens s goal s' → Passes s' (g.run goal) := by
    rintro goal s' ⟨-, hopens⟩
    have hrank := goal.rank_lt
    exact Grammar.ofLength_open (by decide) goal s' (hopens.imp_right fun h => ⟨h.1, hrank⟩)
  exact ⟨hg, parsing_terminates.2.2.1 g .statement s hg, by decide, rfl⟩

end EcmaScript

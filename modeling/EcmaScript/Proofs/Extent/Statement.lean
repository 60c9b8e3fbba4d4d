import EcmaScript.Parser.Statement
import EcmaScript.Proofs.Extent.Expression

/-! Where statements are. -/
namespace EcmaScript
open Parse TokenStream

variable {lo hi : Nat}

theorem Node.Within.braced {st : Statement} (h : (Node.statement st).Within lo hi) :
    (Node.statement st.braced).Within lo hi := by
  unfold Statement.braced
  split
  · refine h.of_span rfl fun c hc => ?_
    obtain rfl := List.mem_singleton.mp hc
    exact ⟨le_rfl, le_rfl, h.nests⟩
  · exact h

namespace Grammar

variable {α : Type} {s s₀ s₁ : TokenStream} {Q : α → TokenStream → Prop}

theorem declarationAhead_bind {k : Option VarKind → Parse α} (h : ∀ kind, Ends s (k kind) Q) :
    Ends s (declarationAhead >>= k) Q := by
  have hahead : Ends s declarationAhead fun kind s₁ => Ends s₁ (k kind) Q := by
    refine .peek_bind ?_
    split
    · refine .peekAt_bind ?_
      split <;> exact .pure (h _)
    · exact .pure (h _)
  exact hahead.bind fun _ _ h => h

theorem atForEach_bind {k : Bool → Parse α} (h : ∀ b, Ends s (k b) Q) : Ends s (atForEach >>= k) Q := h _

theorem skipModuleDecl_reads : ReadsAll skipModuleDecl fun _ => [] := by
  refine fun s => .advance_bind fun s₁ h₁ _ => ?_
  refine .loop (I := fun _ s' => s.Fit s' []) h₁ fun depth s₂ h => .lexeme_bind ?_
  split
  · exact .pure h
  · refine .ite (fun _ => .advance_bind fun s₃ h₃ _ => .pure (h.pass h₃)) fun _ => ?_
    refine .ite (fun _ => .pure h) fun _ => ?_
    split
    · exact .advance_bind fun s₃ h₃ _ => .pure (h.pass h₃)
    · exact .advance_bind fun s₃ h₃ _ => .pure (h.pass h₃)
    · exact .advance_bind fun s₃ h₃ _ => .pure (h.pass h₃)
    · exact .ite (fun _ => .pure h) fun _ => .advance_bind fun s₃ h₃ _ => .pure (h.pass h₃)
    · exact .ite (fun _ => .pure h) fun _ => .advance_bind fun s₃ h₃ _ => .pure (h.pass h₃)
    · exact .ite (fun _ => .pure h) fun _ => .advance_bind fun s₃ h₃ _ => .pure (h.pass h₃)
    · exact .advance_bind fun s₃ h₃ _ => .pure (h.pass h₃)

theorem label_reads : ReadsAll label? fun _ => [] := by
  refine fun s => .advance_bind fun s₁ h₁ _ => .lexeme_bind ?_
  extract_lets rest
  have hrest (label : Option String) (s₂ : TokenStream) (h : s.Fit s₂ []) :
      Ends s₂ (rest label) fun _ s' => s.Fit s' [] := .semicolon_bind fun s₃ h₃ => .pure (h.pass_inside h₃)
  split
  · exact .ite (fun _ => .advance_bind fun s₂ h₂ _ => hrest _ s₂ (h₁.pass h₂)) fun _ => hrest none s₁ h₁
  · exact hrest none s₁ h₁

namespace Covers
variable {g : Grammar}

theorem parenthesized (hg : g.Covers) : ReadsAll g.parenthesized fun e => [.expression e] :=
  fun _ => .expect_bind fun s₁ h₁ => (hg.expressionIn s₁).bind fun _ _ he =>
    .expect_bind fun _ h₃ => .pure ((h₁.append he.fit.inside).pass h₃)

theorem declarators {kind : VarKind} (hg : g.Covers) :
    MayRead (g.declarators kind) (·.flatMap Declarator.nodes) := by
  intro s
  refine .loop (I := fun before s' => s.Inside s' (before.flatMap Declarator.nodes)) (.refl s)
    fun before s₁ h => ?_
  refine (hg.binding s₁).bind fun target s₂ htarget => ?_
  extract_lets rest
  have hrest (init : Option Expr) (s₃ : TokenStream) (hread : s₁.Fit s₃ (Declarator.mk target init).nodes) :
      Ends s₃ (rest init) fun r s' => r.elim (fun before => s.Inside s' (before.flatMap Declarator.nodes))
        fun found => s.Inside s' (found.flatMap Declarator.nodes) := by
    have hfound := h.append_fit hread
    refine .read_bind fun m => .ite (fun _ => .lastSpan_bind .fail_bind) fun _ => ?_
    exact .eat_ite (fun s₄ h₄ => .pure ((hfound.pass h₄).inside.mono (by simp [or_comm])))
      (.pure (hfound.inside.mono (by simp [or_comm])))
  refine .eat_ite (fun s₃ h₃ => ?_) (hrest none s₂ htarget.fit)
  exact (hg.assignment s₃).bind fun e s₄ he => hrest (some e) s₄ ((htarget.fit.pass h₃).append_fit he.fit)

theorem variableStatement {kind : VarKind} (hg : g.Covers) :
    ReadsAll (g.variableStatement kind) StatementNode.nodes :=
  fun _ => .advance_bind fun s₁ h₁ _ => (hg.declarators s₁).bind fun _ _ h =>
    .semicolon_bind fun _ h₃ => .pure ((h₁.append h).pass_inside h₃)

theorem branch (hg : g.Covers) : ReadsAll g.statement fun st => [.statement st.braced] :=
  fun s => (hg.statement s).mono fun _ _ h => h.fit.reread (List.forall_mem_singleton.mpr h.within.braced)

theorem ifRule (hg : g.Covers) : ReadsAll g.ifRule StatementNode.nodes := by
  refine fun s => .advance_bind fun s₁ h₁ _ => (hg.parenthesized s₁).bind fun test s₂ htest => ?_
  refine (hg.branch s₂).bind fun consequent s₃ hconsequent => ?_
  have h := (h₁.append_fit htest).append_fit hconsequent
  refine .eatWord_ite (fun s₄ h₄ => ?_) (.pure h)
  exact (hg.branch s₄).bind fun alternate s₅ halternate => .pure ((h.pass h₄).append_fit halternate)

theorem forEach {kind : Option VarKind} {head : Pattern} {isAwait : Bool} (hg : g.Covers)
    (h : s₀.Fit s [.pattern head]) :
    Ends s (g.forEach kind head isAwait) fun node s' => s₀.Fit s' node.nodes := by
  refine .atWord_bind fun isOf => .advance_bind fun s₁ h₁ _ => ?_
  have hobject : Reads (withIn (if isOf = true then g.assignment else g.expression)) .expression :=
    fun s => .withReader (.ite (fun _ => hg.assignment s) fun _ => hg.expression s)
  refine (hobject s₁).bind fun object s₂ he => .expect_bind fun s₃ h₃ => ?_
  refine (hg.statement s₃).bind fun body s₄ hbody => ?_
  have hparts := (((h.pass h₁).append_fit he.fit).pass h₃).append_fit hbody.fit
  exact .ite (fun _ => .pure hparts) fun _ => .ite (fun _ => .fail_bind) fun _ => .pure hparts

theorem forRest {keyword : Span} {init : Option Statement} {isAwait : Bool} (hg : g.Covers)
    (h : s₀.Fit s (init.toList.map .statement)) :
    Ends s (g.forRest keyword init isAwait) fun node s' => s₀.Fit s' node.nodes := by
  refine .ite (fun _ => .fail_bind) fun _ => .expect_bind fun s₁ h₁ => ?_
  extract_lets rest
  have hbody (test update : Option Expr) (s₂ : TokenStream) (h : s₀.Fit s₂ (init.toList.map .statement ++
      test.toList.map .expression ++ update.toList.map .expression)) : Ends s₂ (do
        let _ ← expect .rParen
        return StatementNode.for init test update (← g.statement)) fun node s' => s₀.Fit s' node.nodes :=
    .expect_bind fun s₃ h₃ => (hg.statement s₃).bind fun _ _ hbody =>
      .pure ((h.pass h₃).append_fit hbody.fit)
  have hrest (test : Option Expr) (s₂ : TokenStream) (h : s₀.Fit s₂ (init.toList.map .statement ++
      test.toList.map .expression)) : Ends s₂ (rest test) fun node s' => s₀.Fit s' node.nodes := by
    refine .expect_bind fun s₃ h₃ => .at_bind fun _ => .ite (fun _ => ?_) fun _ => ?_
    · exact hbody test none s₃ (by simpa using h.pass h₃)
    · exact (hg.expressionIn s₃).bind fun e s₄ he => hbody test (some e) s₄ ((h.pass h₃).append_fit he.fit)
  refine .at_bind fun _ => .ite (fun _ => ?_) fun _ => ?_
  · exact hrest none s₁ (by simpa using h.pass h₁)
  · exact (hg.expressionIn s₁).bind fun e s₂ he => hrest (some e) s₂ ((h.pass h₁).append_fit he.fit)

theorem forDeclaration {keyword : Span} {kind : VarKind} {isAwait : Bool} (hg : g.Covers)
    (h₀ : s₀.Fit s []) :
    Ends s (g.forDeclaration keyword kind isAwait) fun node s' => s₀.Fit s' node.nodes := by
  refine .advance_bind fun s₁ h₁ _ => (hg.binding s₁).withReader.bind fun target s₂ htarget => ?_
  refine atForEach_bind fun _ => .ite (fun _ => hg.forEach ((h₀.pass h₁).append_fit htarget.fit))
    fun _ => ?_
  extract_lets declared
  have hdeclared (init : Option Expr) (s₃ : TokenStream) (h : s.Fit s₃ (Declarator.mk target init).nodes) :
      Ends s₃ (declared init) fun node s' => s₀.Fit s' node.nodes := by
    refine .ite (fun _ => .lastSpan_bind .fail_bind) fun _ => ?_
    extract_lets rest
    have hrest (others : List Declarator) (s₄ : TokenStream)
        (h : s.Fit s₄ ((Declarator.mk target init :: others).flatMap Declarator.nodes)) :
        Ends s₄ (rest others) fun node s' => s₀.Fit s' node.nodes := by
      refine .finish_bind (hg.forRest ?_)
      have hdeclaration : s.Covers s₄
          (.statement (.mk _ (.declaration kind (.mk target init :: others)))) :=
        h.covers_through rfl fun _ hc => hc
      exact h₀.append_fit hdeclaration.fit
    refine .eat_ite (fun s₄ h₄ => ?_) (hrest [] s₃ (by simpa using h))
    exact (hg.declarators s₄).withReader.bind fun others s₅ hothers =>
      hrest others s₅ ((h.pass h₄).append hothers)
  refine .eat_ite (fun s₃ h₃ => ?_) (hdeclared none s₂ (h₁.append_fit htarget.fit))
  refine (hg.assignment s₃).withReader.bind fun e s₄ he => hdeclared (some e) s₄ ?_
  exact ((h₁.append_fit htarget.fit).pass h₃).append_fit he.fit

theorem forRule (hg : g.Covers) : ReadsAll g.forRule StatementNode.nodes := by
  refine fun s => .advance_bind fun s₁ h₁ _ => ?_
  extract_lets _ rest waiting
  have hrest (isAwait : Bool) (s₂ : TokenStream) (h : s.Fit s₂ []) :
      Ends s₂ (rest isAwait) fun node s' => s.Fit s' node.nodes := by
    refine .expect_bind fun s₃ h₃ => declarationAhead_bind fun ahead => ?_
    have h := h.pass h₃
    cases ahead with
    | some kind => exact hg.forDeclaration h
    | none =>
      refine .at_bind fun _ => .ite (fun _ => hg.forRest h) fun _ => ?_
      refine (hg.expression s₃).withReader.bind fun e s₄ he => atForEach_bind fun _ => ?_
      refine .ite (fun _ => ?_) fun _ => ?_
      · cases htarget : e.toPattern with
        | ok target =>
          refine hg.forEach (h.append_fit (he.fit.reread (List.forall_mem_singleton.mpr ?_)))
          exact Expr.within_toPattern htarget he.within
        | error fault => exact nofun
      · have hinit : s₃.Covers s₄ (.statement (.mk e.span (.expression e))) := he.wrap rfl rfl
        exact hg.forRest (h.append_fit hinit.fit)
  refine .atWord_bind fun _ => .ite (fun _ => .awaitAllowed_bind fun _ => ?_) fun _ => hrest false s₁ h₁
  refine .ite (fun _ => .unexpected_bind) fun _ => .noteAwait_bind fun s₂ hsame => ?_
  exact .advance_bind fun s₃ h₃ _ => hrest true s₃ ((h₁.same hsame).pass h₃)

theorem tryRule (hg : g.Covers) : ReadsAll g.tryRule StatementNode.nodes := by
  refine fun s => .advance_bind fun s₁ h₁ _ => (hg.block s₁).bind fun body s₂ hbody => ?_
  extract_lets rest handled
  have hrest (param : Option Pattern) (handler : Option (List Statement)) (s₃ : TokenStream)
      (h : s.Fit s₃ (body.map .statement ++ param.toList.map .pattern ++
        (handler.getD []).map .statement)) :
      Ends s₃ (rest (param, handler)) fun node s' => s.Fit s' node.nodes := by
    refine .eatWord_ite (fun s₄ h₄ => ?_) (.ite (fun _ => .fail_bind) fun _ => .pure ?_)
    · refine (hg.block s₄).bind fun finalizer s₅ hfinalizer => .ite (fun _ => .fail_bind) fun _ => .pure ?_
      exact (h.pass h₄).append_fit hfinalizer
    · exact h.mono (by simp [StatementNode.nodes])
  have hhandled (param : Option Pattern) (s₃ : TokenStream)
      (h : s.Fit s₃ (body.map .statement ++ param.toList.map .pattern)) :
      Ends s₃ (handled param) fun node s' => s.Fit s' node.nodes :=
    (hg.block s₃).bind fun handler s₄ hhandler => hrest param (some handler) s₄ (h.append_fit hhandler)
  have h := h₁.append_fit hbody
  refine .eatWord_ite (fun s₃ h₃ => .eat_ite (fun s₄ h₄ => ?_) ?_) ?_
  · refine (hg.binding s₄).bind fun param s₅ hparam => .expect_bind fun s₆ h₆ => ?_
    exact hhandled (some param) s₆ ((((h.pass h₃).pass h₄).append_fit hparam.fit).pass h₆)
  · exact hhandled none s₃ ((h.pass h₃).mono (by simp))
  · exact hrest none none s₂ (h.mono (by simp))

theorem caseBody (hg : g.Covers) : MayRead g.caseBody (·.map .statement) := by
  intro s
  refine .loop (I := fun before s' => s.Inside s' (before.map .statement)) (.refl s) fun before s₁ h => ?_
  refine .peek_bind ?_
  split
  · exact .pure (h.mono (by simp))
  · exact .pure (h.mono (by simp))
  · exact .pure (h.mono (by simp))
  · exact .pure (h.mono (by simp))
  · exact hg.statement.next h fun st s₂ h => .pure (h.mono (by simp [or_comm]))

theorem switchRule (hg : g.Covers) : ReadsAll g.switchRule StatementNode.nodes := by
  refine fun s => .advance_bind fun s₁ h₁ _ => (hg.parenthesized s₁).bind fun discriminant s₂ hd => ?_
  refine .expect_bind fun s₃ h₃ => ?_
  refine .bind (Q := fun cases s' => s₃.Inside s' (cases.flatMap SwitchCase.nodes)) ?_ fun cases s₄ h =>
    .pure (((h₁.append_fit hd).pass h₃).append h)
  refine .loop (I := fun r s' => s₃.Inside s' (r.1.flatMap SwitchCase.nodes)) (.refl s₃) fun r s₄ h => ?_
  obtain ⟨before, seenDefault⟩ := r
  refine .eat_ite (fun s₅ h₅ => .pure ((h.pass h₅).mono (by simp))) (.eatWord_ite (fun s₅ h₅ => ?_) ?_)
  · refine (hg.expressionIn s₅).bind fun test s₆ he => .expect_bind fun s₇ h₇ => ?_
    refine (hg.caseBody s₇).bind fun body s₈ hbody => .pure ?_
    have hcase : s₅.Fit s₈ (SwitchCase.mk (some test) body).nodes := (he.fit.pass h₇).append hbody
    exact ((h.pass h₅).append_fit hcase).inside.mono (by simp [or_comm])
  · refine .atWord_bind fun _ => .ite (fun _ => .advance_bind fun s₅ h₅ _ => ?_) fun _ => .unexpected
    refine .ite (fun _ => .fail_bind) fun _ => .expect_bind fun s₆ h₆ => ?_
    refine (hg.caseBody s₆).bind fun body s₇ hbody => .pure ?_
    have hcase : s₄.Fit s₇ (SwitchCase.mk none body).nodes := (h₅.pass h₆).append hbody
    exact (h.append_fit hcase).inside.mono (by simp [or_comm])

theorem returnRule {start : Span} (hg : g.Covers) : ReadsAll (g.returnRule start) StatementNode.nodes := by
  refine fun s => .read_bind fun m => .ite (fun _ => .fail_bind) fun _ => .advance_bind fun s₁ h₁ _ => ?_
  refine .lexeme_bind ?_
  extract_lets bare rest
  have hrest (value : Option Expr) (s₂ : TokenStream) (h : s.Fit s₂ (value.toList.map .expression)) :
      Ends s₂ (rest value) fun node s' => s.Fit s' node.nodes :=
    .semicolon_bind fun s₃ h₃ => .pure (h.pass_inside h₃)
  refine .ite (fun _ => hrest none s₁ h₁) fun _ => ?_
  exact (hg.expression s₁).bind fun e s₂ he => hrest (some e) s₂ (h₁.append_fit he.fit)

theorem throwRule (hg : g.Covers) : ReadsAll g.throwRule StatementNode.nodes := by
  refine fun s => .advance_bind fun s₁ h₁ _ => .lexeme_bind ?_
  refine .ite (fun _ => .span_bind .fail_bind) fun _ => ?_
  refine (hg.expression s₁).bind fun value s₂ he => .semicolon_bind fun s₃ h₃ => .pure ?_
  exact (h₁.append_fit he.fit).pass_inside h₃

theorem expressionStatement (hg : g.Covers) : ReadsAll g.expressionStatement StatementNode.nodes :=
  fun s => (hg.expression s).bind fun _ _ he => .semicolon_bind fun _ h => .pure (he.fit.pass_inside h)

theorem otherStatement {word : String} (hg : g.Covers) :
    ReadsAll (g.otherStatement word) StatementNode.nodes := by
  refine fun s => .peekAt_bind (.ite (fun _ => ?_) fun _ => hg.expressionStatement s)
  refine .advance_bind fun s₁ h₁ _ => .advance_bind fun s₂ h₂ _ => ?_
  exact (hg.statement s₂).bind fun body s₃ hbody => .pure ((h₁.pass h₂).append_fit hbody.fit)

theorem wordStatement {word : String} (hg : g.Covers) :
    Ends s (g.wordStatement (s.ahead 0).span word) fun node s' => s.Fit s' node.nodes := by
  unfold Grammar.wordStatement
  split
  · exact hg.variableStatement s
  · exact hg.variableStatement s
  · exact declarationAhead_bind fun _ => .ite (fun _ => hg.variableStatement s) fun _ => hg.otherStatement s
  · exact (hg.function (.refl s)).bind fun f s₁ h => .pure h.fit
  · refine .lexemeAt_bind (.ite (fun _ => .advance_bind fun s₁ h₁ _ => ?_) fun _ => hg.otherStatement s)
    exact (hg.function h₁.inside).bind fun f s₂ h => .pure h.fit
  · exact (hg.classRule s).bind fun c s₁ h => .pure h.fit
  · exact hg.ifRule s
  · exact hg.forRule s
  · refine .advance_bind fun s₁ h₁ _ => (hg.parenthesized s₁).bind fun test s₂ htest => ?_
    exact (hg.statement s₂).bind fun body s₃ hbody => .pure ((h₁.append_fit htest).append_fit hbody.fit)
  · refine .advance_bind fun s₁ h₁ _ => (hg.statement s₁).bind fun body s₂ hbody => ?_
    refine .expectWord_bind fun s₃ h₃ => (hg.parenthesized s₃).bind fun test s₄ htest => ?_
    have h := ((h₁.append_fit hbody.fit).pass h₃).append_fit htest
    refine .bind (Q := fun _ s' => s.Fit s' _) (.eat (fun s₅ h₅ => h.pass h₅) h) fun _ s₅ h => .pure h
  · exact hg.returnRule s
  · exact (label_reads s).bind fun _ _ h => .pure h
  · exact (label_reads s).bind fun _ _ h => .pure h
  · exact hg.throwRule s
  · exact hg.tryRule s
  · exact hg.switchRule s
  · exact .advance_bind fun s₁ h₁ _ => .semicolon_bind fun s₂ h₂ => .pure (h₁.pass_inside h₂)
  · exact .unsupported
  · refine .peekAt_bind ?_
    split
    · exact hg.otherStatement s
    · exact hg.otherStatement s
    · exact (skipModuleDecl_reads s).bind fun _ _ h => .pure h
  · exact (skipModuleDecl_reads s).bind fun _ _ h => .pure h
  · exact hg.otherStatement s

theorem statementRule (hg : g.Covers) : Reads g.statementRule .statement := by
  refine fun s => .lexeme_bind ?_
  extract_lets rest
  have hrest (node : StatementNode) (s₁ : TokenStream) (h : s.Fit s₁ node.nodes) :
      Ends s₁ (rest node) fun st s' => s.Covers s' (.statement st) :=
    .finish_bind (.pure (h.covers_through rfl fun _ hc => hc))
  split
  · exact (hg.block s).bind fun body s₁ h => hrest (.block body) s₁ h
  · exact .advance_bind fun s₁ h₁ _ => hrest .empty s₁ h₁
  · exact hg.wordStatement.bind hrest
  · exact (hg.expressionStatement s).bind hrest

theorem rules (hg : g.Covers) : g.rules.Covers := by
  intro goal
  cases goal with
  | statement => exact hg.statementRule
  | assignment => exact hg.assignmentRule
  | binary floor => exact hg.binaryRule floor
  | unary => exact hg.unaryRule
  | leftHandSide => exact hg.leftHandSideRule
  | binding => exact hg.bindingRule

theorem ofLength {length : Nat} : (Grammar.ofLength length).Covers := by
  suffices h : ∀ depth, Grammar.Covers ⟨fun goal => parseGoal depth goal⟩ from h _
  intro depth
  induction depth with
  | zero => exact fun goal s => .stuck
  | succ depth ih => exact ih.rules

end Covers
end Grammar

namespace TokenStream
variable {s s₁ s₂ : TokenStream} {body : List Statement} {st : Statement}

/-- Statements one after the other, from all the tokens between two moments. -/
structure Split (s s₁ : TokenStream) (body : List Statement) : Prop where
  ordered : body.Pairwise fun a b => a.span.stop ≤ b.span.start
  le_front : ∀ st ∈ body, st.span.stop ≤ s₁.front
  passed : ∃ ls, s.left = ls ++ s₁.left ∧ ∀ l ∈ ls, ∃ st ∈ body, st.span.Encloses l.span
  nests : ∀ st ∈ body, (Node.statement st).Nests

theorem Split.nil (s : TokenStream) : s.Split s [] := ⟨.nil, nofun, ⟨[], rfl, nofun⟩, nofun⟩

theorem Split.append_one (h : s.Split s₁ body) (hst : s₁.Covers s₂ (.statement st)) :
    s.Split s₂ (body ++ [st]) := by
  have hstart : st.span.start = s₁.front := hst.start
  have hstop : st.span.stop = s₂.back := hst.stop
  obtain ⟨ls, hls, hin⟩ := h.passed
  obtain ⟨ls', hls', hin'⟩ := hst.fit.passed
  refine ⟨List.pairwise_append.mpr ⟨h.ordered, List.pairwise_singleton _ st, fun a ha b hb => ?_⟩,
    fun a ha => ?_, ⟨ls ++ ls', by rw [hls, hls', List.append_assoc], fun l hl => ?_⟩, fun a ha => ?_⟩
  · rw [List.mem_singleton.mp hb, hstart]
    exact h.le_front a ha
  · obtain ha | ha := List.mem_append.mp ha
    · exact (h.le_front a ha).trans (hst.fit.front_le.trans hst.fit.back_le)
    · rw [List.mem_singleton.mp ha, hstop]
      exact hst.fit.back_le
  · obtain hl | hl := List.mem_append.mp hl
    · obtain ⟨a, ha, hl⟩ := hin l hl
      exact ⟨a, List.mem_append_left _ ha, hl⟩
    · have ⟨hlo, hhi⟩ := hin' l hl
      exact ⟨st, List.mem_append_right _ (List.mem_singleton_self st),
        hstart.trans_le hlo, hhi.trans_eq hstop.symm⟩
  · obtain ha | ha := List.mem_append.mp ha
    · exact h.nests a ha
    · rw [List.mem_singleton.mp ha]
      exact hst.within.nests

end TokenStream

theorem Grammar.Covers.script {g : Grammar} {s : TokenStream} (hg : g.Covers) :
    Ends s g.script fun body s' => s.Split s' body ∧ (s'.ahead 0).token = .endOfInput := by
  refine .loop (I := fun before s' => s.Split s' before.reverse) (.nil s) fun before s₁ h => .peek_bind ?_
  split
  · rename_i htoken
    exact .pure ⟨h, htoken⟩
  · refine (hg.statement s₁).bind fun st s₂ hst => .pure ?_
    simpa using h.append_one hst

theorem existsUnique_of_ordered {body : List Statement} {l : Lexeme}
    (hordered : body.Pairwise fun a b => a.span.stop ≤ b.span.start) (hl : l.span.start < l.span.stop)
    (h : ∃ st ∈ body, st.span.Encloses l.span) :
    ∃! k : Fin body.length, (body.get k).span.Encloses l.span := by
  obtain ⟨st, hst, hin⟩ := h
  obtain ⟨k, rfl⟩ := List.mem_iff_get.mp hst
  refine ⟨k, hin, fun k' hin' => ?_⟩
  have hget := List.pairwise_iff_get.mp hordered
  unfold Span.Encloses at hin hin'
  by_contra hne
  obtain hlt | hlt := lt_or_gt_of_ne hne
  · have hle := hget k' k hlt
    omega
  · have hle := hget k k' hlt
    omega

theorem Ordered.start_lt_stop {lo hi : Nat} {ls : List Lexeme} (h : Ordered lo ls hi) :
    ∀ l ∈ ls, l.span.start < l.span.stop := by
  induction h with
  | nil => exact nofun
  | cons _ hl _ _ _ ih => exact List.forall_mem_cons.mpr ⟨hl, ih⟩

theorem Tiles.token_ne {cs : List Char} {i j : Nat} {ls : List Lexeme} (h : Tiles cs i ls j) :
    ∀ l ∈ ls, l.token ≠ .endOfInput := by
  induction ls generalizing i with
  | nil => exact nofun
  | cons l ls ih =>
    obtain - | ⟨-, -, -, htoken, -, hrest⟩ := h
    exact List.forall_mem_cons.mpr ⟨htoken, ih hrest⟩

/-- The statements of a script are one after the other, each token but the end of input is in exactly one
of them, and whatever is in their syntax trees is inside what is right above it. -/
theorem parseScript_spans {source : String} {script : Script} (h : parseScript source = .ok script) :
    ∃ tokens, tokenize source = .ok tokens ∧
      (script.body.Pairwise fun a b => a.span.stop ≤ b.span.start) ∧
      (∀ l ∈ tokens, l.token ≠ .endOfInput →
        ∃! k : Fin script.body.length, (script.body.get k).span.Encloses l.span) ∧
      ∀ st ∈ script.body, (Node.statement st).Nests := by
  obtain ⟨⟨body, s'⟩, hread, h⟩ := Except.bind_eq_ok.mp h
  cases h
  obtain ⟨tokens, htokens, hread⟩ := Except.bind_eq_ok.mp hread
  obtain ⟨found, last, rfl, htiles, hgap⟩ := tokenize_found htokens
  have hordered : Ordered 0 found (endOfInput source.toList last).span.start :=
    htiles.ordered.mono (Nat.zero_le _) (Text.size_take_le _ hgap.1)
  have hs : TokenStream.Sound { tokens := (found ++ [endOfInput source.toList last]).toArray } :=
    ⟨found, _, 0, rfl, rfl, rfl, hordered⟩
  obtain ⟨hs', hsplit, hend⟩ := Grammar.Covers.ofLength.script hs {} body s' hread
  refine ⟨_, htokens, hsplit.ordered, fun l hl hne => ?_, hsplit.nests⟩
  have hfound : l ∈ found := by
    obtain hl | hl := List.mem_append.mp hl
    · exact hl
    · rw [List.mem_singleton.mp hl] at hne
      exact absurd rfl hne
  obtain ⟨passed, hpassed, hin⟩ := hsplit.passed
  -- At the end nothing is left but the end of input.
  obtain ⟨rest, last', -, hleft, -⟩ := hs'
  replace hpassed : found ++ [endOfInput source.toList last] = (passed ++ rest) ++ [last'] := by
    rw [List.append_assoc, ← hleft]
    exact hpassed
  obtain ⟨rfl, -⟩ := List.append_inj' hpassed rfl
  have hrest : rest = [] := by
    cases rest with
    | nil => rfl
    | cons l' rest =>
      rw [TokenStream.ahead_zero hleft] at hend
      exact absurd hend (htiles.token_ne l' (by simp))
  subst hrest
  rw [List.append_nil] at hfound
  exact existsUnique_of_ordered hsplit.ordered (hordered.start_lt_stop l (by simpa using hfound))
    (hin l hfound)

/-- A script with a pattern, a template and parentheses in it, and a statement that ends with its line. -/
theorem parseScript_spans_template :
    let source := "let \x7ba = `$\x7b(b)\x7d`\x7d = c\nd"
    ∃ script, parseScript source = .ok script ∧ ∃ tokens, tokenize source = .ok tokens ∧
      (script.body.Pairwise fun a b => a.span.stop ≤ b.span.start) ∧
      (∀ l ∈ tokens, l.token ≠ .endOfInput →
        ∃! k : Fin script.body.length, (script.body.get k).span.Encloses l.span) ∧
      ∀ st ∈ script.body, (Node.statement st).Nests := by
  have hspans : (parseScript "let \x7ba = `$\x7b(b)\x7d`\x7d = c\nd").toOption.map
      (·.body.map Statement.span) = some [⟨0, 22, 1, 1⟩, ⟨23, 24, 2, 1⟩] := by
    decide +kernel
  cases hread : parseScript "let \x7ba = `$\x7b(b)\x7d`\x7d = c\nd" with
  | error e =>
    rw [hread] at hspans
    cases hspans
  | ok script => exact ⟨script, hread, parseScript_spans hread⟩

end EcmaScript

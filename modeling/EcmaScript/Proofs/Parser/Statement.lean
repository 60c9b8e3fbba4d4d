import EcmaScript.Parser.Statement
import EcmaScript.Proofs.Parser.Expression

/-! The suspensions in statements and scripts. In what is read from a text, every suspension stands
where it may. -/
namespace EcmaScript
open Parse

@[simp] theorem Statement.sites_braced {p : Place} {st : Statement} : st.braced.sites p = st.sites p := by
  unfold braced
  split
  · simp [sitesOfStatements]
  · rfl

namespace Grammar

theorem declarationAhead_still : Still declarationAhead := by
  refine peek_still.bind fun _ => ?_
  split
  · refine peekAt_still.bind fun _ => ?_
    split <;> exact .pure
  · exact .pure

theorem atForEach_still : Still atForEach := atWord_still.bind fun _ => atWord_still.bind fun _ => .pure

theorem skipModuleDecl_still : Still skipModuleDecl := by
  refine advance_still.bind fun _ => .loop fun depth => lexeme_still.bind fun l => ?_
  split
  · exact .pure
  · refine .ite (advance_still.bind fun _ => .pure) (.ite .pure ?_)
    split
    · exact advance_still.bind fun _ => .pure
    · exact advance_still.bind fun _ => .pure
    · exact advance_still.bind fun _ => .pure
    · exact .ite .pure (advance_still.bind fun _ => .pure)
    · exact .ite .pure (advance_still.bind fun _ => .pure)
    · exact .ite .pure (advance_still.bind fun _ => .pure)
    · exact advance_still.bind fun _ => .pure

theorem label_still : Still label? := by
  refine advance_still.bind fun _ => lexeme_still.bind fun l => ?_
  extract_lets rest
  have hrest (label : Option String) : Still (rest label) := semicolon_still.bind fun _ => .pure
  split
  · exact .ite (advance_still.bind fun _ => hrest _) (hrest none)
  · exact hrest none

namespace Sound
variable {g : Grammar} {m : Mode}

theorem parenthesized (hg : g.Sound) (hm : m.Sound) :
    Finds m [] g.parenthesized (Expr.sites m.place) :=
  .skip expect_still fun _ => .next (hg.expressionIn hm) fun _ => .skip expect_still fun _ =>
    .pure (by simp)

theorem declarators {kind : VarKind} (hg : g.Sound) (hm : m.Sound) :
    Finds m [] (g.declarators kind) (sitesOfDeclarators m.place) := by
  refine .loop (f := sitesOfDeclarators m.place) (by simp) fun before => ?_
  refine .next (hg.binding hm) fun target => .skip eat_still fun _ => ?_
  extract_lets rest
  have hrest (init : Option Expr) :
      Finds m (sitesOfDeclarators m.place before ++ target.sites m.place ++ sitesOfExpr? m.place init)
        (rest init) fun r => r.elim (sitesOfDeclarators m.place) (sitesOfDeclarators m.place) := by
    refine .read_bind (.ite (fun _ => .skip lastSpan_still fun _ => .fail_bind) fun _ => ?_)
    refine .skip eat_still fun _ => .ite (fun _ => .pure ?_) fun _ => .pure ?_
    all_goals simp [or_assoc, or_comm]
  refine .ite (fun _ => .next (hg.assignment hm) fun e => hrest (some e)) fun _ => ?_
  exact .next (f := sitesOfExpr? m.place) (.pure (a := none) (by simp)) hrest

theorem variableStatement {kind : VarKind} (hg : g.Sound) (hm : m.Sound) :
    Finds m [] (g.variableStatement kind) (StatementNode.sites m.place) :=
  .skip advance_still fun _ => .next (hg.declarators hm) fun _ => .skip semicolon_still fun _ =>
    .pure (by simp)

theorem ifRule (hg : g.Sound) (hm : m.Sound) : Finds m [] g.ifRule (StatementNode.sites m.place) := by
  refine .skip advance_still fun _ => .next (hg.parenthesized hm) fun test => ?_
  refine .next (hg.statement hm) fun consequent => .skip eatWord_still fun _ => ?_
  exact .ite (fun _ => .next (hg.statement hm) fun _ => .pure (by simp)) fun _ => .pure (by simp)

theorem forEach {kind : Option VarKind} {head : Pattern} {isAwait : Bool} (hg : g.Sound)
    (hm : m.Sound) :
    Finds m ((if isAwait then [⟨.forAwait, m.place⟩] else []) ++ head.sites m.place)
      (g.forEach kind head isAwait) (StatementNode.sites m.place) := by
  refine .skip atWord_still fun isOf => .skip advance_still fun keyword => ?_
  have hobject : Finds m [] (withIn (if isOf = true then g.assignment else g.expression))
      (Expr.sites m.place) :=
    .withIn hm fun _ hp hm' => hp ▸ .ite (fun _ => hg.assignment hm') fun _ => hg.expression hm'
  refine .next hobject fun object => .skip expect_still fun _ => .next (hg.statement hm) fun body => ?_
  refine .ite (fun _ => .pure (by simp)) fun _ => .ite (fun _ => .fail_bind) fun hawait => ?_
  exact .pure (by simp [hawait])

theorem forRest {keyword : Span} {init : Option Statement} {isAwait : Bool} (hg : g.Sound)
    (hm : m.Sound) :
    Finds m ((if isAwait then [⟨.forAwait, m.place⟩] else []) ++ sitesOfStatement? m.place init)
      (g.forRest keyword init isAwait) (StatementNode.sites m.place) := by
  refine .ite (fun _ => .fail_bind) fun hawait => .skip expect_still fun _ => ?_
  simp only [Bool.not_eq_true] at hawait
  subst hawait
  extract_lets rest
  have hbody (test update : Option Expr) : Finds m (sitesOfStatement? m.place init ++
      sitesOfExpr? m.place test ++ sitesOfExpr? m.place update) (do
        let _ ← expect .rParen
        return StatementNode.for init test update (← g.statement)) (StatementNode.sites m.place) :=
    .skip expect_still fun _ => .next (hg.statement hm) fun _ => .pure (by simp)
  have hrest (test : Option Expr) :
      Finds m (sitesOfStatement? m.place init ++ sitesOfExpr? m.place test) (rest test)
        (StatementNode.sites m.place) := by
    refine .skip expect_still fun _ => .skip at_still fun _ => .ite (fun _ => ?_) fun _ => ?_
    · exact .next (f := sitesOfExpr? m.place) (.pure (a := none) (by simp)) (hbody test)
    · exact .next (hg.expressionIn hm) fun e => hbody test (some e)
  refine .skip at_still fun _ => .ite (fun _ => ?_) fun _ => ?_
  · exact .next (f := sitesOfExpr? m.place) (.pure (a := none) (by simp)) hrest
  · exact .next (hg.expressionIn hm) fun e => hrest (some e)

theorem forDeclaration {keyword : Span} {kind : VarKind} {isAwait : Bool} (hg : g.Sound)
    (hm : m.Sound) :
    Finds m (if isAwait then [⟨.forAwait, m.place⟩] else []) (g.forDeclaration keyword kind isAwait)
      (StatementNode.sites m.place) := by
  refine .skip advance_still fun start => ?_
  refine .next (.withoutIn hm fun _ hp hm' => hp ▸ hg.binding hm') fun target => ?_
  refine .skip atForEach_still fun _ => .ite (fun _ => hg.forEach hm) fun _ => ?_
  refine .skip eat_still fun _ => ?_
  extract_lets declared
  have hdeclared (init : Option Expr) : Finds m ((if isAwait then [⟨.forAwait, m.place⟩] else []) ++
      target.sites m.place ++ sitesOfExpr? m.place init) (declared init)
      (StatementNode.sites m.place) := by
    refine .ite (fun _ => .skip lastSpan_still fun _ => .fail_bind) fun _ => .skip eat_still fun _ => ?_
    extract_lets rest
    have hrest (others : List Declarator) : Finds m ((if isAwait then [⟨.forAwait, m.place⟩] else []) ++
        target.sites m.place ++ sitesOfExpr? m.place init ++ sitesOfDeclarators m.place others)
        (rest others) (StatementNode.sites m.place) :=
      .skip finish_still fun _ => (hg.forRest hm).congr (by simp [sitesOfDeclarators])
    refine .ite (fun _ => ?_) fun _ => ?_
    · exact .next (.withoutIn hm fun _ hp hm' => hp ▸ hg.declarators hm') hrest
    · exact .next (f := sitesOfDeclarators m.place) (.pure (a := []) (by simp)) hrest
  refine .ite (fun _ => ?_) fun _ => ?_
  · exact .next (.withoutIn hm fun _ hp hm' => hp ▸ hg.assignment hm') fun e => hdeclared (some e)
  · exact .next (f := sitesOfExpr? m.place) (.pure (a := none) (by simp)) hdeclared

theorem forRule (hg : g.Sound) (hm : m.Sound) : Finds m [] g.forRule (StatementNode.sites m.place) := by
  refine .skip advance_still fun keyword => ?_
  extract_lets _ rest waiting
  have hrest (isAwait : Bool) : Finds m (if isAwait then [⟨.forAwait, m.place⟩] else [])
      (rest isAwait) (StatementNode.sites m.place) := by
    refine .skip expect_still fun _ => .skip declarationAhead_still fun ahead => ?_
    cases ahead with
    | some kind => exact hg.forDeclaration hm
    | none =>
      refine .skip at_still fun _ => .ite (fun _ => ?_) fun _ => ?_
      · exact (hg.forRest hm).congr (by simp)
      · refine .next (.withoutIn hm fun _ hp hm' => hp ▸ hg.expression hm') fun e => ?_
        refine .skip atForEach_still fun _ => .ite (fun _ => ?_) fun _ => ?_
        · cases htarget : e.toPattern with
          | ok target => exact Expr.sites_toPattern htarget ▸ hg.forEach hm
          | error fault => exact nofun
        · exact (hg.forRest hm).congr (by simp)
  refine .skip atWord_still fun _ => .ite (fun _ => .awaitAllowed_bind ?_) fun _ => hrest false
  refine .ite (fun _ => .unexpected_bind) fun hawait => ?_
  simp only [Bool.not_eq_true', Bool.not_eq_false] at hawait
  have hnote : Finds m [] noteAwait fun _ => [⟨.forAwait, m.place⟩] := noteAwait_finds nofun hawait
  refine hnote.bind fun _ => ?_
  exact .skip advance_still fun _ => hrest true

theorem tryRule (hg : g.Sound) (hm : m.Sound) : Finds m [] g.tryRule (StatementNode.sites m.place) := by
  refine .skip advance_still fun start => .next (hg.block hm) fun body => ?_
  extract_lets rest handled
  have hrest (param : Option Pattern) (handler : Option (List Statement)) :
      Finds m (sitesOfStatements m.place body ++ sitesOfPattern? m.place param ++
        sitesOfBlock? m.place handler) (rest (param, handler)) (StatementNode.sites m.place) := by
    refine .skip eatWord_still fun _ => ?_
    extract_lets ending
    have hending (finalizer : Option (List Statement)) :
        Finds m (sitesOfStatements m.place body ++ sitesOfPattern? m.place param ++
          sitesOfBlock? m.place handler ++ sitesOfBlock? m.place finalizer) (ending finalizer)
          (StatementNode.sites m.place) := .ite (fun _ => .fail_bind) fun _ => .pure (by simp)
    refine .ite (fun _ => .next (hg.block hm) fun body => hending (some body)) fun _ => ?_
    exact .next (f := sitesOfBlock? m.place) (.pure (a := none) (by simp)) hending
  have hhandled (param : Option Pattern) :
      Finds m (sitesOfStatements m.place body ++ sitesOfPattern? m.place param) (handled param)
        (StatementNode.sites m.place) := .next (hg.block hm) fun body => hrest param (some body)
  refine .skip eatWord_still fun _ => .ite (fun _ => .skip eat_still fun _ => ?_) fun _ => ?_
  · refine .ite (fun _ => .next (hg.binding hm) fun param => ?_) fun _ => ?_
    · exact .skip expect_still fun _ => hhandled (some param)
    · exact .next (f := sitesOfPattern? m.place) (.pure (a := none) (by simp)) hhandled
  · refine .next (f := fun r => sitesOfPattern? m.place r.1 ++ sitesOfBlock? m.place r.2)
      (.pure (a := (none, none)) (by simp)) fun r => ?_
    exact (hrest r.1 r.2).congr (by simp)

theorem caseBody (hg : g.Sound) (hm : m.Sound) : Finds m [] g.caseBody (sitesOfStatements m.place) := by
  refine .loop (f := sitesOfStatements m.place) (by simp) fun before => .skip peek_still fun _ => ?_
  split
  · exact .pure (by simp)
  · exact .pure (by simp)
  · exact .pure (by simp)
  · exact .pure (by simp)
  · exact .next (hg.statement hm) fun _ => .pure (by simp [or_comm])

theorem switchRule (hg : g.Sound) (hm : m.Sound) :
    Finds m [] g.switchRule (StatementNode.sites m.place) := by
  refine .skip advance_still fun _ => .next (hg.parenthesized hm) fun discriminant => ?_
  refine .skip expect_still fun _ => .next (f := sitesOfCases m.place) ?_ fun cases => .pure (by simp)
  refine .loop (f := fun r => sitesOfCases m.place r.1) (by simp) fun r => .skip eat_still fun _ => ?_
  refine .ite (fun _ => .pure (by simp)) fun _ => .skip eatWord_still fun _ => .ite (fun _ => ?_) fun _ => ?_
  · refine .next (hg.expressionIn hm) fun test => .skip expect_still fun _ => ?_
    exact .next (hg.caseBody hm) fun body => .pure (by simp [or_comm, or_assoc])
  · refine .skip atWord_still fun _ => .ite (fun _ => .skip advance_still fun _ => ?_) fun _ => .unexpected
    refine .ite (fun _ => .fail_bind) fun _ => .skip expect_still fun _ => ?_
    exact .next (hg.caseBody hm) fun body => .pure (by simp [or_comm])

theorem returnRule {start : Span} (hg : g.Sound) (hm : m.Sound) :
    Finds m [] (g.returnRule start) (StatementNode.sites m.place) := by
  refine .read_bind (.ite (fun _ => .fail_bind) fun _ => .skip advance_still fun _ => ?_)
  refine .skip lexeme_still fun l => ?_
  extract_lets bare rest
  have hrest (value : Option Expr) : Finds m (sitesOfExpr? m.place value) (rest value)
      (StatementNode.sites m.place) := .skip semicolon_still fun _ => .pure (by simp)
  exact .ite (fun _ => hrest none) fun _ => .next (hg.expression hm) fun e => hrest (some e)

theorem throwRule (hg : g.Sound) (hm : m.Sound) :
    Finds m [] g.throwRule (StatementNode.sites m.place) := by
  refine .skip advance_still fun _ => .skip lexeme_still fun _ => .ite (fun _ => ?_) fun _ => ?_
  · exact .skip span_still fun _ => .fail_bind
  · exact .next (hg.expression hm) fun _ => .skip semicolon_still fun _ => .pure (by simp)

theorem expressionStatement (hg : g.Sound) (hm : m.Sound) :
    Finds m [] g.expressionStatement (StatementNode.sites m.place) :=
  .next (hg.expression hm) fun _ => .skip semicolon_still fun _ => .pure (by simp)

theorem otherStatement {word : String} (hg : g.Sound) (hm : m.Sound) :
    Finds m [] (g.otherStatement word) (StatementNode.sites m.place) := by
  refine .skip peekAt_still fun _ => .ite (fun _ => ?_) fun _ => hg.expressionStatement hm
  refine .skip advance_still fun _ => .skip advance_still fun _ => .next (hg.statement hm) fun _ => ?_
  exact .pure (by simp)

theorem wordStatement {start : Span} {word : String} (hg : g.Sound) (hm : m.Sound) :
    Finds m [] (g.wordStatement start word) (StatementNode.sites m.place) := by
  unfold Grammar.wordStatement
  split
  · exact hg.variableStatement hm
  · exact hg.variableStatement hm
  · exact .skip declarationAhead_still fun _ => .ite (fun _ => hg.variableStatement hm) fun _ =>
      hg.otherStatement hm
  · exact .next hg.function fun f => .pure (by simp)
  · refine .skip lexemeAt_still fun _ => .ite (fun _ => ?_) fun _ => hg.otherStatement hm
    exact .skip advance_still fun _ => .next hg.function fun f => .pure (by simp)
  · exact .next (hg.classRule hm) fun c => .pure (by simp)
  · exact hg.ifRule hm
  · exact hg.forRule hm
  · refine .skip advance_still fun _ => .next (hg.parenthesized hm) fun test => ?_
    exact .next (hg.statement hm) fun body => .pure (by simp)
  · refine .skip advance_still fun _ => .next (hg.statement hm) fun body => ?_
    refine .skip expectWord_still fun _ => .next (hg.parenthesized hm) fun test => ?_
    exact .skip eat_still fun _ => .pure (by simp)
  · exact hg.returnRule hm
  · exact .skip label_still fun _ => .pure (by simp)
  · exact .skip label_still fun _ => .pure (by simp)
  · exact hg.throwRule hm
  · exact hg.tryRule hm
  · exact hg.switchRule hm
  · exact .skip advance_still fun _ => .skip semicolon_still fun _ => .pure (by simp)
  · exact .unsupported
  · refine .skip peekAt_still fun _ => ?_
    split
    · exact hg.otherStatement hm
    · exact hg.otherStatement hm
    · exact .skip skipModuleDecl_still fun _ => .pure (by simp)
  · exact .skip skipModuleDecl_still fun _ => .pure (by simp)
  · exact hg.otherStatement hm

theorem statementRule (hg : g.Sound) (hm : m.Sound) :
    Finds m [] g.statementRule (Statement.sites m.place) := by
  refine .skip lexeme_still fun l => ?_
  extract_lets rest
  have hrest (node : StatementNode) : Finds m (node.sites m.place) (rest node)
      (Statement.sites m.place) := .skip finish_still fun _ => .pure (by simp)
  split
  · exact .next (hg.block hm) fun body => hrest (.block body)
  · exact .skip advance_still fun _ => hrest .empty
  · exact .next (hg.wordStatement hm) hrest
  · exact .next (hg.expressionStatement hm) hrest

theorem rules (hg : g.Sound) : g.rules.Sound := by
  intro goal m hm
  cases goal with
  | statement => exact hg.statementRule hm
  | assignment => exact hg.assignmentRule hm
  | binary => exact hg.binaryRule hm
  | unary => exact hg.unaryRule hm
  | leftHandSide => exact hg.leftHandSideRule hm
  | binding => exact hg.bindingRule hm

theorem ofLength {length : Nat} : (Grammar.ofLength length).Sound := by
  suffices h : ∀ depth, Grammar.Sound ⟨fun goal => parseGoal depth goal⟩ from h _
  intro depth
  induction depth with
  | zero => exact fun goal m _ => .stuck
  | succ depth ih => exact ih.rules

theorem script (hg : g.Sound) (hm : m.Sound) : Finds m [] g.script (sitesOfStatements m.place) := by
  refine .loop (f := sitesOfStatements m.place) (by simp) fun before => .skip peek_still fun _ => ?_
  split
  · exact .pure (by simp)
  · exact .next (hg.statement hm) fun _ => .pure (by simp [or_comm])

end Sound
end Grammar

theorem parseText_records {α : Type} {source : String} {read : Grammar → Parse α} {a : α}
    {s : TokenStream} {f : α → List Site} (hr : ∀ g : Grammar, g.Sound → Finds {} [] (read g) f)
    (h : parseText source read = .ok (a, s)) : s.Records false (f a) := by
  obtain ⟨tokens, -, h⟩ := Except.bind_eq_ok.mp h
  exact hr _ .ofLength false { tokens := tokens.toArray } a s ⟨by simp, by simp⟩ h

theorem parseScript_records {source : String} {script : Script} (h : parseScript source = .ok script) :
    (∀ x ∈ sitesOfStatements .outside script.body, x.isLawful = true) ∧
      (script.awaits = true ↔ ∃ x ∈ sitesOfStatements .outside script.body, x.place = .outside) := by
  obtain ⟨⟨body, s⟩, hread, h⟩ := Except.bind_eq_ok.mp h
  cases h
  have hs : s.Records false (sitesOfStatements .outside body) :=
    parseText_records (fun _ hg => hg.script (m := {}) nofun) hread
  exact ⟨hs.lawful, by simpa using hs.awaits⟩

theorem parseFunction_lawful {source : String} {f : FunctionNode}
    (h : parseFunction source = .ok f) : ∀ x ∈ f.sites, x.isLawful = true := by
  obtain ⟨⟨e, s⟩, hread, h⟩ := Except.bind_eq_ok.mp h
  have hs : s.Records false (e.sites .outside) := by
    refine parseText_records (fun _ hg => .next (hg.expression (m := {}) nofun) fun e => ?_) hread
    refine .skip peek_still fun _ => ?_
    split
    · exact .pure fun _ => Iff.rfl
    · exact .unexpected
  dsimp only at h
  split at h
  · rename_i node hnode
    cases h
    intro x hx
    have hf : e.node.sites .outside = f.sites := by rw [hnode, ExprNode.sites]
    exact hs.lawful x (Expr.sites_node ▸ hf ▸ hx)
  · nomatch h

end EcmaScript

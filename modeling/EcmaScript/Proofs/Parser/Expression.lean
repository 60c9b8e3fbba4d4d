import EcmaScript.Parser.Expression
import EcmaScript.Proofs.Parser.Function

/-! The suspensions in expressions. An `await` is recorded where it is read, a `yield` is read in
generators only. -/
namespace EcmaScript
open Parse

@[simp] theorem Expr.sites_node {p : Place} {e : Expr} : e.node.sites p = e.sites p := by
  cases e
  rfl

namespace Parse
variable {α β : Type} {m : Mode} {base : List Site} {f : α → List Site}

theorem Finds.yields {x : Parse α} (hm : m.Sound) (hg : m.inGenerator = true)
    (hx : Finds m (⟨.yield, m.place⟩ :: base) x f) : Finds m base x f := by
  intro before s a s' hs h
  have hplace : m.place = .inside m.inAsync m.inGenerator := by simp [Mode.place, hm hg]
  refine hx before s a s' ⟨List.forall_mem_cons.mpr ⟨?_, hs.lawful⟩, hs.awaits.trans ?_⟩ h
  · simp [Site.isLawful, hplace, Place.mayYield, hg]
  · simp [hplace]

theorem Finds.mapM {read : β → Parse Expr} (hread : ∀ b, Finds m [] (read b) (Expr.sites m.place))
    (bs : List β) : Finds m [] (bs.mapM read) (sitesOfExprs m.place) := by
  induction bs with
  | nil => exact .pure (by simp)
  | cons b bs ih =>
    rw [List.mapM_cons]
    exact .next (hread b) fun e => .next ih fun es => .pure (by simp)

end Parse

namespace Grammar

namespace Sound
variable {g : Grammar} {m : Mode}

theorem expression (hg : g.Sound) (hm : m.Sound) : Finds m [] g.expression (Expr.sites m.place) := by
  refine .skip span_still fun start => .next (hg.assignment hm) fun first => .skip at_still fun _ => ?_
  refine .ite (fun _ => .pure (by simp)) fun _ => ?_
  refine .bind (f := sitesOfExprs m.place) ?_ fun parts => .skip finish_still fun _ => .pure (by simp)
  refine .loop (f := sitesOfExprs m.place) (by simp) fun before => .skip eat_still fun _ => ?_
  exact .ite (fun _ => .next (hg.assignment hm) fun _ => .pure (by simp [or_comm])) fun _ =>
    .pure (by simp)

theorem expressionIn (hg : g.Sound) (hm : m.Sound) :
    Finds m [] (withIn g.expression) (Expr.sites m.place) :=
  .withIn hm fun _ hp hm' => hp ▸ hg.expression hm'

theorem arguments (hg : g.Sound) (hm : m.Sound) : Finds m [] g.arguments (sitesOfExprs m.place) := by
  refine .skip expect_still fun _ => .next (f := sitesOfExprs m.place) ?_ fun found =>
    .skip expect_still fun _ => .pure (by simp)
  refine .withIn hm fun m' hp hm' => hp ▸ ?_
  refine .loop (f := sitesOfExprs m'.place) (by simp) fun before => .skip at_still fun _ => ?_
  refine .ite (fun _ => .pure (by simp)) fun _ => .skip span_still fun start => ?_
  extract_lets rest
  have hrest (item : Expr) : Finds m' (sitesOfExprs m'.place before ++ item.sites m'.place)
      (rest item) fun r => r.elim (sitesOfExprs m'.place) (sitesOfExprs m'.place) :=
    .skip eat_still fun _ => .ite (fun _ => .pure (by simp [or_comm])) fun _ =>
      .pure (by simp [or_comm])
  refine .skip eat_still fun _ => .ite (fun _ => .next (hg.assignment hm') fun e => ?_) fun _ => ?_
  · exact .skip finish_still fun span => hrest (.mk span (.spread e))
  · exact .next (hg.assignment hm') hrest

theorem computedName (hg : g.Sound) (hm : m.Sound) : Finds m [] g.computedName (Key.sites m.place) :=
  .skip advance_still fun _ => .next (hg.expressionIn hm) fun _ => .skip expect_still fun _ =>
    .pure (by simp)

theorem memberName : Finds m [] Grammar.memberName (Key.sites m.place) := by
  refine .skip peek_still fun _ => ?_
  split
  · exact .skip advance_still fun _ => .pure (by simp)
  · exact .skip advance_still fun _ => .pure (by simp)
  · exact .unexpected

theorem superRule (hg : g.Sound) (hm : m.Sound) : Finds m [] g.superRule (Expr.sites m.place) := by
  refine .skip advance_still fun start => .skip peek_still fun _ => ?_
  split
  · exact .next (hg.arguments hm) fun _ => .skip finish_still fun _ => .pure (by simp)
  · refine .skip advance_still fun _ => .next memberName fun key => ?_
    split
    · exact .skip lastSpan_still fun _ => .fail
    · exact .skip finish_still fun _ => .pure (by simp)
  · exact .next (hg.computedName hm) fun _ => .skip finish_still fun _ => .pure (by simp)
  · exact .fail

theorem substitution {tokens : List Lexeme} (hg : g.Sound) (hm : m.Sound) :
    Finds m [] (g.substitution tokens) (Expr.sites m.place) := by
  unfold Grammar.substitution
  cases tokens.getLast? with
  | none => exact .get_bind fun _ => .fail
  | some last =>
    intro before saved e s' hs h
    obtain ⟨_, _, hsaved, h⟩ := bind_eq_ok.mp h
    cases hsaved
    obtain ⟨_, s₁, hset, h⟩ := bind_eq_ok.mp h
    -- The other tokens come with the record as it is, and what is recorded in them is kept.
    have hs₁ : s₁.Records before [] := by
      cases hset
      exact ⟨hs.lawful, hs.awaits⟩
    refine Finds.next (hg.expressionIn hm) (fun e => ?_) before s₁ e s' hs₁ h
    extract_lets rest
    have hrest : Finds m ([] ++ e.sites m.place) (rest ()) (Expr.sites m.place) :=
      .skip (modify_still fun _ => rfl) fun _ => .pure (by simp)
    refine .skip peek_still fun _ => ?_
    split
    · exact hrest
    · exact .unexpected_bind

theorem taggedTemplate {tag : Expr} {start : Span} {chunks : List TemplateChunk}
    {substitutions : List (List Lexeme)} (hg : g.Sound) (hm : m.Sound) :
    Finds m (tag.sites m.place) (g.taggedTemplate tag start chunks substitutions)
      (Expr.sites m.place) :=
  .skip advance_still fun _ => .next (.mapM (fun _ => hg.substitution hm) _) fun parts =>
    .skip finish_still fun _ => .pure (by simp)

theorem arrayLiteral (hg : g.Sound) (hm : m.Sound) :
    Finds m [] g.arrayLiteral (Expr.sites m.place) := by
  refine .skip advance_still fun start => .next (f := sitesOfExprs m.place) ?_ fun elements =>
    .skip expect_still fun _ => .skip finish_still fun _ => .pure (by simp)
  refine .withIn hm fun m' hp hm' => hp ▸ ?_
  refine .loop (f := sitesOfExprs m'.place) (by simp) fun before => .skip span_still fun here => ?_
  refine .skip peek_still fun _ => ?_
  split
  · exact .pure (by simp)
  · exact .skip advance_still fun _ => .pure (by simp)
  · extract_lets rest
    have hrest (item : Expr) : Finds m' (sitesOfExprs m'.place before ++ item.sites m'.place)
        (rest item) fun r => r.elim (sitesOfExprs m'.place) (sitesOfExprs m'.place) :=
      .skip eat_still fun _ => .ite (fun _ => .pure (by simp [or_comm])) fun _ =>
        .pure (by simp [or_comm])
    refine .skip eat_still fun _ => .ite (fun _ => .next (hg.assignment hm') fun e => ?_) fun _ => ?_
    · exact .skip finish_still fun span => hrest (.mk span (.spread e))
    · exact .next (hg.assignment hm') hrest

theorem objectMember (hg : g.Sound) (hm : m.Sound) :
    Finds m [] g.objectMember (Member.sites m.place) := by
  refine .skip span_still fun start => .skip methodModifiers_still fun modifiers => ?_
  refine .skip lexeme_still fun l => .next (hg.propertyName hm) fun key => .skip at_still fun _ => ?_
  refine .ite (fun _ => .next hg.functionRest fun f => .pure (by simp)) fun _ => ?_
  refine .ite (fun _ => .unexpected_bind) fun _ => .skip eat_still fun _ => .ite (fun _ => ?_) fun _ => ?_
  · exact .next (hg.assignment hm) fun value => .pure (by simp)
  · split
    · refine .ite (fun _ => .unexpected_bind) fun _ => .read_bind ?_
      refine .ite (fun _ => .fail_bind) fun _ => .skip eat_still fun _ => .ite (fun _ => ?_) fun _ => ?_
      · exact .next (hg.assignment hm) fun _ => .skip finish_still fun _ => .pure (by simp)
      · exact .pure (by simp)
    · exact .unexpected

theorem objectLiteral (hg : g.Sound) (hm : m.Sound) :
    Finds m [] g.objectLiteral (Expr.sites m.place) := by
  refine .skip advance_still fun start => .next (f := sitesOfMembers m.place) ?_ fun members =>
    .skip expect_still fun _ => .skip finish_still fun _ => .pure (by simp)
  refine .withIn hm fun m' hp hm' => hp ▸ ?_
  refine .loop (f := sitesOfMembers m'.place) (by simp) fun before => .skip at_still fun _ => ?_
  refine .ite (fun _ => .pure (by simp)) fun _ => ?_
  extract_lets rest
  have hrest (member : Member) : Finds m' (sitesOfMembers m'.place before ++ member.sites m'.place)
      (rest member) fun r => r.elim (sitesOfMembers m'.place) (sitesOfMembers m'.place) :=
    .skip eat_still fun _ => .ite (fun _ => .pure (by simp [or_comm])) fun _ =>
      .pure (by simp [or_comm])
  refine .skip eat_still fun _ => .ite (fun _ => .next (hg.assignment hm') fun e => ?_) fun _ => ?_
  · exact hrest (.spread e)
  · exact .next (hg.objectMember hm') hrest

theorem wordExpression {start : Span} {name : String} (hg : g.Sound) (hm : m.Sound) :
    Finds m [] (g.wordExpression start name) (Expr.sites m.place) := by
  have hliteral {node : ExprNode} (h : node.sites m.place = []) : Finds m [] (do
      let _ ← advance
      return Expr.mk start node) (Expr.sites m.place) :=
    .skip advance_still fun _ => .pure (by simp [h])
  unfold Grammar.wordExpression
  dsimp only
  split
  · exact hliteral rfl
  · exact hliteral rfl
  · exact hliteral rfl
  · exact hliteral rfl
  · exact .next hg.function fun f => .pure (by simp)
  · exact .next (hg.classRule hm) fun c => .pure (by simp)
  · exact .unsupported
  · refine .skip lexemeAt_still fun following => .ite (fun _ => ?_) fun _ => ?_
    · exact .skip advance_still fun _ => .next hg.function fun f => .pure (by simp)
    · refine .ite (fun _ => .unexpected_bind) fun _ => ?_
      exact .skip bindingName_still fun _ => .pure (by simp)

theorem primary (hg : g.Sound) (hm : m.Sound) : Finds m [] g.primary (Expr.sites m.place) := by
  refine .skip lexeme_still fun l => ?_
  have hliteral {node : ExprNode} (h : node.sites m.place = []) : Finds m [] (do
      let _ ← advance
      return Expr.mk l.span node) (Expr.sites m.place) :=
    .skip advance_still fun _ => .pure (by simp [h])
  dsimp only
  split
  · exact hliteral rfl
  · exact hliteral rfl
  · exact hliteral rfl
  · exact hliteral rfl
  · refine .skip advance_still fun _ => .ite (fun _ => .fail_bind) fun _ => ?_
    exact .next (.mapM (fun _ => hg.substitution hm) _) fun parts => .pure (by simp)
  · refine .skip advance_still fun _ => .next (hg.expressionIn hm) fun e => ?_
    exact .skip expect_still fun _ => .skip finish_still fun _ => .pure (by simp)
  · exact hg.arrayLiteral hm
  · exact hg.objectLiteral hm
  · exact hg.wordExpression hm
  · exact .unexpected

theorem chainHead {newRule : Parse Expr} (hg : g.Sound) (hm : m.Sound)
    (hnew : Finds m [] newRule (Expr.sites m.place)) :
    Finds m [] (g.chainHead newRule) (Expr.sites m.place) :=
  .skip atWord_still fun _ => .ite (fun _ => hnew) fun _ => .skip atWord_still fun _ =>
    .ite (fun _ => hg.superRule hm) fun _ => hg.primary hm

theorem newRule (hg : g.Sound) (hm : m.Sound) (fuel : Nat) :
    Finds m [] (g.newRule fuel) (Expr.sites m.place) := by
  induction fuel with
  | zero => exact .stuck
  | succ fuel ih =>
    refine .skip advance_still fun start => .skip eat_still fun _ => .ite (fun _ => ?_) fun _ => ?_
    · refine .skip expectWord_still fun _ => .read_bind (.ite (fun _ => .fail_bind) fun _ => ?_)
      exact .skip finish_still fun _ => .pure (by simp)
    · refine .next (hg.chainHead hm ih) fun head => .bind (f := Expr.sites m.place) ?_ fun callee => ?_
      · refine .loop (f := Expr.sites m.place) (by simp) fun callee => .skip peek_still fun _ => ?_
        split
        · refine .skip advance_still fun _ => .next memberName fun key => ?_
          exact .skip finish_still fun _ => .pure (by simp)
        · exact .next (hg.computedName hm) fun key => .skip finish_still fun _ => .pure (by simp)
        · exact (hg.taggedTemplate hm).bind fun _ => .pure (by simp)
        · exact .skip span_still fun _ => .fail
        · exact .pure (by simp)
      · extract_lets rest
        have hrest (found : List Expr) : Finds m (callee.sites m.place ++ sitesOfExprs m.place found)
            (rest found) (Expr.sites m.place) := .skip finish_still fun _ => .pure (by simp)
        refine .skip at_still fun _ => .ite (fun _ => .next (hg.arguments hm) hrest) fun _ => ?_
        exact .next (f := sitesOfExprs m.place) (.pure (by simp)) hrest

theorem optionalLink {object : Expr} {start : Span} (hg : g.Sound) (hm : m.Sound) :
    Finds m (object.sites m.place) (g.optionalLink object start) (Expr.sites m.place) := by
  refine .skip peek_still fun _ => ?_
  split
  · exact .next (hg.arguments hm) fun _ => .skip finish_still fun _ => .pure (by simp)
  · exact .next (hg.computedName hm) fun _ => .skip finish_still fun _ => .pure (by simp)
  · exact .next memberName fun _ => .skip finish_still fun _ => .pure (by simp)

theorem leftHandSideRule (hg : g.Sound) (hm : m.Sound) :
    Finds m [] g.leftHandSideRule (Expr.sites m.place) := by
  refine .skip span_still fun start => .next (hg.chainHead hm (.get_bind fun s => hg.newRule hm _))
    fun head => .loop (f := fun r => Expr.sites m.place r.1) (by simp) fun r => ?_
  refine .skip peek_still fun _ => ?_
  split
  · refine .skip advance_still fun _ => .next memberName fun key => ?_
    exact .skip finish_still fun _ => .pure (by simp)
  · exact .skip advance_still fun _ => (hg.optionalLink hm).bind fun _ => .pure (by simp)
  · exact .next (hg.computedName hm) fun key => .skip finish_still fun _ => .pure (by simp)
  · exact .next (hg.arguments hm) fun _ => .skip finish_still fun _ => .pure (by simp)
  · refine .ite (fun _ => .skip span_still fun _ => .fail_bind) fun _ => ?_
    exact (hg.taggedTemplate hm).bind fun _ => .pure (by simp)
  · exact .pure (by cases r.2 <;> simp)

theorem unaryRule (hg : g.Sound) (hm : m.Sound) : Finds m [] g.unaryRule (Expr.sites m.place) := by
  refine .skip span_still fun start => .skip peek_still fun token => ?_
  split
  · refine .skip advance_still fun _ => .next (hg.unary hm) fun _ => ?_
    exact .skip finish_still fun _ => .pure (by simp)
  · refine .skip advance_still fun _ => .next (hg.unary hm) fun target => ?_
    exact .ite (fun _ => .fail_bind) fun _ => .skip finish_still fun _ => .pure (by simp)
  · refine .awaitAllowed_bind (.ite (fun hawait => ?_) fun _ => ?_)
    · simp only [Bool.and_eq_true] at hawait
      have hnote : Finds m [] noteAwait fun _ => [⟨.await, m.place⟩] := noteAwait_finds nofun hawait.2
      refine .skip advance_still fun _ => hnote.bind fun _ => ?_
      exact .next (hg.unary hm) fun operand => .skip finish_still fun _ => .pure (by simp)
    · refine .next (hg.leftHandSide hm) fun e => .skip lexeme_still fun l => ?_
      split
      · refine .ite (fun _ => .pure (by simp)) fun _ => .ite (fun _ => .fail_bind) fun _ => ?_
        exact .skip advance_still fun _ => .skip finish_still fun _ => .pure (by simp)
      · exact .pure (by simp)

theorem firstOperand (hg : g.Sound) (hm : m.Sound) :
    Finds m [] g.firstOperand (Expr.sites m.place) := by
  refine .skip span_still fun start => .skip peek_still fun _ => ?_
  split
  · refine .skip peekAt_still fun _ => .ite (fun _ => ?_) fun _ => hg.unary hm
    refine .skip advance_still fun _ => .skip advance_still fun _ => .next (hg.binary hm) fun _ => ?_
    exact .skip finish_still fun _ => .pure (by simp)
  · exact hg.unary hm

theorem binaryRule {floor : Nat} (hg : g.Sound) (hm : m.Sound) :
    Finds m [] (g.binaryRule floor) (Expr.sites m.place) := by
  refine .skip span_still fun start => .skip at_still fun _ => .next (hg.firstOperand hm) fun first => ?_
  refine .read_bind (.loop (f := Expr.sites m.place) (by simp) fun left => .skip peek_still fun _ => ?_)
  split
  · exact .pure (by simp)
  · rename_i op _
    refine .ite (fun _ => .pure (by simp)) fun _ => .ite (fun _ => ?_) fun _ => ?_
    · exact .skip span_still fun _ => .fail_bind
    · refine .skip advance_still fun _ => .next (hg.binary hm) fun right => ?_
      exact .skip finish_still fun _ => .pure (by cases op <;> simp [InfixOp.node])

theorem conditional (hg : g.Sound) (hm : m.Sound) :
    Finds m [] g.conditional (Expr.sites m.place) := by
  refine .skip span_still fun start => .next (hg.binary hm) fun test => .skip eat_still fun _ => ?_
  refine .ite (fun _ => .pure (by simp)) fun _ => .next (hg.assignmentIn hm) fun consequent => ?_
  refine .skip expect_still fun _ => .next (hg.assignment hm) fun alternate => ?_
  exact .skip finish_still fun _ => .pure (by simp)

theorem yieldRule (hg : g.Sound) (hm : m.Sound) (hgen : m.inGenerator = true) :
    Finds m [] g.yieldRule (Expr.sites m.place) := by
  refine .yields hm hgen (.skip advance_still fun start => .skip eat_still fun delegate => ?_)
  extract_lets rest
  have hrest (operand : Option Expr) : Finds m (⟨.yield, m.place⟩ :: sitesOfExpr? m.place operand)
      (rest operand) (Expr.sites m.place) := .skip finish_still fun _ => .pure (by simp)
  refine .skip lexeme_still fun _ => .ite (fun _ => hrest none) fun _ => ?_
  exact .next (hg.assignment hm) fun e => hrest (some e)

theorem assignmentRule (hg : g.Sound) (hm : m.Sound) :
    Finds m [] g.assignmentRule (Expr.sites m.place) := by
  refine .get_bind fun s => .ofExcept_bind fun ahead _ => ?_
  split
  · exact hg.arrow
  · refine .read_bind (.skip atWord_still fun _ => .ite (fun hyield => ?_) fun _ => ?_)
    · simp only [Bool.and_eq_true] at hyield
      exact hg.yieldRule hm hyield.1
    · refine .skip span_still fun start => .next (hg.conditional hm) fun left => ?_
      refine .skip peek_still fun _ => ?_
      split
      · refine .skip advance_still fun _ => .ofExcept_bind fun target htarget => ?_
        refine .next (hg.assignment hm) fun _ => .skip finish_still fun _ => .pure ?_
        simp [Expr.sites_toPattern htarget]
      · refine .ite (fun _ => .fail_bind) fun _ => .skip advance_still fun _ => ?_
        exact .next (hg.assignment hm) fun _ => .skip finish_still fun _ => .pure (by simp)
      · exact .pure (by simp)

end Sound
end Grammar
end EcmaScript

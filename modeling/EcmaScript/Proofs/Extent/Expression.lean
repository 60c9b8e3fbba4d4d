import EcmaScript.Parser.Expression
import EcmaScript.Proofs.Extent.Function

/-! Where expressions are. -/
namespace EcmaScript
open Parse TokenStream

variable {lo hi : Nat}

theorem Ordered.le {ls : List Lexeme} (h : Ordered lo ls hi) : lo ≤ hi := by
  induction h with
  | nil h => exact h
  | cons hlo hl _ _ _ ih => omega

theorem Ordered.of_getLast? {ls : List Lexeme} {last : Lexeme} (h : Ordered lo ls hi)
    (hlast : ls.getLast? = some last) : Ordered lo ls last.span.stop ∧ last.span.stop ≤ hi := by
  induction h with
  | nil => cases hlast
  | @cons lo hi l rest hlo hl hinner hrest _ ih =>
    cases rest with
    | nil =>
      cases hlast
      exact ⟨.cons hlo hl hinner (.nil le_rfl), hrest.le⟩
    | cons l' rest =>
      rw [List.getLast?_cons_cons] at hlast
      obtain ⟨hordered, hle⟩ := ih hlast
      exact ⟨.cons hlo hl hinner hordered, hle⟩

namespace TokenStream
variable {s s₁ : TokenStream}

theorem Sound.substitutions (hs : s.Sound) :
    ∀ inner ∈ (s.ahead 0).token.substitutions, Ordered s.front inner (s.ahead 0).span.stop := by
  obtain ⟨rest, last, lo, hleft, htoken, -, hordered⟩ := hs
  obtain - | ⟨-, -, hinner, -⟩ := hordered
  · rw [ahead_zero hleft, htoken]
    exact nofun
  · rw [front_eq hleft, ahead_zero hleft]
    exact hinner

theorem Sound.front_le (hs : s.Sound) {ls : List Lexeme} {last : Lexeme} (h : s.left = ls ++ [last]) :
    s.front ≤ last.span.start := by
  obtain ⟨rest, last', lo, hleft, -, -, hordered⟩ := hs
  obtain ⟨rfl, hlast⟩ := List.append_inj' (h.symm.trans hleft) rfl
  obtain rfl := List.cons.inj hlast |>.1
  obtain - | ⟨-, hl, -, hrest⟩ := hordered
  · exact (front_eq hleft).le
  · have hle := hrest.le
    rw [front_eq hleft]
    omega

theorem Covers.between {n : Node} {ls : List Lexeme} {last : Lexeme} (h : s.Covers s₁ n) (hs₁ : s₁.Sound)
    (hleft : s.left = ls ++ [last]) (hordered : Ordered lo ls last.span.start) :
    n.Within lo last.span.start := by
  have hlo : lo ≤ s.front := by
    cases hordered with
    | nil h => exact h.trans (front_eq hleft).ge
    | cons h => exact h.trans (front_eq hleft).ge
  have hhi : s₁.back ≤ last.span.start := by
    obtain ⟨rest, last', -, hleft', -⟩ := id hs₁
    obtain ⟨passed, hpassed, -⟩ := h.fit.passed
    rw [hleft, hleft', ← List.append_assoc] at hpassed
    obtain rfl : last = last' := by simpa using (List.append_inj' hpassed rfl).2
    exact h.fit.back_le.trans (hs₁.front_le hleft')
  exact h.within.mono hlo hhi

end TokenStream

namespace Grammar.Covers
variable {α : Type} {g : Grammar} {s s₀ s₁ : TokenStream} {Q : α → TokenStream → Prop}

theorem expression (hg : g.Covers) : Reads g.expression .expression := by
  intro s
  refine .span_bind ((hg.assignment s).bind fun first s₁ hfirst => .at_bind fun _ => ?_)
  refine .ite (fun _ => .pure hfirst) fun _ => ?_
  refine .bind (Q := fun parts s' => s.Fit s' (parts.map .expression)) ?_ fun parts s₂ h => ?_
  · refine .loop (I := fun before s' => s.Fit s' (before.map .expression)) hfirst.fit fun before s₂ h => ?_
    refine .eat_ite (fun s₃ h₃ => ?_) (.pure (h.mono (by simp)))
    refine (hg.assignment s₃).bind fun e s₄ he => .pure ?_
    exact ((h.pass h₃).append he.fit.inside).mono (by simp [or_comm])
  · exact .finish_bind (.pure (h.covers_through rfl fun _ hc => hc))

theorem expressionIn (hg : g.Covers) : Reads (withIn g.expression) .expression := hg.expression.withReader

theorem substitution {tokens : List Lexeme} (hg : g.Covers) (htokens : Ordered lo tokens hi) :
    Ends s (g.substitution tokens) fun e s' => s.Same s' ∧ (Node.expression e).Within lo hi := by
  unfold Grammar.substitution
  refine .get_bind ?_
  cases hlast : tokens.getLast? with
  | none => exact .fail
  | some last =>
    obtain ⟨hordered, hstop⟩ := htokens.of_getLast? hlast
    refine .sound fun hs => .set_bind ⟨tokens, _, lo, rfl, rfl, rfl, hordered⟩ ?_
    refine (hg.expressionIn _).bind fun e s₁ he => .sound fun hs₁ => ?_
    have hwithin : (Node.expression e).Within lo hi := (he.between hs₁ rfl hordered).mono le_rfl hstop
    extract_lets rest
    have hrest : Ends s₁ (rest ()) fun e s' => s.Same s' ∧ (Node.expression e).Within lo hi :=
      .modify_bind hs (.pure ⟨⟨rfl, rfl, rfl⟩, hwithin⟩)
    refine .peek_bind ?_
    split
    · exact hrest
    · exact .unexpected_bind

theorem substitutions {substitutions : List (List Lexeme)} (hg : g.Covers)
    (h : ∀ inner ∈ substitutions, Ordered lo inner hi) :
    Ends s (substitutions.mapM g.substitution) fun parts s' =>
      s.Same s' ∧ ∀ e ∈ parts, (Node.expression e).Within lo hi := by
  induction substitutions generalizing s with
  | nil => exact .pure ⟨.refl s, nofun⟩
  | cons inner rest ih =>
    rw [List.mapM_cons]
    obtain ⟨hinner, hrest⟩ := List.forall_mem_cons.mp h
    refine (hg.substitution hinner).bind fun e s₁ ⟨hsame, he⟩ => ?_
    refine (ih hrest).bind fun es s₂ ⟨hsame', hes⟩ => .pure ?_
    exact ⟨hsame.trans hsame', List.forall_mem_cons.mpr ⟨he, hes⟩⟩

theorem templateParts {chunks : List TemplateChunk} {substitutions : List (List Lexeme)} (hg : g.Covers)
    (hs : s.Sound) (htoken : (s.ahead 0).token = .template chunks substitutions) (h : s.Fit s₁ []) :
    Ends s₁ (substitutions.mapM g.substitution) fun parts s' =>
      s₁.Same s' ∧ s.Fit s' (parts.map .expression) := by
  have hinner := hs.substitutions
  rw [htoken] at hinner
  refine (hg.substitutions hinner).mono fun parts s₂ ⟨hsame, hparts⟩ => ⟨hsame, ?_⟩
  refine (h.same hsame).reread (List.forall_mem_map.mpr fun e he => ?_)
  exact (hparts e he).mono le_rfl (h.same hsame).stop_le

/-- An item of a list, which may be spread. -/
theorem item_bind {k : Expr → Parse α} (hg : g.Covers)
    (hk : ∀ e s', s.Covers s' (.expression e) → Ends s' (k e) Q) :
    Ends s (eat .spread >>= fun b =>
      if b then do
        let e ← g.assignment
        let y ← finish (s.ahead 0).span
        k (.mk y (.spread e))
      else g.assignment >>= k) Q := by
  refine .eat_ite (fun s₁ h₁ => ?_) ((hg.assignment s).bind hk)
  refine (hg.assignment s₁).bind fun e s₂ he => .finish_bind (hk _ s₂ ?_)
  exact (h₁.append he.fit.inside).covers_through rfl fun _ hc => hc

theorem arguments (hg : g.Covers) : ReadsAll g.arguments (·.map .expression) := by
  intro s
  refine .expect_bind fun s₁ h₁ => ?_
  refine .bind (Q := fun found s' => s₁.Inside s' (found.map .expression)) (.withReader ?_)
    fun found s₂ h => .expect_bind fun s₃ h₃ => .pure ((h₁.append h).pass h₃)
  refine .loop (I := fun before s' => s₁.Inside s' (before.map .expression)) (.refl s₁)
    fun before s₂ h => ?_
  refine .at_bind fun _ => .ite (fun _ => .pure (h.mono (by simp))) fun _ => .span_bind ?_
  refine hg.item_bind fun item s₃ hitem => ?_
  have hitems := h.append_fit hitem.fit
  exact .eat_ite (fun s₄ h₄ => .pure ((hitems.pass h₄).inside.mono (by simp [or_comm])))
    (.pure (hitems.inside.mono (by simp [or_comm])))

theorem computedName (hg : g.Covers) : ReadsAll g.computedName Key.nodes :=
  fun _ => .advance_bind fun s₁ h₁ _ => (hg.expressionIn s₁).bind fun _ _ he =>
    .expect_bind fun _ h₃ => .pure ((h₁.append he.fit.inside).pass h₃)

theorem memberName : ReadsAll Grammar.memberName Key.nodes := by
  intro s
  refine .peek_bind ?_
  split
  · exact .advance_bind fun s₁ h₁ _ => .pure h₁
  · exact .advance_bind fun s₁ h₁ _ => .pure h₁
  · exact .unexpected

theorem superRule (hg : g.Covers) : Reads g.superRule .expression := by
  intro s
  refine .advance_bind fun s₁ h₁ _ => .peek_bind ?_
  split
  · refine (hg.arguments s₁).bind fun found s₂ h => .finish_bind (.pure ?_)
    exact (h₁.append h.inside).covers_through rfl fun _ hc => hc
  · refine .advance_bind fun s₂ h₂ _ => (memberName s₂).bind fun key s₃ h => ?_
    split
    · exact .lastSpan_bind .fail
    · exact .finish_bind (.pure (((h₁.pass h₂).append h.inside).covers_through rfl fun _ hc => hc))
  · refine (hg.computedName s₁).bind fun key s₂ h => .finish_bind (.pure ?_)
    exact (h₁.append h.inside).covers_through rfl fun _ hc => hc
  · exact .fail

theorem taggedTemplate {tag : Expr} {chunks : List TemplateChunk} {substitutions : List (List Lexeme)}
    (hg : g.Covers) (htoken : (s.ahead 0).token = .template chunks substitutions)
    (h : s₀.Fit s [.expression tag]) :
    Ends s (g.taggedTemplate tag (s₀.ahead 0).span chunks substitutions)
      fun e s' => s₀.Covers s' (.expression e) := by
  refine .sound fun hs => .advance_bind fun s₁ h₁ _ => ?_
  refine (hg.templateParts hs htoken h₁).bind fun parts s₂ ⟨_, hparts⟩ => .finish_bind (.pure ?_)
  exact (h.append hparts.inside).covers_through rfl fun _ hc => hc

theorem arrayLiteral (hg : g.Covers) : Reads g.arrayLiteral .expression := by
  intro s
  refine .advance_bind fun s₁ h₁ _ => ?_
  refine .bind (Q := fun elements s' => s₁.Inside s' (elements.map .expression)) (.withReader ?_)
    fun elements s₂ h => .expect_bind fun s₃ h₃ => .finish_bind (.pure ?_)
  · refine .loop (I := fun before s' => s₁.Inside s' (before.map .expression)) (.refl s₁)
      fun before s₂ h => ?_
    refine .span_bind (.peek_bind ?_)
    split
    · exact .pure (h.mono (by simp))
    · refine .advance_bind fun s₃ h₃ hlast => .pure ?_
      have hhole : s₂.Covers s₃ (.expression (.mk (s₂.ahead 0).span .hole)) :=
        h₃.covers rfl (congrArg Span.stop hlast.symm) fun _ hc => hc
      exact (h.append hhole.fit.inside).mono (by simp [or_comm])
    · refine hg.item_bind fun item s₃ hitem => ?_
      have hitems := h.append_fit hitem.fit
      exact .eat_ite (fun s₄ h₄ => .pure ((hitems.pass h₄).inside.mono (by simp [or_comm])))
        (.pure (hitems.inside.mono (by simp [or_comm])))
  · exact ((h₁.append h).pass h₃).covers_through rfl fun _ hc => hc

theorem objectMember (hg : g.Covers) : ReadsAll g.objectMember Member.nodes := by
  intro s
  refine .span_bind ((methodModifiers_reads s).bind fun modifiers s₁ h₁ => .lexeme_bind ?_)
  refine (hg.propertyName false s₁).bind fun key s₂ hkey => .at_bind fun _ => ?_
  have hname : s.Fit s₂ key.nodes := h₁.append_fit hkey
  refine .ite (fun _ => ?_) fun _ => .ite (fun _ => .unexpected_bind) fun _ => ?_
  · have hstart : s.Fit s₂ [] := hname.mono nofun
    refine (hg.functionRest hstart.inside).bind fun f s₃ ⟨hf, hrest⟩ => .pure ?_
    exact (hname.pass hrest).reread (List.forall_mem_append.mpr
      ⟨(hname.pass hrest).nodes, List.forall_mem_singleton.mpr hf.within⟩)
  · refine .eat_ite (fun s₃ h₃ => ?_) ?_
    · exact (hg.assignment s₃).bind fun value s₄ hvalue => .pure ((hname.pass h₃).append hvalue.fit.inside)
    · split
      · rename_i name _ _
        refine .ite (fun _ => .unexpected_bind) fun _ => .read_bind fun m => ?_
        refine .ite (fun _ => .fail_bind) fun _ => .eat_ite (fun s₃ h₃ => ?_) (.pure ?_)
        · refine (hg.assignment s₃).bind fun value s₄ hvalue => .finish_bind (.pure ?_)
          have hfit : s.Fit s₄ [.expression value] := (hname.pass h₃).append_fit hvalue.fit
          have htarget : s.Covers s₄ (.pattern (.identifier name ((s.ahead 0).span.through s₄.last))) :=
            hfit.covers_through rfl nofun
          have hboth := htarget.fit.reread (List.forall_mem_cons.mpr ⟨htarget.within, hfit.nodes⟩)
          exact (hboth.fallback htarget.start hvalue.stop).fit
        · have hvalue := hkey.token_within (n := .expression (.mk (s₁.ahead 0).span (.identifier name))) rfl rfl
          exact hname.reread (List.forall_mem_append.mpr ⟨hname.nodes,
            List.forall_mem_singleton.mpr (hvalue.mono h₁.front_le le_rfl)⟩)
      · exact .unexpected

theorem objectLiteral (hg : g.Covers) : Reads g.objectLiteral .expression := by
  intro s
  refine .advance_bind fun s₁ h₁ _ => ?_
  refine .bind (Q := fun members s' => s₁.Inside s' (members.flatMap Member.nodes)) (.withReader ?_)
    fun members s₂ h => .expect_bind fun s₃ h₃ => .finish_bind (.pure ?_)
  · refine .loop (I := fun before s' => s₁.Inside s' (before.flatMap Member.nodes)) (.refl s₁)
      fun before s₂ h => ?_
    refine .at_bind fun _ => .ite (fun _ => .pure (h.mono (by simp))) fun _ => ?_
    extract_lets rest
    have hrest (member : Member) (s₃ : TokenStream)
        (h : s₁.Inside s₃ (before.flatMap Member.nodes ++ member.nodes)) : Ends s₃ (rest member) fun r s' =>
          r.elim (fun before => s₁.Inside s' (before.flatMap Member.nodes))
            fun members => s₁.Inside s' (members.flatMap Member.nodes) :=
      .eat_ite (fun s₄ h₄ => .pure ((h.pass h₄).mono (by simp [or_comm])))
        (.pure (h.mono (by simp [or_comm])))
    refine .eat_ite (fun s₃ h₃ => ?_) (hg.objectMember.next h hrest)
    exact hg.assignment.next (h.pass h₃) fun e => hrest (.spread e)
  · exact ((h₁.append h).pass h₃).covers_through rfl fun _ hc => hc

theorem wordExpression {name : String} (hg : g.Covers) :
    Ends s (g.wordExpression (s.ahead 0).span name) fun e s' => s.Covers s' (.expression e) := by
  have hliteral {node : ExprNode} (h : node.nodes = []) : Ends s (do
      let _ ← advance
      return Expr.mk (s.ahead 0).span node) fun e s' => s.Covers s' (.expression e) :=
    .advance_bind fun s₁ h₁ hlast =>
      .pure (h₁.covers rfl (congrArg Span.stop hlast.symm) fun _ hc => h ▸ hc)
  unfold Grammar.wordExpression
  dsimp only
  split
  · exact hliteral rfl
  · exact hliteral rfl
  · exact hliteral rfl
  · exact hliteral rfl
  · exact (hg.function (.refl s)).bind fun f s₁ h => .pure (h.wrap rfl rfl)
  · exact (hg.classRule s).bind fun c s₁ h => .pure (h.wrap rfl rfl)
  · exact .unsupported
  · refine .lexemeAt_bind (.ite (fun _ => .advance_bind fun s₁ h₁ _ => ?_) fun _ => ?_)
    · exact (hg.function h₁.inside).bind fun f s₂ h => .pure (h.wrap rfl rfl)
    · refine .ite (fun _ => .unexpected_bind) fun _ => .bindingName_bind fun name s₁ h₁ hlast => .pure ?_
      exact h₁.covers rfl (congrArg Span.stop hlast.symm) nofun

theorem primary (hg : g.Covers) : Reads g.primary .expression := by
  intro s
  refine .lexeme_bind ?_
  have hliteral {node : ExprNode} (h : node.nodes = []) : Ends s (do
      let _ ← advance
      return Expr.mk (s.ahead 0).span node) fun e s' => s.Covers s' (.expression e) :=
    .advance_bind fun s₁ h₁ hlast =>
      .pure (h₁.covers rfl (congrArg Span.stop hlast.symm) fun _ hc => h ▸ hc)
  dsimp only
  split
  · exact hliteral rfl
  · exact hliteral rfl
  · exact hliteral rfl
  · exact hliteral rfl
  · rename_i htoken
    refine .sound fun hs => .advance_bind fun s₁ h₁ hlast => .ite (fun _ => .fail_bind) fun _ => ?_
    refine (hg.templateParts hs htoken h₁).bind fun parts s₂ ⟨hsame, hparts⟩ => .pure ?_
    have hstop : s₂.back = (s.ahead 0).span.stop := hsame.back.trans (congrArg Span.stop hlast)
    exact hparts.covers rfl hstop.symm fun _ hc => hc
  · refine .advance_bind fun s₁ h₁ _ => (hg.expressionIn s₁).bind fun e s₂ he => ?_
    refine .expect_bind fun s₃ h₃ => .finish_bind (.pure ?_)
    have hchildren : s₁.Fit s₂ e.node.nodes := he.fit.reread fun n hn => he.within.child hn
    exact ((h₁.append_fit hchildren).pass h₃).covers_through rfl fun _ hc => hc
  · exact hg.arrayLiteral s
  · exact hg.objectLiteral s
  · exact hg.wordExpression
  · exact .unexpected

theorem chainHead {newRule : Parse Expr} (hg : g.Covers) (hnew : Reads newRule .expression) :
    Reads (g.chainHead newRule) .expression :=
  fun s => .atWord_bind fun _ => .ite (fun _ => hnew s) fun _ => .atWord_bind fun _ =>
    .ite (fun _ => hg.superRule s) fun _ => hg.primary s

theorem newRule (hg : g.Covers) (fuel : Nat) : Reads (g.newRule fuel) .expression := by
  induction fuel with
  | zero => exact fun _ => .stuck
  | succ fuel ih =>
    refine fun s => .advance_bind fun s₁ h₁ _ => .eat_ite (fun s₂ h₂ => ?_) ?_
    · refine .expectWord_bind fun s₃ h₃ => .read_bind fun m => .ite (fun _ => .fail_bind) fun _ => ?_
      exact .finish_bind (.pure (((h₁.pass h₂).pass h₃).covers_through rfl nofun))
    · refine (hg.chainHead ih s₁).bind fun head s₂ hhead => ?_
      refine .bind (Q := fun callee s' => s.Fit s' [.expression callee]) ?_ fun callee s₃ h => ?_
      · refine .loop (I := fun callee s' => s.Fit s' [.expression callee]) (h₁.append_fit hhead.fit)
          fun callee s₃ h => .peek_bind ?_
        split
        · refine .advance_bind fun s₄ h₄ _ => (memberName s₄).bind fun key s₅ hkey => ?_
          refine .finish_bind (.pure ?_)
          have hmember : s.Covers s₅ (.expression (.mk _ (.member callee key false))) :=
            ((h.pass h₄).append hkey.inside).covers_through rfl fun _ hc => hc
          exact hmember.fit
        · refine (hg.computedName s₃).bind fun key s₄ hkey => .finish_bind (.pure ?_)
          have hmember : s.Covers s₄ (.expression (.mk _ (.member callee key false))) :=
            (h.append hkey.inside).covers_through rfl fun _ hc => hc
          exact hmember.fit
        · rename_i htoken
          exact (hg.taggedTemplate htoken h).bind fun _ _ he => .pure he.fit
        · exact .span_bind .fail
        · exact .pure h
      · extract_lets rest
        have hrest (found : List Expr) (s₄ : TokenStream)
            (h : s.Fit s₄ (.expression callee :: found.map .expression)) :
            Ends s₄ (rest found) fun e s' => s.Covers s' (.expression e) :=
          .finish_bind (.pure (h.covers_through rfl fun _ hc => hc))
        refine .at_bind fun _ => .ite (fun _ => ?_) fun _ => hrest [] s₃ h
        exact (hg.arguments s₃).bind fun found s₄ hfound => hrest found s₄ (h.append hfound.inside)

theorem optionalLink {object : Expr} (hg : g.Covers) (h : s₀.Fit s [.expression object]) :
    Ends s (g.optionalLink object (s₀.ahead 0).span) fun e s' => s₀.Covers s' (.expression e) := by
  refine .peek_bind ?_
  split
  · refine (hg.arguments s).bind fun found s₁ hfound => .finish_bind (.pure ?_)
    exact (h.append hfound.inside).covers_through rfl fun _ hc => hc
  · refine (hg.computedName s).bind fun key s₁ hkey => .finish_bind (.pure ?_)
    exact (h.append hkey.inside).covers_through rfl fun _ hc => hc
  · refine (memberName s).bind fun key s₁ hkey => .finish_bind (.pure ?_)
    exact (h.append hkey.inside).covers_through rfl fun _ hc => hc

theorem leftHandSideRule (hg : g.Covers) : Reads g.leftHandSideRule .expression := by
  intro s
  refine .span_bind ((hg.chainHead (fun s₁ => .get_bind (hg.newRule _ s₁)) s).bind fun head s₁ hhead => ?_)
  refine .loop (I := fun r s' => s.Covers s' (.expression r.1)) hhead fun r s₂ h => .peek_bind ?_
  obtain ⟨e, inChain⟩ := r
  split
  · refine .advance_bind fun s₃ h₃ _ => (memberName s₃).bind fun key s₄ hkey => .finish_bind (.pure ?_)
    exact ((h.fit.pass h₃).append hkey.inside).covers_through rfl fun _ hc => hc
  · refine .advance_bind fun s₃ h₃ _ => ?_
    exact (hg.optionalLink (h.fit.pass h₃)).bind fun _ _ he => .pure he
  · refine (hg.computedName s₂).bind fun key s₃ hkey => .finish_bind (.pure ?_)
    exact (h.fit.append hkey.inside).covers_through rfl fun _ hc => hc
  · refine (hg.arguments s₂).bind fun found s₃ hfound => .finish_bind (.pure ?_)
    exact (h.fit.append hfound.inside).covers_through rfl fun _ hc => hc
  · rename_i htoken
    refine .ite (fun _ => .span_bind .fail_bind) fun _ => ?_
    exact (hg.taggedTemplate htoken h.fit).bind fun _ _ he => .pure he
  · refine .pure ?_
    cases inChain with
    | true => exact h.wrap rfl rfl
    | false => exact h

theorem unaryRule (hg : g.Covers) : Reads g.unaryRule .expression := by
  intro s
  refine .span_bind (.peek_bind ?_)
  split
  · refine .advance_bind fun s₁ h₁ _ => (hg.unary s₁).bind fun operand s₂ he => .finish_bind (.pure ?_)
    exact (h₁.append he.fit.inside).covers_through rfl fun _ hc => hc
  · refine .advance_bind fun s₁ h₁ _ => (hg.unary s₁).bind fun target s₂ he => ?_
    refine .ite (fun _ => .fail_bind) fun _ => .finish_bind (.pure ?_)
    exact (h₁.append he.fit.inside).covers_through rfl fun _ hc => hc
  · refine .awaitAllowed_bind fun _ => .ite (fun _ => ?_) fun _ => ?_
    · refine .advance_bind fun s₁ h₁ _ => .noteAwait_bind fun s₂ hsame => ?_
      refine (hg.unary s₂).bind fun operand s₃ he => .finish_bind (.pure ?_)
      exact ((h₁.same hsame).append he.fit.inside).covers_through rfl fun _ hc => hc
    · refine (hg.leftHandSide s).bind fun e s₁ he => .lexeme_bind ?_
      split
      · refine .ite (fun _ => .pure he) fun _ => .ite (fun _ => .fail_bind) fun _ => ?_
        refine .advance_bind fun s₂ h₂ _ => .finish_bind (.pure ?_)
        exact (he.fit.pass h₂).covers_through rfl fun _ hc => hc
      · exact .pure he

theorem firstOperand (hg : g.Covers) : Reads g.firstOperand .expression := by
  intro s
  refine .span_bind (.peek_bind ?_)
  split
  · refine .peekAt_bind (.ite (fun _ => ?_) fun _ => hg.unary s)
    refine .advance_bind fun s₁ h₁ _ => .advance_bind fun s₂ h₂ _ => ?_
    refine (hg.binary 8 s₂).bind fun object s₃ he => .finish_bind (.pure ?_)
    exact ((h₁.pass h₂).append he.fit.inside).covers_through rfl fun _ hc => hc
  · exact hg.unary s

theorem binaryRule (hg : g.Covers) (floor : Nat) : Reads (g.binaryRule floor) .expression := by
  intro s
  refine .span_bind (.at_bind fun _ => (hg.firstOperand s).bind fun first s₁ hfirst => ?_)
  refine .read_bind fun m => ?_
  refine .loop (I := fun left s' => s.Covers s' (.expression left)) hfirst fun left s₂ h => .peek_bind ?_
  split
  · exact .pure h
  · rename_i op _
    refine .ite (fun _ => .pure h) fun _ => .ite (fun _ => .span_bind .fail_bind) fun _ => ?_
    refine .advance_bind fun s₃ h₃ _ => (hg.binary _ s₃).bind fun right s₄ hright => .finish_bind (.pure ?_)
    refine ((h.fit.pass h₃).append hright.fit.inside).covers_through rfl fun c hc => ?_
    cases op <;> exact hc

theorem conditional (hg : g.Covers) : Reads g.conditional .expression := by
  intro s
  refine .span_bind ((hg.binary 0 s).bind fun test s₁ htest => ?_)
  refine .eat_not_ite (fun s₂ h₂ => ?_) (.pure htest)
  refine (hg.assignmentIn s₂).bind fun consequent s₃ hconsequent => .expect_bind fun s₄ h₄ => ?_
  refine (hg.assignment s₄).bind fun alternate s₅ halternate => .finish_bind (.pure ?_)
  have hparts := (((htest.fit.pass h₂).append_fit hconsequent.fit).pass h₄).append_fit halternate.fit
  exact hparts.covers_through rfl fun _ hc => hc

theorem yieldRule (hg : g.Covers) : Reads g.yieldRule .expression := by
  intro s
  refine .advance_bind fun s₁ h₁ _ => ?_
  refine .bind (Q := fun _ s' => s.Fit s' []) (.eat (fun s₂ h₂ => h₁.pass h₂) h₁) fun delegate s₂ h₂ => ?_
  extract_lets rest
  have hrest (operand : Option Expr) (s₃ : TokenStream) (h : s.Fit s₃ (operand.toList.map .expression)) :
      Ends s₃ (rest operand) fun e s' => s.Covers s' (.expression e) :=
    .finish_bind (.pure (h.covers_through rfl fun _ hc => hc))
  refine .lexeme_bind (.ite (fun _ => hrest none s₂ h₂) fun _ => ?_)
  exact (hg.assignment s₂).bind fun e s₃ he => hrest (some e) s₃ (h₂.append he.fit.inside)

theorem assignmentRule (hg : g.Covers) : Reads g.assignmentRule .expression := by
  intro s
  refine .get_bind (.ofExcept_bind fun ahead _ => ?_)
  split
  · exact hg.arrow s
  · refine .read_bind fun m => .atWord_bind fun _ => .ite (fun _ => hg.yieldRule s) fun _ => ?_
    refine .span_bind ((hg.conditional s).bind fun left s₁ hleft => .peek_bind ?_)
    split
    · refine .advance_bind fun s₂ h₂ _ => .ofExcept_bind fun target htarget => ?_
      refine (hg.assignment s₂).bind fun value s₃ hvalue => .finish_bind (.pure ?_)
      have hboth : (Node.pattern (.fallback target value)).Within s.front s₃.back :=
        (Expr.within_toPattern htarget hleft.within).fallback
          (hvalue.within.mono (hleft.fit.back_le_front h₂) le_rfl)
      have hfit := (hleft.fit.pass h₂).append_fit hvalue.fit
      exact (hfit.reread (List.forall_mem_singleton.mpr hboth)).covers_through rfl fun _ hc => hc
    · refine .ite (fun _ => .fail_bind) fun _ => .advance_bind fun s₂ h₂ _ => ?_
      refine (hg.assignment s₂).bind fun value s₃ hvalue => .finish_bind (.pure ?_)
      exact ((hleft.fit.pass h₂).append hvalue.fit.inside).covers_through rfl fun _ hc => hc
    · exact .pure hleft

end Grammar.Covers
end EcmaScript

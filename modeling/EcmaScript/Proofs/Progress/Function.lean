import EcmaScript.Proofs.Progress.Rules

/-! Binding patterns, functions, methods and classes get on, and so do expressions that are read again as
assignment targets. -/
namespace EcmaScript
open Parse TokenStream

theorem Except.bind_ne_error {ε α β : Type} {x : Except ε α} {k : α → Except ε β} {e : ε}
    (hx : x ≠ .error e) (hk : ∀ a, k a ≠ .error e) : (x >>= k) ≠ .error e := by
  cases x with
  | ok a => exact hk a
  | error e' =>
    intro h
    cases h
    exact hx rfl

/-! Reading an expression again follows its tree. -/

mutual

theorem Expr.toPattern_ne_stuck (e : Expr) : e.toPattern ≠ .error .stuck := by
  obtain ⟨span, node⟩ := e
  exact ExprNode.toPattern_ne_stuck span node
termination_by structural e

theorem ExprNode.toPattern_ne_stuck (span : Span) (node : ExprNode) :
    node.toPattern span ≠ .error .stuck := by
  cases node with
  | member _ _ optional => cases optional <;> exact nofun
  | array elements => exact Except.bind_ne_error (Expr.toPatterns_ne_stuck elements) fun _ => nofun
  | object members => exact Except.bind_ne_error (Member.toPatterns_ne_stuck members) fun _ => nofun
  | _ => exact nofun
termination_by structural node

theorem Expr.toPatterns_ne_stuck (es : List Expr) : Expr.toPatterns es ≠ .error .stuck := by
  match es with
  | [] => exact nofun
  | e :: rest =>
    refine Except.bind_ne_error (Expr.toElement_ne_stuck e rest.isEmpty) fun _ => ?_
    exact Except.bind_ne_error (Expr.toPatterns_ne_stuck rest) fun _ => nofun
termination_by structural es

theorem Expr.toElement_ne_stuck (e : Expr) (isLast : Bool) : e.toElement isLast ≠ .error .stuck := by
  obtain ⟨span, node⟩ := e
  cases node with
  | hole => exact nofun
  | spread inner =>
    cases isLast with
    | true => exact Except.bind_ne_error (Expr.toPattern_ne_stuck inner) fun _ => nofun
    | false => exact nofun
  | _ => exact ExprNode.toPattern_ne_stuck span _
termination_by structural e

theorem Member.toPatterns_ne_stuck (ms : List Member) : Member.toPatterns ms ≠ .error .stuck := by
  match ms with
  | [] => exact nofun
  | m :: rest =>
    refine Except.bind_ne_error (Member.toPattern_ne_stuck m) fun _ => ?_
    exact Except.bind_ne_error (Member.toPatterns_ne_stuck rest) fun _ => nofun
termination_by structural ms

theorem Member.toPattern_ne_stuck (m : Member) : m.toPattern ≠ .error .stuck := by
  cases m with
  | property _ value | spread value =>
    exact Except.bind_ne_error (Expr.toPattern_ne_stuck value) fun _ => nofun
  | _ => exact nofun
termination_by structural m

end

namespace Grammar
variable {g : Grammar} {s s₁ : TokenStream}

/-! Looking ahead for an arrow ends at the latest at the end of input. -/

theorem closing_ne_stuck (hs : s.Closed) {fuel i : Nat} (depth : Nat) (hfuel : 0 < fuel)
    (hi : s.tokens.size ≤ s.pos + i + fuel) : closing s fuel i depth ≠ .error .stuck := by
  induction fuel generalizing i depth with
  | zero => cases hfuel
  | succ fuel ih =>
    have hnext (depth : Nat) (htoken : (s.ahead i).token ≠ .endOfInput) :
        closing s fuel (i + 1) depth ≠ .error .stuck := by
      have hlt : s.pos + i + 1 < s.tokens.size := by
        by_contra hge
        exact htoken (hs.ahead_last (by omega))
      exact ih depth (by omega) (by omega)
    have hclose (htoken : (s.ahead i).token ≠ .endOfInput) :
        (if depth ≤ 1 then return some (i + 1) else closing s fuel (i + 1) (depth - 1) :
          Except ReadError (Option Nat)) ≠ .error .stuck := by
      split
      · exact nofun
      · exact hnext _ htoken
    rw [closing]
    split
    · next h => exact hnext _ (h ▸ nofun)
    · next h => exact hnext _ (h ▸ nofun)
    · next h => exact hnext _ (h ▸ nofun)
    · next h => exact hclose (h ▸ nofun)
    · next h => exact hclose (h ▸ nofun)
    · next h => exact hclose (h ▸ nofun)
    · exact nofun
    · next h => exact hnext _ h

theorem arrowAhead?_ne_stuck (hs : s.Closed) : arrowAhead? s ≠ .error .stuck := by
  unfold arrowAhead?
  extract_lets arrowAt sameLine parens plain
  have hparens (i : Nat) (isAsync : Bool) : parens i isAsync ≠ .error .stuck := by
    refine Except.bind_ne_error (closing_ne_stuck hs 0 (Nat.succ_pos _) (by omega)) fun r => ?_
    cases r <;> exact nofun
  have hplain : plain ≠ .error .stuck := by
    simp only [plain]
    split
    · exact nofun
    · exact hparens 0 false
    · exact nofun
  split
  · split
    · split
      · exact nofun
      · exact hplain
    · exact hparens 1 true
    · exact hplain
  · exact hplain

/-! Names of properties and binding patterns. -/

theorem assignmentIn_passes (hg : g.Open s 4) : Passes s (withIn g.assignment) :=
  Goes.withReader hg.assignment

theorem propertyName_passes {allowPrivate : Bool} (hg : g.Open s 0) :
    Passes s (g.propertyName allowPrivate) := by
  have hfixed {key : Key} (h : s.More) : Passes s (do
      let _ ← advance
      return key) := (advance_passes h).bind fun _ _ _ => .pure
  refine .lexeme_bind ?_
  split
  · next h => exact hfixed (.of_eq h nofun)
  · next h => exact hfixed (.of_eq h nofun)
  · next h => exact hfixed (.of_eq h nofun)
  · next h => exact hfixed (.of_eq h nofun)
  · next h =>
    exact .ite (fun _ => .unexpected_bind) fun _ => .ite (fun _ => .fail_bind) fun _ =>
      hfixed (.of_eq h nofun)
  · next h =>
    refine (advance_passes (.of_eq h nofun)).bind fun _ s₁ h₁ => ?_
    exact (assignmentIn_passes (hg.past h₁)).bind fun _ _ _ => expect_passes.bind fun _ _ _ => .pure
  · exact .unexpected

theorem bindingTarget_passes (hg : g.Open s 1) : Passes s g.bindingTarget := by
  refine hg.binding.bind fun target s₁ h₁ => eat_tries.ite (fun s₂ h₂ => ?_) Walks.pure
  exact (assignmentIn_passes (hg.past (h₁.trans_to h₂.to))).bind fun _ _ _ => .pure

theorem bindingPattern_passes : Passes s g.bindingName := bindingName_passes.bind fun _ _ _ => .pure

theorem arrayBinding_walks (hg : g.Open s 1) : Walks s g.arrayBinding := by
  refine loop_walks fun before s₁ h₁ => .peek_bind ?_
  split
  · exact .pure nofun
  · next h => exact (advance_passes (.of_eq h nofun)).bind fun _ _ _ => .pure
  · refine advance_walks.bind fun _ s₂ h₂ => ?_
    exact (hg.later (h₁.trans h₂)).binding.bind fun _ _ _ => .pure
  · refine (bindingTarget_passes (hg.later h₁)).bind fun element s₂ _ => ?_
    exact eat_tries.ite (fun _ _ => .pure) Walks.pure

theorem propertyBinding_passes (hg : g.Open s 0) : Passes s g.propertyBinding := by
  refine .lexeme_bind ((propertyName_passes hg).bind fun key s₁ h₁ => eat_tries.ite (fun s₂ h₂ => ?_) ?_)
  · exact (bindingTarget_passes (hg.past (h₁.trans_to h₂.to))).bind fun _ _ _ => .pure
  · split
    · refine .ite (fun _ => .fail_bind) fun _ => eat_tries.ite (fun s₂ h₂ => ?_) Walks.pure
      exact (assignmentIn_passes (hg.past (h₁.trans_to h₂.to))).bind fun _ _ _ => .pure
    · exact .fail

theorem objectBinding_walks (hg : g.Open s 0) : Walks s g.objectBinding := by
  refine loop_walks fun before s₁ h₁ => .at_bind fun _ _ => .ite (fun _ => .pure nofun) fun _ => ?_
  refine eat_tries.ite (fun s₂ h₂ => (bindingPattern_passes).bind fun _ _ _ => .pure) ?_
  refine (propertyBinding_passes (hg.later h₁)).bind fun property s₂ _ => ?_
  exact eat_tries.ite (fun _ _ => .pure) Walks.pure

theorem bindingRule_passes (hg : g.Open s 0) : Passes s g.bindingRule := by
  refine .span_bind (.peek_bind ?_)
  split
  · next h =>
    refine (advance_passes (.of_eq h nofun)).bind fun _ s₁ h₁ => ?_
    refine (arrayBinding_walks (hg.past h₁)).bind fun _ _ _ => expect_passes.bind fun _ _ _ => ?_
    exact .finish_bind Walks.pure
  · next h =>
    refine (advance_passes (.of_eq h nofun)).bind fun _ s₁ h₁ => ?_
    refine (objectBinding_walks (hg.past h₁)).bind fun _ _ _ => expect_passes.bind fun _ _ _ => ?_
    exact .finish_bind Walks.pure
  · exact bindingPattern_passes

/-! Functions. -/

theorem statementsToBrace_walks (hg : g.Open s 5) : Walks s g.statementsToBrace := by
  refine loop_walks fun before s₁ h₁ => .peek_bind ?_
  split
  · exact advance_walks.bind fun _ _ _ => .pure nofun
  · exact .unexpected
  · exact (hg.later h₁).statement.bind fun _ _ _ => .pure

theorem block_passes (hg : g.Open s 0) : Passes s g.block :=
  expect_passes.bind fun _ _ h₁ => statementsToBrace_walks (hg.past h₁)

theorem params_passes (hg : g.Open s 0) : Passes s g.params := by
  refine expect_passes.bind fun _ s₁ h₁ => Walks.bind (loop_walks fun before s₂ h₂ => ?_) fun _ _ _ =>
    expect_passes.bind fun _ _ _ => .pure
  have hg₂ {k : Nat} : g.Open s₂ k := hg.past (h₁.trans_to h₂)
  refine .at_bind fun _ _ => .ite (fun _ => .pure nofun) fun _ => eat_tries.ite (fun s₃ h₃ => ?_) ?_
  · refine (hg₂.later h₃.to).binding.bind fun _ _ _ => .at_bind fun _ _ => ?_
    refine .ite (fun _ => ?_) fun _ => Walks.pure
    exact .span_bind .fail_bind
  · exact (bindingTarget_passes hg₂).bind fun _ _ _ => eat_tries.ite (fun _ _ => .pure) Walks.pure

theorem checkParams_walks {kind : FunctionKind} {found : List Pattern} :
    Walks s (checkParams kind found) := by
  unfold checkParams
  split
  · exact .pure
  · exact .lastSpan_bind .fail
  · exact .lastSpan_bind .fail
  · exact .pure
  · exact .lastSpan_bind .fail
  · exact .pure

theorem functionRest_passes {start : Span} {name : Option String} {kind : FunctionKind}
    {isAsync isGenerator : Bool} (hg : g.Open s 0) :
    Passes s (g.functionRest start name kind isAsync isGenerator) := by
  have hparts : Passes s (inFunction isAsync isGenerator <| withIn do
      let found ← g.params
      checkParams kind found
      return (found, ← g.block)) := by
    refine Goes.withReader (Goes.withReader ((params_passes hg).bind fun _ s₁ h₁ => ?_))
    refine (checkParams_walks).bind fun _ s₂ h₂ => ?_
    exact (block_passes (hg.past (h₁.trans_to h₂))).bind fun _ _ _ => .pure
  exact hparts.bind fun _ _ _ => .finish_bind Walks.pure

theorem function_passes {start : Span} {isAsync isDeclaration : Bool} (hg : g.Open s 0) :
    Passes s (g.function start isAsync isDeclaration) := by
  refine expectWord_passes.bind fun _ s₁ h₁ => eat_tries.walks.bind fun _ s₂ h₂ => .peek_bind ?_
  have hg₂ : g.Open s₂ 0 := hg.past (h₁.trans_to h₂)
  split
  · exact bindingName_passes.bind fun _ s₃ h₃ => (functionRest_passes (hg₂.past h₃)).walks
  · exact .ite (fun _ => .unexpected_bind) fun _ => (functionRest_passes hg₂).walks

theorem arrow_passes {isAsync : Bool} (hg : g.Open s 0) : Passes s (g.arrow isAsync) := by
  refine .span_bind ?_
  extract_lets body rest
  have hbody (found : List Pattern) (s₁ : TokenStream) (hg₁ : g.Open s₁ 0) : Walks s₁ (body found) := by
    refine .lexeme_bind (.ite (fun _ => .unexpected_bind) fun _ => expect_passes.bind fun _ s₂ h₂ => ?_)
    refine .at_bind fun _ _ => .ite (fun _ => ?_) fun _ => ?_
    · exact Passes.bind (Goes.withReader (block_passes (hg₁.past h₂))) fun _ _ _ => .pure
    · exact (hg₁.past h₂).assignment.bind fun _ _ _ => .pure
  have hrest (s₁ : TokenStream) (h₁ : s.To s₁) : Passes s₁ (rest ()) := by
    refine Passes.bind (Goes.withReader (.at_bind fun _ _ => .ite (fun _ => ?_) fun _ => ?_))
      fun _ _ _ => .finish_bind Walks.pure
    · exact (params_passes (hg.later h₁)).bind fun _ s₂ h₂ => hbody _ s₂ ((hg.later h₁).past h₂)
    · exact bindingName_passes.bind fun _ s₂ h₂ => hbody _ s₂ ((hg.later h₁).past h₂)
  exact .ite (fun _ => advance_walks.bind fun _ s₁ h₁ => hrest s₁ h₁) fun _ => hrest s (.refl s)

/-! Methods and classes. -/

theorem methodModifiers_walks : Walks s methodModifiers := by
  refine .lexemeAt_bind ?_
  extract_lets rest
  have hrest (isAsync : Bool) (s₁ : TokenStream) : Walks s₁ (rest isAsync) := by
    refine eat_tries.walks.bind fun _ s₂ _ => .peekAt_bind (.ite (fun _ => ?_) fun _ => Walks.pure)
    exact eatWord_tries.ite (fun _ _ => .pure) (eatWord_tries.ite (fun _ _ => .pure) Walks.pure)
  exact .atWord_bind fun _ _ => .ite (fun _ => advance_walks.bind fun _ s₁ _ => hrest true s₁)
    fun _ => hrest false s

theorem classMethod_passes {draft : ClassDraft} {derived isStatic : Bool} {memberStart start : Span}
    {modifiers : MethodModifiers} {key : Key} (hg : g.Open s 0) :
    Passes s (g.classMethod draft derived isStatic memberStart start modifiers key) := by
  refine .ite (fun _ => .ite (fun _ => .fail_bind) fun _ => .ite (fun _ => .fail_bind) fun _ => ?_)
    fun _ => ?_
  · exact (functionRest_passes hg).bind fun _ _ _ => .pure
  · exact (functionRest_passes hg).bind fun _ _ _ => .pure

theorem fieldInitializer_walks (hg : g.Open s 0) : Walks s g.fieldInitializer := by
  refine eat_tries.not_ite (fun s₁ h₁ => .span_bind ?_) Walks.pure
  exact Passes.bind (Goes.withReader (hg.past h₁).assignment) fun _ _ _ => .finish_bind Walks.pure

theorem classMember_passes {draft : ClassDraft} {derived : Bool} (hg : g.Open s 0) :
    Passes s (g.classMember draft derived) := by
  refine .span_bind ?_
  extract_lets rest
  have hrest (isStatic : Bool) (s₁ : TokenStream) (h₁ : s.To s₁) : Passes s₁ (rest isStatic) := by
    have hg₁ : g.Open s₁ 0 := hg.later h₁
    refine .at_bind fun _ _ => .ite (fun _ => .span_bind ?_) fun _ => .span_bind ?_
    · exact Passes.bind (Goes.withReader (block_passes hg₁)) fun _ _ _ => .finish_bind Walks.pure
    · refine (methodModifiers_walks).bind fun _ s₂ h₂ => ?_
      refine (propertyName_passes (hg₁.later h₂)).bind fun _ s₃ h₃ => .at_bind fun _ _ => ?_
      have hg₃ : g.Open s₃ 0 := (hg₁.later h₂).past h₃
      refine .ite (fun _ => (classMethod_passes hg₃).walks) fun _ => .ite (fun _ => .unexpected_bind) fun _ =>
        .ite (fun _ => .fail_bind) fun _ => ?_
      exact (fieldInitializer_walks hg₃).bind fun _ _ _ => semicolon_walks.bind fun _ _ _ =>
        .finish_bind Walks.pure
  refine .atWord_bind fun _ _ => .ite (fun _ => .peekAt_bind ?_) fun _ => .pure_bind (hrest false s (.refl s))
  split
  · exact .pure_bind (hrest false s (.refl s))
  · exact .pure_bind (hrest false s (.refl s))
  · exact .pure_bind (hrest false s (.refl s))
  · exact .pure_bind (hrest false s (.refl s))
  · exact advance_walks.bind fun _ s₁ h₁ => .pure_bind (hrest true s₁ h₁)

theorem classRule_passes {isDeclaration : Bool} (hg : g.Open s 0) : Passes s (g.classRule isDeclaration) := by
  refine expectWord_passes.bind fun start s₁ h₁ => ?_
  extract_lets named
  have hbody (name : Option String) (heritage : Option Expr) (s₂ : TokenStream) (hg₂ : g.Open s₂ 0) :
      Walks s₂ (do
        let _ ← expect .lBrace
        let draft ← withIn <| loop ({} : ClassDraft) fun draft => do
          if ← eat .rBrace then return .inr draft
          if ← eat .semicolon then return .inl draft
          return .inl (← g.classMember draft heritage.isSome)
        return ClassNode.mk name heritage draft.constructor draft.elements.reverse
          (← finish start)) := by
    refine expect_passes.bind fun _ s₃ h₃ => Walks.bind (Goes.withReader (loop_walks fun _ s₄ h₄ => ?_))
      fun _ _ _ => .finish_bind Walks.pure
    refine eat_tries.ite (fun _ _ => .pure) (eat_tries.ite (fun _ _ => .pure) ?_)
    exact (classMember_passes (hg₂.past (h₃.trans_to h₄))).bind fun _ _ _ => .pure
  have hnamed (name : Option String) (s₂ : TokenStream) (hg₂ : g.Open s₂ 0) : Walks s₂ (named name) := by
    refine eatWord_tries.ite (fun s₃ h₃ => ?_) (hbody name none s₂ hg₂)
    exact (hg₂.past h₃).leftHandSide.bind fun e s₄ h₄ => hbody name (some e) s₄ (hg₂.past (h₃.trans_to h₄.to))
  refine .peek_bind ?_
  split
  · refine .ite (fun _ => bindingName_passes.bind fun _ s₂ h₂ => ?_) fun _ => ?_
    · exact hnamed _ s₂ (hg.past (h₁.trans_to h₂.to))
    · exact .ite (fun _ => .unexpected_bind) fun _ => hnamed none s₁ (hg.past h₁)
  · exact .ite (fun _ => .unexpected_bind) fun _ => hnamed none s₁ (hg.past h₁)

end Grammar
end EcmaScript

import EcmaScript.Parser.Function
import EcmaScript.Proofs.Extent.Rules

/-! Where binding patterns, functions, methods and classes are, and expressions read again as assignment
targets. -/
namespace EcmaScript
open Parse TokenStream

variable {lo mid hi : Nat}

theorem Node.Within.fallback {target : Pattern} {value : Expr} (ht : (Node.pattern target).Within lo mid)
    (hv : (Node.expression value).Within mid hi) :
    (Node.pattern (.fallback target value)).Within lo hi := by
  have ⟨htlo, htmid, htn⟩ := ht
  have ⟨hvmid, hvhi, hvn⟩ := hv
  have htle := htn.le
  have hvle := hvn.le
  have hstart : (Node.pattern (.fallback target value)).span.start = (Node.pattern target).span.start := rfl
  have hstop : (Node.pattern (.fallback target value)).span.stop = (Node.expression value).span.stop :=
    Nat.max_eq_left (show (Node.pattern target).span.start ≤ (Node.expression value).span.stop by omega)
  refine ⟨by omega, by omega, .of_within (by omega) fun c hc => ?_⟩
  rw [hstart, hstop]
  simp only [Node.children, List.mem_cons, List.not_mem_nil, or_false] at hc
  obtain rfl | rfl := hc
  · exact ⟨le_rfl, by omega, htn⟩
  · exact ⟨by omega, le_rfl, hvn⟩

theorem TokenStream.Fit.fallback {s s₁ : TokenStream} {target : Pattern} {value : Expr}
    (h : s.Fit s₁ [.pattern target, .expression value]) (hstart : target.span.start = s.front)
    (hstop : value.span.stop = s₁.back) : s.Covers s₁ (.pattern (.fallback target value)) := by
  have hle : target.span.start ≤ value.span.stop := by
    rw [hstart, hstop]
    exact h.front_le
  exact h.covers hstart ((Nat.max_eq_left hle).trans hstop) fun _ hc => hc

theorem Node.Within.of_mem_nodes {t : Pattern} {n : Node} (h : (Node.pattern t).Within lo hi)
    (hn : n ∈ t.nodes) : n.Within lo hi := by
  cases t with
  | hole => cases hn
  | rest | property => exact h.child hn
  | identifier | place | array | object | fallback =>
    obtain rfl := List.mem_singleton.mp hn
    exact h

/-! An expression read again is where it was. -/

theorem ExprNode.nodes_toPattern {span : Span} {node : ExprNode} {t : Pattern}
    (h : node.toPattern span = .ok t) : t.nodes = [.pattern t] := by
  cases node with
  | identifier | superMember | assign =>
    cases h
    rfl
  | member _ _ optional =>
    cases optional with
    | false =>
      cases h
      rfl
    | true => cases h
  | array | object =>
    obtain ⟨ts, -, h⟩ := Except.bind_eq_ok.mp h
    cases h
    rfl
  | _ => cases h

mutual

theorem Expr.within_toPattern {lo hi : Nat} {e : Expr} {t : Pattern} (h : e.toPattern = .ok t)
    (he : (Node.expression e).Within lo hi) : (Node.pattern t).Within lo hi := by
  obtain ⟨span, node⟩ := e
  exact ExprNode.within_toPattern h he
termination_by structural e

theorem ExprNode.within_toPattern {lo hi : Nat} {span : Span} {node : ExprNode} {t : Pattern}
    (h : node.toPattern span = .ok t) (he : (Node.expression (.mk span node)).Within lo hi) :
    (Node.pattern t).Within lo hi := by
  cases node with
  | identifier =>
    cases h
    exact he.of_span rfl nofun
  | superMember =>
    cases h
    refine he.of_span rfl fun c hc => ?_
    obtain rfl := List.mem_singleton.mp hc
    exact ⟨le_rfl, le_rfl, he.nests⟩
  | assign target value =>
    cases h
    exact he.child (List.mem_singleton_self _)
  | member _ _ optional =>
    cases optional with
    | false =>
      cases h
      refine he.of_span rfl fun c hc => ?_
      obtain rfl := List.mem_singleton.mp hc
      exact ⟨le_rfl, le_rfl, he.nests⟩
    | true => cases h
  | array elements =>
    obtain ⟨ts, hts, h⟩ := Except.bind_eq_ok.mp h
    cases h
    exact he.of_span rfl fun c hc => Expr.within_toPatterns hts
      (fun e hmem => he.nests.within (List.mem_map_of_mem hmem)) c hc
  | object members =>
    obtain ⟨ts, hts, h⟩ := Except.bind_eq_ok.mp h
    cases h
    exact he.of_span rfl fun c hc => Member.within_toPatterns hts (fun n hn => he.nests.within hn) c hc
  | _ => cases h
termination_by structural node

theorem Expr.within_toPatterns {lo hi : Nat} {es : List Expr} {ts : List Pattern}
    (h : Expr.toPatterns es = .ok ts) (hes : ∀ e ∈ es, (Node.expression e).Within lo hi) :
    ∀ n ∈ ts.flatMap Pattern.nodes, n.Within lo hi := by
  match es with
  | [] =>
    cases h
    exact nofun
  | e :: rest =>
    obtain ⟨first, hfirst, h⟩ := Except.bind_eq_ok.mp h
    obtain ⟨others, hothers, h⟩ := Except.bind_eq_ok.mp h
    cases h
    have ⟨he, hrest⟩ := List.forall_mem_cons.mp hes
    intro n hn
    rw [List.flatMap_cons] at hn
    obtain hn | hn := List.mem_append.mp hn
    · exact Expr.within_toElement hfirst he n hn
    · exact Expr.within_toPatterns hothers hrest n hn
termination_by structural es

theorem Expr.within_toElement {lo hi : Nat} {e : Expr} {isLast : Bool} {t : Pattern}
    (h : e.toElement isLast = .ok t) (he : (Node.expression e).Within lo hi) :
    ∀ n ∈ t.nodes, n.Within lo hi := by
  obtain ⟨span, node⟩ := e
  cases node with
  | hole =>
    cases h
    exact nofun
  | spread inner =>
    cases isLast with
    | true =>
      obtain ⟨target, htarget, h⟩ := Except.bind_eq_ok.mp h
      cases h
      intro n hn
      obtain rfl := List.mem_singleton.mp hn
      exact Expr.within_toPattern htarget (he.child (List.mem_singleton_self _))
    | false => cases h
  | _ =>
    intro n hn
    rw [@ExprNode.nodes_toPattern span _ t h] at hn
    obtain rfl := List.mem_singleton.mp hn
    exact @ExprNode.within_toPattern lo hi span _ t h he
termination_by structural e

theorem Member.within_toPatterns {lo hi : Nat} {ms : List Member} {ts : List Pattern}
    (h : Member.toPatterns ms = .ok ts) (hms : ∀ n ∈ ms.flatMap Member.nodes, n.Within lo hi) :
    ∀ n ∈ ts.flatMap Pattern.nodes, n.Within lo hi := by
  match ms with
  | [] =>
    cases h
    exact nofun
  | m :: rest =>
    obtain ⟨first, hfirst, h⟩ := Except.bind_eq_ok.mp h
    obtain ⟨others, hothers, h⟩ := Except.bind_eq_ok.mp h
    cases h
    rw [List.flatMap_cons] at hms
    have ⟨hm, hrest⟩ := List.forall_mem_append.mp hms
    intro n hn
    rw [List.flatMap_cons] at hn
    obtain hn | hn := List.mem_append.mp hn
    · exact Member.within_toPattern hfirst hm n hn
    · exact Member.within_toPatterns hothers hrest n hn
termination_by structural ms

theorem Member.within_toPattern {lo hi : Nat} {m : Member} {t : Pattern} (h : m.toPattern = .ok t)
    (hm : ∀ n ∈ m.nodes, n.Within lo hi) : ∀ n ∈ t.nodes, n.Within lo hi := by
  cases m with
  | property key value =>
    obtain ⟨target, htarget, h⟩ := Except.bind_eq_ok.mp h
    cases h
    have ⟨hkey, hvalue⟩ := List.forall_mem_append.mp hm
    refine List.forall_mem_append.mpr ⟨hkey, fun n hn => ?_⟩
    obtain rfl := List.mem_singleton.mp hn
    exact Expr.within_toPattern htarget (hvalue _ (List.mem_singleton_self _))
  | spread value =>
    obtain ⟨target, htarget, h⟩ := Except.bind_eq_ok.mp h
    cases h
    intro n hn
    obtain rfl := List.mem_singleton.mp hn
    exact Expr.within_toPattern htarget (hm _ (List.mem_singleton_self _))
  | initialized =>
    cases h
    exact hm
  | _ => cases h
termination_by structural m

end

theorem Parse.Reads.nodes {x : Parse Pattern} (hx : Reads x .pattern) : ReadsAll x Pattern.nodes :=
  fun s => (hx s).mono fun _ _ h => h.fit.reread fun _ hn => h.within.of_mem_nodes hn

namespace Grammar.Covers
variable {g : Grammar}

theorem assignmentIn (hg : g.Covers) : Reads (withIn g.assignment) .expression := hg.assignment.withReader

theorem propertyName (hg : g.Covers) (allowPrivate : Bool) :
    ReadsAll (g.propertyName allowPrivate) Key.nodes := by
  intro s
  have hfixed {key : Key} (hk : key.nodes = []) : Ends s (do
      let _ ← advance
      return key) fun key s' => s.Fit s' key.nodes :=
    .advance_bind fun s₁ h₁ _ => .pure (hk ▸ h₁)
  refine .lexeme_bind ?_
  split
  · exact hfixed rfl
  · exact hfixed rfl
  · exact hfixed rfl
  · exact hfixed rfl
  · exact .ite (fun _ => .unexpected_bind) fun _ => .ite (fun _ => .fail_bind) fun _ => hfixed rfl
  · refine .advance_bind fun s₁ h₁ _ => hg.assignmentIn.next (.refl s₁) fun e s₂ h => ?_
    exact .expect_bind fun s₃ h₃ => .pure (h₁.append (h.pass h₃))
  · exact .unexpected

theorem bindingTarget (hg : g.Covers) : Reads g.bindingTarget .pattern := by
  intro s
  refine (hg.binding s).bind fun target s₁ htarget => .eat_ite (fun s₂ h₂ => ?_) (.pure htarget)
  refine (hg.assignmentIn s₂).bind fun value s₃ hvalue => .pure ?_
  exact ((htarget.fit.pass h₂).append hvalue.fit.inside).fallback htarget.start hvalue.stop

theorem bindingName : Reads g.bindingName .pattern :=
  fun _ => .bindingName_bind fun _ _ h hlast => .pure (h.covers rfl (congrArg Span.stop hlast.symm) nofun)

theorem arrayBinding (hg : g.Covers) : MayRead g.arrayBinding (·.flatMap Pattern.nodes) := by
  intro s
  refine .loop (I := fun before s₁ => s.Inside s₁ (before.flatMap Pattern.nodes)) (.refl s)
    fun before s₁ h => ?_
  refine .peek_bind ?_
  split
  · exact .pure (h.mono (by simp))
  · exact .advance_bind fun s₂ h₂ _ => .pure ((h.pass h₂).mono (by simp [Pattern.nodes]))
  · refine .advance_bind fun s₂ h₂ _ => hg.binding.next (h.pass h₂) fun target s₃ h => ?_
    exact .pure (h.mono (by simp [Pattern.nodes]))
  · refine hg.bindingTarget.nodes.next h fun element s₂ h => ?_
    exact .eat_ite (fun s₃ h₃ => .pure ((h.pass h₃).mono (by simp [or_comm]))) (.pure (h.mono (by simp)))

theorem propertyBinding (hg : g.Covers) : ReadsAll g.propertyBinding Pattern.nodes := by
  intro s
  refine .lexeme_bind ((hg.propertyName false s).bind fun key s₁ hkey => .eat_ite (fun s₂ h₂ => ?_) ?_)
  · exact hg.bindingTarget.next (.refl s₂) fun target s₃ h => .pure ((hkey.pass h₂).append h)
  · split
    · rename_i name _ _
      have htarget : (Node.pattern (.identifier name (s.ahead 0).span)).Within s.front s₁.back :=
        hkey.token_within rfl rfl
      refine .ite (fun _ => .fail_bind) fun _ => .eat_ite (fun s₂ h₂ => ?_) (.pure ?_)
      · refine (hg.assignmentIn s₂).bind fun value s₃ hvalue => .pure ?_
        refine ((hkey.pass h₂).append hvalue.fit.inside).reread fun n hn => ?_
        obtain rfl := List.mem_singleton.mp hn
        exact htarget.fallback (hvalue.within.mono (hkey.back_le_front h₂) le_rfl)
      · exact hkey.reread fun n hn => List.mem_singleton.mp hn ▸ htarget
    · exact .fail

theorem objectBinding (hg : g.Covers) : MayRead g.objectBinding (·.flatMap Pattern.nodes) := by
  intro s
  refine .loop (I := fun before s₁ => s.Inside s₁ (before.flatMap Pattern.nodes)) (.refl s)
    fun before s₁ h => ?_
  refine .at_bind fun _ => .ite (fun _ => .pure (h.mono (by simp))) fun _ => .eat_ite (fun s₂ h₂ => ?_) ?_
  · refine bindingName.next (h.pass h₂) fun target s₃ h => ?_
    exact .pure (h.mono (by simp [Pattern.nodes]))
  · refine hg.propertyBinding.next h fun property s₂ h => ?_
    exact .eat_ite (fun s₃ h₃ => .pure ((h.pass h₃).mono (by simp [or_comm]))) (.pure (h.mono (by simp)))

theorem bindingRule (hg : g.Covers) : Reads g.bindingRule .pattern := by
  intro s
  refine .span_bind (.peek_bind ?_)
  split
  · refine .advance_bind fun s₁ h₁ _ => hg.arrayBinding.next (.refl s₁) fun elements s₂ h => ?_
    refine .expect_bind fun s₃ h₃ => .finish_bind (.pure ?_)
    exact (h₁.append (h.pass h₃)).covers_through rfl (by simp [Node.children])
  · refine .advance_bind fun s₁ h₁ _ => hg.objectBinding.next (.refl s₁) fun properties s₂ h => ?_
    refine .expect_bind fun s₃ h₃ => .finish_bind (.pure ?_)
    exact (h₁.append (h.pass h₃)).covers_through rfl (by simp [Node.children])
  · exact bindingName s

theorem statementsToBrace (hg : g.Covers) : ReadsAll g.statementsToBrace (·.map .statement) := by
  intro s
  refine .loop (I := fun before s₁ => s.Inside s₁ (before.map .statement)) (.refl s) fun before s₁ h => ?_
  refine .peek_bind ?_
  split
  · exact .advance_bind fun s₂ h₂ _ => .pure ((h.append_fit h₂).mono (by simp))
  · exact .unexpected
  · exact hg.statement.next h fun st s₂ h => .pure (h.mono (by simp [or_comm]))

theorem block (hg : g.Covers) : ReadsAll g.block (·.map .statement) :=
  fun _ => .expect_bind fun s₁ h₁ => (hg.statementsToBrace s₁).mono fun _ _ h => h₁.append h.inside

theorem params (hg : g.Covers) : ReadsAll g.params (·.flatMap Pattern.nodes) := by
  intro s
  have hfound (s₁ : TokenStream) : Ends s₁ (loop ([] : List Pattern) fun before => do
      if ← at? .rParen then return .inr before.reverse
      if ← eat .spread then
        let target ← g.binding
        if !(← at? .rParen) then fail (← span) .parameterAfterRest
        return .inr (.rest target :: before).reverse
      let target ← g.bindingTarget
      if ← eat .comma then return .inl (target :: before)
      return .inr (target :: before).reverse) fun found s₂ =>
        s₁.Inside s₂ (found.flatMap Pattern.nodes) := by
    refine .loop (I := fun before s₂ => s₁.Inside s₂ (before.flatMap Pattern.nodes)) (.refl s₁)
      fun before s₂ h => ?_
    refine .at_bind fun _ => .ite (fun _ => .pure (h.mono (by simp))) fun _ => .eat_ite (fun s₃ h₃ => ?_) ?_
    · refine hg.binding.next (h.pass h₃) fun target s₄ h => .at_bind fun _ => .ite (fun _ => ?_) fun _ => ?_
      · exact .span_bind .fail_bind
      · exact .pure (h.mono (by simp [Pattern.nodes]))
    · refine hg.bindingTarget.nodes.next h fun target s₃ h => ?_
      exact .eat_ite (fun s₄ h₄ => .pure ((h.pass h₄).mono (by simp [or_comm]))) (.pure (h.mono (by simp)))
  refine .expect_bind fun s₁ h₁ => (hfound s₁).bind fun found s₂ h => ?_
  exact .expect_bind fun s₃ h₃ => .pure (h₁.append (h.pass h₃))

end Grammar.Covers

theorem Node.Within.forceStrict {f : FunctionNode} (h : (Node.function f).Within lo hi) :
    (Node.function f.forceStrict).Within lo hi := by
  cases f
  exact h.of_span rfl fun c hc => h.nests.within hc

namespace Grammar

def ClassDraft.nodes (d : ClassDraft) : List Node :=
  d.constructor.toList.map .function ++ d.elements.flatMap Member.nodes

theorem ClassDraft.mem_nodes_push {n : Node} {d : ClassDraft} {m : Member} :
    n ∈ (d.push m).nodes ↔ n ∈ d.nodes ++ m.nodes := by
  simp only [nodes, push, List.flatMap_cons, List.mem_append]
  rw [or_assoc, or_comm (a := n ∈ m.nodes)]

variable {α : Type} {s s₀ s₁ : TokenStream} {Q : α → TokenStream → Prop}

theorem checkParams_bind {kind : FunctionKind} {found : List Pattern} {k : Unit → Parse α}
    (h : Ends s (k ()) Q) : Ends s (checkParams kind found >>= k) Q := by
  have hcheck : Ends s (checkParams kind found) fun r s₁ => Ends s₁ (k r) Q := by
    unfold checkParams
    split
    · exact .pure h
    · exact .lastSpan_bind .fail
    · exact .lastSpan_bind .fail
    · exact .pure h
    · exact .lastSpan_bind .fail
    · exact .pure h
  exact hcheck.bind fun _ _ h => h

theorem methodModifiers_reads : MayRead methodModifiers fun _ => [] := by
  intro s
  refine .lexemeAt_bind ?_
  extract_lets rest
  have hrest (isAsync : Bool) (s₁ : TokenStream) (h : s.Inside s₁ []) :
      Ends s₁ (rest isAsync) fun _ s' => s.Inside s' [] := by
    refine .bind (Q := fun _ s' => s.Inside s' []) (.eat (fun s₂ h₂ => h.pass h₂) h)
      fun isGenerator s₂ h => ?_
    refine .peekAt_bind (.ite (fun _ => ?_) fun _ => .pure h)
    refine .eatWord_ite (fun s₃ h₃ => .pure (h.pass h₃)) ?_
    exact .eatWord_ite (fun s₃ h₃ => .pure (h.pass h₃)) (.pure h)
  refine .atWord_bind fun _ => .ite (fun _ => .advance_bind fun s₁ h₁ _ => ?_) fun _ => ?_
  · exact hrest true s₁ h₁.inside
  · exact hrest false s (.refl s)

namespace Covers
variable {g : Grammar}

theorem functionRest {name : Option String} {kind : FunctionKind} {isAsync isGenerator : Bool}
    (hg : g.Covers) (h : s₀.Inside s []) :
    Ends s (g.functionRest (s₀.ahead 0).span name kind isAsync isGenerator)
      fun f s' => s₀.Covers s' (.function f) ∧ s.Fit s' [] := by
  have hparts : Ends s (inFunction isAsync isGenerator <| withIn do
      let found ← g.params
      checkParams kind found
      return (found, ← g.block)) fun r s' =>
        s.Fit s' (r.1.flatMap Pattern.nodes ++ r.2.map .statement) := by
    refine .withReader (.withReader ((hg.params s).bind fun found s₁ h₁ => checkParams_bind ?_))
    exact (hg.block s₁).bind fun body s₂ h₂ => .pure (h₁.append h₂.inside)
  refine hparts.bind fun r s₁ h₁ => .finish_bind (.pure ?_)
  exact ⟨(h.append_fit h₁).covers_through rfl fun _ hc => hc, h₁.mono nofun⟩

theorem function {isAsync isDeclaration : Bool} (hg : g.Covers) (h : s₀.Inside s []) :
    Ends s (g.function (s₀.ahead 0).span isAsync isDeclaration) fun f s' => s₀.Covers s' (.function f) := by
  refine .expectWord_bind fun s₁ h₁ => ?_
  have h := h.pass h₁
  refine .bind (Q := fun _ s' => s₀.Inside s' []) (.eat (fun s₂ h₂ => h.pass h₂) h)
    fun isGenerator s₂ h => ?_
  refine .peek_bind ?_
  split
  · exact .bindingName_bind fun _ s₃ h₃ _ => (hg.functionRest (h.pass h₃)).mono fun _ _ h => h.1
  · exact .ite (fun _ => .unexpected_bind) fun _ => (hg.functionRest h).mono fun _ _ h => h.1

theorem arrow {isAsync : Bool} (hg : g.Covers) : Reads (g.arrow isAsync) .expression := by
  intro s
  refine .span_bind ?_
  extract_lets body rest
  have hbody (found : List Pattern) (s₁ : TokenStream) (h : s.Inside s₁ (found.flatMap Pattern.nodes)) :
      Ends s₁ (body found) fun r s' => s.Fit s' (r.1.flatMap Pattern.nodes ++ r.2.map .statement) := by
    refine .lexeme_bind (.ite (fun _ => .unexpected_bind) fun _ => .expect_bind fun s₂ h₂ => ?_)
    refine .at_bind fun _ => .ite (fun _ => ?_) fun _ => ?_
    · refine (hg.block s₂).withReader.bind fun body s₃ h₃ => .pure ?_
      exact (h.pass h₂).append_fit h₃
    · refine (hg.assignment s₂).bind fun value s₃ hvalue => .pure ?_
      have hconcise : s₂.Covers s₃ (.statement (.mk value.span (.concise value))) := hvalue.wrap rfl rfl
      exact (h.pass h₂).append_fit hconcise.fit
  have hrest (s₁ : TokenStream) (h : s.Inside s₁ []) :
      Ends s₁ (rest ()) fun e s' => s.Covers s' (.expression e) := by
    refine .bind (Q := fun r s' => s.Fit s' (r.1.flatMap Pattern.nodes ++ r.2.map .statement))
      (.withReader (.at_bind fun _ => .ite (fun _ => ?_) fun _ => ?_))
      fun r s₂ hr => .finish_bind (.pure ?_)
    · exact hg.params.next h fun found s₂ h => hbody found s₂ h
    · refine .bindingName_bind fun name s₂ h₂ _ => hbody _ s₂ ?_
      have hname : (Node.pattern (.identifier name (s₁.ahead 0).span)).Within s₁.front s₂.back :=
        h₂.token_within rfl rfl
      exact (h.append_fit (h₂.reread (List.forall_mem_singleton.mpr hname))).inside
    · have hfunction : s.Covers s₂ (.function (.mk none r.1 r.2 .arrow isAsync false (asksStrict r.2)
          ((s.ahead 0).span.through s₂.last))) := hr.covers_through rfl fun _ hc => hc
      exact hfunction.wrap rfl rfl
  exact .ite (fun _ => .advance_bind fun s₁ h₁ _ => hrest s₁ h₁.inside) fun _ => hrest s (.refl s)

/-- A method of a class, which starts before its name. -/
theorem classMethod {draft : ClassDraft} {derived isStatic : Bool} {memberStart : Span}
    {modifiers : MethodModifiers} {key : Key} (hg : g.Covers) (hdraft : s.Inside s₀ draft.nodes)
    (h : s₀.Inside s₁ key.nodes) :
    Ends s₁ (g.classMethod draft derived isStatic memberStart (s₀.ahead 0).span modifiers key)
      fun draft s' => s.Fit s' draft.nodes := by
  have hstart : s₀.Inside s₁ [] := h.mono nofun
  refine .ite (fun _ => .ite (fun _ => .fail_bind) fun _ => .ite (fun _ => .fail_bind) fun hnone => ?_)
    fun _ => ?_
  · refine (hg.functionRest hstart).bind fun f s₂ ⟨hf, _⟩ => .pure ?_
    refine (hdraft.append_fit hf.fit).mono fun n hn => ?_
    simp only [ClassDraft.nodes, Option.toList_some, List.map_cons, List.map_nil] at hn ⊢
    grind
  · refine (hg.functionRest hstart).bind fun f s₂ ⟨hf, hrest⟩ => .pure ?_
    have hkey : s₀.Fit s₂ key.nodes := by simpa using h.append_fit hrest
    have hmember : s₀.Fit s₂ (key.nodes ++ [.function f.forceStrict]) :=
      hkey.reread (List.forall_mem_append.mpr
        ⟨hkey.nodes, List.forall_mem_singleton.mpr hf.within.forceStrict⟩)
    exact (hdraft.append_fit hmember).mono fun n hn => (ClassDraft.mem_nodes_push).mp hn

theorem fieldInitializer (hg : g.Covers) : MayRead g.fieldInitializer (·.toList.map .function) := by
  intro s
  refine .eat_not_ite (fun s₁ h₁ => .span_bind ?_) (.pure (.refl s))
  refine (hg.assignment s₁).withReader.bind fun value s₂ hvalue => .finish_bind (.pure ?_)
  have hconcise : s₁.Covers s₂ (.statement (.mk value.span (.concise value))) := hvalue.wrap rfl rfl
  have hfunction : s₁.Covers s₂ (.function (.mk none [] [.mk value.span (.concise value)] .classField false
      false true ((s₁.ahead 0).span.through s₂.last))) := hconcise.fit.covers_through rfl fun _ hc => hc
  exact (h₁.append_fit hfunction.fit).inside

theorem classMember {draft : ClassDraft} {derived : Bool} (hg : g.Covers) (h : s₀.Inside s draft.nodes) :
    Ends s (g.classMember draft derived) fun draft s' => s₀.Fit s' draft.nodes := by
  refine .span_bind ?_
  extract_lets rest
  have hrest (isStatic : Bool) (s₁ : TokenStream) (h₁ : s.Inside s₁ []) :
      Ends s₁ (rest isStatic) fun draft s' => s₀.Fit s' draft.nodes := by
    have h' : s₀.Inside s₁ draft.nodes := by simpa using h.append h₁
    refine .at_bind fun _ => .ite (fun _ => .span_bind ?_) fun _ => .span_bind ?_
    · refine (hg.block s₁).withReader.bind fun body s₂ h₂ => .finish_bind (.pure ?_)
      have hbody := h₂.covers_through (n := .function (.mk none [] body .staticBlock false false true
        ((s₁.ahead 0).span.through s₂.last))) rfl fun _ hc => hc
      exact (h'.append_fit hbody.fit).mono fun n hn => (ClassDraft.mem_nodes_push).mp hn
    · refine (methodModifiers_reads s₁).bind fun modifiers s₂ h₂ => ?_
      refine (hg.propertyName true s₂).bind fun key s₃ hkey => .at_bind fun _ => .ite (fun _ => ?_)
        fun _ => ?_
      · have hname : s₁.Inside s₃ key.nodes := (h₂.append_fit hkey).inside
        exact hg.classMethod h' hname
      · refine .ite (fun _ => .unexpected_bind) fun _ => .ite (fun _ => .fail_bind) fun _ => ?_
        refine (hg.fieldInitializer s₃).bind fun initializer s₄ hinit => .semicolon_bind fun s₅ h₅ => ?_
        refine .finish_bind (.pure ?_)
        have hfield := (((h'.append h₂).append_fit hkey).append hinit).append h₅
        refine hfield.mono fun n hn => ?_
        simpa [Member.nodes] using (ClassDraft.mem_nodes_push).mp hn
  refine .atWord_bind fun _ => .ite (fun _ => .peekAt_bind ?_) fun _ => .pure_bind (hrest false s (.refl s))
  split
  · exact .pure_bind (hrest false s (.refl s))
  · exact .pure_bind (hrest false s (.refl s))
  · exact .pure_bind (hrest false s (.refl s))
  · exact .pure_bind (hrest false s (.refl s))
  · exact .advance_bind fun s₁ h₁ _ => .pure_bind (hrest true s₁ h₁.inside)

theorem classRule {isDeclaration : Bool} (hg : g.Covers) :
    Reads (g.classRule isDeclaration) .classNode := by
  intro s
  refine .expectWord_bind fun s₁ h₁ => ?_
  extract_lets named
  have hbody (name : Option String) (heritage : Option Expr) (s₂ : TokenStream)
      (h₂ : s.Fit s₂ (heritage.toList.map .expression)) : Ends s₂ (do
        let _ ← expect .lBrace
        let draft ← withIn <| loop ({} : ClassDraft) fun draft => do
          if ← eat .rBrace then return .inr draft
          if ← eat .semicolon then return .inl draft
          return .inl (← g.classMember draft heritage.isSome)
        return ClassNode.mk name heritage draft.constructor draft.elements.reverse
          (← finish (s.ahead 0).span)) fun c s' => s.Covers s' (.classNode c) := by
    refine .expect_bind fun s₃ h₃ => ?_
    refine .bind (Q := fun draft s' => s₃.Inside s' draft.nodes) (.withReader ?_) fun draft s₄ h₄ => ?_
    · refine .loop (I := fun draft s' => s₃.Inside s' draft.nodes) (.refl s₃) fun draft s₄ h => ?_
      refine .eat_ite (fun s₅ h₅ => .pure (h.pass h₅)) (.eat_ite (fun s₅ h₅ => .pure (h.pass h₅)) ?_)
      exact (hg.classMember h).bind fun _ _ h => .pure h.inside
    · refine .finish_bind (.pure (((h₂.pass h₃).append h₄).covers_through rfl fun n hn => ?_))
      simpa [Node.children, ClassNode.heritage?, ClassNode.constructor?, ClassNode.elements,
        ClassDraft.nodes] using hn
  have hnamed (name : Option String) (s₂ : TokenStream) (h₂ : s.Fit s₂ []) :
      Ends s₂ (named name) fun c s' => s.Covers s' (.classNode c) := by
    refine .eatWord_ite (fun s₃ h₃ => ?_) (hbody name none s₂ h₂)
    exact (hg.leftHandSide s₃).bind fun e s₄ he =>
      hbody name (some e) s₄ ((h₂.pass h₃).append_fit he.fit)
  refine .peek_bind ?_
  split
  · refine .ite (fun _ => .bindingName_bind fun _ s₂ h₂ _ => hnamed _ s₂ (h₁.pass h₂)) fun _ => ?_
    exact .ite (fun _ => .unexpected_bind) fun _ => hnamed none s₁ h₁
  · exact .ite (fun _ => .unexpected_bind) fun _ => hnamed none s₁ h₁

end Covers
end Grammar
end EcmaScript

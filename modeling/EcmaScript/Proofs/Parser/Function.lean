import EcmaScript.Parser.Function
import EcmaScript.Proofs.Parser.Rules

/-! The suspensions in names of properties, in binding patterns, and in expressions read again as
assignment targets. -/
namespace EcmaScript
open Parse

namespace Grammar.Sound
variable {g : Grammar} {m : Mode}

theorem assignmentIn (hg : g.Sound) (hm : m.Sound) :
    Finds m [] (withIn g.assignment) (Expr.sites m.place) :=
  .withIn hm fun _ hp hm' => hp ▸ hg.assignment hm'

theorem propertyName {allowPrivate : Bool} (hg : g.Sound) (hm : m.Sound) :
    Finds m [] (g.propertyName allowPrivate) (Key.sites m.place) := by
  have hfixed {key : Key} (hk : key.sites m.place = []) : Finds m [] (do
      let _ ← advance
      return key) (Key.sites m.place) := .skip advance_still fun _ => .pure (by simp [hk])
  refine .skip lexeme_still fun l => ?_
  split
  · exact hfixed rfl
  · exact hfixed rfl
  · exact hfixed rfl
  · exact hfixed rfl
  · refine .ite (fun _ => .unexpected_bind) fun _ => .ite (fun _ => .fail_bind) fun _ => hfixed rfl
  · refine .skip advance_still fun _ => .next (hg.assignmentIn hm) fun e => ?_
    exact .skip expect_still fun _ => .pure (by simp)
  · exact .unexpected

theorem bindingTarget (hg : g.Sound) (hm : m.Sound) :
    Finds m [] g.bindingTarget (Pattern.sites m.place) := by
  refine .next (hg.binding hm) fun target => .skip eat_still fun _ => .ite (fun _ => ?_) fun _ => ?_
  · exact .next (hg.assignmentIn hm) fun e => .pure (by simp)
  · exact .pure (by simp)

theorem bindingName : Finds m [] g.bindingName (Pattern.sites m.place) :=
  .skip bindingName_still fun _ => .pure (by simp)

theorem arrayBinding (hg : g.Sound) (hm : m.Sound) :
    Finds m [] g.arrayBinding (sitesOfPatterns m.place) := by
  refine .loop (f := sitesOfPatterns m.place) (by simp) fun before => .skip peek_still fun token => ?_
  split
  · exact .pure (by simp)
  · exact .skip advance_still fun _ => .pure (by simp)
  · exact .skip advance_still fun _ => .next (hg.binding hm) fun target => .pure (by simp [or_comm])
  · refine .next (hg.bindingTarget hm) fun element => .skip eat_still fun _ => ?_
    exact .ite (fun _ => .pure (by simp [or_comm])) fun _ => .pure (by simp [or_comm])

theorem propertyBinding (hg : g.Sound) (hm : m.Sound) :
    Finds m [] g.propertyBinding (Pattern.sites m.place) := by
  refine .skip lexeme_still fun l => .next (hg.propertyName hm) fun key => .skip eat_still fun _ => ?_
  refine .ite (fun _ => .next (hg.bindingTarget hm) fun target => .pure (by simp)) fun _ => ?_
  split
  · refine .ite (fun _ => .fail_bind) fun _ => .skip eat_still fun _ => .ite (fun _ => ?_) fun _ => ?_
    · exact .next (hg.assignmentIn hm) fun e => .pure (by simp)
    · exact .pure (by simp)
  · exact .fail

theorem objectBinding (hg : g.Sound) (hm : m.Sound) :
    Finds m [] g.objectBinding (sitesOfPatterns m.place) := by
  refine .loop (f := sitesOfPatterns m.place) (by simp) fun before => .skip at_still fun _ => ?_
  refine .ite (fun _ => .pure (by simp)) fun _ => .skip eat_still fun _ => .ite (fun _ => ?_) fun _ => ?_
  · exact .next bindingName fun target => .pure (by simp [or_comm])
  · refine .next (hg.propertyBinding hm) fun property => .skip eat_still fun _ => ?_
    exact .ite (fun _ => .pure (by simp [or_comm])) fun _ => .pure (by simp [or_comm])

theorem bindingRule (hg : g.Sound) (hm : m.Sound) : Finds m [] g.bindingRule (Pattern.sites m.place) := by
  refine .skip span_still fun start => .skip peek_still fun token => ?_
  split
  · refine .skip advance_still fun _ => .next (hg.arrayBinding hm) fun elements => ?_
    exact .skip expect_still fun _ => .skip finish_still fun _ => .pure (by simp)
  · refine .skip advance_still fun _ => .next (hg.objectBinding hm) fun properties => ?_
    exact .skip expect_still fun _ => .skip finish_still fun _ => .pure (by simp)
  · exact bindingName

end Grammar.Sound

/-! An expression read again consists of the same parts. -/

section Reread
variable {p : Place}

mutual

theorem Expr.sites_toPattern {e : Expr} {t : Pattern} (h : e.toPattern = .ok t) :
    t.sites p = e.sites p := by
  obtain ⟨span, node⟩ := e
  exact ExprNode.sites_toPattern h
termination_by structural e

theorem ExprNode.sites_toPattern {span : Span} {node : ExprNode} {t : Pattern}
    (h : node.toPattern span = .ok t) : t.sites p = node.sites p := by
  cases node with
  | identifier | superMember | assign =>
    cases h
    simp
  | member _ _ optional =>
    cases optional with
    | false =>
      cases h
      simp
    | true => nomatch h
  | array elements =>
    obtain ⟨ts, hts, h⟩ := Except.bind_eq_ok.mp h
    cases h
    simp [Expr.sites_toPatterns hts]
  | object members =>
    obtain ⟨ts, hts, h⟩ := Except.bind_eq_ok.mp h
    cases h
    simp [Member.sites_toPatterns hts]
  | _ => nomatch h
termination_by structural node

theorem Expr.sites_toPatterns {es : List Expr} {ts : List Pattern}
    (h : Expr.toPatterns es = .ok ts) : sitesOfPatterns p ts = sitesOfExprs p es := by
  match es with
  | [] =>
    cases h
    rfl
  | e :: rest =>
    obtain ⟨first, hfirst, h⟩ := Except.bind_eq_ok.mp h
    obtain ⟨others, hothers, h⟩ := Except.bind_eq_ok.mp h
    cases h
    rw [sitesOfPatterns, sitesOfExprs, Expr.sites_toElement hfirst, Expr.sites_toPatterns hothers]
termination_by structural es

theorem Expr.sites_toElement {e : Expr} {isLast : Bool} {t : Pattern}
    (h : e.toElement isLast = .ok t) : t.sites p = e.sites p := by
  obtain ⟨span, node⟩ := e
  cases node with
  | hole =>
    cases h
    simp
  | spread inner =>
    cases isLast with
    | true =>
      obtain ⟨target, htarget, h⟩ := Except.bind_eq_ok.mp h
      cases h
      simp [Expr.sites_toPattern htarget]
    | false => nomatch h
  | _ => exact @ExprNode.sites_toPattern span _ t h
termination_by structural e

theorem Member.sites_toPatterns {ms : List Member} {ts : List Pattern}
    (h : Member.toPatterns ms = .ok ts) : sitesOfPatterns p ts = sitesOfMembers p ms := by
  match ms with
  | [] =>
    cases h
    rfl
  | m :: rest =>
    obtain ⟨first, hfirst, h⟩ := Except.bind_eq_ok.mp h
    obtain ⟨others, hothers, h⟩ := Except.bind_eq_ok.mp h
    cases h
    rw [sitesOfPatterns, sitesOfMembers, Member.sites_toPattern hfirst,
      Member.sites_toPatterns hothers]
termination_by structural ms

theorem Member.sites_toPattern {m : Member} {t : Pattern} (h : m.toPattern = .ok t) :
    t.sites p = m.sites p := by
  cases m with
  | property _ value | spread value =>
    obtain ⟨target, htarget, h⟩ := Except.bind_eq_ok.mp h
    cases h
    simp [Expr.sites_toPattern htarget]
  | initialized =>
    cases h
    simp
  | _ => nomatch h
termination_by structural m

end

end Reread
end EcmaScript

/-! The suspensions in functions, methods and classes. The names of members and the heritage of a class
stand where the class stands; parameters and bodies, fields and static blocks do not. -/
namespace EcmaScript
open Parse

@[simp] theorem FunctionNode.sites_forceStrict {f : FunctionNode} : f.forceStrict.sites = f.sites := by
  cases f
  rfl

def Grammar.ClassDraft.sites (p : Place) (d : ClassDraft) : List Site :=
  sitesOfPlain? d.constructor ++ sitesOfMembers p d.elements

@[simp] theorem Grammar.ClassDraft.mem_sites_push {p : Place} {x : Site} {d : ClassDraft} {m : Member} :
    x ∈ (d.push m).sites p ↔ x ∈ d.sites p ++ m.sites p := by
  simp [sites, push]
  grind

namespace Grammar

theorem checkParams_still {kind : FunctionKind} {found : List Pattern} :
    Still (checkParams kind found) := by
  unfold checkParams
  split
  · exact .pure
  · exact lastSpan_still.bind fun _ => .fail
  · exact lastSpan_still.bind fun _ => .fail
  · exact .pure
  · exact lastSpan_still.bind fun _ => .fail
  · exact .pure

theorem methodModifiers_still : Still methodModifiers := by
  refine lexemeAt_still.bind fun following => ?_
  extract_lets rest
  have hrest (isAsync : Bool) : Still (rest isAsync) := by
    refine eat_still.bind fun _ => peekAt_still.bind fun _ => .ite ?_ .pure
    refine eatWord_still.bind fun _ => .ite .pure ?_
    exact eatWord_still.bind fun _ => .ite .pure .pure
  exact atWord_still.bind fun _ => .ite (advance_still.bind fun _ => hrest true) (hrest false)

namespace Sound
variable {g : Grammar} {m : Mode}

theorem statementsToBrace (hg : g.Sound) (hm : m.Sound) :
    Finds m [] g.statementsToBrace (sitesOfStatements m.place) := by
  refine .loop (f := sitesOfStatements m.place) (by simp) fun before => .skip peek_still fun _ => ?_
  split
  · exact .skip advance_still fun _ => .pure (by simp)
  · exact .unexpected
  · exact .next (hg.statement hm) fun _ => .pure (by simp [or_comm])

theorem block (hg : g.Sound) (hm : m.Sound) : Finds m [] g.block (sitesOfStatements m.place) :=
  .skip expect_still fun _ => hg.statementsToBrace hm

theorem params (hg : g.Sound) (hm : m.Sound) : Finds m [] g.params (sitesOfPatterns m.place) := by
  refine .skip expect_still fun _ => .next (f := sitesOfPatterns m.place) ?_ fun found =>
    .skip expect_still fun _ => .pure (by simp)
  refine .loop (f := sitesOfPatterns m.place) (by simp) fun before => .skip at_still fun _ => ?_
  refine .ite (fun _ => .pure (by simp)) fun _ => .skip eat_still fun _ => .ite (fun _ => ?_) fun _ => ?_
  · refine .next (hg.binding hm) fun target => .skip at_still fun _ => .ite (fun _ => ?_) fun _ => ?_
    · exact .skip span_still fun _ => .fail_bind
    · exact .pure (by simp [or_comm])
  · refine .next (hg.bindingTarget hm) fun target => .skip eat_still fun _ => ?_
    exact .ite (fun _ => .pure (by simp [or_comm])) fun _ => .pure (by simp [or_comm])

/-- A function is read however its parts are put together. -/
theorem functionRest_of {start : Span} {name : Option String} {kind : FunctionKind}
    {isAsync isGenerator : Bool} {f : FunctionNode → List Site} (hg : g.Sound)
    (hf : ∀ params body strict span,
      f (.mk name params body kind isAsync isGenerator strict span) =
        sitesOfPatterns (.inside isAsync isGenerator) params ++
          sitesOfStatements (.inside isAsync isGenerator) body) :
    Finds m [] (g.functionRest start name kind isAsync isGenerator) f := by
  refine .next (f := fun r => sitesOfPatterns (.inside isAsync isGenerator) r.1 ++
    sitesOfStatements (.inside isAsync isGenerator) r.2) (.inFunction fun m' hp hm' => ?_) fun r => ?_
  · rw [← hp]
    refine .withIn hm' fun m'' hp' hm'' => hp' ▸ .next (hg.params hm'') fun found => ?_
    refine .skip checkParams_still fun _ => .next (hg.block hm'') fun body => .pure (by simp)
  · exact .skip finish_still fun _ => .pure (by simp [hf])

theorem functionRest {start : Span} {name : Option String} {kind : FunctionKind}
    {isAsync isGenerator : Bool} (hg : g.Sound) :
    Finds m [] (g.functionRest start name kind isAsync isGenerator) FunctionNode.sites :=
  hg.functionRest_of fun _ _ _ _ => rfl

theorem constructorRest {start : Span} {kind : FunctionKind} (hg : g.Sound) :
    Finds m [] (g.functionRest start none kind false false)
      (FunctionNode.sitesAt (.inside false false)) :=
  hg.functionRest_of fun _ _ _ _ => rfl

theorem function {start : Span} {isAsync isDeclaration : Bool} (hg : g.Sound) :
    Finds m [] (g.function start isAsync isDeclaration) FunctionNode.sites := by
  refine .skip expectWord_still fun _ => .skip eat_still fun _ => .skip peek_still fun _ => ?_
  split
  · exact .skip bindingName_still fun _ => hg.functionRest
  · exact .ite (fun _ => .unexpected_bind) fun _ => hg.functionRest

theorem arrow {isAsync : Bool} (hg : g.Sound) : Finds m [] (g.arrow isAsync) (Expr.sites m.place) := by
  refine .skip span_still fun start => ?_
  extract_lets body rest
  have hbody {m' : Mode} (hm' : m'.Sound) (found : List Pattern) :
      Finds m' (sitesOfPatterns m'.place found) (body found) fun r =>
        sitesOfPatterns m'.place r.1 ++ sitesOfStatements m'.place r.2 := by
    refine .skip lexeme_still fun _ => .ite (fun _ => .unexpected_bind) fun _ => ?_
    refine .skip expect_still fun _ => .skip at_still fun _ => .ite (fun _ => ?_) fun _ => ?_
    · exact .next (.withIn hm' fun _ hp' hm'' => hp' ▸ hg.block hm'') fun _ => .pure (by simp)
    · exact .next (hg.assignment hm') fun _ => .pure (by simp)
  have hrest : Finds m [] (rest ()) (Expr.sites m.place) := by
    refine .next (f := fun r => sitesOfPatterns (.inside isAsync false) r.1 ++
      sitesOfStatements (.inside isAsync false) r.2) (.inFunction fun m' hp hm' => ?_) fun r => ?_
    · rw [← hp]
      refine .skip at_still fun _ => .ite (fun _ => (hg.params hm').bind (hbody hm')) fun _ => ?_
      exact .skip bindingName_still fun r => .next (f := sitesOfPatterns m'.place) (.pure (by simp))
        (hbody hm')
    · exact .skip finish_still fun _ => .pure (by simp)
  exact .ite (fun _ => .skip advance_still fun _ => hrest) fun _ => hrest

theorem classMethod {draft : ClassDraft} {derived isStatic : Bool} {memberStart start : Span}
    {modifiers : MethodModifiers} {key : Key} (hg : g.Sound) :
    Finds m (draft.sites m.place ++ key.sites m.place)
      (g.classMethod draft derived isStatic memberStart start modifiers key)
      (ClassDraft.sites m.place) := by
  refine .ite (fun hfixed => .ite (fun _ => .fail_bind) fun _ => ?_) fun _ => ?_
  · have hkey : key.sites m.place = [] := by
      cases key <;> simp_all [isFixed]
    refine .ite (fun _ => .fail_bind) fun hnone => .next hg.constructorRest fun f => .pure ?_
    simp_all [ClassDraft.sites, or_comm]
  · exact .next hg.functionRest fun f => .pure (by simp)

theorem fieldInitializer (hg : g.Sound) : Finds m [] g.fieldInitializer sitesOfPlain? := by
  refine .skip eat_still fun _ => .ite (fun _ => .pure (by simp)) fun _ => .skip span_still fun _ => ?_
  refine .next (.inFunction fun m' hp hm' => hp ▸ hg.assignment hm') fun value => ?_
  exact .skip finish_still fun _ => .pure (by simp)

theorem classMember {draft : ClassDraft} {derived : Bool} (hg : g.Sound) (hm : m.Sound) :
    Finds m (draft.sites m.place) (g.classMember draft derived) (ClassDraft.sites m.place) := by
  refine .skip span_still fun memberStart => ?_
  extract_lets rest
  have hrest (isStatic : Bool) :
      Finds m (draft.sites m.place) (rest isStatic) (ClassDraft.sites m.place) := by
    refine .skip at_still fun _ => .ite (fun _ => .skip span_still fun start => ?_) fun _ => ?_
    · refine .next (.inFunction fun m' hp hm' => hp ▸ hg.block hm') fun body => ?_
      exact .skip finish_still fun _ => .pure (by simp)
    · refine .skip span_still fun start => .skip methodModifiers_still fun modifiers => ?_
      refine .next (hg.propertyName hm) fun key => .skip at_still fun _ => ?_
      refine .ite (fun _ => hg.classMethod) fun _ => .ite (fun _ => .unexpected_bind) fun _ => ?_
      refine .ite (fun _ => .fail_bind) fun _ => .next hg.fieldInitializer fun initializer => ?_
      exact .skip semicolon_still fun _ => .skip finish_still fun _ => .pure (by simp)
  refine .skip atWord_still fun _ => .ite (fun _ => .skip peekAt_still fun _ => ?_) fun _ => hrest false
  split
  · exact hrest false
  · exact hrest false
  · exact hrest false
  · exact hrest false
  · exact .skip advance_still fun _ => hrest true

theorem classRule {isDeclaration : Bool} (hg : g.Sound) (hm : m.Sound) :
    Finds m [] (g.classRule isDeclaration) (ClassNode.sites m.place) := by
  refine .skip expectWord_still fun start => ?_
  extract_lets named
  have hbody (name : Option String) (heritage : Option Expr) :
      Finds m (sitesOfExpr? m.place heritage) (do
        let _ ← expect .lBrace
        let draft ← withIn <| loop ({} : ClassDraft) fun draft => do
          if ← eat .rBrace then return .inr draft
          if ← eat .semicolon then return .inl draft
          return .inl (← g.classMember draft heritage.isSome)
        return ClassNode.mk name heritage draft.constructor draft.elements.reverse (← finish start))
        (ClassNode.sites m.place) := by
    refine .skip expect_still fun _ => .next (f := ClassDraft.sites m.place) ?_ fun draft =>
      .skip finish_still fun _ => .pure (by simp [ClassDraft.sites])
    refine .withIn hm fun m' hp hm' => hp ▸ .loop (f := ClassDraft.sites m'.place)
      (by simp [ClassDraft.sites]) fun draft => .skip eat_still fun _ => ?_
    refine .ite (fun _ => .pure (by simp)) fun _ => .skip eat_still fun _ => ?_
    exact .ite (fun _ => .pure (by simp)) fun _ => (hg.classMember hm').bind fun _ => .pure (by simp)
  have hnamed (name : Option String) : Finds m [] (named name) (ClassNode.sites m.place) :=
    .skip eatWord_still fun _ => .ite (fun _ => .next (hg.leftHandSide hm) fun e => hbody name (some e))
      fun _ => hbody name none
  refine .skip peek_still fun _ => ?_
  split
  · refine .ite (fun _ => .skip bindingName_still fun _ => hnamed _) fun _ => ?_
    exact .ite (fun _ => .unexpected_bind) fun _ => hnamed none
  · exact .ite (fun _ => .unexpected_bind) fun _ => hnamed none

end Sound
end Grammar
end EcmaScript

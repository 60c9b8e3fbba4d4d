import EcmaScript.Evaluate.Names
import EcmaScript.Proofs.Arguments.Sharing

/-! How the names of a script are declared. One that clashes with what there is already is refused before
anything changes; one that the script itself declares twice is found out at the end. -/
namespace EcmaScript

namespace State
variable (s : State)

/-- A lexical name clashes with every name that the scope binds, and with a property of the global object
that is not configurable. -/
def refusesLexical (scope : ScopeId) (name : String) : Bool :=
  (s.scope scope).binds name ||
    ((s.ownProperty? s.globalObject (.ofString name)).map (!·.configurable)).getD false

def refusesVar (scope : ScopeId) (lexical : List LexicalName) (name : String) : Bool :=
  (((s.scope scope).binding? name).map (·.kind.isLexical)).getD false || lexical.any (·.name == name)

def clash? (scope : ScopeId) (body : List Statement) : Option (String × Nat × Nat) :=
  (((lexicalNames body).find? (s.refusesLexical scope ·.name)).map fun n =>
    (n.name, n.span.line, n.span.column)).or
  (((varNamesOf body ++ (directFunctions body).map (·.boundName)).find?
    (s.refusesVar scope (lexicalNames body))).map fun name => (name, 0, 0))

end State

theorem LexicalName.isLexical_bindingKind (n : LexicalName) : n.bindingKind.isLexical = true := by
  unfold LexicalName.bindingKind
  split
  · rfl
  · cases n.kind <;> rfl

namespace Exec
variable {m : Machine} {c : Context} {s s' : State} {scope : ScopeId} {body : List Statement}

/-- Makes the declarations of a script, when nothing clashes. -/
def declareScript (scope : ScopeId) (body : List Statement) : Exec Unit := do
  let lexical := lexicalNames body
  (varNamesOf body).forM declareGlobal
  if !(← context).strict then
    (body.flatMap (·.blockFunctions true)).forM fun name => do
      if !lexical.any (·.name == name) then
        if !(← binds scope name) then declareGlobal name
  (directFunctions body).forM (declareGlobalFunction scope)
  declareLexical scope lexical

/-- A check of one element after the other stops at the first that is refused. -/
theorem forM_refusing_bind {γ α : Type} {l : List γ} {check : γ → Exec PUnit} {next : PUnit → Exec α}
    {refused : γ → Bool} {e : γ → Abrupt}
    (h : ∀ a, check a m c s = if refused a then .abrupt (e a) s else .value ⟨⟩ s) :
    (l.forM check >>= next) m c s = match l.find? refused with
      | some a => .abrupt (e a) s
      | none => next ⟨⟩ m c s := by
  have hchecks : l.forM check m c s = match l.find? refused with
      | some a => .abrupt (e a) s
      | none => .value ⟨⟩ s := by
    induction l with
    | nil => rfl
    | cons a rest ih =>
      change (check a m c s).bind _ = _
      rw [h a]
      cases hrefused : refused a with
      | true => rw [List.find?_cons_of_pos hrefused]; rfl
      | false => rw [List.find?_cons_of_neg (by simpa using hrefused)]; exact ih
  change (l.forM check m c s).bind _ = _
  rw [hchecks]
  cases l.find? refused <;> rfl

theorem checkLexical_eq (scope : ScopeId) (hg : (s.object s.globalObject).isProxy = false) (n : LexicalName) :
    (do
      if ← binds scope n.name then alreadyDeclared n.name n.span.line n.span.column
      match ← getOwn s.globalObject (.ofString n.name) with
      | some p => if !p.configurable then alreadyDeclared n.name n.span.line n.span.column
      | none => pure () : Exec PUnit) m c s =
      if s.refusesLexical scope n.name then alreadyDeclared n.name n.span.line n.span.column m c s
      else .value ⟨⟩ s := by
  rw [bind_value (show binds scope n.name m c s = .value ((s.scope scope).binds n.name) s from rfl)]
  unfold State.refusesLexical
  cases (s.scope scope).binds n.name with
  | true => rfl
  | false =>
    have hown : getOwn s.globalObject (.ofString n.name) m c s = _ := getOwn_ordinary hg
    change (getOwn s.globalObject (.ofString n.name) >>= _) m c s = _
    rw [bind_value hown]
    rcases s.ownProperty? s.globalObject (.ofString n.name) with - | ⟨slot, e, configurable⟩
    · rfl
    · cases configurable <;> rfl

theorem checkVar_eq (s : State) (scope : ScopeId) (lexical : List LexicalName) (name : String) :
    (do
      let bound ← look fun s => (((s.scope scope).binding? name).map (·.kind.isLexical)).getD false
      if bound || lexical.any (·.name == name) then alreadyDeclared name 0 0 : Exec PUnit) m c s =
      if s.refusesVar scope lexical name then alreadyDeclared name 0 0 m c s else .value ⟨⟩ s := by
  change (if s.refusesVar scope lexical name = true then (alreadyDeclared name 0 0 : Exec PUnit) else pure ⟨⟩)
    m c s = _
  cases s.refusesVar scope lexical name <;> rfl

theorem hoistGlobal_eq (hg : (s.object s.globalObject).isProxy = false) :
    hoistGlobal scope body m c s = match s.clash? scope body with
      | some (name, line, column) => alreadyDeclared name line column m c s
      | none => declareScript scope body m c s := by
  unfold hoistGlobal State.clash?
  rw [bind_value (show globalObject m c s = .value s.globalObject s from rfl)]
  refine (forM_refusing_bind (checkLexical_eq scope hg)).trans ?_
  cases (lexicalNames body).find? (s.refusesLexical scope ·.name) with
  | some n => rfl
  | none =>
    refine (forM_refusing_bind (checkVar_eq s scope (lexicalNames body))).trans ?_
    cases (varNamesOf body ++ (directFunctions body).map (·.boundName)).find?
        (s.refusesVar scope (lexicalNames body)) <;> rfl

/-- A lexical name is declared in a scope that does not bind it. -/
theorem declareName_eq (name : String) {kind : BindingKind} (span : Span) (hk : kind.isLexical = true) :
    declareName scope name kind span m c s =
      if (s.scope scope).binds name then alreadyDeclared name span.line span.column m c s
      else .value ⟨⟩ (s.replaceScope scope { s.scope scope with
        bindings := (name, ⟨none, kind⟩) :: (s.scope scope).bindings }) := by
  have hmodify (sc : Scope) : modifyScope scope (fun _ => sc) m c s = .value ⟨⟩ (s.replaceScope scope sc) := by
    simp only [modifyScope, change, State.scopes_modify]
    rfl
  rw [declareName, bind_value (show look (fun s => (s.scope scope).declare? name kind) m c s =
    .value ((s.scope scope).declare? name kind) s from rfl)]
  unfold Scope.declare? Scope.binds
  cases (s.scope scope).binding? name with
  | none => exact hmodify _
  | some b =>
    simp only [hk, Bool.true_or, if_true]
    rfl

theorem declareLexical_gives_iff {names : List LexicalName} (hscope : scope.index < s.scopes.size) :
    (∃ s', (declareLexical scope names).Gives m c s ⟨⟩ s') ↔
      (names.map (·.name)).Nodup ∧ ∀ n ∈ names, (s.scope scope).binds n.name = false := by
  induction names generalizing s with
  | nil => exact ⟨fun _ => ⟨.nil, nofun⟩, fun _ => ⟨s, rfl⟩⟩
  | cons n rest ih =>
    have hname : declareName scope n.name n.bindingKind n.span m c s = _ :=
      declareName_eq n.name n.span n.isLexical_bindingKind
    change (∃ s', (declareName scope n.name n.bindingKind n.span >>= fun _ => declareLexical scope rest).Gives
      m c s ⟨⟩ s') ↔ _
    rw [List.map_cons, List.nodup_cons, List.forall_mem_cons]
    cases hbinds : (s.scope scope).binds n.name with
    | true =>
      rw [hbinds, if_pos rfl] at hname
      refine ⟨fun ⟨s', h⟩ => ?_, fun h => by cases h.2.1⟩
      obtain ⟨_, _, hno, -⟩ := gives_bind.mp h
      rw [Gives, hname] at hno
      exact absurd hno gives_raise
    | false =>
      let declared := s.replaceScope scope { s.scope scope with
        bindings := (n.name, ⟨none, n.bindingKind⟩) :: (s.scope scope).bindings }
      rw [hbinds, if_neg Bool.false_ne_true] at hname
      have hrest : (∃ s', (declareName scope n.name n.bindingKind n.span >>= fun _ =>
          declareLexical scope rest).Gives m c s ⟨⟩ s') ↔
            ∃ s', (declareLexical scope rest).Gives m c declared ⟨⟩ s' :=
        exists_congr fun s' => gives_bind_value hname
      have hdeclared (name : String) : (declared.scope scope).binds name = false ↔
          name ≠ n.name ∧ (s.scope scope).binds name = false := by
        rw [State.scope_replace, if_pos ⟨rfl, hscope⟩, Scope.binds, Scope.binding?, List.lookup_cons]
        by_cases hn : name = n.name
        · simp [hn]
        · rw [beq_false_of_ne hn]
          exact ⟨fun h => ⟨hn, h⟩, And.right⟩
      have hsize : scope.index < declared.scopes.size := by simpa [declared, State.replaceScope] using hscope
      rw [hrest, ih hsize]
      simp only [hdeclared, List.mem_map, not_exists, not_and, true_and]
      constructor
      · rintro ⟨hnodup, hfree⟩
        exact ⟨⟨fun other hother => (hfree other hother).1, hnodup⟩, fun other hother => (hfree other hother).2⟩
      · rintro ⟨⟨hnew, hnodup⟩, hfree⟩
        exact ⟨hnodup, fun other hother => ⟨hnew other hother, hfree other hother⟩⟩

end Exec
end EcmaScript

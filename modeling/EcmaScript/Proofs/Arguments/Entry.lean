import EcmaScript.Proofs.Arguments.Action

/-! The entry of a function: its parameters get their values, and its arguments object is made of the
arguments. -/
namespace EcmaScript

namespace Scope
variable {sc : Scope} {name other : String} {v : Value} {args : Array Value}

theorem binding?_fill_ne (h : other ≠ name) : (sc.fill name v).binding? other = sc.binding? other := by
  unfold fill
  split
  · exact lookup_replace_ne h
  · rfl

theorem isSome_binding?_fill (h : (sc.binding? name).isSome = true) :
    ((sc.fill other v).binding? name).isSome = true := by
  unfold fill
  split
  · rename_i hb
    rw [binding?_replaced (by rw [hb]; rfl)]
    split
    · rfl
    · exact h
  · exact h

def filled (args : Array Value) (names : List String) (sc : Scope) (i : Nat) : Scope :=
  (names.foldl (fun (sc, i) name => (sc.fill name (argument args i), i + 1)) (sc, i)).1

theorem filled_cons {names : List String} {i : Nat} :
    filled args (name :: names) sc i = filled args names (sc.fill name (argument args i)) (i + 1) := rfl

theorem binding?_filled {names : List String} {i : Nat} (h : name ∉ names) :
    (filled args names sc i).binding? name = sc.binding? name := by
  induction names generalizing sc i with
  | nil => rfl
  | cons first names ih =>
    rw [List.mem_cons, not_or] at h
    rw [filled_cons, ih h.2, binding?_fill_ne h.1]

theorem value_filled_last {names : List String} {i n : Nat} (hbound : (sc.binding? name).isSome = true)
    (hn : names[n]? = some name) (hlast : name ∉ names.drop (n + 1)) :
    ((filled args names sc i).binding? name).bind (·.value) = some (argument args (i + n)) := by
  induction names generalizing sc i n with
  | nil => cases hn
  | cons first names ih =>
    rw [filled_cons]
    cases n with
    | zero =>
      obtain rfl : first = name := Option.some.inj hn
      have hlast : first ∉ names := hlast
      rw [binding?_filled hlast, value_filled hbound, if_pos rfl, Nat.add_zero]
    | succ n =>
      rw [ih (isSome_binding?_fill hbound) hn hlast, Nat.add_right_comm, Nat.add_assoc]

end Scope

theorem exists_last_of_mem {names : List String} {name : String} (h : name ∈ names) :
    ∃ n, names[n]? = some name ∧ name ∉ names.drop (n + 1) := by
  induction names with
  | nil => cases h
  | cons first names ih =>
    by_cases hmem : name ∈ names
    · obtain ⟨n, hn, hlast⟩ := ih hmem
      exact ⟨n + 1, hn, hlast⟩
    · obtain rfl := (List.mem_cons.mp h).resolve_right hmem
      exact ⟨0, rfl, hmem⟩

theorem mem_drop_of_getElem? {names : List String} {name : String} {n k : Nat} (h : names[k]? = some name)
    (hle : n ≤ k) : name ∈ names.drop n :=
  List.mem_of_getElem? (i := k - n) (by rw [List.getElem?_drop, Nat.add_sub_cancel' hle, h])

theorem boundNamesOf_take {params : List Pattern} (h : params.all Pattern.isSimple = true) (count : Nat) :
    boundNamesOf (params.take count) = (boundNamesOf params).take count := by
  induction params generalizing count with
  | nil => simp [boundNamesOf]
  | cons p rest ih =>
    rw [List.all_cons, Bool.and_eq_true] at h
    cases count with
    | zero => simp [boundNamesOf]
    | succ count =>
      cases p <;> simp_all [Pattern.isSimple, boundNamesOf, Pattern.boundNames]

/-- An element stands for the parameter at its place, if there is an argument for it, and its name is at no
later place before the last argument. -/
theorem sharedNames_eq_some {count n : Nat} {params : List Pattern} {name : String}
    (h : params.all Pattern.isSimple = true) :
    ((sharedNames count params)[n]?).join = some name ↔
      n < count ∧ (boundNamesOf params)[n]? = some name ∧ name ∉ ((boundNamesOf params).take count).drop (n + 1) := by
  induction params generalizing count n with
  | nil => cases count <;> simp [sharedNames, boundNamesOf]
  | cons p rest ih =>
    rw [List.all_cons, Bool.and_eq_true] at h
    obtain ⟨first, span, rfl⟩ : ∃ first span, p = .identifier first span := by
      cases p <;> simp_all [Pattern.isSimple]
    have hnames : boundNamesOf (.identifier first span :: rest) = first :: boundNamesOf rest := rfl
    rw [hnames]
    cases count with
    | zero => simp [sharedNames]
    | succ count =>
      cases n with
      | zero =>
        simp only [sharedNames, boundNamesOf_take h.2, List.getElem?_cons_zero, Option.join_some,
          List.take_succ_cons, List.drop_succ_cons, List.drop_zero, List.contains_iff_mem]
        by_cases hlater : first ∈ (boundNamesOf rest).take count
        · have hnot (hname : first = name) : name ∈ (boundNamesOf rest).take count := hname ▸ hlater
          simpa [hlater] using hnot
        · have hnot (hname : first = name) : name ∉ (boundNamesOf rest).take count := hname ▸ hlater
          simpa [hlater] using hnot
      | succ n =>
        simp only [sharedNames, List.getElem?_cons_succ, List.take_succ_cons, List.drop_succ_cons,
          Nat.add_lt_add_iff_right]
        exact ih h.2

namespace Exec

/-- Binds the parameters of a function and makes its arguments object. -/
def enterFunction (scope : ScopeId) (node : FunctionNode) (f : ObjectId) (args : Array Value) : Exec Unit := do
  let params := boundNamesOf node.params
  params.forM fun name => bindIn scope name .parameter none
  if needsArguments node params then
    let id ← argumentsObject scope f node args
    bindIn scope "arguments" .var (some (.object id))
  bindArguments scope node args

variable {m : Machine} {c : Context} {s s' : State} {id : ObjectId} {scope : ScopeId}
  {node : FunctionNode} {f : ObjectId} {args : Array Value}

theorem gives_bindNames {names : List String} {u : PUnit} (hlt : scope.index < s.scopes.size)
    (h : (names.forM fun name => bindIn scope name .parameter none : Exec PUnit).Gives m c s u s') :
    scope.index < s'.scopes.size ∧ ∀ name,
      name ∈ names ∨ ((s.scope scope).binding? name).isSome = true →
        ((s'.scope scope).binding? name).isSome = true := by
  induction names generalizing s with
  | nil =>
    obtain ⟨-, rfl⟩ := gives_pure.mp h
    exact ⟨hlt, fun name hname => hname.resolve_left (by simp)⟩
  | cons first names ih =>
    obtain ⟨s₁, hbind, hrest⟩ := gives_forM_cons.mp h
    have hbind := gives_change.mp hbind
    rw [State.scopes_modify] at hbind
    replace hbind : s₁ = s.replaceScope scope ((s.scope scope).bind first ⟨none, .parameter⟩) := hbind
    subst hbind
    obtain ⟨hlt', hbound⟩ := ih (by simpa [State.replaceScope] using hlt) hrest
    refine ⟨hlt', fun name hname => hbound name ?_⟩
    rw [State.scope_replace, if_pos ⟨rfl, hlt⟩, Scope.binding?_bind]
    by_cases hfirst : name = first
    · simp [hfirst]
    · simpa [hfirst] using hname

theorem gives_allocateArguments {shared : Option ArgumentMap} {prototype : Option ObjectId} {table : PropertyTable}
    {callee : Property} (htable : ∀ n, table.get? (.index n) = (args[n.val]?).map .plain)
    (h : (allocate { prototype, kind := .arguments shared, properties := table.put (.name "callee") callee }).Gives
      m c s id s') :
    s'.scopes = s.scopes ∧ (s'.object id).kind = .arguments shared ∧
      ∀ n, (s'.object id).own? (.index n) = (args[n.val]?).map .plain := by
  obtain ⟨rfl, rfl⟩ := gives_allocate.mp h
  rw [State.object_push, if_pos rfl]
  refine ⟨rfl, rfl, fun n => ?_⟩
  rw [Object.own?, PropertyTable.get?_put, if_neg (by simp), htable]

/-- The arguments object has the arguments as its elements, and shares them outside strict mode. -/
theorem gives_argumentsObject (hsimple : node.hasSimpleParams = true)
    (h : (argumentsObject scope f node args).Gives m c s id s') :
    s'.scopes = s.scopes ∧
      (s'.object id).kind = .arguments
        (if c.strict then none else some ⟨scope, (sharedNames args.size node.params).toArray⟩) ∧
      ∀ n, (s'.object id).own? (.index n) = (args[n.val]?).map .plain := by
  have h := gives_intrinsics_bind.mp h
  have h := gives_context_bind.mp h
  have h := gives_look_bind.mp h
  have hlength (n : ArrayIndex) : ((PropertyTable.ofItems args).put (.name "length")
      (.standard (.ofNat args.size))).get? (.index n) = (args[n.val]?).map Property.plain := by
    rw [PropertyTable.get?_put, if_neg (by simp), PropertyTable.get?_ofItems]
  have hiterator (values : Value) (n : ArrayIndex) : (((PropertyTable.ofItems args).put (.name "length")
      (.standard (.ofNat args.size))).put (.symbol .iterator) (.standard values)).get? (.index n) =
        (args[n.val]?).map Property.plain := by
    rw [PropertyTable.get?_put, if_neg (by simp), hlength]
  cases hstrict : c.strict with
  | false =>
    simp only [hstrict, hsimple, Bool.not_false, Bool.and_self, if_true] at h
    obtain ⟨callee, s₁, hcallee, hnew⟩ := gives_bind.mp h
    obtain ⟨-, rfl⟩ := gives_pure.mp hcallee
    exact gives_allocateArguments (fun n => by split; exacts [hiterator _ n, hlength n]) hnew
  | true =>
    simp only [hstrict, Bool.not_true, Bool.false_and, Bool.false_eq_true, if_false] at h
    obtain ⟨refuse, s₁, hrefuse, h⟩ := gives_bind.mp h
    obtain ⟨callee, s₂, hcallee, hnew⟩ := gives_bind.mp h
    obtain ⟨-, rfl⟩ := gives_pure.mp hcallee
    obtain ⟨g, s₃, hg, hdone⟩ := gives_bind.mp hrefuse
    obtain ⟨-, rfl⟩ := gives_pure.mp hdone
    obtain ⟨-, rfl⟩ := gives_allocate.mp (gives_intrinsics_bind.mp hg)
    have hmade := gives_allocateArguments (fun n => by split; exacts [hiterator _ n, hlength n]) hnew
    rw [if_pos rfl]
    exact hmade

/-- After the entry of a function, its arguments object has the arguments as its elements, and each
parameter has the argument at the last place of its name. -/
theorem gives_entry {u : Unit} (hscope : scope.index < s.scopes.size) (hsimple : node.hasSimpleParams = true)
    (hneeds : needsArguments node (boundNamesOf node.params) = true)
    (h : (enterFunction scope node f args).Gives m c s u s') :
    ∃ id, s'.bound? scope "arguments" = some (.object id) ∧
      (s'.object id).kind = .arguments
        (if c.strict then none else some ⟨scope, (sharedNames args.size node.params).toArray⟩) ∧
      (∀ n, (s'.object id).own? (.index n) = (args[n.val]?).map .plain) ∧
      ∀ n name, (boundNamesOf node.params)[n]? = some name → name ∉ (boundNamesOf node.params).drop (n + 1) →
        s'.bound? scope name = some (argument args n) := by
  obtain ⟨_, s₁, hnames, h⟩ := gives_bind.mp h
  obtain ⟨hlt₁, hbound₁⟩ := gives_bindNames hscope hnames
  rw [if_pos hneeds] at h
  obtain ⟨id, s₂, hobject, h⟩ := gives_bind.mp h
  obtain ⟨hscopes₂, hkind₂, hown₂⟩ := gives_argumentsObject hsimple hobject
  obtain ⟨_, s₃, hbind, h⟩ := gives_bind.mp h
  have hbind := gives_change.mp hbind
  rw [State.scopes_modify] at hbind
  replace hbind : s₃ = s₂.replaceScope scope ((s₂.scope scope).bind "arguments" ⟨some (.object id), .var⟩) := hbind
  have hlt₂ : scope.index < s₂.scopes.size := by rw [hscopes₂]; exact hlt₁
  have hscope₂ : s₂.scope scope = s₁.scope scope := by rw [State.scope, hscopes₂, State.scope]
  have hscope₃ : s₃.scope scope = (s₁.scope scope).bind "arguments" ⟨some (.object id), .var⟩ := by
    rw [hbind, State.scope_replace, if_pos ⟨rfl, hlt₂⟩, hscope₂]
  have hlt₃ : scope.index < s₃.scopes.size := by simpa [hbind, State.replaceScope] using hlt₂
  rw [bindArguments, if_pos hsimple] at h
  have hfill := gives_change.mp h
  rw [State.scopes_modify] at hfill
  replace hfill : s' = s₃.replaceScope scope
      (Scope.filled args (boundNamesOf node.params) (s₃.scope scope) 0) := hfill
  have hvalue (name : String) : s'.bound? scope name =
      ((Scope.filled args (boundNamesOf node.params) (s₃.scope scope) 0).binding? name).bind (·.value) := by
    rw [hfill, State.bound?_replaceScope hlt₃]
  have hobject' : s'.object id = s₂.object id := by
    rw [hfill, hbind]
    rfl
  refine ⟨id, ?_, by rw [hobject', hkind₂], fun n => by rw [hobject', hown₂], fun n name hn hlast => ?_⟩
  · have hnot : "arguments" ∉ boundNamesOf node.params := by
      intro hmem
      simp [needsArguments, hmem] at hneeds
    rw [hvalue, Scope.binding?_filled hnot, hscope₃, Scope.binding?_bind, if_pos rfl]
    rfl
  · have hbound : ((s₃.scope scope).binding? name).isSome = true := by
      rw [hscope₃, Scope.binding?_bind]
      split
      · rfl
      · exact hbound₁ name (.inl (List.mem_of_getElem? hn))
    rw [hvalue, Scope.value_filled_last hbound hn hlast, Nat.zero_add]

/-- After its entry, the arguments object of a function shares its elements with the parameters. -/
theorem gives_enterFunction {u : Unit} (hscope : scope.index < s.scopes.size) (hstrict : c.strict = false)
    (hsimple : node.hasSimpleParams = true)
    (hneeds : needsArguments node (boundNamesOf node.params) = true)
    (h : (enterFunction scope node f args).Gives m c s u s') :
    ∃ id, s'.bound? scope "arguments" = some (.object id) ∧ s'.Shares id scope ∧
      (s'.sharing id scope).Coherent ∧
      ∀ n, s'.standsFor? id n = ((sharedNames args.size node.params)[n.val]?).join := by
  obtain ⟨id, hid, hkind, hown, hvalue⟩ := gives_entry hscope hsimple hneeds h
  rw [hstrict, if_neg Bool.false_ne_true] at hkind
  have hstands (n : ArrayIndex) :
      s'.standsFor? id n = ((sharedNames args.size node.params)[n.val]?).join := by
    simp [State.standsFor?, Object.standsFor?, hkind, ArgumentMap.parameter?]
  refine ⟨id, hid, ⟨_, hkind, rfl⟩, ⟨fun n name hn => ?_, fun n name hn => ?_⟩, hstands⟩
  · obtain ⟨hsize, -, -⟩ := (sharedNames_eq_some hsimple).mp ((hstands n).symm.trans hn)
    refine ⟨args[n.val], true, true, (hown n).trans ?_⟩
    rw [Array.getElem?_eq_getElem hsize]
    rfl
  · obtain ⟨-, hname, -⟩ := (sharedNames_eq_some hsimple).mp ((hstands n).symm.trans hn)
    obtain ⟨k, hk, hlast⟩ := exists_last_of_mem (List.mem_of_getElem? hname)
    exact Option.isSome_of_eq_some (hvalue k name hk hlast)

/-- Right after the entry, each element is the argument at its place. An exception is one that stands for a
parameter whose name is repeated where there is no argument any more: it is `undefined`, as the parameter
is. -/
theorem gives_entry_reported {u : Unit} (hscope : scope.index < s.scopes.size)
    (hsimple : node.hasSimpleParams = true)
    (hneeds : needsArguments node (boundNamesOf node.params) = true)
    (h : (enterFunction scope node f args).Gives m c s u s') :
    ∃ id, s'.bound? scope "arguments" = some (.object id) ∧ ∀ n : ArrayIndex,
      s'.ownProperty? id (.index n) = (args[n.val]?).map .plain ∨
        s'.ownProperty? id (.index n) = some (.plain .undefined) ∧ c.strict = false ∧
          n.val < args.size ∧ ∃ name ∈ (boundNamesOf node.params).drop args.size,
            (boundNamesOf node.params)[n.val]? = some name := by
  obtain ⟨id, hid, hkind, hown, hvalue⟩ := gives_entry hscope hsimple hneeds h
  refine ⟨id, hid, fun n => ?_⟩
  cases hstrict : c.strict with
  | true =>
    rw [hstrict, if_pos rfl] at hkind
    exact .inl (by simp only [State.ownProperty?, hkind, hown])
  | false =>
    rw [hstrict, if_neg Bool.false_ne_true] at hkind
    have hshares : s'.Shares id scope := ⟨_, hkind, rfl⟩
    have hstands : s'.standsFor? id n = ((sharedNames args.size node.params)[n.val]?).join := by
      simp [State.standsFor?, Object.standsFor?, hkind, ArgumentMap.parameter?]
    rw [hshares.ownProperty?]
    cases hname : s'.standsFor? id n with
    | none => exact .inl (by simp [Sharing.reported, State.sharing, hname, hown])
    | some name =>
      obtain ⟨hn, hparam, hlater⟩ := (sharedNames_eq_some hsimple).mp (hstands.symm.trans hname)
      obtain ⟨k, hk, hlast⟩ := exists_last_of_mem (List.mem_of_getElem? hparam)
      have hreported : (s'.sharing id scope).reported n = some (.plain (argument args k)) := by
        have hbound := hvalue k name hk hlast
        have helement := (hown n).trans (by rw [Array.getElem?_eq_getElem hn, Option.map_some])
        simp only [Sharing.reported, State.sharing, hname, Option.bind_some, hbound, helement]
        rfl
      rcases Nat.lt_or_ge k args.size with hsize | hsize
      · -- The last place of the name has an argument, so it is this one.
        have hk' : ((boundNamesOf node.params).take args.size)[k]? = some name := by
          rw [List.getElem?_take_of_lt hsize, hk]
        have hle : k ≤ n.val := Nat.le_of_not_lt fun hlt => hlater (mem_drop_of_getElem? hk' hlt)
        have hge : n.val ≤ k := Nat.le_of_not_lt fun hlt => hlast (mem_drop_of_getElem? hparam hlt)
        obtain rfl : k = n.val := Nat.le_antisymm hle hge
        refine .inl (hreported.trans ?_)
        rw [argument, Array.getElem?_eq_getElem hsize]
        rfl
      · refine .inr ⟨hreported.trans ?_, rfl, hn, name, mem_drop_of_getElem? hk hsize, hparam⟩
        rw [argument, Array.getElem?_eq_none hsize]
        rfl

/-- Where no parameter that has an argument is named again after the last argument, the arguments object
starts as the arguments. -/
theorem gives_entry_arguments {u : Unit} (hscope : scope.index < s.scopes.size)
    (hsimple : node.hasSimpleParams = true)
    (hneeds : needsArguments node (boundNamesOf node.params) = true)
    (hnames : ∀ name ∈ (boundNamesOf node.params).take args.size,
      name ∉ (boundNamesOf node.params).drop args.size)
    (h : (enterFunction scope node f args).Gives m c s u s') :
    ∃ id, s'.bound? scope "arguments" = some (.object id) ∧
      ∀ n : ArrayIndex, s'.ownProperty? id (.index n) = (args[n.val]?).map .plain := by
  obtain ⟨id, hid, hreported⟩ := gives_entry_reported hscope hsimple hneeds h
  refine ⟨id, hid, fun n => (hreported n).resolve_right ?_⟩
  rintro ⟨-, -, hn, name, hlater, hparam⟩
  have hname : ((boundNamesOf node.params).take args.size)[n.val]? = some name := by
    rw [List.getElem?_take_of_lt hn, hparam]
  exact hnames name (List.mem_of_getElem? hname) hlater

/-- So it does when all parameters have different names. -/
theorem gives_entry_distinct {u : Unit} (hscope : scope.index < s.scopes.size)
    (hsimple : node.hasSimpleParams = true)
    (hneeds : needsArguments node (boundNamesOf node.params) = true)
    (hdistinct : (boundNamesOf node.params).Nodup)
    (h : (enterFunction scope node f args).Gives m c s u s') :
    ∃ id, s'.bound? scope "arguments" = some (.object id) ∧
      ∀ n : ArrayIndex, s'.ownProperty? id (.index n) = (args[n.val]?).map .plain := by
  refine gives_entry_arguments hscope hsimple hneeds (fun name hname hlater => ?_) h
  rw [← List.take_append_drop args.size (boundNamesOf node.params)] at hdistinct
  exact (List.nodup_append.mp hdistinct).2.2 name hname name hlater rfl

end Exec
end EcmaScript

/-! Elements of an arguments object alias parameters from the entry of the function on, for as long as
they stand for them. -/
namespace EcmaScript
open Exec

/-- What code does to an arguments object and to the parameters of its function. -/
inductive ArgumentsAction where
  | assign (name : String) (v : Value) (strict : Bool)
  /-- A function that is declared under the name of a parameter. -/
  | bind (name : String) (kind : BindingKind) (v : Value)
  | set (key : PropertyKey) (v : Value)
  | define (key : PropertyKey) (d : Descriptor)
  | delete (key : PropertyKey)
  | preventExtensions

namespace ArgumentsAction

def run (id : ObjectId) (scope : ScopeId) : ArgumentsAction → Exec Bool
  | assign name v strict => do assignIn scope name v strict; return true
  | bind name kind v => do bindIn scope name kind (some v); return true
  | set key v => Exec.set id key v
  | define key d => Exec.define id key d
  | delete key => Exec.delete id key
  | preventExtensions => Exec.preventExtensions id

/-- The property that an action is about. -/
def key? : ArgumentsAction → Option PropertyKey
  | set key _ | define key _ | delete key => some key
  | _ => none

/-- The value that an action brings. -/
def value? : ArgumentsAction → Option Value
  | assign _ v _ | bind _ _ v | set _ v => some v
  | define _ d => d.value
  | _ => none

def Fits (s : State) (id : ObjectId) (a : ArgumentsAction) : Prop :=
  ∀ key v, a = set key v → s.Stores id key

end ArgumentsAction

/-- What is done after a function has been entered: actions, and other things that leave the arguments
object and the names of the scope alone. -/
inductive State.Handles (id : ObjectId) (scope : ScopeId) (s : State) : State → Prop where
  | refl : Handles id scope s s
  | act {s₁ s₂ : State} {m : Machine} {c : Context} {b : Bool} (h : Handles id scope s s₁)
    (a : ArgumentsAction) (ha : a.Fits s₁ id) (hrun : (a.run id scope).Gives m c s₁ b s₂) :
    Handles id scope s s₂
  | aside {s₁ s₂ : State} (h : Handles id scope s s₁) (hk : (s₂.object id).kind = (s₁.object id).kind)
    (hown : (s₂.object id).own? = (s₁.object id).own?) (hbound : s₂.bound? scope = s₁.bound? scope) :
    Handles id scope s s₂

section
variable {m : Machine} {c : Context} {s s' s₁ : State} {id : ObjectId} {scope : ScopeId} {b : Bool}

theorem ArgumentsAction.changes {a : ArgumentsAction} (ha : a.Fits s id) (hs : s.Shares id scope)
    (hc : (s.sharing id scope).Coherent) (h : (a.run id scope).Gives m c s b s') :
    Changes id scope s a.key? a.value? b s' := by
  cases a with
  | assign name v strict =>
    obtain ⟨_, s₁, hassign, hdone⟩ := gives_bind.mp h
    obtain ⟨rfl, rfl⟩ := gives_pure.mp hdone
    exact changes_assign hs hassign
  | bind name kind v =>
    obtain ⟨_, s₁, hbind, hdone⟩ := gives_bind.mp h
    obtain ⟨rfl, rfl⟩ := gives_pure.mp hdone
    exact changes_bindIn hs hbind
  | set key v => exact changes_set hs hc (ha key v rfl) h
  | define key d => exact changes_define hs hc h
  | delete key => exact changes_delete hs hc h
  | preventExtensions => exact changes_preventExtensions hs h

theorem State.Handles.coherent (h : s.Handles id scope s') (hs : s.Shares id scope)
    (hc : (s.sharing id scope).Coherent) : s'.Shares id scope ∧ (s'.sharing id scope).Coherent := by
  induction h with
  | refl => exact ⟨hs, hc⟩
  | act _ a ha hrun ih =>
    have hchanges := a.changes ha ih.1 ih.2 hrun
    exact ⟨hchanges.shares, ih.2.change hchanges.change⟩
  | @aside s₁ s₂ _ hk hown hbound ih =>
    obtain ⟨shared, hkind, hscope⟩ := ih.1
    have hstands : s₂.standsFor? id = s₁.standsFor? id := by
      funext n
      rw [State.standsFor?, State.standsFor?, Object.standsFor?, Object.standsFor?, hk]
    have hsame : s₂.sharing id scope = s₁.sharing id scope := by
      rw [State.sharing, State.sharing, hstands, hown, hbound]
    exact ⟨⟨shared, hk.trans hkind, hscope⟩, hsame ▸ ih.2⟩

theorem State.Handles.trans (h : s.Handles id scope s₁) (h' : s₁.Handles id scope s') :
    s.Handles id scope s' := by
  induction h' with
  | refl => exact h
  | act _ a ha hrun ih => exact ih.act a ha hrun
  | aside _ hk hown hbound ih => exact ih.aside hk hown hbound

/-- One property after the other is sealed or frozen. -/
theorem handles_integrity {level : Integrity} {keys : List PropertyKey} {u : PUnit}
    (hs : s.Shares id scope) (hc : (s.sharing id scope).Coherent)
    (h : (keys.forM fun key => do
      let frozenData ← if level == .frozen then
          pure (((← getOwn id key).map (!·.isAccessor)).getD false)
        else pure false
      defineOrThrow id key
        { configurable := some false, writable := if frozenData then some false else none } :
          Exec PUnit).Gives m c s u s') : s.Handles id scope s' := by
  induction keys generalizing s with
  | nil =>
    obtain ⟨-, rfl⟩ := gives_pure.mp h
    exact .refl
  | cons key keys ih =>
    obtain ⟨s₁, hkey, hrest⟩ := gives_forM_cons.mp h
    have hdefine : ∃ d, (define id key d).Gives m c s true s₁ := by
      cases level with
      | sealed =>
        exact ⟨_, gives_defineOrThrow hkey⟩
      | frozen =>
        obtain ⟨data, s₂, hdata, hkey⟩ := gives_bind.mp hkey
        obtain ⟨rfl, rfl⟩ := (gives_value (getOwn_ordinary hs.isProxy)).mp hdata
        exact ⟨_, gives_defineOrThrow hkey⟩
    obtain ⟨d, hd⟩ := hdefine
    have hstep : s.Handles id scope s₁ := State.Handles.refl.act (.define key d) nofun hd
    obtain ⟨hs₁, hc₁⟩ := hstep.coherent hs hc
    exact hstep.trans (ih hs₁ hc₁ hrest)

theorem handles_setIntegrity {level : Integrity} (hs : s.Shares id scope)
    (hc : (s.sharing id scope).Coherent) (h : (setIntegrity id level).Gives m c s b s') :
    s.Handles id scope s' := by
  obtain ⟨closed, s₁, hclose, h⟩ := gives_bind.mp h
  have hstep : s.Handles id scope s₁ := State.Handles.refl.act .preventExtensions nofun hclose
  obtain ⟨hs₁, hc₁⟩ := hstep.coherent hs hc
  cases closed with
  | false =>
    obtain ⟨-, rfl⟩ := gives_pure.mp h
    exact hstep
  | true =>
    have h := (gives_bind_value (ownKeys_ordinary hs₁.isProxy)).mp h
    obtain ⟨_, s₂, hkeys, hdone⟩ := gives_bind.mp h
    obtain ⟨-, rfl⟩ := gives_pure.mp hdone
    exact hstep.trans (handles_integrity hs₁ hc₁ hkeys)

end

/-- Elements of the arguments object alias parameters. From the entry of a function on, whatever is
assigned, defined, deleted, sealed or frozen, an element that stands for a parameter is writable data of
its own with the value of the parameter. It stands for the parameter until it is deleted, made an accessor
or made read-only, with the value that it is given then or the last one; and from then on the element and
the parameter do not concern each other. -/
theorem arguments_alias {m : Machine} {c : Context} {s₀ s : State} {scope : ScopeId} {node : FunctionNode}
    {f : ObjectId} {args : Array Value} (hscope : scope.index < s₀.scopes.size) (hstrict : c.strict = false)
    (hsimple : node.hasSimpleParams = true)
    (hneeds : needsArguments node (boundNamesOf node.params) = true)
    (henter : (enterFunction scope node f args).Gives m c s₀ () s) :
    ∃ id, s.bound? scope "arguments" = some (.object id) ∧
      (∀ n, s.standsFor? id n = ((sharedNames args.size node.params)[n.val]?).join) ∧
      ∀ s₁, s.Handles id scope s₁ →
        (∀ n name, s₁.standsFor? id n = some name → ∃ v e c,
          (s₁.object id).own? (.index n) ≠ none ∧ s₁.bound? scope name = some v ∧
            s₁.ownProperty? id (.index n) = some (.data v true e c)) ∧
        (∀ n, (s₁.sharing id scope).reported n = s₁.ownProperty? id (.index n)) ∧
        (∀ (a : ArgumentsAction) m c b s₂, a.Fits s₁ id → (a.run id scope).Gives m c s₁ b s₂ →
          (s₁.sharing id scope).Leaves a.key? a.value? b (s₂.sharing id scope)) ∧
        ∀ level m c b s₂, (setIntegrity id level).Gives m c s₁ b s₂ → s.Handles id scope s₂ := by
  obtain ⟨id, hid, hs, hc, hstands⟩ := gives_enterFunction hscope hstrict hsimple hneeds henter
  refine ⟨id, hid, hstands, fun s₁ hhandles => ?_⟩
  obtain ⟨hs₁, hc₁⟩ := hhandles.coherent hs hc
  refine ⟨fun n name hn => ?_, fun n => hs₁.ownProperty?.symm, fun a m c b s₂ ha hrun => ?_,
    fun level m c b s₂ h => hhandles.trans (handles_setIntegrity hs₁ hc₁ h)⟩
  · obtain ⟨w, e, c, hown⟩ := hc₁.own n name hn
    obtain ⟨v, e, c, hv, hreported⟩ := hc₁.reported hn
    refine ⟨v, e, c, fun hnone => ?_, hv, hs₁.ownProperty?.trans hreported⟩
    cases hown.symm.trans hnone
  · exact hc₁.leaves (a.changes ha hs₁ hc₁ hrun).change

/-- A function with one parameter, which is called with one argument. -/
theorem arguments_alias_single : ∃ (node : FunctionNode) (s₀ s : State) (id : ObjectId),
    (enterFunction ⟨0⟩ node ⟨0⟩ #[.null]).Gives (machine 0) default s₀ () s ∧
    s.standsFor? id ⟨0, by decide⟩ = some "x" ∧
    ∀ s₁, s.Handles id ⟨0⟩ s₁ → ∀ n name, s₁.standsFor? id n = some name →
      ∃ v e c, s₁.bound? ⟨0⟩ name = some v ∧ s₁.ownProperty? id (.index n) = some (.data v true e c) := by
  let node : FunctionNode := .mk none [.identifier "x" nowhere] [] .normal false false false nowhere
  let s₀ : State := { (default : State) with scopes := #[{ kind := .block, parent := none }] }
  have henter : (enterFunction ⟨0⟩ node ⟨0⟩ #[.null]).Gives (machine 0) default s₀ () _ := rfl
  obtain ⟨id, -, hstands, halias⟩ := arguments_alias (by decide) rfl rfl rfl henter
  refine ⟨node, s₀, _, id, henter, hstands _, fun s₁ h n name hn => ?_⟩
  obtain ⟨v, e, c, -, hv⟩ := (halias s₁ h).1 n name hn
  exact ⟨v, e, c, hv⟩

end EcmaScript

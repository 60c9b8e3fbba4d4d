import EcmaScript.Proofs.Bound
import EcmaScript.Proofs.Realm.Integrity
import Mathlib.Data.Multiset.DershowitzManna

/-! Whether a dry run allows a call is always found out. Bound functions put their own arguments in front of
those of a call, and `call` and `apply` move arguments into the place of the function, so neither the
arguments nor the functions inside one another need become fewer. But nothing takes the place of an object
except objects that are older. -/
namespace EcmaScript

/-- A call that a dry run looks at. -/
structure Invocation where
  f : ObjectId
  this : Value
  args : List Value

def Value.ages (vs : List Value) : Multiset Nat := (vs.filterMap fun v => v.object?.map ObjectId.index : List Nat)

/-- Whether a value is an object that was there before a dry run. -/
def Value.outlives (first : Nat) : Value → Bool
  | .object id => id.index < first
  | _ => false

namespace Value
variable {id : ObjectId} {v : Value} {vs vs' : List Value}

theorem ages_append : ages (vs ++ vs') = ages vs + ages vs' := by simp [ages]

theorem ages_cons : ages (v :: vs) = ages [v] + ages vs := @ages_append [v] vs

theorem ages_object : ages [.object id] = {id.index} := rfl

theorem mem_ages {age : Nat} : age ∈ ages vs ↔ ∃ id, .object id ∈ vs ∧ id.index = age := by
  simp only [ages, Multiset.mem_coe, List.mem_filterMap, Option.map_eq_some_iff]
  constructor
  · rintro ⟨v, hv, id, hid, rfl⟩
    cases v with
    | object => exact ⟨id, Option.some.inj hid ▸ hv, rfl⟩
    | _ => cases hid
  · rintro ⟨id, hid, rfl⟩
    exact ⟨_, hid, id, rfl, rfl⟩

theorem ages_headD : ages (vs.headD .undefined :: vs.tail) = ages vs := by
  cases vs <;> rfl

end Value

def Invocation.ages (i : Invocation) : Multiset Nat := {i.f.index} + Value.ages (i.this :: i.args)

namespace State
variable (s : State) (table : EffectTable) (first : Nat)

/-- Why a call is refused before anything is looked at that it calls in turn. -/
def objection? (i : Invocation) : Option String :=
  match (s.object i.f).kind with
  | .function (.native name _) =>
    let name := if name = "" then "anonymous function" else name
    match table.lookup i.f with
    | none => some ("call to " ++ name ++ " may have side effects")
    | some flags =>
      if !flags.pure then some ("call to " ++ name ++ " may have side effects")
      else if (flags.changesReceiver && i.this.outlives first)
          || (flags.changesArgument && (i.args.headD .undefined).outlives first) then
        some (name ++ " would modify an object that outlives the evaluation")
      else none
  | _ => none

/-- The calls that a call makes in turn, in the order in which they are looked at. -/
def callees (i : Invocation) : List Invocation :=
  match (s.object i.f).kind with
  | .function (.bound target this args) => [⟨target, this, args.toList ++ i.args⟩]
  | .function (.native _ _) =>
    match table.lookup i.f with
    | none => []
    | some flags =>
      (match flags.callsArgument, i.args with
        | true, .object callback :: _ => [⟨callback, .undefined, []⟩]
        | _, _ => []) ++
      match flags.callsReceiver, i.this with
        | true, .object target => [⟨target, i.args.headD .undefined, i.args.tail⟩]
        | _, _ => []
  | _ => []

def search? (fuel : Nat) (i : Invocation) : Option String := s.refusal? table first fuel i.f i.this i.args

/-- The verdict on some calls, each of which is looked at before the next, and what it calls in turn in
between. -/
inductive Decides : List Invocation → Option String → Prop where
  | done : Decides [] none
  | refused {i : Invocation} {calls : List Invocation} {why : String}
    (h : s.objection? table first i = some why) : Decides (i :: calls) (some why)
  | passed {i : Invocation} {calls : List Invocation} {verdict : Option String}
    (h : s.objection? table first i = none) (hrest : Decides (s.callees table i ++ calls) verdict) :
    Decides (i :: calls) verdict

variable {s table first} {i j : Invocation} {calls : List Invocation} {verdict : Option String}
  {fuel : Nat}

theorem search?_succ : s.search? table first (fuel + 1) i =
    (s.objection? table first i).or ((s.callees table i).findSome? (s.search? table first fuel)) := by
  obtain ⟨f, this, args⟩ := i
  rw [search?, refusal?, objection?, callees]
  generalize (s.object f).kind = kind
  cases kind with
  | function callable =>
    cases callable with
    | closure => rfl
    | bound => exact List.findSome?_singleton.symm
    | native name =>
      dsimp only
      cases table.lookup f with
      | none => rfl
      | some flags =>
        dsimp only
        by_cases hpure : (!flags.pure) = true
        · rw [if_pos hpure, if_pos hpure]
          rfl
        rw [if_neg hpure, if_neg hpure]
        by_cases hold : (flags.changesReceiver && this.outlives first ||
            flags.changesArgument && (args.headD .undefined).outlives first) = true
        · rw [if_pos hold]
          exact if_pos hold
        rw [if_neg hold, Option.none_or, List.findSome?_append]
        refine (if_neg hold).trans (congrArg₂ Option.or ?_ ?_)
        · cases flags.callsArgument with
          | false => rfl
          | true =>
            cases args with
            | nil => rfl
            | cons v => cases v <;> simp [search?]
        · cases flags.callsReceiver with
          | false => rfl
          | true => cases this <;> simp [search?]
  | _ => rfl

theorem ages_callees (h : s.BindsOlder) (hj : j ∈ s.callees table i) : j.ages.IsDershowitzMannaLT i.ages := by
  obtain ⟨f, this, args⟩ := i
  unfold callees at hj
  dsimp only at hj
  split at hj
  · next target own ownArgs hkind =>
    obtain rfl := List.mem_singleton.mp hj
    obtain ⟨htarget, hown, hargs⟩ := h f target own ownArgs hkind
    refine ⟨Value.ages args, {target.index} + Value.ages (own :: ownArgs.toList), {f.index} + Value.ages [this],
      by simp, ?_, ?_, fun age hage => ⟨f.index, by simp, ?_⟩⟩
    · rw [Invocation.ages, ← List.cons_append, Value.ages_append]
      abel
    · rw [Invocation.ages, Value.ages_cons]
      abel
    · obtain hage | hage := Multiset.mem_add.mp hage
      · rw [Multiset.mem_singleton.mp hage]
        exact htarget
      · obtain ⟨id, hid, rfl⟩ := Value.mem_ages.mp hage
        obtain rfl | hid := List.mem_cons.mp hid
        · exact hown
        · exact hargs _ (Array.mem_toList_iff.mp hid)
  · split at hj
    · cases hj
    · next flags _ =>
      obtain hj | hj := List.mem_append.mp hj
      · split at hj
        · next callback rest _ _ =>
          obtain rfl := List.mem_singleton.mp hj
          refine ⟨{callback.index}, 0, {f.index} + Value.ages [this] + Value.ages rest, by simp, ?_, ?_, by simp⟩
          · rfl
          · rw [Invocation.ages, Value.ages_cons, @Value.ages_cons _ rest, Value.ages_object]
            abel
        · cases hj
      · split at hj
        · next target _ _ =>
          obtain rfl := List.mem_singleton.mp hj
          refine ⟨{target.index} + Value.ages args, 0, {f.index}, by simp, ?_, ?_, by simp⟩
          · rw [Invocation.ages, Value.ages_headD, add_zero]
          · rw [Invocation.ages, Value.ages_cons, Value.ages_object]
            abel
        · cases hj
  · cases hj

theorem callees_wellFounded (h : s.BindsOlder) (table : EffectTable) :
    WellFounded fun j i => j ∈ s.callees table i :=
  Subrelation.wf (ages_callees h) (InvImage.wf Invocation.ages Multiset.wellFounded_isDershowitzMannaLT)

theorem exists_decides (h : s.BindsOlder) (table : EffectTable) (first : Nat) (calls : List Invocation) :
    ∃ verdict, s.Decides table first calls verdict := by
  have hcons (i : Invocation) : ∀ calls, (∃ verdict, s.Decides table first calls verdict) →
      ∃ verdict, s.Decides table first (i :: calls) verdict := by
    induction i using (callees_wellFounded h table).induction with
    | _ i ih =>
      intro calls hcalls
      cases hobjection : s.objection? table first i with
      | some why => exact ⟨_, .refused hobjection⟩
      | none =>
        have hcallees : ∀ js ⊆ s.callees table i, ∃ verdict, s.Decides table first (js ++ calls) verdict := by
          intro js hjs
          induction js with
          | nil => exact hcalls
          | cons j js ihjs =>
            obtain ⟨hj, hjs⟩ := List.cons_subset.mp hjs
            exact ih j hj _ (ihjs hjs)
        obtain ⟨verdict, hverdict⟩ := hcallees _ (List.Subset.refl _)
        exact ⟨verdict, .passed hobjection hverdict⟩
  induction calls with
  | nil => exact ⟨none, .done⟩
  | cons i calls ih => exact hcons i calls ih

theorem Decides.search? (h : s.Decides table first calls verdict) :
    ∃ n, ∀ fuel ≥ n, calls.findSome? (s.search? table first fuel) = verdict := by
  induction h with
  | done => exact ⟨0, fun _ _ => rfl⟩
  | @refused i calls why h =>
    refine ⟨1, fun fuel hfuel => ?_⟩
    obtain ⟨fuel, rfl⟩ := Nat.exists_eq_add_one.mpr hfuel
    rw [List.findSome?_cons, search?_succ, h, Option.some_or]
  | @passed i calls verdict h _ ih =>
    obtain ⟨n, hn⟩ := ih
    refine ⟨n + 1, fun fuel hfuel => ?_⟩
    obtain ⟨fuel, rfl⟩ := Nat.exists_eq_add_one.mpr (Nat.zero_lt_of_lt hfuel)
    have hless := hn fuel (by omega)
    have hmore := hn (fuel + 1) (by omega)
    rw [List.findSome?_append] at hless hmore
    rw [List.findSome?_cons, search?_succ, h, Option.none_or]
    cases hcallees : (s.callees table i).findSome? (s.search? table first fuel) with
    | some why =>
      rw [hcallees] at hless
      exact hless
    | none =>
      -- Calls that are allowed stay so.
      have hallowed : (s.callees table i).findSome? (s.search? table first (fuel + 1)) = none := by
        rw [List.findSome?_eq_none_iff] at hcallees ⊢
        exact fun j hj => refusal?_succ (hcallees j hj)
      rw [hallowed, Option.none_or] at hmore
      exact hmore

theorem Decides.unique {verdict' : Option String} (h : s.Decides table first calls verdict)
    (h' : s.Decides table first calls verdict') : verdict = verdict' := by
  obtain ⟨n, hn⟩ := h.search?
  obtain ⟨n', hn'⟩ := h'.search?
  exact (hn _ (Nat.le_max_left n n')).symm.trans (hn' _ (Nat.le_max_right n n'))

end State

namespace Exec
variable {c : Context} {s : State} {f : ObjectId} {this : Value} {args : Array Value} {fuel : Nat}
  {table : Nat}

theorem checkCall_search (heffects : c.effects = some table) :
    checkCall f this args (machine (fuel + 1)) c s =
      ((s.search? (s.effectTables.getD table []) c.firstObject fuel ⟨f, this, args.toList⟩).elim (pure ())
        refuseEffect) (machine (fuel + 1)) c s := by
  rw [checkCall, bind_value (show context _ c s = .value c s from rfl), heffects]
  dsimp only
  rw [bind_value (show Exec.fuel (machine (fuel + 1)) c s = .value fuel s from rfl),
    bind_value (show look _ (machine (fuel + 1)) c s = .value _ s from rfl), State.search?]
  cases s.refusal? (s.effectTables.getD table []) c.firstObject fuel f this args.toList <;> rfl

/-- In every state that operations lead to in a realm, bound functions refer to what is older than they are, and
whatever is called, a dry run finds out whether it allows the call. -/
theorem checkCall_terminates {r : Realm} (hr : r.Reachable) (hs : r.Visits s) :
    s.BindsOlder ∧ (∀ table, WellFounded fun j i => j ∈ s.callees table i) ∧
    ∀ (c : Context) (f : ObjectId) (this : Value) (args : Array Value),
      match c.effects with
      | none => ∀ n, checkCall f this args (machine n) c s = .value () s
      | some table => ∃ verdict,
        s.Decides (s.effectTables.getD table []) c.firstObject [⟨f, this, args.toList⟩] verdict ∧
        ∃ n, ∀ k ≥ n, checkCall f this args (machine k) c s =
          (verdict.elim (pure ()) refuseEffect) (machine k) c s := by
  obtain ⟨w, hw, rfl, ht, -⟩ := hs.world hr
  have hbinds := hw.binds ht
  refine ⟨hbinds, State.callees_wellFounded hbinds, fun c f this args => ?_⟩
  split
  · next heffects => exact fun n => checkCall_none heffects
  · next table heffects =>
    obtain ⟨verdict, hverdict⟩ := State.exists_decides hbinds (w.state.effectTables.getD table []) c.firstObject
      [⟨f, this, args.toList⟩]
    obtain ⟨n, hn⟩ := hverdict.search?
    refine ⟨verdict, hverdict, n + 1, fun k hk => ?_⟩
    obtain ⟨k, rfl⟩ := Nat.exists_eq_add_one.mpr (Nat.zero_lt_of_lt hk)
    have hfound := hn k (by omega)
    rw [List.findSome?_singleton] at hfound
    rw [checkCall_search heffects, hfound]

end Exec

/-- The functions that are called when some calls are allowed, in the order in which they are looked at. -/
def State.allowed? (s : State) (table : EffectTable) (first : Nat) :
    (fuel : Nat) → List Invocation → Option (List ObjectId)
  | _, [] => some []
  | 0, _ => none
  | fuel + 1, i :: calls =>
    if (s.objection? table first i).isSome then none
    else (s.allowed? table first fuel (s.callees table i ++ calls)).map (i.f :: ·)

theorem State.decides_of_allowed? {s : State} {table : EffectTable} {first fuel : Nat} {calls : List Invocation}
    {fs : List ObjectId} (h : s.allowed? table first fuel calls = some fs) :
    s.Decides table first calls none := by
  induction fuel generalizing calls fs with
  | zero =>
    cases calls with
    | nil => exact .done
    | cons => cases h
  | succ fuel ih =>
    cases calls with
    | nil => exact .done
    | cons i calls =>
      rw [allowed?] at h
      split_ifs at h with hobjection
      obtain ⟨rest, hrest, -⟩ := Option.map_eq_some_iff.mp h
      exact .passed (by simpa using hobjection) (ih hrest)

/-- A realm whose table for dry runs has `call` and `apply`. -/
def Realm.applying : Realm := { plain with state := { plain.state with effectTables :=
  #[applyingFunctions.filterMap fun path =>
    (plain.state.resolvePath path).map (·, { pure := true, callsReceiver := true })] } }

theorem Realm.reachable_applying : applying.Reachable :=
  reachable_plain.course (.cons (a := .configure 100 false #[] applying.state.effectTables) rfl .nil)

/-- A bound function of `call`, which calls `apply`, which calls an arrow function. -/
def Trial.applied : Trial Realm.applying where
  source := "Function.prototype.call.bind(Function.prototype.apply, () => 1)"
  sees e r := (e.value?.bind (·.object?)).any fun id =>
    (r.state.allowed? (r.state.effectTables.getD 0 []) 0 10 [⟨id, .undefined, []⟩]).any (·.length == 4)
  ends := by decide +kernel

namespace Exec

/-- A dry run looks at the bound function and at the three that are called in turn, and allows the call. -/
theorem checkCall_allows_applied : ∃ (r : Realm) (id : ObjectId) (fs : List ObjectId), r.Reachable ∧
    r.state.allowed? (r.state.effectTables.getD 0 []) 0 10 [⟨id, .undefined, []⟩] = some fs ∧ fs.length = 4 ∧
    ∃ n, ∀ k ≥ n, checkCall id .undefined #[] (machine k) { (default : Context) with effects := some 0 } r.state =
      .value () r.state := by
  obtain ⟨e, r, _, -, hc, -, hsees⟩ := Trial.applied.run
  obtain ⟨id, -, hallowed⟩ := (Option.any_eq_true ..).mp hsees
  obtain ⟨fs, hfs, hlength⟩ := (Option.any_eq_true ..).mp hallowed
  have hr : r.Reachable := Realm.reachable_applying.course hc
  obtain ⟨-, -, hcheck⟩ := checkCall_terminates hr .rest
  obtain ⟨verdict, hverdict, n, hn⟩ :=
    hcheck { (default : Context) with effects := some 0 } id .undefined #[]
  obtain rfl : verdict = none := hverdict.unique (State.decides_of_allowed? hfs)
  exact ⟨r, id, fs, hr, hfs, beq_iff_eq.mp hlength, n, hn⟩

end Exec
end EcmaScript

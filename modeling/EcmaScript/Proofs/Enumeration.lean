import EcmaScript.Evaluate.Statement
import EcmaScript.Proofs.KeyOrder
import EcmaScript.Proofs.Spelling
import EcmaScript.Proofs.Super

/-! Loops over the keys of an object: which strings are listed for the object and its prototypes, and which
of them are visited. -/
namespace EcmaScript

/-- An object whose own keys are listed once, each spelled as it should be. -/
structure Object.Legible (o : Object) : Prop extends o.Listable where
  spelled : ∀ key ∈ o.ownKeys, key.Spelled

namespace State

/-- The strings among the own keys of an object, and whether the properties are enumerable. -/
def spellings (s : State) (id : ObjectId) : List (String × Bool) :=
  (s.object id).ownKeys.filterMap fun key =>
    key.string?.map fun name => (name, ((s.ownProperty? id key).map (·.enumerable)).getD false)

def enumerable? (s : State) (id : ObjectId) (name : String) : Option Bool := (s.spellings id).lookup name

/-- The strings that are listed for objects along the prototypes: each at the first place where it is an own
key, if the property there is enumerable. -/
def enumeration (s : State) (ids : List ObjectId) : List String :=
  ((ids.flatMap s.spellings).map (·.1)).eraseDups.filter fun name =>
    ids.findSome? (s.enumerable? · name) == some true

def checked (s : State) (count : Nat) : State := { s with clock := s.clock + count * checkNanos }

def meet (met : List String × List String) (e : String × Bool) : List String × List String :=
  if met.1.contains e.1 then met else (e.1 :: met.1, if e.2 then e.1 :: met.2 else met.2)

variable {s : State} {id : ObjectId} {ids : List ObjectId} {name : String}

theorem checked_checked {k l : Nat} : (s.checked k).checked l = s.checked (k + l) := by
  simp [checked, Nat.add_mul, Nat.add_assoc]

theorem foldl_meet {entries : List (String × Bool)} {seen out : List String} :
    (entries.foldl meet (seen, out)).2.reverse = out.reverse ++
      (((entries.map (·.1)).filter (!seen.contains ·)).eraseDups.filter fun name =>
        entries.lookup name == some true) := by
  induction entries generalizing seen out with
  | nil => simp
  | cons e rest ih =>
    obtain ⟨first, enumerable⟩ := e
    -- Only the first string is found in its own place.
    have hlookup {names : List String} (hfirst : first ∉ names) :
        names.filter (fun name => ((first, enumerable) :: rest).lookup name == some true) =
          names.filter fun name => rest.lookup name == some true := by
      refine List.filter_congr fun name hname => ?_
      have hne : (name == first) = false := beq_eq_false_iff_ne.mpr fun he => hfirst (he ▸ hname)
      rw [List.lookup_cons, hne]
    by_cases hseen : first ∈ seen
    · have hmeet : meet (seen, out) (first, enumerable) = (seen, out) := by simp [meet, hseen]
      rw [List.foldl_cons, hmeet, ih, List.map_cons, List.filter_cons_of_neg (by simpa using hseen), hlookup]
      simp [List.mem_eraseDups, hseen]
    · have hmeet : meet (seen, out) (first, enumerable) =
          (first :: seen, if enumerable then first :: out else out) := by simp [meet, hseen]
      have hrest : ((rest.map (·.1)).filter (!seen.contains ·)).filter (fun name => !name == first) =
          (rest.map (·.1)).filter (!(first :: seen).contains ·) := by
        rw [List.filter_filter]
        refine List.filter_congr fun name _ => ?_
        simp [Bool.beq_eq_decide_eq]
      rw [List.foldl_cons, hmeet, ih, List.map_cons, List.filter_cons_of_pos (by simpa using hseen),
        List.eraseDups_cons, hrest, List.filter_cons, hlookup (by simp [List.mem_eraseDups])]
      cases enumerable <;> simp

theorem lookup_flatMap : (ids.flatMap s.spellings).lookup name = ids.findSome? (s.enumerable? · name) := by
  induction ids with
  | nil => rfl
  | cons id rest ih =>
    rw [List.flatMap_cons, List.lookup_append, ih, List.findSome?_cons]
    unfold enumerable?
    cases (s.spellings id).lookup name <;> rfl

theorem mem_of_lookup {entries : List (String × Bool)} {b : Bool} (h : entries.lookup name = some b) :
    name ∈ entries.map (·.1) := by
  induction entries with
  | nil => cases h
  | cons e rest ih =>
    rw [List.lookup_cons] at h
    split at h
    · rename_i he
      simp [eq_of_beq he]
    · exact List.mem_cons_of_mem _ (ih h)

theorem mem_enumeration :
    name ∈ s.enumeration ids ↔ ids.findSome? (s.enumerable? · name) = some true := by
  rw [enumeration, List.mem_filter, List.mem_eraseDups, beq_iff_eq, and_iff_right_iff_imp, ← lookup_flatMap]
  exact mem_of_lookup

theorem lookup_spelled {keys : List PropertyKey} {f : PropertyKey → Bool} (h : ∀ key ∈ keys, key.Spelled) :
    (keys.filterMap fun key => key.string?.map fun name => (name, f key)).lookup name =
      if .ofString name ∈ keys then some (f (.ofString name)) else none := by
  induction keys with
  | nil => rfl
  | cons key rest ih =>
    have hrest := ih fun key hkey => h key (List.mem_cons_of_mem _ hkey)
    by_cases hname : key.string? = some name
    · have hkey := (h key List.mem_cons_self).eq_ofString hname
      rw [List.filterMap_cons, hname, ← hkey]
      simp
    · have hne : .ofString name ≠ key := by
        intro hkey
        rw [← hkey, PropertyKey.string?_ofString] at hname
        exact hname rfl
      rw [List.filterMap_cons]
      cases htext : key.string? with
      | none => simp [hrest, hne]
      | some text =>
        have hbeq : (name == text) = false := by
          rw [htext, Option.some.injEq] at hname
          exact beq_eq_false_iff_ne.mpr fun he => hname he.symm
        simp [List.lookup_cons, hbeq, hrest, hne]

theorem enumerable?_eq (h : (s.object id).Legible) :
    s.enumerable? id name = (s.ownProperty? id (.ofString name)).map (·.enumerable) := by
  rw [enumerable?, spellings, lookup_spelled h.spelled]
  split
  · rename_i hkey
    obtain ⟨p, hp⟩ := Option.isSome_iff_exists.mp ((mem_ownKeys_iff h.short h.distinct).mp hkey)
    simp [hp]
  · rename_i hkey
    have hnone : s.ownProperty? id (.ofString name) = none := by
      rw [← Option.not_isSome_iff_eq_none, ← mem_ownKeys_iff h.short h.distinct]
      exact hkey
    simp [hnone]

theorem mem_enumeration_of_legible (h : ∀ id ∈ ids, (s.object id).Legible) :
    name ∈ s.enumeration ids ↔
      ∃ p, ids.findSome? (s.ownProperty? · (.ofString name)) = some p ∧ p.enumerable = true := by
  have hnearest : ids.findSome? (s.enumerable? · name) =
      (ids.findSome? (s.ownProperty? · (.ofString name))).map (·.enumerable) := by
    induction ids with
    | nil => rfl
    | cons id rest ih =>
      rw [List.findSome?_cons, List.findSome?_cons, enumerable?_eq (h id List.mem_cons_self),
        ih fun id hid => h id (List.mem_cons_of_mem _ hid)]
      cases s.ownProperty? id (.ofString name) <;> rfl
  rw [mem_enumeration, hnearest, Option.map_eq_some_iff]

theorem nodup_eraseDups {names : List String} : names.eraseDups.Nodup := by
  induction hlength : names.length using Nat.strongRecOn generalizing names with
  | ind n ih =>
    cases names with
    | nil => exact .nil
    | cons first rest =>
      rw [List.eraseDups_cons, List.nodup_cons]
      refine ⟨by simp [List.mem_eraseDups], ih _ ?_ rfl⟩
      exact hlength ▸ Nat.lt_succ_of_le (List.length_filter_le _ _)

theorem enumeration_nodup : (s.enumeration ids).Nodup := nodup_eraseDups.filter _

theorem foldl_meet_enumeration :
    ((ids.flatMap s.spellings).foldl meet ([], [])).2.reverse = s.enumeration ids := by
  rw [foldl_meet, enumeration]
  simp [lookup_flatMap]

end State

namespace Exec
variable {m : Machine} {n : Nat} {c : Context} {s s' : State} {id : ObjectId} {ids : List ObjectId}
  {met : List String × List String}

/-- Meets an own key of an object. -/
def meetKey (id : ObjectId) : List String × List String → PropertyKey → Exec (List String × List String)
  | (seen, out), key => do
    match key.string? with
    | none => return (seen, out)
    | some name =>
      if seen.contains name then return (seen, out)
      match ← getOwn id key with
      | some p => return (name :: seen, if p.enumerable then name :: out else out)
      | none => return (name :: seen, out)

/-- Meets the own keys of an object and goes on to its prototype. -/
def enumerateStep : Option ObjectId × List String × List String →
    Exec ((Option ObjectId × List String × List String) ⊕ (List String × List String))
  | (at?, seen, out) => do
    match at? with
    | none => return .inr (seen, out.reverse)
    | some id =>
      checkInterrupts
      let (seen, out) ← (← ownKeys id).foldlM (meetKey id) (seen, out)
      return .inl (← prototypeOf id, seen, out)

theorem forInKeys_eq : forInKeys id =
    loop (some id, [], []) enumerateStep >>= fun met => pure met.2 := rfl

theorem meetKey_value (hproxy : (s.object id).isProxy = false) {key : PropertyKey} :
    meetKey id met key m c s = .value (match key.string? with
      | some name => State.meet met (name, ((s.ownProperty? id key).map (·.enumerable)).getD false)
      | none => met) s := by
  obtain ⟨seen, out⟩ := met
  unfold meetKey
  cases hname : key.string? with
  | none =>
    simp only [hname]
    rfl
  | some name =>
    simp only [hname, State.meet]
    cases hseen : seen.contains name with
    | true => rfl
    | false =>
      simp only [Bool.false_eq_true, if_false]
      rw [bind_value (getOwn_ordinary hproxy)]
      cases s.ownProperty? id key <;> rfl

theorem meetOwn_value (hproxy : (s.object id).isProxy = false) :
    (s.object id).ownKeys.foldlM (meetKey id) met m c s =
      .value ((s.spellings id).foldl State.meet met) s := by
  rw [State.spellings, List.foldl_filterMap]
  refine foldlM_value fun met key => (meetKey_value hproxy).trans ?_
  cases key.string? <;> rfl

theorem enumerateStep_eq (id : ObjectId) (met : List String × List String) : ∃ list : Exec _,
    enumerateStep (some id, met) = (checkInterrupts >>= fun _ => list) ∧
      ∀ m c s, (s.object id).isProxy = false → list m c s =
        .value (.inl ((s.object id).prototype, (s.spellings id).foldl State.meet met)) s := by
  refine ⟨_, rfl, fun m c s hproxy => ?_⟩
  rw [bind_value (ownKeys_ordinary hproxy), bind_value (meetOwn_value hproxy)]
  dsimp only
  rw [bind_value (show prototypeOf id m c s = .value (s.object id).prototype s by
    rw [prototypeOf, bind_value (proxyOf_ordinary hproxy)]; rfl)]
  rfl

theorem comes_enumerateStep {r : Except Abrupt _}
    (h : (enumerateStep (some id, met)).Comes (machine n) c s r s') (hproxy : (s.object id).isProxy = false) :
    (r = .ok (.inl ((s.object id).prototype, (s.spellings id).foldl State.meet met)) ∧ s' = s.checked 1) ∨
      ∃ e, r = .error e := by
  obtain ⟨list, hstep, hlist⟩ := enumerateStep_eq id met
  rw [hstep] at h
  rcases comes_bind.mp h with ⟨_, s₁, hcheck, h⟩ | ⟨e, -, rfl⟩
  · obtain rfl := comes_checkInterrupts hcheck
    obtain ⟨rfl, rfl⟩ := (comes_value (hlist _ _ { s with clock := s.clock + checkNanos } hproxy)).mp h
    exact .inl ⟨rfl, by simp [State.checked]⟩
  · exact .inr ⟨e, rfl⟩

theorem comes_forInKeys {names : List String} (hchain : s.Chain (some id) ids)
    (h : (forInKeys id).Comes (machine n) c s (.ok names) s') :
    names = s.enumeration ids ∧ s' = s.checked ids.length := by
  rw [forInKeys_eq] at h
  obtain ⟨found, s₁, hloop, hnames⟩ := comes_bind_ok.mp h
  obtain ⟨he, rfl⟩ := comes_pure.mp hnames
  obtain rfl : names = found.2 := Except.ok.inj he
  suffices hwalk : found.2 = ((ids.flatMap s.spellings).foldl State.meet ([], [])).2.reverse ∧
      s' = s.checked ids.length by
    rwa [State.foldl_meet_enumeration] at hwalk
  refine hloop.loop (P := fun b s => ∀ ids, s.Chain b.1 ids →
    found.2 = ((ids.flatMap s.spellings).foldl State.meet b.2).2.reverse ∧ s' = s.checked ids.length)
    (fun b b' s s₁ hturn ih ids hchain => ?_) (fun b s hlast ids hchain => ?_) ids hchain
  · obtain ⟨at?, met⟩ := b
    cases hchain with
    | nil => cases (comes_pure.mp hturn).1
    | @cons id ids hproxy hrest =>
      obtain ⟨he, rfl⟩ | ⟨e, he⟩ := comes_enumerateStep hturn hproxy
      · cases he
        obtain ⟨hfound, hs⟩ := ih ids (hrest.congr rfl)
        refine ⟨?_, ?_⟩
        · rw [hfound, List.flatMap_cons, List.foldl_append]
          rfl
        · rw [hs, State.checked_checked, List.length_cons, Nat.add_comm]
      · cases he
  · obtain ⟨at?, met⟩ := b
    cases hchain with
    | nil =>
      obtain ⟨he, rfl⟩ := comes_pure.mp hlast
      cases he
      exact ⟨rfl, by simp [State.checked]⟩
    | cons hproxy _ =>
      obtain ⟨he, -⟩ | ⟨e, he⟩ := comes_enumerateStep hlast hproxy
      · cases he
      · cases he

theorem checkInterrupts_value (hinterrupted : s.interrupted = false)
    (hdue : ∀ d, c.deadline = some d → s.clock + checkNanos < d.due) :
    checkInterrupts m c s = .value () (s.checked 1) := by
  have hclock : ({ s with clock := s.clock + checkNanos } : State) = s.checked 1 := by simp [State.checked]
  rw [checkInterrupts, bind_value (show change _ m c s = .value () (s.checked 1) from congrArg _ hclock),
    bind_value (show look (·.interrupted) m c (s.checked 1) = .value false (s.checked 1) from
      congrArg (Step.value · (s.checked 1)) hinterrupted)]
  rw [if_neg Bool.false_ne_true]
  dsimp only
  rw [bind_value (show context m c (s.checked 1) = .value c (s.checked 1) from rfl)]
  cases hd : c.deadline with
  | none => rfl
  | some d =>
    have hlt : ¬ d.due ≤ (s.checked 1).clock := by simpa [State.checked] using hdue d hd
    dsimp only
    rw [bind_value (show look (·.clock) m c (s.checked 1) = .value (s.checked 1).clock (s.checked 1) from rfl),
      if_neg hlt]
    rfl

theorem enumerate_value {start : Option ObjectId} {fuel : Nat} (hchain : s.Chain start ids)
    (hfuel : ids.length < fuel) (hinterrupted : s.interrupted = false)
    (hdue : ∀ d, c.deadline = some d → s.clock + ids.length * checkNanos < d.due) :
    ∃ seen, Step.loop (fun b s => enumerateStep b m c s) fuel (start, met) s =
      .value (seen, ((ids.flatMap s.spellings).foldl State.meet met).2.reverse) (s.checked ids.length) := by
  induction ids generalizing s start fuel met with
  | nil =>
    cases hchain
    obtain ⟨fuel, rfl⟩ : ∃ k, fuel = k + 1 := Nat.exists_eq_add_of_le' hfuel
    exact ⟨met.1, by simp [Step.loop, enumerateStep, Pure.pure, Exec.pure, State.checked]⟩
  | cons id rest ih =>
    cases hchain with
    | cons hproxy hrest =>
      obtain ⟨fuel, rfl⟩ := Nat.exists_eq_add_of_le' (Nat.lt_of_lt_of_le (Nat.succ_pos _) (Nat.le_of_lt hfuel))
      obtain ⟨list, hstep, hlist⟩ := enumerateStep_eq id met
      have hstep : enumerateStep (some id, met) m c s = .value (.inl ((s.object id).prototype,
          (s.spellings id).foldl State.meet met)) (s.checked 1) := by
        rw [hstep, bind_value (checkInterrupts_value hinterrupted fun d hd => ?_)]
        · exact hlist m c (s.checked 1) hproxy
        · have := hdue d hd
          rw [List.length_cons, Nat.add_mul] at this
          omega
      obtain ⟨seen, hloop⟩ : ∃ seen, Step.loop (fun b s => enumerateStep b m c s) fuel
          ((s.object id).prototype, (s.spellings id).foldl State.meet met) (s.checked 1) = .value (seen, _) _ :=
        ih (s := s.checked 1) (hrest.congr rfl) (by simpa using hfuel) hinterrupted fun d hd => by
          have := hdue d hd
          rw [List.length_cons, Nat.add_mul] at this
          simp only [State.checked]
          omega
      refine ⟨seen, ?_⟩
      rw [Step.loop, hstep]
      dsimp only
      rw [hloop, State.checked_checked, List.flatMap_cons, List.foldl_append, List.length_cons, Nat.add_comm 1]
      rfl

theorem forInKeys_value (hchain : s.Chain (some id) ids) (hfuel : ids.length < m.fuel)
    (hinterrupted : s.interrupted = false)
    (hdue : ∀ d, c.deadline = some d → s.clock + ids.length * checkNanos < d.due) :
    forInKeys id m c s = .value (s.enumeration ids) (s.checked ids.length) := by
  obtain ⟨seen, hloop⟩ : ∃ seen, Step.loop (fun b s => enumerateStep b m c s) m.fuel (some id, [], []) s =
      .value (seen, _) _ := enumerate_value hchain hfuel hinterrupted hdue
  rw [forInKeys_eq, bind_value (show loop (some id, [], []) enumerateStep m c s = _ from hloop),
    State.foldl_meet_enumeration]
  rfl

end Exec

section Visits
open Exec
variable {n : Nat} {c : Context} {scope : ScopeId} {kind : Option VarKind} {head : Pattern} {id : ObjectId}
  {body : Statement} {labels : List String}

/-- Whether an object has a key when its turn comes. -/
def Exec.stillHas (id : ObjectId) (name : String) : Exec Bool := do
  checkInterrupts
  has id (.ofString name)

/-- One turn of a loop over keys. -/
def Exec.visit (scope : ScopeId) (kind : Option VarKind) (head : Pattern) (body : Statement)
    (labels : List String) (name : String) (last : Option Value) : Exec (Option Value ⊕ Completion) := do
  runBody (← bindHead scope kind head (.string name)) body labels last

/-- How a loop over keys goes: in their order, each key is looked up when its turn comes; one that is gone is
skipped, and the others are visited, until a turn ends the loop. The keys that had their turn are recorded,
with whether they were found. -/
inductive Visits (n : Nat) (c : Context) (scope : ScopeId) (kind : Option VarKind) (head : Pattern)
    (id : ObjectId) (body : Statement) (labels : List String) :
    List String → Option Value → State → List (String × Bool) → Except Abrupt Completion → State → Prop where
  | done {last : Option Value} {s : State} :
    Visits n c scope kind head id body labels [] last s [] (.ok (loopDone last)) s
  | stopped {name : String} {rest : List String} {last : Option Value} {s s' : State} {e : Abrupt}
    (h : (stillHas id name).Comes (machine n) c s (.error e) s') :
    Visits n c scope kind head id body labels (name :: rest) last s [] (.error e) s'
  | skipped {name : String} {rest : List String} {last : Option Value} {s s₁ s' : State}
    {turns : List (String × Bool)} {r : Except Abrupt Completion}
    (hgone : (stillHas id name).Comes (machine n) c s (.ok false) s₁)
    (h : Visits n c scope kind head id body labels rest last s₁ turns r s') :
    Visits n c scope kind head id body labels (name :: rest) last s ((name, false) :: turns) r s'
  | failed {name : String} {rest : List String} {last : Option Value} {s s₁ s' : State} {e : Abrupt}
    (hfound : (stillHas id name).Comes (machine n) c s (.ok true) s₁)
    (hturn : (visit scope kind head body labels name last).Comes (machine n) c s₁ (.error e) s') :
    Visits n c scope kind head id body labels (name :: rest) last s [(name, true)] (.error e) s'
  | left {name : String} {rest : List String} {last : Option Value} {s s₁ s' : State} {completion : Completion}
    (hfound : (stillHas id name).Comes (machine n) c s (.ok true) s₁)
    (hturn : (visit scope kind head body labels name last).Comes (machine n) c s₁ (.ok (.inr completion)) s') :
    Visits n c scope kind head id body labels (name :: rest) last s [(name, true)] (.ok completion) s'
  | next {name : String} {rest : List String} {last last' : Option Value} {s s₁ s₂ s' : State}
    {turns : List (String × Bool)} {r : Except Abrupt Completion}
    (hfound : (stillHas id name).Comes (machine n) c s (.ok true) s₁)
    (hturn : (visit scope kind head body labels name last).Comes (machine n) c s₁ (.ok (.inl last')) s₂)
    (h : Visits n c scope kind head id body labels rest last' s₂ turns r s') :
    Visits n c scope kind head id body labels (name :: rest) last s ((name, true) :: turns) r s'

theorem visitKeys_cons {name : String} {rest : List String} {last : Option Value} :
    visitKeys scope kind head id body labels (name :: rest) last = (do
      if ← stillHas id name then
        match ← visit scope kind head body labels name last with
        | .inr completion => return completion
        | .inl last => visitKeys scope kind head id body labels rest last
      else visitKeys scope kind head id body labels rest last) := by
  rw [visitKeys]
  simp only [stillHas, visit, bind_assoc]
  refine congrArg _ (funext fun _ => congrArg _ (funext fun found => ?_))
  cases found with
  | false => rfl
  | true =>
    refine Eq.trans (if_neg Bool.false_ne_true) (Eq.trans ?_ (if_pos rfl).symm)
    refine congrArg _ (funext fun inner => congrArg _ (funext fun outcome => ?_))
    cases outcome <;> rfl

theorem comes_visitKeys {names : List String} {last : Option Value} {s s' : State}
    {r : Except Abrupt Completion}
    (h : (visitKeys scope kind head id body labels names last).Comes (machine n) c s r s') :
    ∃ turns, Visits n c scope kind head id body labels names last s turns r s' := by
  induction names generalizing last s with
  | nil =>
    obtain ⟨rfl, rfl⟩ := comes_pure.mp h
    exact ⟨[], .done⟩
  | cons name rest ih =>
    rw [visitKeys_cons] at h
    rcases comes_bind.mp h with ⟨found, s₁, hfound, h⟩ | ⟨e, hstop, rfl⟩
    · cases found with
      | false =>
        obtain ⟨turns, hrest⟩ := ih h
        exact ⟨_, .skipped hfound hrest⟩
      | true =>
        rcases comes_bind.mp h with ⟨last' | completion, s₂, hturn, h⟩ | ⟨e, hturn, rfl⟩
        · obtain ⟨turns, hrest⟩ := ih h
          exact ⟨_, .next hfound hturn hrest⟩
        · obtain ⟨rfl, rfl⟩ := comes_pure.mp h
          exact ⟨_, .left hfound hturn⟩
        · exact ⟨_, .failed hfound hturn⟩
    · exact ⟨[], .stopped hstop⟩

namespace Visits
variable {names : List String} {last : Option Value} {s s' : State} {turns : List (String × Bool)}
  {r : Except Abrupt Completion}

theorem turns_prefix (h : Visits n c scope kind head id body labels names last s turns r s') :
    turns.map (·.1) <+: names := by
  induction h with
  | done => exact List.prefix_rfl
  | stopped => exact List.nil_prefix
  | skipped _ _ ih => simpa using ih
  | failed => simp
  | left => simp
  | next _ _ _ ih => simpa using ih

theorem visited_sublist (h : Visits n c scope kind head id body labels names last s turns r s') :
    ((turns.filter (·.2)).map (·.1)).Sublist names :=
  (List.filter_sublist.map _).trans h.turns_prefix.sublist

end Visits

def Exec.subjectOf (scope : ScopeId) (kind : Option VarKind) (head : Pattern) (subject : Expr) : Exec Value := do
  evaluate (← subjectScope scope kind head) subject

/-- How a loop over the keys of a subject goes: its keys are listed once, before the first turn. -/
inductive ForIn (n : Nat) (c : Context) (scope : ScopeId) (kind : Option VarKind) (head : Pattern)
    (subject : Expr) (body : Statement) (labels : List String) (s : State) :
    Except Abrupt Completion → State → Prop where
  | failed {s' : State} {e : Abrupt}
    (h : (subjectOf scope kind head subject).Comes (machine n) c s (.error e) s') :
    ForIn n c scope kind head subject body labels s (.error e) s'
  | nothing {s' : State} {v : Value}
    (h : (subjectOf scope kind head subject).Comes (machine n) c s (.ok v) s') (hv : v.isNullish = true) :
    ForIn n c scope kind head subject body labels s (.ok (.normal (some .undefined))) s'
  | unlisted {s₁ s' : State} {v : Value} {e : Abrupt}
    (hsubject : (subjectOf scope kind head subject).Comes (machine n) c s (.ok v) s₁)
    (hv : v.isNullish = false)
    (h : (toObject v >>= forInKeys).Comes (machine n) c s₁ (.error e) s') :
    ForIn n c scope kind head subject body labels s (.error e) s'
  | visits {s₁ s₂ s₃ s' : State} {v : Value} {id : ObjectId} {names : List String}
    {turns : List (String × Bool)} {r : Except Abrupt Completion}
    (hsubject : (subjectOf scope kind head subject).Comes (machine n) c s (.ok v) s₁)
    (hv : v.isNullish = false)
    (hobject : (toObject v).Comes (machine n) c s₁ (.ok id) s₂)
    (hkeys : (forInKeys id).Comes (machine n) c s₂ (.ok names) s₃)
    (hturns : Visits n c scope kind head id body labels names none s₃ turns r s') :
    ForIn n c scope kind head subject body labels s r s'

theorem evaluateForIn_eq {subject : Expr} : evaluateForIn scope kind head subject body labels = (do
    let v ← subjectOf scope kind head subject
    if v.isNullish then return .normal (some .undefined)
    let id ← toObject v
    visitKeys scope kind head id body labels (← forInKeys id) none) := by
  rw [evaluateForIn, subjectOf, bind_assoc]

theorem comes_evaluateForIn {subject : Expr} {s s' : State} {r : Except Abrupt Completion}
    (h : (evaluateForIn scope kind head subject body labels).Comes (machine n) c s r s') :
    ForIn n c scope kind head subject body labels s r s' := by
  rw [evaluateForIn_eq] at h
  rcases comes_bind.mp h with ⟨v, s₁, hsubject, h⟩ | ⟨e, hfailed, rfl⟩
  · cases hv : v.isNullish with
    | true =>
      rw [hv, if_pos rfl] at h
      obtain ⟨rfl, rfl⟩ := comes_pure.mp h
      exact .nothing hsubject hv
    | false =>
      rw [hv, if_neg Bool.false_ne_true] at h
      rcases comes_bind.mp h with ⟨id, s₂, hobject, h⟩ | ⟨e, hfailed, rfl⟩
      · rcases comes_bind.mp h with ⟨names, s₃, hkeys, h⟩ | ⟨e, hfailed, rfl⟩
        · obtain ⟨turns, hturns⟩ := comes_visitKeys h
          exact .visits hsubject hv hobject hkeys hturns
        · exact .unlisted hsubject hv (comes_bind.mpr (.inl ⟨id, s₂, hobject, hfailed⟩))
      · exact .unlisted hsubject hv (comes_bind.mpr (.inr ⟨e, hfailed, rfl⟩))
  · exact .failed hfailed

end Visits

/-- A loop over keys. For an object whose prototypes are no proxies, each string is listed once at most,
and listed if the nearest object that has it as a key has an enumerable property there, in the order of the
objects and of their own keys; only an interruption or the deadline can prevent it. The loop visits the
strings in that order, and skips those that are not found on the object or its prototypes when their turn
comes. -/
theorem for_in_enumerates :
    (∀ (s : State) (id : ObjectId) (ids : List ObjectId), s.Chain (some id) ids →
      (s.enumeration ids).Nodup ∧
      (∀ name, name ∈ s.enumeration ids ↔ ids.findSome? (s.enumerable? · name) = some true) ∧
      ((∀ id ∈ ids, (s.object id).Legible) → ∀ name, name ∈ s.enumeration ids ↔
        ∃ p, ids.findSome? (s.ownProperty? · (.ofString name)) = some p ∧ p.enumerable = true) ∧
      (∀ m c, ids.length < m.fuel → s.interrupted = false →
        (∀ d, c.deadline = some d → s.clock + ids.length * checkNanos < d.due) →
        Exec.forInKeys id m c s = .value (s.enumeration ids) (s.checked ids.length)) ∧
      ∀ n c names s', (Exec.forInKeys id).Comes (machine n) c s (.ok names) s' →
        names = s.enumeration ids ∧ s' = s.checked ids.length) ∧
    ∀ (n : Nat) (c : Context) (scope : ScopeId) (kind : Option VarKind) (head : Pattern) (body : Statement)
      (labels : List String),
      (∀ (subject : Expr) (s s' : State) (r : Except Abrupt Completion),
        (Exec.evaluateForIn scope kind head subject body labels).Comes (machine n) c s r s' →
        ForIn n c scope kind head subject body labels s r s') ∧
      ∀ (id : ObjectId) (names : List String) (last : Option Value) (s s' : State)
        (turns : List (String × Bool)) (r : Except Abrupt Completion),
        Visits n c scope kind head id body labels names last s turns r s' →
        turns.map (·.1) <+: names ∧ ((turns.filter (·.2)).map (·.1)).Sublist names := by
  refine ⟨fun s id ids hchain => ⟨State.enumeration_nodup, fun name => State.mem_enumeration,
    fun hlegible name => State.mem_enumeration_of_legible hlegible,
    fun m c => Exec.forInKeys_value hchain, fun n c names s' => Exec.comes_forInKeys hchain⟩, ?_⟩
  intro n c scope kind head body labels
  exact ⟨fun subject s s' r => comes_evaluateForIn,
    fun id names last s s' turns r h => ⟨h.turns_prefix, h.visited_sublist⟩⟩

/-- An object with a prototype and properties under some names. -/
def Object.named (prototype : Option ObjectId) (fields : List (String × Property)) : Object := {
  prototype
  properties := (fields.map fun e => (PropertyKey.name e.1, e.2)).foldl (fun t e => t.put e.1 e.2) {} }

theorem Object.named_legible {prototype : Option ObjectId} {fields : List (String × Property)}
    (hkeys : (named prototype fields).ownKeys.all fun key => (key.string?.bind PropertyKey.index?).isNone) :
    (named prototype fields).Legible := by
  refine ⟨⟨(PropertyTable.records_fold ⟨PropertyTable.distinct_empty, rfl⟩).distinct, nofun⟩, ?_⟩
  rintro key hkey text rfl
  simpa [PropertyKey.string?] using List.all_eq_true.mp hkeys _ hkey

/-- An object and its prototype, and variables. The object has a property that hides one of the prototype. -/
def State.withShadow : State := { (default : State) with
  heap := #[
    .named (some ⟨1⟩) [("a", .plain .null), ("b", ⟨.data .null false, false, true⟩), ("d", .plain .null)],
    .named none [("b", .plain .null), ("c", .plain .null)]]
  scopes := #[{ kind := .block, parent := none
                bindings := [("o", ⟨some (.object ⟨0⟩), .var⟩), ("k", ⟨some .undefined, .var⟩)] }] }

/-- The loop `for (k in o) delete o.d`. -/
theorem for_in_with_shadow :
    Exec.forInKeys ⟨0⟩ (machine 8) default .withShadow = .value ["a", "d", "c"] (State.withShadow.checked 2) ∧
    "b" ∉ State.withShadow.enumeration [⟨0⟩, ⟨1⟩] ∧
    (∃ completion s', ForIn 8 default ⟨0⟩ none (.identifier "k" default) (.mk default (.identifier "o"))
      (.mk default (.expression (.mk default (.unary .delete (.mk default
        (.member (.mk default (.identifier "o")) (.fixed "d") false)))))) [] .withShadow
      (.ok completion) s' ∧ s'.ownProperty? ⟨0⟩ (.name "d") = none) := by
  have hchain : State.withShadow.Chain (some ⟨0⟩) [⟨0⟩, ⟨1⟩] := .cons rfl (.cons rfl .nil)
  obtain ⟨-, -, hlegible, hlisted, -⟩ := for_in_enumerates.1 _ _ _ hchain
  refine ⟨?_, ?_, ?_⟩
  · have hnames : State.withShadow.enumeration [⟨0⟩, ⟨1⟩] = ["a", "d", "c"] := by decide +kernel
    rw [hlisted (machine 8) default (by decide) rfl nofun, hnames]
    rfl
  · have hobjects : ∀ id ∈ [(⟨0⟩ : ObjectId), ⟨1⟩], (State.withShadow.object id).Legible := by
      intro id hid
      rcases List.mem_pair.mp hid with rfl | rfl
      · exact Object.named_legible (by decide +kernel)
      · exact Object.named_legible (by decide +kernel)
    rw [hlegible hobjects]
    rintro ⟨p, hp, henumerable⟩
    have hhidden : ([(⟨0⟩ : ObjectId), ⟨1⟩].findSome? (State.withShadow.ownProperty? · (.ofString "b"))).map
        (·.enumerable) = some false := by decide +kernel
    rw [hp, Option.map_some, henumerable] at hhidden
    cases hhidden
  · obtain ⟨r, s', hrun, hends⟩ := Step.outcome_of_endsIn
      (show ((Exec.evaluateForIn ⟨0⟩ none (.identifier "k" default) (.mk default (.identifier "o"))
        (.mk default (.expression (.mk default (.unary .delete (.mk default
          (.member (.mk default (.identifier "o")) (.fixed "d") false)))))) []) (machine 8) default
        .withShadow).endsIn (fun r s' => r.isOk && (s'.ownProperty? ⟨0⟩ (.name "d")).isNone) = true by
        decide +kernel)
    obtain ⟨hok, hnone⟩ := Bool.and_eq_true_iff.mp hends
    cases r with
    | error => cases hok
    | ok completion =>
      exact ⟨completion, s', (for_in_enumerates.2 _ _ _ _ _ _ _).1 _ _ _ _ (Step.comes_of_outcome hrun),
        Option.isNone_iff_eq_none.mp hnone⟩

end EcmaScript

import EcmaScript.Proofs.Alters
import EcmaScript.Proofs.Outcome
import EcmaScript.Proofs.Result

/-! Bound functions do what the function at the end of the chain does, with the arguments of all of them. -/
namespace EcmaScript

namespace State
variable {s : State} {f id id' : ObjectId} {chain chain' : List ObjectId} {this this' : Value}
  {args args' : Array Value}

def later (s : State) (checks : Nat) : State := { s with clock := s.clock + checks * checkNanos }

theorem later_later {m n : Nat} : (s.later m).later n = s.later (n + m) := by
  simp only [later, Nat.add_mul, Nat.add_assoc, Nat.add_comm]

theorem isConstructor_later {n : Nat} : (s.later n).isConstructor id = s.isConstructor id := by
  have hfrom (fuel : Nat) : ∀ id, (s.later n).isConstructorFrom fuel id = s.isConstructorFrom fuel id := by
    induction fuel with
    | zero => exact fun _ => rfl
    | succ fuel ih =>
      intro id
      rw [isConstructorFrom, isConstructorFrom, show (s.later n).object id = s.object id from rfl]
      split
      · rfl
      · rfl
      · exact ih _
      · rfl
      · rfl
  exact hfrom _ id

/-- How a message names an object that cannot be constructed. -/
def constructorText (s : State) (id : ObjectId) : String :=
  let o := s.object id
  let name := if o.callable?.isSome then o.functionName else s.describe (.object id)
  if name = "" then "anonymous" else name

def Bound (s : State) (id target : ObjectId) (this : Value) (args : Array Value) : Prop :=
  (s.object id).kind = .function (.bound target this args)

/-- Functions that are bound one to the next, the outermost first, and the last one to `f`; with the
`this` of the last one and all their arguments, those of the last one first. -/
inductive Binds (s : State) (f : ObjectId) : List ObjectId → ObjectId → Value → Array Value → Prop where
  | last {id : ObjectId} {this : Value} {args : Array Value} (h : s.Bound id f this args) :
    Binds s f [id] id this args
  | cons {id target : ObjectId} {chain : List ObjectId} {own this : Value} {ownArgs args : Array Value}
    (h : s.Bound id target own ownArgs) (hchain : Binds s f chain target this args) :
    Binds s f (id :: chain) id this (args ++ ownArgs)

def Unbound (s : State) (f : ObjectId) : Prop := ∀ target this args, ¬ s.Bound f target this args

theorem Bound.unique {target target' : ObjectId} (h : s.Bound id target this args)
    (h' : s.Bound id target' this' args') : target' = target := by
  have heq := h.symm.trans h'
  cases heq
  rfl

theorem Bound.lt_size {target : ObjectId} (h : s.Bound id target this args) : id.index < s.heap.size :=
  lt_of_kind (by rw [show (s.object id).kind = _ from h]; nofun)

theorem Bound.isConstructorFrom_eq {target : ObjectId} {fuel : Nat} (h : s.Bound id target this args) :
    s.isConstructorFrom (fuel + 1) id = s.isConstructorFrom fuel target := by
  rw [isConstructorFrom, show (s.object id).kind = _ from h]

theorem Unbound.isConstructorFrom_eq (hf : s.Unbound f) (m n : Nat) :
    s.isConstructorFrom (m + 1) f = s.isConstructorFrom (n + 1) f := by
  rw [isConstructorFrom, isConstructorFrom]
  split
  case h_3 hk => exact absurd hk (hf _ _ _)
  all_goals rfl

namespace Binds

theorem unique (h : s.Binds f chain id this args) (hf : s.Unbound f) (h' : s.Binds f chain' id this' args') :
    chain' = chain := by
  induction h generalizing chain' this' args' with
  | last hbound =>
    cases h' with
    | last => rfl
    | cons hbound' hchain' =>
      obtain rfl := hbound.unique hbound'
      cases hchain' with
      | last h => exact absurd h (hf _ _ _)
      | cons h => exact absurd h (hf _ _ _)
  | cons hbound hchain ih =>
    cases h' with
    | last hbound' =>
      obtain rfl := hbound.unique hbound'
      cases hchain with
      | last h => exact absurd h (hf _ _ _)
      | cons h => exact absurd h (hf _ _ _)
    | cons hbound' hchain' =>
      obtain rfl := hbound.unique hbound'
      rw [ih hchain']

theorem exists_of_mem (h : s.Binds f chain id this args) (hid : id' ∈ chain) :
    id'.index < s.heap.size ∧ ∃ chain' this' args', s.Binds f chain' id' this' args' ∧
      chain'.length ≤ chain.length := by
  induction h with
  | last hbound =>
    obtain rfl := List.mem_singleton.mp hid
    exact ⟨hbound.lt_size, _, _, _, .last hbound, le_rfl⟩
  | cons hbound hchain ih =>
    obtain rfl | hid := List.mem_cons.mp hid
    · exact ⟨hbound.lt_size, _, _, _, .cons hbound hchain, le_rfl⟩
    · obtain ⟨hlt, chain', this', args', h', hlength⟩ := ih hid
      exact ⟨hlt, chain', this', args', h', hlength.trans (Nat.le_succ _)⟩

theorem nodup (h : s.Binds f chain id this args) (hf : s.Unbound f) : chain.Nodup := by
  induction h with
  | last => exact List.nodup_singleton _
  | cons hbound hchain ih =>
    refine List.nodup_cons.mpr ⟨fun hmem => ?_, ih⟩
    obtain ⟨-, chain', this', args', h', hlength⟩ := hchain.exists_of_mem hmem
    rw [(Binds.cons hbound hchain).unique hf h', List.length_cons] at hlength
    omega

theorem length_le (h : s.Binds f chain id this args) (hf : s.Unbound f) : chain.length ≤ s.heap.size := by
  have hnodup : (chain.map ObjectId.index).Nodup :=
    (h.nodup hf).map fun a b (hab : a.index = b.index) => congrArg ObjectId.mk hab
  have hsub : chain.map ObjectId.index ⊆ List.range s.heap.size := by
    intro i hi
    obtain ⟨a, ha, rfl⟩ := List.mem_map.mp hi
    exact List.mem_range.mpr (h.exists_of_mem ha).1
  simpa using (hnodup.subperm hsub).length_le

theorem isConstructorFrom_eq {fuel : Nat} (h : s.Binds f chain id this args) :
    s.isConstructorFrom (fuel + chain.length) id = s.isConstructorFrom fuel f := by
  induction h with
  | last hbound => exact hbound.isConstructorFrom_eq
  | cons hbound hchain ih => exact hbound.isConstructorFrom_eq.trans ih

theorem isConstructor_eq (h : s.Binds f chain id this args) (hf : s.Unbound f) :
    s.isConstructor id = s.isConstructor f := by
  obtain ⟨n, hn⟩ := Nat.exists_eq_add_of_le (h.length_le hf)
  have hfuel : s.heap.size + 1 = n + 1 + chain.length := by omega
  calc s.isConstructor id
      = s.isConstructorFrom (n + 1) f := by rw [isConstructor, hfuel, h.isConstructorFrom_eq]
    _ = s.isConstructor f := hf.isConstructorFrom_eq n s.heap.size

theorem later {n : Nat} (h : s.Binds f chain id this args) : (s.later n).Binds f chain id this args := by
  induction h with
  | last hbound => exact .last hbound
  | cons hbound hchain ih => exact .cons hbound ih

theorem refusal?_eq {table : EffectTable} {first fuel : Nat} {own : Value} {rest : List Value}
    (h : s.Binds f chain id this args) :
    s.refusal? table first (fuel + chain.length) id own rest =
      s.refusal? table first fuel f this (args.toList ++ rest) := by
  induction h generalizing own rest with
  | last hbound =>
    rw [List.length_singleton, refusal?, show (s.object _).kind = _ from hbound]
  | cons hbound hchain ih =>
    rw [List.length_cons, ← Nat.add_assoc, refusal?, show (s.object _).kind = _ from hbound]
    dsimp only
    rw [ih, Array.toList_append, List.append_assoc]

end Binds

theorem refusal?_succ {table : EffectTable} {first fuel : Nat} {rest : List Value}
    (h : s.refusal? table first fuel id this rest = none) :
    s.refusal? table first (fuel + 1) id this rest = none := by
  induction fuel generalizing id this rest with
  | zero => cases h
  | succ fuel ih =>
    rw [refusal?] at h ⊢
    split at h
    case h_1 hkind => exact ih h
    case h_2 hkind =>
      dsimp only at h ⊢
      split at h
      · exact h
      · split_ifs at h ⊢
        rw [Option.or_eq_none_iff] at h ⊢
        obtain ⟨hargument, hreceiver⟩ := h
        constructor
        · split at hargument
          · exact ih hargument
          · rfl
        · split at hreceiver
          · exact ih hreceiver
          · rfl
    case h_3 => rfl

/-- A dry run allows a call if it may look as far as it has to. -/
def Allows (s : State) (table : EffectTable) (first : Nat) (id : ObjectId) (this : Value)
    (args : List Value) : Prop :=
  ∃ fuel, s.refusal? table first fuel id this args = none

theorem Binds.allows_iff {table : EffectTable} {first : Nat} {own : Value} {rest : List Value}
    (h : s.Binds f chain id this args) :
    s.Allows table first id own rest ↔ s.Allows table first f this (args.toList ++ rest) := by
  constructor
  · rintro ⟨fuel, hfuel⟩
    have hlonger (n : Nat) : s.refusal? table first (fuel + n) id own rest = none := by
      induction n with
      | zero => exact hfuel
      | succ n ih => exact refusal?_succ ih
    exact ⟨fuel, h.refusal?_eq.symm.trans (hlonger chain.length)⟩
  · rintro ⟨fuel, hfuel⟩
    exact ⟨fuel + chain.length, h.refusal?_eq.trans hfuel⟩

end State

namespace Exec
variable {m : Machine} {c : Context} {s s' : State} {f id target newTarget : ObjectId}
  {chain : List ObjectId} {own this v : Value} {args ownArgs rest : Array Value} {fuel : Nat}

theorem gives_bindFunction (h : (bindFunction (.object target) args).Gives m c s v s') :
    ∃ id, v = .object id ∧ s'.Bound id target (argument args 0) (args.extract 1 args.size) := by
  obtain ⟨callable, s₁, -, h⟩ := gives_bind.mp h
  split at h
  · exact absurd h gives_raise
  obtain ⟨owns, s₂, -, h⟩ := gives_bind.mp h
  split at h
  on_goal 1 =>
    obtain ⟨value, s₃, -, h⟩ := gives_bind.mp h
    split at h
  -- However the length is found, the name comes next, and the function is made at last.
  all_goals
    obtain ⟨length, s₄, -, h⟩ := gives_bind.mp h
    obtain ⟨value, s₅, -, h⟩ := gives_bind.mp h
    split at h
  all_goals
    obtain ⟨name, s₆, -, h⟩ := gives_bind.mp h
    obtain ⟨prototype, s₇, -, h⟩ := gives_bind.mp h
    obtain ⟨id, s₈, hallocate, h⟩ := gives_bind.mp h
    obtain ⟨rfl, rfl⟩ := gives_allocate.mp hallocate
    obtain ⟨rfl, rfl⟩ := gives_pure.mp h
    exact ⟨_, rfl, by rw [State.Bound, State.object_push, if_pos rfl]⟩

theorem checkCall_none (heffects : c.effects = none) : checkCall id own rest m c s = .value () s := by
  rw [checkCall, bind_value (show context m c s = .value c s from rfl), heffects]
  rfl

theorem isConstructor_value {b : Bool} (h : s.isConstructor id = b) :
    isConstructor (.object id) m c (s.later 1) = .value b (s.later 1) :=
  congrArg (Step.value · _) ((State.isConstructor_later).trans h)

theorem constructorText_value : constructorText id m c s = .value (s.constructorText id) s := by
  rw [constructorText, bind_value (show object id m c s = .value (s.object id) s from rfl), State.constructorText]
  dsimp only
  split <;> rfl

section Undisturbed
variable (hdeadline : c.deadline = none) (hinterrupted : s.interrupted = false)
include hdeadline hinterrupted

theorem checkInterrupts_later : checkInterrupts m c s = .value () (s.later 1) := by
  have hclock : change (fun s => { s with clock := s.clock + checkNanos }) m c s = .value () (s.later 1) := by
    rw [State.later, Nat.one_mul]
    rfl
  rw [checkInterrupts, bind_value hclock,
    bind_value (show look (·.interrupted) m c (s.later 1) = .value false _ from
      congrArg (Step.value · _) hinterrupted), if_neg Bool.false_ne_true]
  dsimp only
  rw [bind_value (show context m c (s.later 1) = .value c _ from rfl), hdeadline]
  rfl

theorem callFunction_bound (heffects : c.effects = none) (h : s.Bound id target this ownArgs) :
    callFunction (.object id) own rest (machine (fuel + 1)) c s =
      callFunction (.object target) this (ownArgs ++ rest) (machine fuel) c (s.later 1) := by
  have hkind : ((s.later 1).object id).kind = .function (.bound target this ownArgs) := h
  rw [callFunction, bind_value (checkInterrupts_later hdeadline hinterrupted),
    bind_value (show object id _ c (s.later 1) = .value ((s.later 1).object id) _ from rfl), hkind]
  dsimp only
  rw [bind_value (checkCall_none heffects)]
  rfl

theorem constructWith_bound (heffects : c.effects = none) (h : s.Bound id target this ownArgs)
    (hconstructor : s.isConstructor id = true) :
    constructWith (.object id) rest (.object newTarget) (machine (fuel + 1)) c s =
      constructWith (.object target) (ownArgs ++ rest)
        (.object (if newTarget = id then target else newTarget)) (machine fuel) c (s.later 1) := by
  have hkind : ((s.later 1).object id).kind = .function (.bound target this ownArgs) := h
  have hnewTarget : (if newTarget == id then Value.object target else .object newTarget) =
      .object (if newTarget = id then target else newTarget) := by
    by_cases hid : newTarget = id <;> simp [hid]
  rw [constructWith, bind_value (checkInterrupts_later hdeadline hinterrupted)]
  dsimp only
  rw [bind_value (isConstructor_value hconstructor), if_neg (by simp),
    bind_value (show object id _ c (s.later 1) = .value ((s.later 1).object id) _ from rfl), hkind]
  dsimp only
  rw [bind_value (checkCall_none heffects), hnewTarget]
  rfl

theorem constructWith_refused (hconstructor : s.isConstructor id = false) :
    constructWith (.object id) rest (.object newTarget) m c s = .abrupt (.failure
      ⟨.type, (s.later 1).constructorText id ++ " is not a constructor", 0, 0⟩) (s.later 1) := by
  rw [constructWith, bind_value (checkInterrupts_later hdeadline hinterrupted)]
  dsimp only
  rw [bind_value (isConstructor_value hconstructor), if_pos (by simp), bind_value constructorText_value]
  rfl

end Undisturbed

section Chain
variable (h : s.Binds f chain id this args)
include h

theorem callFunction_binds (heffects : c.effects = none) (hdeadline : c.deadline = none)
    (hinterrupted : s.interrupted = false) {n : Nat} :
    callFunction (.object id) own rest (machine (fuel + chain.length)) c (s.later n) =
      callFunction (.object f) this (args ++ rest) (machine fuel) c (s.later (chain.length + n)) := by
  induction h generalizing own rest n with
  | last hbound =>
    rw [List.length_singleton, callFunction_bound (s := s.later n) hdeadline hinterrupted heffects hbound,
      State.later_later]
  | cons hbound hchain ih =>
    rw [List.length_cons, ← Nat.add_assoc,
      callFunction_bound (s := s.later n) hdeadline hinterrupted heffects hbound, State.later_later, ih,
      Array.append_assoc, Nat.add_right_comm, Nat.add_assoc, Nat.add_comm n]

/-- A function of the chain that is to be constructed gives way to the one at the end. -/
theorem constructWith_binds (heffects : c.effects = none) (hdeadline : c.deadline = none)
    (hinterrupted : s.interrupted = false) (hf : s.Unbound f) (hconstructor : s.isConstructor f = true)
    {n : Nat} :
    constructWith (.object id) rest (.object newTarget) (machine (fuel + chain.length)) c (s.later n) =
      constructWith (.object f) (args ++ rest) (.object (if newTarget ∈ chain then f else newTarget))
        (machine fuel) c (s.later (chain.length + n)) := by
  have hself {id} {chain : List ObjectId} {this args} (h : s.Binds f chain id this args) {n : Nat} :
      (s.later n).isConstructor id = true := by
    rw [State.isConstructor_later, h.isConstructor_eq hf, hconstructor]
  induction h generalizing newTarget rest n with
  | last hbound =>
    rw [List.length_singleton, constructWith_bound (s := s.later n) hdeadline hinterrupted heffects hbound
      (hself (.last hbound)), State.later_later]
    simp only [List.mem_singleton]
  | @cons id target chain own this ownArgs args hbound hchain ih =>
    have hhead : target ∈ chain := by cases hchain <;> exact List.mem_cons_self
    have htarget : (if (if newTarget = id then target else newTarget) ∈ chain then f
        else if newTarget = id then target else newTarget) =
        if newTarget ∈ id :: chain then f else newTarget := by
      by_cases hid : newTarget = id <;> simp [hid, hhead]
    rw [List.length_cons, ← Nat.add_assoc, constructWith_bound (s := s.later n) hdeadline hinterrupted
      heffects hbound (hself (.cons hbound hchain)), State.later_later, ih, Array.append_assoc, htarget,
      Nat.add_right_comm, Nat.add_assoc, Nat.add_comm n]

theorem checkCall_binds :
    checkCall id own rest (machine (fuel + 1 + chain.length)) c s =
      checkCall f this (args ++ rest) (machine (fuel + 1)) c s := by
  rw [Nat.add_right_comm, checkCall, checkCall, bind_value (show context _ c s = .value c s from rfl),
    bind_value (show context _ c s = .value c s from rfl)]
  cases c.effects with
  | none => rfl
  | some table =>
    dsimp only
    rw [bind_value (show Exec.fuel (machine (fuel + chain.length + 1)) c s = .value (fuel + chain.length) s
        from rfl), bind_value (show Exec.fuel (machine (fuel + 1)) c s = .value fuel s from rfl)]
    have hrefusal : (look fun s => s.refusal? (s.effectTables.getD table []) c.firstObject
        (fuel + chain.length) id own rest.toList) (machine (fuel + chain.length + 1)) c s =
        .value (s.refusal? (s.effectTables.getD table []) c.firstObject fuel f this (args ++ rest).toList) s := by
      rw [Array.toList_append, ← h.refusal?_eq]
      rfl
    rw [bind_value hrefusal, bind_value (show look _ (machine (fuel + 1)) c s = .value _ s from rfl)]
    cases s.refusal? (s.effectTables.getD table []) c.firstObject fuel f this (args ++ rest).toList <;> rfl

end Chain

/-- What is asked of a bound function is asked of the function at the end of its chain, with the `this`
of the innermost one and all their arguments. Each function of the chain costs one request and one check
for interruptions. A dry run decides as it does for the function at the end; what cannot be constructed
is refused under its own name. -/
structure StandsFor (s : State) (id f : ObjectId) (chain : List ObjectId) (this : Value)
    (args : Array Value) : Prop where
  call : ∀ {c : Context} {fuel : Nat} {own : Value} {rest : Array Value}, c.effects = none →
    c.deadline = none → s.interrupted = false →
    callFunction (.object id) own rest (machine (fuel + chain.length)) c s =
      callFunction (.object f) this (args ++ rest) (machine fuel) c (s.later chain.length)
  construct : ∀ {c : Context} {fuel : Nat} {newTarget : ObjectId} {rest : Array Value},
    c.effects = none → c.deadline = none → s.interrupted = false → s.isConstructor f = true →
    constructWith (.object id) rest (.object newTarget) (machine (fuel + chain.length)) c s =
      constructWith (.object f) (args ++ rest) (.object (if newTarget ∈ chain then f else newTarget))
        (machine fuel) c (s.later chain.length)
  refused : ∀ {c : Context} {m : Machine} {newTarget : ObjectId} {rest : Array Value},
    c.deadline = none → s.interrupted = false → s.isConstructor f = false → ∀ id' ∈ [id, f],
    constructWith (.object id') rest (.object newTarget) m c s = .abrupt (.failure
      ⟨.type, (s.later 1).constructorText id' ++ " is not a constructor", 0, 0⟩) (s.later 1)
  check : ∀ {c : Context} {fuel : Nat} {own : Value} {rest : Array Value},
    checkCall id own rest (machine (fuel + 1 + chain.length)) c s =
      checkCall f this (args ++ rest) (machine (fuel + 1)) c s
  allows : ∀ {table : EffectTable} {first : Nat} {own : Value} {rest : List Value},
    s.Allows table first id own rest ↔ s.Allows table first f this (args.toList ++ rest)

/-- Bound functions stand for the function at the end of their chain. -/
theorem bound_standsFor (h : s.Binds f chain id this args) (hf : s.Unbound f) :
    StandsFor s id f chain this args where
  call heffects hdeadline hinterrupted := callFunction_binds h heffects hdeadline hinterrupted (n := 0)
  construct heffects hdeadline hinterrupted hconstructor :=
    constructWith_binds h heffects hdeadline hinterrupted hf hconstructor (n := 0)
  refused hdeadline hinterrupted hconstructor id' hid := by
    refine constructWith_refused hdeadline hinterrupted ?_
    obtain rfl | rfl := List.mem_pair.mp hid
    · rw [h.isConstructor_eq hf, hconstructor]
    · exact hconstructor
  check := checkCall_binds h
  allows := h.allows_iff

end Exec

/-- `isPrototypeOf`, bound to an object, bound once more to an argument that inherits from it; and a
revoked proxy of a function, which was bound before. -/
def State.withBound : State := { (default : State) with
  heap := #[
    { kind := .function (.native "isPrototypeOf" (.object .isPrototypeOf)), prototype := none },
    { kind := .function (.bound ⟨0⟩ (.object ⟨3⟩) #[]), prototype := none },
    { kind := .function (.bound ⟨1⟩ .null #[.object ⟨4⟩]), prototype := none },
    { prototype := none },
    { prototype := some ⟨3⟩ },
    { kind := .proxy none, prototype := none },
    { kind := .function (.bound ⟨5⟩ .undefined #[]), prototype := none
      properties := functionProperties "bound f" 0 }] }

theorem Exec.bound_standsFor_twice : ∃ s', callFunction (.object ⟨2⟩) .undefined #[] (machine 8) default
    State.withBound = .value (.boolean true) s' := by
  have h : State.withBound.Binds ⟨0⟩ [⟨2⟩, ⟨1⟩] ⟨2⟩ (.object ⟨3⟩) (#[] ++ #[.object ⟨4⟩]) :=
    .cons rfl (.last rfl)
  have hf : State.withBound.Unbound ⟨0⟩ := fun _ _ _ => nofun
  exact ⟨_, ((bound_standsFor h hf).call rfl rfl rfl).trans rfl⟩

/-- A function that cannot be constructed, and one that is bound to it, are refused in other words. -/
theorem Exec.bound_refused_otherwise :
    State.withBound.Binds ⟨5⟩ [⟨6⟩] ⟨6⟩ .undefined #[] ∧ State.withBound.Unbound ⟨5⟩ ∧
    constructWith (.object ⟨6⟩) #[] (.object ⟨6⟩) (machine 1) default State.withBound = .abrupt
      (.failure ⟨.type, "bound f is not a constructor", 0, 0⟩) (State.withBound.later 1) ∧
    constructWith (.object ⟨5⟩) #[] (.object ⟨5⟩) (machine 0) default (State.withBound.later 1) = .abrupt
      (.failure ⟨.type, "#<Proxy> is not a constructor", 0, 0⟩) (State.withBound.later 2) := by
  refine ⟨.last rfl, fun _ _ _ => nofun, ?_, ?_⟩
  · rw [constructWith_refused rfl rfl (by decide +kernel),
      show (State.withBound.later 1).constructorText ⟨6⟩ ++ " is not a constructor" =
        "bound f is not a constructor" by decide +kernel]
  · rw [constructWith_refused rfl rfl (by decide +kernel), State.later_later,
      show (State.withBound.later 2).constructorText ⟨5⟩ ++ " is not a constructor" =
        "#<Proxy> is not a constructor" by decide +kernel]

end EcmaScript

import EcmaScript.Timer.Queue
import Mathlib.Data.List.Nodup

/-! The queue of timers after any sequence of calls: in which order timers are taken, that an id is
given once, and that a timer that was cancelled is not taken again. -/
namespace EcmaScript

/-- Whether an entry is due before another. Of two due together, the one set first is. -/
def TimerEntry.Before (e f : TimerEntry) : Prop :=
  e.due < f.due ∨ e.due = f.due ∧ e.order < f.order

namespace TimerQueue

/-- Sets a timer that was taken again, if it repeats and a time for that is given. -/
def rearm (q : TimerQueue) (again : Option Nat) (t : Timer) : TimerQueue :=
  match t.interval, again with
  | some _, some due => q.arm due t
  | _, _ => q

/-- A call on the queue. A timer that is taken may be set again in the same turn. -/
inductive Call where
  | schedule (due : Nat) (callback : Value) (args : Array Value) (interval : Option Nat)
  | cancel (id : Nat)
  | discardFrom (id : Nat)
  | take (now : Nat) (again : Option Nat)

/-- The queue that a call leaves. -/
def next (q : TimerQueue) : Call → TimerQueue
  | .schedule due callback args interval => (q.schedule due callback args interval).2
  | .cancel id => q.cancel id
  | .discardFrom id => q.discardFrom id
  | .take now again =>
    match q.popDue now with
    | some (t, rest) => rest.rearm again t
    | none => q

/-- The id that a call gives to a timer. -/
def gives (q : TimerQueue) : Call → Option Nat
  | .schedule due callback args interval => some (q.schedule due callback args interval).1
  | _ => none

/-- The timer that a call takes. -/
def takes (q : TimerQueue) : Call → Option Timer
  | .take now _ => (q.popDue now).map (·.1)
  | _ => none

def after (q : TimerQueue) (calls : List Call) : TimerQueue := calls.foldl next q

/-- The ids that are given along some calls. -/
def given (q : TimerQueue) : List Call → List Nat
  | [] => []
  | call :: calls => (q.gives call).toList ++ given (q.next call) calls

/-- The timers that are taken along some calls. -/
def taken (q : TimerQueue) : List Call → List Timer
  | [] => []
  | call :: calls => (q.takes call).toList ++ taken (q.next call) calls

/-- What holds of a queue between calls. -/
structure Lawful (q : TimerQueue) : Prop where
  sorted : q.entries.Pairwise TimerEntry.Before
  order_le : ∀ e ∈ q.entries, e.order ≤ q.lastOrder
  nodup : (q.entries.map (·.timer.id)).Nodup
  id_le : ∀ e ∈ q.entries, e.timer.id ≤ q.lastId

/-- An id that was given, and that no waiting timer has. -/
structure Gone (id : Nat) (q : TimerQueue) : Prop where
  le : id ≤ q.lastId
  ne : ∀ e ∈ q.entries, e.timer.id ≠ id

variable {q : TimerQueue} {e : TimerEntry} {t : Timer} {id now due : Nat} {again : Option Nat}

theorem place_perm (e : TimerEntry) (l : List TimerEntry) : (place e l).Perm (e :: l) := by
  induction l with
  | nil => exact .refl _
  | cons f rest ih =>
    rw [place]
    split
    · exact .refl _
    · exact (ih.cons f).trans (.swap e f rest)

theorem mem_place {f : TimerEntry} {l : List TimerEntry} : f ∈ place e l ↔ f = e ∨ f ∈ l := by
  rw [(place_perm e l).mem_iff, List.mem_cons]

theorem place_sorted {l : List TimerEntry} (hl : l.Pairwise TimerEntry.Before)
    (he : ∀ f ∈ l, f.order < e.order) : (place e l).Pairwise TimerEntry.Before := by
  induction l with
  | nil => exact List.pairwise_singleton _ e
  | cons f rest ih =>
    rw [List.pairwise_cons] at hl
    rw [place]
    split
    · rename_i hef
      refine List.pairwise_cons.2 ⟨fun g hg => ?_, List.pairwise_cons.2 hl⟩
      rcases List.mem_cons.1 hg with rfl | hg
      · exact .inl hef
      · have hfg := hl.1 g hg
        unfold TimerEntry.Before at hfg ⊢
        omega
    · rename_i hef
      refine List.pairwise_cons.2 ⟨fun g hg => ?_, ih hl.2 fun g hg => he g (.tail f hg)⟩
      rcases mem_place.1 hg with rfl | hg
      · have := he f (.head rest)
        unfold TimerEntry.Before
        omega
      · exact hl.1 g hg

theorem Lawful.empty : Lawful {} := ⟨.nil, by simp, .nil, by simp⟩

/-- Entries may be dropped at any time. -/
theorem Lawful.sublist {l : List TimerEntry} (hq : q.Lawful) (hl : l.Sublist q.entries) :
    Lawful { q with entries := l } where
  sorted := hq.sorted.sublist hl
  order_le e he := hq.order_le e (hl.subset he)
  nodup := hq.nodup.sublist (hl.map _)
  id_le e he := hq.id_le e (hl.subset he)

theorem Lawful.arm (hq : q.Lawful) (ht : Gone t.id q) : (q.arm due t).Lawful where
  sorted := place_sorted hq.sorted fun f hf => Nat.lt_succ_of_le (hq.order_le f hf)
  order_le f hf := by
    rcases mem_place.1 hf with rfl | hf
    · exact Nat.le_refl _
    · exact Nat.le_succ_of_le (hq.order_le f hf)
  nodup := by
    refine ((place_perm _ q.entries).map _).nodup_iff.2 (List.nodup_cons.2 ⟨fun h => ?_, hq.nodup⟩)
    obtain ⟨f, hf, hid⟩ := List.mem_map.1 h
    exact ht.ne f hf hid
  id_le f hf := by
    rcases mem_place.1 hf with rfl | hf
    · exact ht.le
    · exact hq.id_le f hf

theorem Gone.sublist {l : List TimerEntry} (h : Gone id q) (hl : l.Sublist q.entries) :
    Gone id { q with entries := l } :=
  ⟨h.le, fun e he => h.ne e (hl.subset he)⟩

theorem Gone.arm (h : Gone id q) (ht : t.id ≠ id) : Gone id (q.arm due t) := by
  refine ⟨h.le, fun f hf => ?_⟩
  rcases mem_place.1 hf with rfl | hf
  · exact ht
  · exact h.ne f hf

theorem gone_cancel (h : id ≤ q.lastId) : Gone id (q.cancel id) := by
  refine ⟨h, fun e he => ?_⟩
  simpa using (List.mem_filter.1 he).2

theorem popDue_eq_some {rest : TimerQueue} :
    q.popDue now = some (t, rest) ↔
      ∃ e, q.entries = e :: rest.entries ∧ e.timer = t ∧ e.due ≤ now ∧
        rest = { q with entries := rest.entries } := by
  unfold popDue
  constructor
  · intro h
    split at h
    · cases h
    · rename_i e tail he
      split at h
      · rename_i hdue
        cases h
        exact ⟨e, he, rfl, hdue, rfl⟩
      · cases h
  · rintro ⟨e, he, rfl, hdue, hr⟩
    rw [he]
    simp only [hdue, ↓reduceIte, Option.some.injEq, Prod.mk.injEq, true_and]
    exact hr.symm

theorem Lawful.of_popDue {rest : TimerQueue} (hq : q.Lawful) (h : q.popDue now = some (t, rest)) :
    rest.Lawful ∧ Gone t.id rest ∧ rest.entries.Sublist q.entries ∧ rest.lastId = q.lastId := by
  obtain ⟨e, he, rfl, -, hr⟩ := popDue_eq_some.1 h
  have hsub : rest.entries.Sublist q.entries := he ▸ List.sublist_cons_self e rest.entries
  have hn := hq.nodup
  rw [he, List.map_cons, List.nodup_cons, List.mem_map] at hn
  refine ⟨hr ▸ hq.sublist hsub, ⟨?_, fun f hf hid => hn.1 ⟨f, hf, hid⟩⟩, hsub, by rw [hr]⟩
  rw [hr]
  exact hq.id_le e (he ▸ .head _)

theorem gone_schedule {callback : Value} {args : Array Value} {interval : Option Nat}
    (hq : q.Lawful) :
    Gone (⟨q.lastId + 1, callback, args, interval⟩ : Timer).id { q with lastId := q.lastId + 1 } :=
  ⟨Nat.le_refl _, fun e he => Nat.ne_of_lt (Nat.lt_succ_of_le (hq.id_le e he))⟩

theorem Lawful.next (hq : q.Lawful) (call : Call) : (q.next call).Lawful := by
  cases call with
  | schedule due callback args interval =>
    refine Lawful.arm ⟨hq.sorted, hq.order_le, hq.nodup, fun e he => ?_⟩ (gone_schedule hq)
    exact Nat.le_succ_of_le (hq.id_le e he)
  | cancel id => exact hq.sublist List.filter_sublist
  | discardFrom id => exact hq.sublist List.filter_sublist
  | take now again =>
    unfold TimerQueue.next
    dsimp only
    split
    · rename_i t rest h
      obtain ⟨hr, ht, -⟩ := hq.of_popDue h
      unfold rearm
      split
      · exact hr.arm ht
      · exact hr
    · exact hq

theorem Lawful.after (hq : q.Lawful) (calls : List Call) : (q.after calls).Lawful := by
  induction calls generalizing q with
  | nil => exact hq
  | cons call calls ih => exact ih (hq.next call)

theorem lastId_next (q : TimerQueue) (call : Call) :
    (q.next call).lastId = q.lastId + (q.gives call).toList.length := by
  cases call with
  | schedule => rfl
  | cancel => rfl
  | discardFrom => rfl
  | take now again =>
    unfold next
    dsimp only
    split
    · rename_i t rest h
      obtain ⟨-, -, -, -, hr⟩ := popDue_eq_some.1 h
      unfold rearm
      split <;> rw [hr] <;> rfl
    · rfl

theorem gives_eq {call : Call} {i : Nat} (h : i ∈ (q.gives call).toList) :
    q.lastId < i ∧ i ≤ (q.next call).lastId := by
  rw [lastId_next]
  cases call with
  | schedule =>
    obtain rfl := List.mem_singleton.1 h
    exact ⟨Nat.lt_succ_self _, Nat.le_refl _⟩
  | cancel => cases h
  | discardFrom => cases h
  | take => cases h

theorem lastId_le_after (q : TimerQueue) (calls : List Call) : q.lastId ≤ (q.after calls).lastId := by
  induction calls generalizing q with
  | nil => exact Nat.le_refl _
  | cons call calls ih =>
    refine Nat.le_trans ?_ (ih (q.next call))
    rw [lastId_next]
    exact Nat.le_add_right _ _

theorem mem_given {calls : List Call} {i : Nat} (h : i ∈ q.given calls) :
    q.lastId < i ∧ i ≤ (q.after calls).lastId := by
  induction calls generalizing q with
  | nil => cases h
  | cons call calls ih =>
    rcases List.mem_append.1 h with h | h
    · have := gives_eq h
      exact ⟨this.1, Nat.le_trans this.2 (lastId_le_after _ calls)⟩
    · have := ih h
      rw [lastId_next] at this
      exact ⟨Nat.lt_of_le_of_lt (Nat.le_add_right _ _) this.1, this.2⟩

theorem given_ascending (q : TimerQueue) (calls : List Call) :
    (q.given calls).Pairwise (· < ·) := by
  induction calls generalizing q with
  | nil => exact .nil
  | cons call calls ih =>
    refine List.pairwise_append.2 ⟨?_, ih _, fun i hi j hj => ?_⟩
    · cases call <;> simp [gives]
    · exact Nat.lt_of_le_of_lt (gives_eq hi).2 (mem_given hj).1

theorem takes_mem {call : Call} (h : t ∈ (q.takes call).toList) : ∃ e ∈ q.entries, e.timer = t := by
  cases call with
  | take now again =>
    obtain ⟨⟨_, rest⟩, hp, rfl⟩ := Option.map_eq_some_iff.1 (Option.mem_toList.1 h)
    obtain ⟨e, he, ht, -⟩ := popDue_eq_some.1 hp
    exact ⟨e, he ▸ .head _, ht⟩
  | schedule => cases h
  | cancel => cases h
  | discardFrom => cases h

theorem Gone.next (h : Gone id q) (call : Call) : Gone id (q.next call) := by
  cases call with
  | schedule due callback args interval =>
    refine Gone.arm ⟨Nat.le_succ_of_le h.le, h.ne⟩ (Nat.ne_of_gt (Nat.lt_succ_of_le h.le))
  | cancel => exact h.sublist List.filter_sublist
  | discardFrom => exact h.sublist List.filter_sublist
  | take now again =>
    unfold TimerQueue.next
    dsimp only
    split
    · rename_i t rest hp
      obtain ⟨e, he, rfl, -, hr⟩ := popDue_eq_some.1 hp
      have hrest : Gone id rest := by
        rw [hr]
        exact h.sublist (he ▸ List.sublist_cons_self e rest.entries)
      unfold rearm
      split
      · exact hrest.arm (h.ne e (he ▸ .head _))
      · exact hrest
    · exact h

theorem Gone.taken {calls : List Call} (h : Gone id q) (ht : t ∈ q.taken calls) : t.id ≠ id := by
  induction calls generalizing q with
  | nil => cases ht
  | cons call calls ih =>
    rcases List.mem_append.1 ht with ht | ht
    · obtain ⟨e, he, rfl⟩ := takes_mem ht
      exact h.ne e he
    · exact ih (h.next call) ht

theorem Lawful.gone_of_takes {call : Call} (hq : q.Lawful) (h : t ∈ (q.takes call).toList)
    (ht : t.interval = none) : Gone t.id (q.next call) := by
  cases call with
  | take now again =>
    obtain ⟨⟨_, rest⟩, hp, rfl⟩ := Option.map_eq_some_iff.1 (Option.mem_toList.1 h)
    unfold TimerQueue.next rearm
    dsimp only at ht ⊢
    rw [hp]
    dsimp only
    rw [ht]
    exact (hq.of_popDue hp).2.1
  | schedule => cases h
  | cancel => cases h
  | discardFrom => cases h

theorem Lawful.taken_nodup (hq : q.Lawful) (calls : List Call) :
    (((q.taken calls).filter (·.interval.isNone)).map (·.id)).Nodup := by
  induction calls generalizing q with
  | nil => exact .nil
  | cons call calls ih =>
    rw [TimerQueue.taken, List.filter_append, List.map_append]
    refine List.nodup_append.2 ⟨?_, ih (hq.next call), fun i hi j hj => ?_⟩
    · cases q.takes call with
      | none => exact .nil
      | some t => exact (List.nodup_singleton t.id).sublist (List.filter_sublist.map _)
    · obtain ⟨t, ht, rfl⟩ := List.mem_map.1 hi
      obtain ⟨u, hu, rfl⟩ := List.mem_map.1 hj
      rw [List.mem_filter, Option.isNone_iff_eq_none] at ht
      exact ((hq.gone_of_takes ht.1 ht.2).taken (List.mem_filter.1 hu).1).symm

theorem Lawful.popDue_eq_none (hq : q.Lawful) :
    q.popDue now = none ↔ ∀ e ∈ q.entries, now < e.due := by
  have hs := hq.sorted
  unfold popDue
  cases hl : q.entries with
  | nil => simp
  | cons e rest =>
    rw [hl, List.pairwise_cons] at hs
    dsimp only
    split
    · rename_i hdue
      simp only [reduceCtorEq, List.mem_cons, forall_eq_or_imp, false_iff]
      omega
    · rename_i hdue
      simp only [List.mem_cons, forall_eq_or_imp, true_iff]
      refine ⟨by omega, fun f hf => ?_⟩
      have := hs.1 f hf
      unfold TimerEntry.Before at this
      omega

theorem Lawful.popDue_iff {rest : TimerQueue} (hq : q.Lawful) :
    q.popDue now = some (t, rest) ↔
      ∃ e ∈ q.entries, e.timer = t ∧ e.due ≤ now ∧ (∀ f ∈ q.entries, f ≠ e → e.Before f) ∧
        rest = q.cancel t.id := by
  have hcancel : ∀ {e l}, q.entries = e :: l → q.cancel e.timer.id = { q with entries := l } := by
    intro e l he
    have hn := hq.nodup
    rw [he, List.map_cons, List.nodup_cons, List.mem_map] at hn
    have hl : l.filter (·.timer.id != e.timer.id) = l :=
      List.filter_eq_self.2 fun f hf => bne_iff_ne.2 fun hid => hn.1 ⟨f, hf, hid⟩
    unfold cancel
    rw [he, List.filter_cons_of_neg (by simp), hl]
  rw [popDue_eq_some]
  have hs := hq.sorted
  constructor
  · rintro ⟨e, he, rfl, hdue, hr⟩
    rw [he, List.pairwise_cons] at hs
    refine ⟨e, he ▸ .head _, rfl, hdue, fun f hf hne => ?_, hr.trans (hcancel he).symm⟩
    rw [he] at hf
    exact hs.1 f ((List.mem_cons.1 hf).resolve_left hne)
  · rintro ⟨e, he, rfl, hdue, hfirst, rfl⟩
    obtain ⟨f, l, hl⟩ : ∃ f l, q.entries = f :: l := List.exists_cons_of_ne_nil (List.ne_nil_of_mem he)
    obtain rfl : e = f := by
      by_contra hne
      have hfe := hfirst f (hl ▸ .head _) (Ne.symm hne)
      rw [hl] at hs he
      have hef := (List.pairwise_cons.1 hs).1 e ((List.mem_cons.1 he).resolve_left hne)
      unfold TimerEntry.Before at hfe hef
      omega
    rw [hcancel hl]
    exact ⟨e, hl, rfl, hdue, rfl⟩

end TimerQueue

/-- Along any calls on a new queue, no two waiting timers have one id and no id is given again. What
is taken is the waiting timer that is due first, the one set first among equals, and nothing is taken
before one is due. A timer that does not repeat is taken once at most, and one that was cancelled
after its id was given is not taken again, however it was set again before. -/
theorem timerQueue_lawful (calls : List TimerQueue.Call) :
    let q := TimerQueue.after {} calls
    (q.entries.map (·.timer.id)).Nodup ∧ (TimerQueue.given {} calls).Pairwise (· < ·) ∧
      (∀ e ∈ q.entries, e.order ≤ q.lastOrder) ∧
      (∀ now, q.popDue now = none ↔ ∀ e ∈ q.entries, now < e.due) ∧
      (∀ now t rest, q.popDue now = some (t, rest) ↔
        ∃ e ∈ q.entries, e.timer = t ∧ e.due ≤ now ∧ (∀ f ∈ q.entries, f ≠ e → e.Before f) ∧
          rest = q.cancel t.id) ∧
      (((TimerQueue.taken {} calls).filter (·.interval.isNone)).map (·.id)).Nodup ∧
      ∀ id ∈ TimerQueue.given {} calls, ∀ later, ∀ t ∈ (q.cancel id).taken later, t.id ≠ id := by
  have hq := TimerQueue.Lawful.empty.after calls
  refine ⟨hq.nodup, TimerQueue.given_ascending {} calls, hq.order_le,
    fun now => hq.popDue_eq_none, fun now t rest => hq.popDue_iff,
    TimerQueue.Lawful.empty.taken_nodup calls, fun id hid later t ht => ?_⟩
  exact (TimerQueue.gone_cancel (TimerQueue.mem_given hid).2).taken ht

/-- An interval that is cancelled in its own turn, when it has been set again, does not come back. -/
theorem interval_cancelled_in_its_turn :
    let calls := [.schedule 5 .undefined #[] (some 10), .take 5 (some 15)]
    let later := [.take 15 (some 25), .schedule 20 .undefined #[] none, .take 30 none]
    (TimerQueue.taken {} calls).map (·.id) = [1] ∧
      (((TimerQueue.after {} calls).cancel 1).taken later).map (·.id) = [2] ∧
      ∀ t ∈ ((TimerQueue.after {} calls).cancel 1).taken later, t.id ≠ 1 :=
  ⟨rfl, rfl, (timerQueue_lawful _).2.2.2.2.2.2 1 (.head _) _⟩

/-- An id that is cancelled before it is given is no obstacle to the timer that gets it. -/
theorem taken_after_early_cancel :
    ¬ ∀ calls id later, ∀ t ∈ ((TimerQueue.after {} calls).cancel id).taken later, t.id ≠ id :=
  fun h => h [] 1 [.schedule 0 .undefined #[] none, .take 0 none] _ (.head _) rfl

end EcmaScript

/-! First-in first-out queues. -/
namespace EcmaScript

/-- Items to be taken from the front, and behind them items in reverse. -/
structure Queue (α : Type) where
  front : List α := []
  back : List α := []
deriving Inhabited

namespace Queue
variable {α : Type}

def toList (q : Queue α) : List α := q.front ++ q.back.reverse

def isEmpty (q : Queue α) : Bool := q.front.isEmpty && q.back.isEmpty

def size (q : Queue α) : Nat := q.front.length + q.back.length

def push (q : Queue α) (a : α) : Queue α := { q with back := a :: q.back }

def pop? (q : Queue α) : Option (α × Queue α) :=
  match q.front with
  | a :: rest => some (a, { q with front := rest })
  | [] =>
    match q.back.reverse with
    | a :: rest => some (a, ⟨rest, []⟩)
    | [] => none

def truncate (q : Queue α) (n : Nat) : Queue α := ⟨q.toList.take n, []⟩

theorem toList_push (q : Queue α) (a : α) : (q.push a).toList = q.toList ++ [a] := by
  simp [toList, push]

theorem toList_truncate (q : Queue α) (n : Nat) : (q.truncate n).toList = q.toList.take n := by
  simp [toList, truncate]

theorem isEmpty_iff {q : Queue α} : q.isEmpty = true ↔ q.toList = [] := by
  simp [isEmpty, toList]

theorem pop?_eq_none {q : Queue α} : q.pop? = none ↔ q.toList = [] := by
  unfold pop? toList
  split
  · simp_all
  · split <;> simp_all

theorem toList_of_pop? {q rest : Queue α} {a : α} (h : q.pop? = some (a, rest)) :
    q.toList = a :: rest.toList := by
  unfold pop? at h
  unfold toList
  split at h
  · cases h
    simp_all
  · split at h
    · cases h
      simp_all
    · cases h

end Queue
end EcmaScript

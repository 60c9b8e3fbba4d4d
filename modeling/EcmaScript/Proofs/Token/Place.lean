import EcmaScript.Token.Cursor
import Mathlib.Data.List.DropRight

/-! Places in a text: how many bytes, lines and characters of a line stand before them. -/
namespace EcmaScript.Text

/-- The number of bytes of a text. -/
def size : List Char → Nat
  | [] => 0
  | c :: cs => c.utf8Size + size cs

/-- The number of line terminators in a text. A carriage return with a line feed is one. -/
def lineBreaks : List Char → Nat
  | '\r' :: '\n' :: rest => lineBreaks rest + 1
  | c :: rest => if isLineTerminator c then lineBreaks rest + 1 else lineBreaks rest
  | [] => 0

def lastLine (cs : List Char) : Nat := (cs.rtakeWhile fun c => !isLineTerminator c).length

def spanBetween (cs : List Char) (i j : Nat) : Span :=
  ⟨size (cs.take i), size (cs.take j), 1 + lineBreaks (cs.take i), 1 + lastLine (cs.take i)⟩

theorem size_append (cs ds : List Char) : size (cs ++ ds) = size cs + size ds := by
  induction cs with
  | nil => simp [size]
  | cons c cs ih => simp [size, ih, Nat.add_assoc]

theorem size_take_le (cs : List Char) {i j : Nat} (h : i ≤ j) : size (cs.take i) ≤ size (cs.take j) := by
  obtain ⟨k, rfl⟩ := Nat.exists_eq_add_of_le h
  rw [List.take_add, size_append]
  exact Nat.le_add_right _ _

theorem size_take_lt (cs : List Char) {i j : Nat} (h : i < j) (hi : i < cs.length) :
    size (cs.take i) < size (cs.take j) := by
  refine Nat.lt_of_lt_of_le ?_ (size_take_le cs h)
  rw [List.take_succ_eq_append_getElem hi, size_append]
  simp [size, Char.utf8Size_pos]

theorem lastLine_of_all {cs : List Char} (h : cs.all (!isLineTerminator ·) = true) :
    lastLine cs = cs.length := by
  rw [lastLine, List.rtakeWhile, List.length_reverse, List.takeWhile_eq_self_iff.mpr (by simpa using h),
    List.length_reverse]

theorem length_rtakeWhile_cons (p : Char → Bool) (c : Char) (cs : List Char) :
    ((c :: cs).rtakeWhile p).length =
      if cs.all p then (if p c then cs.length + 1 else cs.length) else (cs.rtakeWhile p).length := by
  unfold List.rtakeWhile
  rw [List.reverse_cons, List.takeWhile_append, List.length_reverse, List.length_reverse]
  by_cases hall : cs.all p = true
  · have hself : cs.reverse.takeWhile p = cs.reverse :=
      List.takeWhile_eq_self_iff.mpr (by simpa using hall)
    rw [if_pos hall, if_pos (by rw [hself, List.length_reverse])]
    cases hc : p c <;> simp [hc]
  · have hne : ¬ (cs.reverse.takeWhile p).length = cs.length := by
      intro hlength
      have hself := (List.takeWhile_sublist (l := cs.reverse) p).eq_of_length
        (by rw [hlength, List.length_reverse])
      exact hall (by simpa using List.takeWhile_eq_self_iff.mp hself)
    rw [if_neg hall, if_neg hne, List.length_reverse]

theorem lastLine_cons (c : Char) (cs : List Char) : lastLine (c :: cs) =
    if cs.all (!isLineTerminator ·) then (if isLineTerminator c then cs.length else cs.length + 1)
    else lastLine cs := by
  rw [lastLine, length_rtakeWhile_cons]
  cases isLineTerminator c <;> rfl

theorem lineBreaks_cons {c : Char} {rest : List Char} (h : ¬ (c = '\r' ∧ rest.head? = some '\n')) :
    lineBreaks (c :: rest) = if isLineTerminator c then lineBreaks rest + 1 else lineBreaks rest := by
  rw [lineBreaks]
  rintro rest' rfl rfl
  exact h ⟨rfl, rfl⟩

end EcmaScript.Text

namespace EcmaScript.Cursor
open EcmaScript.Text

theorem skip_add (c : Cursor) (m n : Nat) : c.skip (m + n) = (c.skip m).skip n := by
  induction m generalizing c with
  | zero => rw [Nat.zero_add, skip]
  | succ m ih => rw [Nat.succ_add, skip, skip, ih]

theorem rest_next (c : Cursor) : c.next.rest = c.rest.tail := by
  obtain ⟨rest, offset, line, column⟩ := c
  cases rest with
  | nil => rfl
  | cons a rest =>
    simp only [next]
    split <;> rfl

theorem rest_skip (c : Cursor) (n : Nat) : (c.skip n).rest = c.rest.drop n := by
  induction n generalizing c with
  | zero => rw [skip, List.drop_zero]
  | succ n ih => rw [skip, ih, rest_next, List.drop_tail]

theorem offset_skip (c : Cursor) (n : Nat) : (c.skip n).offset = c.offset + size (c.rest.take n) := by
  induction n generalizing c with
  | zero => simp [skip, size]
  | succ n ih =>
    rw [skip, ih, rest_next]
    obtain ⟨rest, offset, line, column⟩ := c
    cases rest with
    | nil => simp [next, size]
    | cons a rest =>
      have hoffset : (Cursor.next ⟨a :: rest, offset, line, column⟩).offset = offset + a.utf8Size := by
        simp only [next]
        split <;> rfl
      rw [hoffset]
      simp [size, Nat.add_assoc]

theorem endsLine_of_not_pair {c : Char} {rest : List Char} (h : ¬ (c = '\r' ∧ rest.head? = some '\n')) :
    endsLine c rest = isLineTerminator c := by
  by_cases hc : c = '\r'
  · have hrest : rest.head? ≠ some '\n' := fun heq => h ⟨hc, heq⟩
    simp [endsLine, isLineTerminator, hc, hrest]
  · have hbeq : (c == '\r') = false := beq_eq_false_iff_ne.mpr hc
    simp [endsLine, isLineTerminator, hbeq]

/-- A place that is not between a carriage return and its line feed is in the line and column that the
characters before it make. -/
theorem place_skip (rest : List Char) (offset line column : Nat) {n : Nat} (hn : n ≤ rest.length)
    (h : (rest.drop n).head? ≠ some '\n') :
    ((Cursor.mk rest offset line column).skip n).line = line + lineBreaks (rest.take n) ∧
      ((Cursor.mk rest offset line column).skip n).column =
        if (rest.take n).all (!isLineTerminator ·) then column + n else 1 + lastLine (rest.take n) := by
  induction n generalizing rest offset line column with
  | zero => simp [skip, lineBreaks]
  | succ n ih =>
    obtain - | ⟨c, rest⟩ := rest
    · cases hn
    replace hn : n ≤ rest.length := Nat.le_of_succ_le_succ hn
    rw [List.take_succ_cons, skip]
    by_cases hpair : c = '\r' ∧ rest.head? = some '\n'
    · -- The line ends after the line feed, and the place is past that.
      obtain ⟨rfl, hhead⟩ := hpair
      obtain ⟨rest, rfl⟩ : ∃ t, rest = '\n' :: t := by
        cases rest <;> simp_all
      obtain - | n := n
      · simp at h
      have hnext : (Cursor.mk ('\r' :: '\n' :: rest) offset line column).next =
          ⟨'\n' :: rest, offset + '\r'.utf8Size, line, column + 1⟩ := rfl
      obtain ⟨hline, hcolumn⟩ := ih ('\n' :: rest) (offset + '\r'.utf8Size) line (column + 1) hn h
      have hfeed : isLineTerminator '\n' = true := rfl
      rw [hnext, hline, hcolumn, List.take_succ_cons, lastLine_cons '\r']
      simp [lineBreaks, hfeed]
    · have hends := endsLine_of_not_pair hpair
      have hbreaks : lineBreaks (c :: rest.take n) =
          if isLineTerminator c then lineBreaks (rest.take n) + 1 else lineBreaks (rest.take n) := by
        refine lineBreaks_cons fun ⟨hc, hhead⟩ => hpair ⟨hc, ?_⟩
        cases n <;> cases rest <;> simp_all
      have hlength : (rest.take n).length = n := List.length_take_of_le hn
      simp only [next, hends, hbreaks, lastLine_cons, List.all_cons, hlength]
      by_cases hc : isLineTerminator c = true
      · obtain ⟨hline, hcolumn⟩ := ih rest (offset + c.utf8Size) (line + 1) 1 hn h
        simp only [hc, if_true, hline, hcolumn, Bool.not_true, Bool.false_and, Bool.false_eq_true, if_false]
        refine ⟨by omega, ?_⟩
        split <;> rfl
      · obtain ⟨hline, hcolumn⟩ := ih rest (offset + c.utf8Size) line (column + 1) hn h
        simp only [hc, if_false, hline, hcolumn, Bool.not_false, Bool.true_and, Bool.false_eq_true, true_and]
        split <;> omega

def after (cs : List Char) (n : Nat) : Cursor := (Cursor.mk cs 0 1 1).skip n

@[simp] theorem rest_after (cs : List Char) (n : Nat) : (after cs n).rest = cs.drop n :=
  rest_skip _ n

theorem after_add (cs : List Char) (m n : Nat) : after cs (m + n) = (after cs m).skip n :=
  skip_add _ m n

theorem after_min (cs : List Char) (n : Nat) : after cs (min n cs.length) = after cs n := by
  obtain h | h := Nat.le_total n cs.length
  · rw [Nat.min_eq_left h]
  · have hend (k : Nat) (c : Cursor) (hc : c.rest = []) : c.skip k = c := by
      have hnext : c.next = c := by rw [next, hc]
      induction k with
      | zero => rfl
      | succ k ih => rw [skip, hnext, ih]
    obtain ⟨k, rfl⟩ := Nat.exists_eq_add_of_le h
    rw [Nat.min_eq_right h, after_add, hend k _ (by rw [rest_after, List.drop_length])]

theorem spanTo_after {cs : List Char} {i : Nat} (j : Nat) (hi : i ≤ cs.length)
    (h : (cs.drop i).head? ≠ some '\n') : (after cs i).spanTo (after cs j) = spanBetween cs i j := by
  obtain ⟨hline, hcolumn⟩ := place_skip cs 0 1 1 hi h
  have hcolumn' : (after cs i).column = 1 + lastLine (cs.take i) := by
    rw [after, hcolumn]
    split
    · next hall => rw [lastLine_of_all hall, List.length_take_of_le hi]
    · rfl
  have hoffset (n : Nat) : (after cs n).offset = size (cs.take n) := by
    rw [after, offset_skip, Nat.zero_add]
  rw [spanTo, spanBetween, hoffset, hoffset, hcolumn']
  exact congrArg (Span.mk _ _ · _) hline

end EcmaScript.Cursor

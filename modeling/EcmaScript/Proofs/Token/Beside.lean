import EcmaScript.Proofs.Token.Tiling

/-! A text and the same text with longer line ends, read side by side. -/
namespace EcmaScript
open EcmaScript.Text

@[simp] def withReturns : List Char → List Char
  | [] => []
  | '\n' :: rest => '\r' :: '\n' :: withReturns rest
  | c :: rest => c :: withReturns rest

section Text
variable {c : Char} {cs run rest more : List Char} {p : Char → Bool}

theorem withReturns_cons (hc : c ≠ '\n') : withReturns (c :: rest) = c :: withReturns rest := by
  rw [withReturns]
  exact fun h => absurd h hc

theorem withReturns_append (run rest : List Char) :
    withReturns (run ++ rest) = withReturns run ++ withReturns rest := by
  fun_induction withReturns run with
  | case1 => rfl
  | case2 run ih => rw [List.cons_append, withReturns, ih, List.cons_append, List.cons_append]
  | case3 c run hc ih => rw [List.cons_append, withReturns_cons hc, ih, List.cons_append]

theorem withReturns_of_not_mem (h : '\n' ∉ run) : withReturns run = run := by
  induction run with
  | nil => rfl
  | cons c run ih =>
    rw [withReturns_cons (List.ne_of_not_mem_cons h).symm, ih (List.not_mem_of_not_mem_cons h)]

theorem withReturns_eq_cons (h : withReturns cs = c :: more) (hc : c ≠ '\r') :
    ∃ rest, cs = c :: rest ∧ withReturns rest = more := by
  fun_cases withReturns cs with
  | case1 => cases h
  | case2 rest => exact absurd (List.cons.inj h).1.symm hc
  | case3 d rest hd =>
    rw [withReturns_cons hd] at h
    obtain ⟨rfl, rfl⟩ := List.cons.inj h
    exact ⟨rest, rfl, rfl⟩

theorem head?_withReturns_iff (hfeed : c ≠ '\n') (hreturn : c ≠ '\r') :
    (withReturns cs).head? = some c ↔ cs.head? = some c := by
  fun_cases withReturns cs with
  | case1 => rfl
  | case2 => simp [hfeed.symm, hreturn.symm]
  | case3 => rfl

theorem any_head?_withReturns (hfeed : p '\n' = false) (hreturn : p '\r' = false) :
    (withReturns cs).head?.any p = cs.head?.any p := by
  fun_cases withReturns cs with
  | case1 => rfl
  | case2 => rw [List.head?_cons, List.head?_cons, Option.any_some, Option.any_some, hfeed, hreturn]
  | case3 => rfl

theorem takeWhile_withReturns (hfeed : p '\n' = false) (hreturn : p '\r' = false) :
    (withReturns cs).takeWhile p = cs.takeWhile p := by
  fun_induction withReturns cs with
  | case1 => rfl
  | case2 rest => rw [List.takeWhile_cons_of_neg (by simp [hreturn]), List.takeWhile_cons_of_neg (by simp [hfeed])]
  | case3 c rest _ ih =>
    rw [List.takeWhile_cons, List.takeWhile_cons, ih]

theorem dropWhile_withReturns (hfeed : p '\n' = false) (hreturn : p '\r' = false) :
    (withReturns cs).dropWhile p = withReturns (cs.dropWhile p) := by
  fun_induction withReturns cs with
  | case1 => rfl
  | case2 rest =>
    rw [List.dropWhile_cons_of_neg (by simp [hreturn]), List.dropWhile_cons_of_neg (by simp [hfeed]), withReturns]
  | case3 c rest hc ih =>
    rw [List.dropWhile_cons, List.dropWhile_cons, ih]
    split
    · rfl
    · rw [withReturns_cons hc]

theorem not_mem_takeWhile (hfeed : p '\n' = false) : '\n' ∉ cs.takeWhile p := fun hmem =>
  absurd (List.mem_takeWhile_imp hmem) (by simp [hfeed])

end Text

/-- The same place in a text and in the one with longer line ends. -/
structure Beside (source : List Char) (c c' : Cursor) : Prop where
  place : ∃ i, c = .after source i
  place' : ∃ i, c' = .after (withReturns source) i
  rest : c'.rest = withReturns c.rest
  noReturn : '\r' ∉ c.rest
  line : c'.line = c.line
  column : c'.column = c.column

/-- The place behind a line feed, and the one between the carriage return and that line feed. -/
structure Between (source : List Char) (c c' : Cursor) : Prop where
  place' : ∃ i, c' = .after (withReturns source) i
  rest : c'.rest = '\n' :: withReturns c.rest
  beside : Beside source c c'.next

section Cursors
variable {source rest run : List Char} {a : Char} {c c' : Cursor}

theorem Cursor.place_next {cs : List Char} (h : ∃ i, c = .after cs i) : ∃ i, c.next = .after cs i := by
  obtain ⟨i, rfl⟩ := h
  exact ⟨i + 1, (Cursor.after_add cs i 1).symm⟩

theorem Beside.start {source : String} (h : '\r' ∉ source.toList) :
    Beside source.toList (.start source) (.start (String.ofList (withReturns source.toList))) := by
  refine ⟨⟨0, rfl⟩, ⟨0, ?_⟩, ?_, h, rfl, rfl⟩
  · rw [Cursor.start, String.toList_ofList]
    rfl
  · rw [Cursor.start, String.toList_ofList]
    rfl

theorem Cursor.next_of_rest (h : c.rest = a :: rest) : c.next =
    if endsLine a rest then ⟨rest, c.offset + a.utf8Size, c.line + 1, 1⟩
    else ⟨rest, c.offset + a.utf8Size, c.line, c.column + 1⟩ := by
  rw [Cursor.next, h]

theorem Beside.next (h : Beside source c c') (hc : c.rest = a :: rest) (ha : a ≠ '\n') :
    Beside source c.next c'.next := by
  have hreturn : a ≠ '\r' := by
    rintro rfl
    exact h.noReturn (by simp [hc])
  have hc' : c'.rest = a :: withReturns rest := by rw [h.rest, hc, withReturns_cons ha]
  have hends (more : List Char) : Cursor.endsLine a more = isLineTerminator a :=
    Cursor.endsLine_of_not_pair fun h => hreturn h.1
  have hplain : '\r' ∉ rest := fun hmem => h.noReturn (by simp [hc, hmem])
  refine ⟨Cursor.place_next h.place, Cursor.place_next h.place', ?_, ?_, ?_, ?_⟩
  · rw [Cursor.rest_next, Cursor.rest_next, hc, hc', List.tail_cons, List.tail_cons]
  · rwa [Cursor.rest_next, hc, List.tail_cons]
  all_goals
    rw [Cursor.next_of_rest hc, Cursor.next_of_rest hc', hends, hends]
    split
  · exact congrArg (· + 1) h.line
  · exact h.line
  · rfl
  · exact congrArg (· + 1) h.column

theorem Beside.between (h : Beside source c c') (hc : c.rest = '\n' :: rest) :
    Between source c.next c'.next := by
  have hc' : c'.rest = '\r' :: '\n' :: withReturns rest := by rw [h.rest, hc, withReturns]
  have hnext : c'.next = ⟨'\n' :: withReturns rest, c'.offset + '\r'.utf8Size, c'.line, c'.column + 1⟩ := by
    rw [Cursor.next_of_rest hc']
    rfl
  have hrest : c.next = ⟨rest, c.offset + '\n'.utf8Size, c.line + 1, 1⟩ := by
    rw [Cursor.next_of_rest hc]
    rfl
  have hplain : '\r' ∉ rest := fun hmem => h.noReturn (by simp [hc, hmem])
  have hplace' := Cursor.place_next h.place'
  refine ⟨hplace', by rw [hnext, hrest], Cursor.place_next h.place, Cursor.place_next hplace', ?_, ?_, ?_, ?_⟩
  · rw [hnext, hrest]
    rfl
  · rwa [hrest]
  · rw [hnext, hrest]
    exact congrArg (· + 1) h.line
  · rw [hnext, hrest]
    rfl

theorem Beside.skip (h : Beside source c c') (hc : c.rest = run ++ rest) (hrun : '\n' ∉ run) :
    Beside source (c.skip run.length) (c'.skip run.length) := by
  induction run generalizing c c' with
  | nil => exact h
  | cons a run ih =>
    refine ih (h.next hc (List.ne_of_not_mem_cons hrun).symm) ?_ (List.not_mem_of_not_mem_cons hrun)
    rw [Cursor.rest_next, hc, List.cons_append, List.tail_cons]

end Cursors

def SamePlace (a b : Span) : Prop := b.line = a.line ∧ b.column = a.column

theorem SamePlace.at_eq {a b : Span} (h : SamePlace a b) (what : SyntaxFault) :
    ReadError.at b what = ReadError.at a what := by
  rw [ReadError.at, ReadError.at, h.1, h.2]

theorem Beside.here {source : List Char} {c c' : Cursor} (h : Beside source c c') : SamePlace c.here c'.here :=
  ⟨h.line, h.column⟩

namespace Scan
variable {α β : Type} {source text rest : List Char}

/-- What two readings come to: the same end at places beside each other, or a reason to part. -/
inductive Meets (source : List Char) (P : Except ReadError α → Except ReadError α → Prop) (Q : α → α → Prop) :
    Except ReadError α × Cursor → Except ReadError α × Cursor → Prop
  | ok {a a' : α} {d d' : Cursor} (hQ : Q a a') (h : Beside source d d') : Meets source P Q (.ok a, d) (.ok a', d')
  | error {e : ReadError} {d d' : Cursor} (h : Beside source d d' ∨ Between source d d') :
      Meets source P Q (.error e, d) (.error e, d')
  | parts {r r' : Except ReadError α × Cursor} (h : P r.1 r'.1) : Meets source P Q r r'

def Agrees (source : List Char) (P : Except ReadError α → Except ReadError α → Prop) (text : List Char)
    (x x' : Scan α) (Q : α → α → Prop) : Prop :=
  ∀ c c', c.rest = text → Beside source c c' → Meets source P Q (x.run c) (x'.run c')

def AgreesBetween (source : List Char) (P : Except ReadError α → Except ReadError α → Prop) (text : List Char)
    (x x' : Scan α) (Q : α → α → Prop) : Prop :=
  ∀ c c', c.rest = text → Between source c c' → Meets source P Q (x.run c) (x'.run c')

def Never {α : Type} (_ _ : Except ReadError α) : Prop := False

theorem Meets.bind {P : Except ReadError β → Except ReadError β → Prop} {Q : α → α → Prop} {R : β → β → Prop}
    {x x' : Scan α} {k k' : α → Scan β} {c c' : Cursor} (hx : Meets source Never Q (x.run c) (x'.run c'))
    (hk : ∀ a a' rest, Q a a' → Agrees source P rest (k a) (k' a') R) :
    Meets source P R ((x >>= k).run c) ((x' >>= k').run c') := by
  rw [run_bind, run_bind]
  generalize x.run c = r at hx ⊢
  generalize x'.run c' = r' at hx ⊢
  cases hx with
  | ok hQ h => exact hk _ _ _ hQ _ _ rfl h
  | error h => exact .error h
  | parts h => exact h.elim

namespace Agrees
variable {x x' : Scan α} {P : Except ReadError α → Except ReadError α → Prop} {Q : α → α → Prop}

theorem noReturn (h : '\r' ∉ text → Agrees source P text x x' Q) : Agrees source P text x x' Q := by
  rintro c c' rfl hbeside
  exact h hbeside.noReturn c c' rfl hbeside

theorem pure {a a' : α} (h : Q a a') : Agrees source P text (Pure.pure a) (Pure.pure a') Q :=
  fun _ _ _ hbeside => .ok h hbeside

theorem fail {span span' : Span} {what : SyntaxFault} (h : SamePlace span span') :
    Agrees source P text (Scan.fail span what) (Scan.fail span' what) Q := by
  intro c c' _ hbeside
  rw [Scan.fail, Scan.fail, h.at_eq]
  exact .error (.inl hbeside)

theorem fail_bind {γ : Type} {span span' : Span} {what : SyntaxFault} {k k' : γ → Scan α}
    (h : SamePlace span span') :
    Agrees source P text (Scan.fail span what >>= k) (Scan.fail span' what >>= k') Q := by
  intro c c' _ hbeside
  rw [Scan.fail, Scan.fail, h.at_eq]
  exact .error (.inl hbeside)

theorem ite_iff {b b' : Prop} [Decidable b] [Decidable b'] {y y' : Scan α} (hb : b' ↔ b)
    (hx : b → Agrees source P text x x' Q) (hy : ¬ b → Agrees source P text y y' Q) :
    Agrees source P text (if b then x else y) (if b' then x' else y') Q := by
  by_cases h : b
  · rw [if_pos h, if_pos (hb.mpr h)]
    exact hx h
  · rw [if_neg h, if_neg (mt hb.mp h)]
    exact hy h

theorem ite {b : Prop} [Decidable b] {y y' : Scan α} (hx : b → Agrees source P text x x' Q)
    (hy : ¬ b → Agrees source P text y y' Q) :
    Agrees source P text (if b then x else y) (if b then x' else y') Q := ite_iff Iff.rfl hx hy

theorem neither {b b' : Prop} [Decidable b] [Decidable b'] {y y' : Scan α} (hb : ¬ b) (hb' : ¬ b')
    (hy : Agrees source P text y y' Q) : Agrees source P text (if b then x else y) (if b' then x' else y') Q := by
  rwa [if_neg hb, if_neg hb']

variable {P : Except ReadError β → Except ReadError β → Prop} {R : β → β → Prop}

theorem bind {k k' : α → Scan β} (hx : Agrees source Never text x x' Q)
    (hk : ∀ a a' rest, Q a a' → Agrees source P rest (k a) (k' a') R) :
    Agrees source P text (x >>= k) (x' >>= k') R := fun c c' hc hbeside => (hx c c' hc hbeside).bind hk

theorem get_bind {k k' : Cursor → Scan β} (h : ∀ c c', c.rest = text → Beside source c c' →
    Agrees source P text (k c) (k' c') R) : Agrees source P text (get >>= k) (get >>= k') R :=
  fun c c' hc hbeside => h c c' hc hbeside c c' hc hbeside

theorem here_bind {k k' : Span → Scan β} (h : ∀ span span', SamePlace span span' →
    Agrees source P text (k span) (k' span') R) : Agrees source P text (here >>= k) (here >>= k') R :=
  fun c c' hc hbeside => h c.here c'.here hbeside.here c c' hc hbeside

theorem bound_bind {k k' : Nat → Scan β} (h : ∀ n n', Agrees source P text (k n) (k' n') R) :
    Agrees source P text (bound >>= k) (bound >>= k') R :=
  fun c c' hc hbeside => h _ _ c c' hc hbeside

theorem set_bind {d d' : Cursor} {k k' : Unit → Scan β} (hd : Beside source d d')
    (h : Agrees source P d.rest (k ()) (k' ()) R) : Agrees source P text (set d >>= k) (set d' >>= k') R :=
  fun _ _ _ _ => h d d' rfl hd

theorem peek_bind {k k' : Option Char → Scan β}
    (h : Agrees source P text (k text.head?) (k' (withReturns text).head?) R) :
    Agrees source P text (peek >>= k) (peek >>= k') R := by
  rintro c c' rfl hbeside
  have hpeek : c'.peek = (withReturns c.rest).head? := congrArg List.head? hbeside.rest
  rw [← hpeek] at h
  exact h c c' rfl hbeside

theorem peekAt_bind {n : Nat} {k k' : Option Char → Scan β}
    (h : ∀ next next', Agrees source P text (k next) (k' next') R) :
    Agrees source P text (peekAt n >>= k) (peekAt n >>= k') R :=
  fun c c' hc hbeside => h _ _ c c' hc hbeside

theorem peekAt_one {a : Char} {k k' : Option Char → Scan β} (ha : a ≠ '\n')
    (h : Agrees source P (a :: rest) (k rest.head?) (k' (withReturns rest).head?) R) :
    Agrees source P (a :: rest) (peekAt 1 >>= k) (peekAt 1 >>= k') R := by
  intro c c' hc hbeside
  have hpeek : c.peekAt 1 = rest.head? := by rw [Cursor.peekAt, hc, List.drop_succ_cons, List.drop_zero]
  have hpeek' : c'.peekAt 1 = (withReturns rest).head? := by
    rw [Cursor.peekAt, hbeside.rest, hc, withReturns_cons ha, List.drop_succ_cons, List.drop_zero]
  rw [← hpeek, ← hpeek'] at h
  exact h c c' hc hbeside

theorem peek_cases {k k' : Option Char → Scan β} (hend : Agrees source P [] (k none) (k' none) R)
    (hfeed : ∀ rest, Agrees source P ('\n' :: rest) (k (some '\n')) (k' (some '\r')) R)
    (hchar : ∀ c rest, c ≠ '\n' → Agrees source P (c :: rest) (k (some c)) (k' (some c)) R) :
    Agrees source P text (peek >>= k) (peek >>= k') R := by
  refine .peek_bind ?_
  fun_cases withReturns text with
  | case1 => exact hend
  | case2 rest => exact hfeed rest
  | case3 c rest hc => exact hchar c rest hc

theorem skip_bind (run : List Char) {k k' : Unit → Scan β} (hrun : '\n' ∉ run)
    (h : Agrees source P rest (k ()) (k' ()) R) :
    Agrees source P (run ++ rest) (skip run.length >>= k) (skip run.length >>= k') R := by
  intro c c' hc hbeside
  refine h (c.skip run.length) (c'.skip run.length) ?_ (hbeside.skip hc hrun)
  rw [Cursor.rest_skip, hc, List.drop_left]

theorem skip_one {a : Char} {k k' : Unit → Scan β} (ha : a ≠ '\n') (h : Agrees source P rest (k ()) (k' ()) R) :
    Agrees source P (a :: rest) (skip 1 >>= k) (skip 1 >>= k') R :=
  skip_bind [a] (by simpa using ha.symm) h

theorem skip_feed {k k' : Unit → Scan β} (h : Agrees source P rest (k ()) (k' ()) R) :
    Agrees source P ('\n' :: rest) (skip 1 >>= k) (skip 2 >>= k') R := by
  intro c c' hc hbeside
  refine h (c.skip 1) (c'.skip 2) ?_ (hbeside.between hc).beside
  rw [Cursor.rest_skip, hc, List.drop_succ_cons, List.drop_zero]

theorem next_bind {a : Char} {k k' : Option Char → Scan β} (ha : a ≠ '\n')
    (h : Agrees source P rest (k (some a)) (k' (some a)) R) :
    Agrees source P (a :: rest) (next >>= k) (next >>= k') R := by
  intro c c' hc hbeside
  have hrun : (next >>= k).run c = (k c.peek).run c.next := rfl
  have hrun' : (next >>= k').run c' = (k' c'.peek).run c'.next := rfl
  rw [hrun, hrun', Cursor.peek, Cursor.peek, hbeside.rest, hc, withReturns_cons ha]
  exact h c.next c'.next (by rw [Cursor.rest_next, hc, List.tail_cons]) (hbeside.next hc ha)

theorem next_end {k k' : Option Char → Scan β} (h : Agrees source P [] (k none) (k' none) R) :
    Agrees source P [] (next >>= k) (next >>= k') R := by
  intro c c' hc hbeside
  have hc' : c'.rest = [] := by rw [hbeside.rest, hc, withReturns]
  have hrun : (next >>= k).run c = (k c.peek).run c.next := rfl
  have hrun' : (next >>= k').run c' = (k' c'.peek).run c'.next := rfl
  rw [hrun, hrun', Cursor.peek, Cursor.peek, Cursor.next, Cursor.next, hc, hc']
  exact h c c' hc hbeside

theorem next_feed {k k' : Option Char → Scan β}
    (h : AgreesBetween source P rest (k (some '\n')) (k' (some '\r')) R) :
    Agrees source P ('\n' :: rest) (next >>= k) (next >>= k') R := by
  intro c c' hc hbeside
  have hrun : (next >>= k).run c = (k c.peek).run c.next := rfl
  have hrun' : (next >>= k').run c' = (k' c'.peek).run c'.next := rfl
  rw [hrun, hrun', Cursor.peek, Cursor.peek, hbeside.rest, hc, withReturns]
  exact h c.next c'.next (by rw [Cursor.rest_next, hc, List.tail_cons]) (hbeside.between hc)

theorem next_cases {k k' : Option Char → Scan β} (hend : Agrees source P [] (k none) (k' none) R)
    (hfeed : ∀ rest, AgreesBetween source P rest (k (some '\n')) (k' (some '\r')) R)
    (hchar : ∀ c rest, c ≠ '\n' → c ≠ '\r' → Agrees source P rest (k (some c)) (k' (some c)) R) :
    Agrees source P text (next >>= k) (next >>= k') R := by
  refine .noReturn fun hreturn => ?_
  fun_cases withReturns text with
  | case1 => exact .next_end hend
  | case2 rest => exact .next_feed (hfeed rest)
  | case3 c rest hc => exact .next_bind hc (hchar c rest hc (List.ne_of_not_mem_cons hreturn).symm)

theorem takeWhile_bind {p : Char → Bool} {k k' : List Char → Scan β} (hfeed : p '\n' = false)
    (hreturn : p '\r' = false)
    (h : ∀ rest, Agrees source P rest (k (text.takeWhile p)) (k' (text.takeWhile p)) R) :
    Agrees source P text (takeWhile p >>= k) (takeWhile p >>= k') R := by
  rintro c c' rfl hbeside
  have hrun : (takeWhile p >>= k).run c = (k (c.rest.takeWhile p)).run (c.skip (c.rest.takeWhile p).length) := rfl
  have hrun' : (takeWhile p >>= k').run c' =
    (k' (c'.rest.takeWhile p)).run (c'.skip (c'.rest.takeWhile p).length) := rfl
  rw [hrun, hrun', hbeside.rest, takeWhile_withReturns hfeed hreturn]
  exact h _ _ _ rfl (hbeside.skip (List.takeWhile_append_dropWhile (p := p)).symm (not_mem_takeWhile hfeed))

end Agrees

theorem AgreesBetween.fail {P : Except ReadError α → Except ReadError α → Prop} {Q : α → α → Prop}
    {span span' : Span} {what : SyntaxFault} (h : SamePlace span span') :
    AgreesBetween source P text (Scan.fail span what) (Scan.fail span' what) Q := by
  intro c c' _ hbetween
  rw [Scan.fail, Scan.fail, h.at_eq]
  exact .error (.inr hbetween)

theorem AgreesBetween.fail_bind {γ : Type} {P : Except ReadError α → Except ReadError α → Prop} {Q : α → α → Prop}
    {span span' : Span} {what : SyntaxFault} {k k' : γ → Scan α} (h : SamePlace span span') :
    AgreesBetween source P text (Scan.fail span what >>= k) (Scan.fail span' what >>= k') Q := by
  intro c c' _ hbetween
  rw [Scan.fail, Scan.fail, h.at_eq]
  exact .error (.inr hbetween)

/-! Escapes. -/

section Escapes
variable {P : Except ReadError α → Except ReadError α → Prop} {span span' : Span}

theorem hexDigits_agrees {P : Except ReadError Nat → Except ReadError Nat → Prop} (hspan : SamePlace span span')
    (count value : Nat) :
    Agrees source P text (hexDigits span count value) (hexDigits span' count value) Eq := by
  induction count generalizing text value with
  | zero => exact .pure rfl
  | succ count ih =>
    refine .peek_cases (.fail hspan) (fun _ => .fail hspan) fun c rest hc => ?_
    rw [Option.bind_some]
    cases Number.digitValue? 16 c with
    | none => exact .fail hspan
    | some d => exact .skip_one hc (ih _)

theorem octalDigits_agrees {P : Except ReadError Nat → Except ReadError Nat → Prop} (count value : Nat) :
    Agrees source P text (octalDigits count value) (octalDigits count value) Eq := by
  induction count generalizing text value with
  | zero => exact .pure rfl
  | succ count ih =>
    refine .peek_cases (.pure rfl) (fun _ => .pure rfl) fun c rest hc => ?_
    rw [Option.bind_some]
    cases Number.digitValue? 8 c with
    | none => exact .pure rfl
    | some d => exact .ite (fun _ => .skip_one hc (ih _)) fun _ => .pure rfl

theorem lowSurrogate_agrees {P : Except ReadError Char → Except ReadError Char → Prop}
    (hspan : SamePlace span span') (high : Nat) :
    Agrees source P text (lowSurrogate span high) (lowSurrogate span' high) Eq := by
  refine .get_bind fun c c' hc hbeside => ?_
  rw [hbeside.rest, hc]
  split
  · rw [withReturns_cons (by decide), withReturns_cons (by decide)]
    refine .skip_bind ['\\', 'u'] (by decide) ((hexDigits_agrees hspan 4 0).bind ?_)
    rintro low _ rest rfl
    exact .ite (fun _ => .pure rfl) fun _ => .set_bind hbeside (.pure rfl)
  · next hother =>
    split
    · next heq =>
      obtain ⟨rest, rfl, hrest⟩ := withReturns_eq_cons heq (by decide)
      obtain ⟨rest, rfl, -⟩ := withReturns_eq_cons hrest (by decide)
      exact absurd rfl (hother rest)
    · exact .pure rfl

theorem unicodeEscape_agrees {P : Except ReadError Char → Except ReadError Char → Prop}
    (hspan : SamePlace span span') : Agrees source P text (unicodeEscape span) (unicodeEscape span') Eq := by
  refine .peek_bind (.ite_iff (head?_withReturns_iff (by decide) (by decide)) (fun hbrace => ?_) fun _ => ?_)
  · obtain ⟨rest, rfl⟩ := List.head?_eq_some_iff.mp hbrace
    refine .skip_one (by decide) (.takeWhile_bind rfl rfl fun rest' => ?_)
    refine .ite (fun _ => .fail_bind hspan) fun _ => ?_
    refine .next_cases ?_ (fun rest => ?_) fun c rest _ _ => ?_
    · exact .ite (fun _ => .fail_bind hspan) fun _ => .pure rfl
    · rw [if_pos (.inl (by decide)), if_pos (.inl (by decide))]
      exact .fail_bind hspan
    · exact .ite (fun _ => .fail_bind hspan) fun _ => .pure rfl
  · refine (hexDigits_agrees hspan 4 0).bind ?_
    rintro high _ rest rfl
    exact .ite (fun _ => lowSurrogate_agrees hspan high) fun _ => .pure rfl

theorem escape_agrees {P : Except ReadError (Option Char) → Except ReadError (Option Char) → Prop}
    (hspan : SamePlace span span') : Agrees source P text (escape span) (escape span') Eq := by
  refine .next_cases (.fail hspan) (fun rest c c' _ hbetween => ?_) fun c rest hc hreturn => ?_
  · have hpeek : c'.peek = some '\n' := by rw [Cursor.peek, hbetween.rest, List.head?_cons]
    change Meets source P Eq (.ok none, c) (ExceptT.run (if c'.peek = some '\n' then (do skip 1; return none)
      else return none : Scan (Option Char)) c')
    rw [if_pos hpeek]
    exact .ok rfl hbetween.beside
  · split
    case h_1 h => cases h
    case h_8 =>
      refine (hexDigits_agrees hspan 2 0).bind ?_
      rintro _ _ _ rfl
      exact .pure rfl
    case h_9 =>
      refine (unicodeEscape_agrees hspan).bind ?_
      rintro _ _ _ rfl
      exact .pure rfl
    case h_10 h => exact absurd (Option.some.inj h) hreturn
    case h_14 =>
      refine .peek_bind (.ite_iff ?_ (fun _ => .pure rfl) fun _ => ?_)
      · rw [any_head?_withReturns rfl rfl]
      · split
        · refine (octalDigits_agrees 2 _).bind ?_
          rintro _ _ _ rfl
          exact .pure rfl
        · exact .pure rfl
    all_goals exact .pure rfl

end Escapes

/-! Numbers. -/

section Numbers
variable {P : Except ReadError Token → Except ReadError Token → Prop} {start start' : Span}

theorem finishNumber_agrees (hstart : SamePlace start start') (value : Float) :
    Agrees source P text (finishNumber start value) (finishNumber start' value) Eq := by
  refine .peek_bind (.ite_iff ?_ (fun _ => .fail_bind hstart) fun _ => .pure rfl)
  rw [any_head?_withReturns (by decide) (by decide)]

theorem separatedDigits_agrees {P : Except ReadError (List Char) → Except ReadError (List Char) → Prop}
    {radix : Nat} (hradix : radix ≤ 36) : Agrees source P text (separatedDigits radix) (separatedDigits radix) Eq := by
  refine .takeWhile_bind ?_ ?_ fun rest => .pure rfl
  all_goals simp [Number.digitValue?, hradix]

theorem radixNumber_agrees (hstart : SamePlace start start') {a b : Char} (ha : a ≠ '\n') (hb : b ≠ '\n')
    {radix : Nat} (hradix : radix ≤ 36) :
    Agrees source P (a :: b :: rest) (radixNumber start radix) (radixNumber start' radix) Eq := by
  refine .skip_bind [a, b] (by simp [ha.symm, hb.symm]) ((separatedDigits_agrees hradix).bind ?_)
  rintro digits _ rest rfl
  refine .ite (fun _ => .fail_bind hstart) fun _ => .peek_bind ?_
  refine .ite_iff (head?_withReturns_iff (by decide) (by decide)) (fun hmark => ?_)
    fun _ => finishNumber_agrees hstart _
  obtain ⟨rest, rfl⟩ := List.head?_eq_some_iff.mp hmark
  exact .skip_one (by decide) (.pure rfl)

/-! An exponent is in one line. -/

theorem takeSign_withReturns (cs : List Char) :
    Number.takeSign (withReturns cs) = ((Number.takeSign cs).1, withReturns (Number.takeSign cs).2) := by
  fun_cases Number.takeSign cs with
  | case1 => rfl
  | case2 => rfl
  | case3 _ hminus hplus =>
    rw [Number.takeSign]
    · intro rest h
      obtain ⟨rest, rfl, -⟩ := withReturns_eq_cons h (by decide)
      exact hminus rest rfl
    · intro rest h
      obtain ⟨rest, rfl, -⟩ := withReturns_eq_cons h (by decide)
      exact hplus rest rfl

theorem takeSign_run (cs : List Char) : ∃ run, cs = run ++ (Number.takeSign cs).2 ∧ '\n' ∉ run := by
  fun_cases Number.takeSign cs with
  | case1 => exact ⟨['-'], rfl, by decide⟩
  | case2 => exact ⟨['+'], rfl, by decide⟩
  | case3 => exact ⟨[], rfl, by decide⟩

theorem exponent?_cons (c : Char) (cs : List Char) : Number.exponent? (c :: cs) =
    if c = 'e' ∨ c = 'E' then
      let digits := (Number.takeSign cs).2.takeWhile Char.isDigit
      if digits.isEmpty then none
      else
        let n : Int := Number.natOfDigits digits
        some (if (Number.takeSign cs).1 then -n else n, (Number.takeSign cs).2.dropWhile Char.isDigit)
    else none := by
  fun_cases Number.takeSign cs with
  | case1 => rfl
  | case2 => rfl
  | case3 _ hminus hplus =>
    rw [Number.exponent?]
    · exact hminus
    · exact hplus

theorem exponent?_withReturns (cs : List Char) : Number.exponent? (withReturns cs) =
    (Number.exponent? cs).map fun found => (found.1, withReturns found.2) := by
  fun_cases withReturns cs with
  | case1 => rfl
  | case2 => rfl
  | case3 c cs _ =>
    rw [exponent?_cons, exponent?_cons, takeSign_withReturns]
    dsimp only
    rw [takeWhile_withReturns rfl rfl, dropWhile_withReturns rfl rfl]
    split
    · split <;> rfl
    · rfl

theorem exponent?_run {e : Int} (h : Number.exponent? cs = some (e, rest)) :
    ∃ run, cs = run ++ rest ∧ '\n' ∉ run := by
  cases cs with
  | nil => cases h
  | cons c cs =>
    obtain ⟨sign, hsign, hfeed⟩ := takeSign_run cs
    rw [exponent?_cons] at h
    split at h
    · next hc =>
      dsimp only at h
      split at h
      · cases h
      · obtain ⟨-, rfl⟩ := Prod.mk.inj (Option.some.inj h)
        refine ⟨c :: (sign ++ (Number.takeSign cs).2.takeWhile Char.isDigit), ?_, ?_⟩
        · rw [List.cons_append, List.append_assoc, List.takeWhile_append_dropWhile, ← hsign]
        · have hmark : '\n' ≠ c := by
            rintro rfl
            exact absurd hc (by decide)
          simp [hmark, hfeed, not_mem_takeWhile]
    · cases h

theorem exponent_agrees {P : Except ReadError Int → Except ReadError Int → Prop} :
    Agrees source P text exponent exponent Eq := by
  refine .get_bind fun c c' hc hbeside => ?_
  rw [hbeside.rest, hc, exponent?_withReturns]
  cases h : Number.exponent? text with
  | none => exact .pure rfl
  | some found =>
    obtain ⟨e, rest⟩ := found
    obtain ⟨run, rfl, hrun⟩ := exponent?_run h
    rw [Option.map_some]
    dsimp only
    rw [withReturns_append, withReturns_of_not_mem hrun, List.length_append, List.length_append, Nat.add_sub_cancel,
      Nat.add_sub_cancel]
    exact .skip_bind run hrun (.pure rfl)

theorem decimalNumber_agrees (hstart : SamePlace start start') :
    Agrees source P text (decimalNumber start) (decimalNumber start') Eq := by
  refine (separatedDigits_agrees (by decide)).bind ?_
  rintro whole _ rest rfl
  have hmark {c : Char} (hfeed : c ≠ '\n') (hreturn : c ≠ '\r') :
      (withReturns rest).head? = some c ↔ rest.head? = some c := head?_withReturns_iff hfeed hreturn
  have hpoint := @hmark '.' (by decide) (by decide)
  have hend {rest : List Char} (fraction : List Char) : Agrees source P rest
      (do
        let e ← exponent
        finishNumber start (Number.Literal.toFloat ⟨whole, fraction, e⟩))
      (do
        let e ← exponent
        finishNumber start' (Number.Literal.toFloat ⟨whole, fraction, e⟩)) Eq := by
    refine (exponent_agrees).bind ?_
    rintro e _ rest rfl
    exact finishNumber_agrees hstart _
  refine .peek_bind (.ite_iff ?_ (fun _ => finishNumber_agrees hstart _) fun _ => ?_)
  · rw [ne_eq, hpoint]
  · refine .ite_iff (hmark (by decide) (by decide)) (fun hmark => ?_) fun _ => ?_
    · obtain ⟨rest, rfl⟩ := List.head?_eq_some_iff.mp hmark
      exact .skip_one (by decide) (.pure rfl)
    · refine .ite_iff hpoint (fun hpoint => ?_) fun _ => hend []
      obtain ⟨rest, rfl⟩ := List.head?_eq_some_iff.mp hpoint
      refine .skip_one (by decide) ((separatedDigits_agrees (by decide)).bind ?_)
      rintro fraction _ rest rfl
      exact hend fraction

theorem number_agrees : Agrees source P text number number Eq := by
  refine .here_bind fun start start' hstart => .get_bind fun c c' hc hbeside => ?_
  rw [hbeside.rest, hc]
  split
  case h_7 =>
    split
    case h_7 => exact decimalNumber_agrees hstart
    all_goals
      rename_i heq
      obtain ⟨rest, rfl, hrest⟩ := withReturns_eq_cons heq (by decide)
      obtain ⟨rest, rfl, -⟩ := withReturns_eq_cons hrest (by decide)
      exfalso
      solve_by_elim
  all_goals
    rw [withReturns_cons (by decide), withReturns_cons (by decide)]
    exact radixNumber_agrees hstart (by decide) (by decide) (by decide)

end Numbers

/-! Punctuators. -/

theorem longest?_withReturns (cs : List Char) :
    Punctuator.longest? (withReturns cs) = Punctuator.longest? cs := by
  fun_cases Punctuator.longest? cs
  case case25 =>
    rw [Punctuator.longest?]
    all_goals
      intro rest h
      obtain ⟨_, rfl, -⟩ := withReturns_eq_cons h (by decide)
      solve_by_elim
  all_goals
    rw [withReturns_cons (by decide)]
    refine congrArg some ?_
    try rfl
  -- The marks that follow in the one text follow in the other: the second text is taken apart first.
  all_goals
    split
  all_goals
    rename_i hmarks
    repeat
      obtain ⟨_, rfl, hrest⟩ := withReturns_eq_cons hmarks (by decide)
      clear hmarks
      rename' hrest => hmarks
    try subst hmarks
    try rw [any_head?_withReturns rfl rfl]
    first
    | rfl
    | split <;> first
      | rfl
      | exfalso
        try cases ‹_ :: _ = _ :: _›
        all_goals solve_by_elim

theorem longest?_run {p : Punctuator} {n : Nat} {cs : List Char} (h : Punctuator.longest? cs = some (p, n)) :
    '\n' ∉ cs.take n ∧ n ≤ cs.length := by
  revert h
  fun_cases Punctuator.longest? cs
  case case25 => exact nofun
  all_goals
    intro h
    replace h := Option.some.inj h
    repeat' split at h
  all_goals
    obtain ⟨-, rfl⟩ := Prod.mk.inj h
    simp

theorem punctuator_agrees {P : Except ReadError Punctuator → Except ReadError Punctuator → Prop} :
    Agrees source P text punctuator punctuator Eq := by
  refine .get_bind fun c c' hc hbeside => ?_
  rw [hbeside.rest, hc, longest?_withReturns]
  split
  · next p n hlongest =>
    obtain ⟨hrun, hlength⟩ := longest?_run hlongest
    have hskip := @Agrees.skip_bind Punctuator source (text.drop n) P Eq (text.take n) (fun _ => Pure.pure p)
      (fun _ => Pure.pure p) hrun (.pure rfl)
    rwa [List.take_append_drop, List.length_take_of_le hlength] at hskip
  · exact .here_bind fun _ _ hspan => .fail hspan

/-! Readers that loop, and regular expressions. -/

/-- The first text has a regular expression with a line feed in its pattern there, for which the second
one is refused. -/
def Refuses (source : List Char) (e : ReadError) : Prop :=
  ∃ i pattern flags, ['/'] <+: source.drop i ∧
    (regExp.run (.after source i)).1 = .ok (.regExp pattern flags) ∧ '\n' ∈ pattern.toList ∧
      e = .at (Cursor.after source i).here .unterminatedRegExp

def Parts {α : Type} (source : List Char) (r r' : Except ReadError α) : Prop :=
  r = .error .stuck ∨ r' = .error .stuck ∨ ∃ e, r' = .error e ∧ (r = .error e ∨ Refuses source e)

section Loops
variable {x x' : Scan α} {k k' : α → Scan β} {Q : α → α → Prop} {R : β → β → Prop}

theorem Agrees.stuck_left : Agrees source (Parts source) text stuck x' Q := fun _ _ _ _ => .parts (.inl rfl)

theorem Agrees.stuck_right : Agrees source (Parts source) text x stuck Q := fun _ _ _ _ => .parts (.inr (.inl rfl))

theorem Agrees.bind_loop (hx : Agrees source (Parts source) text x x' Q)
    (hk : ∀ a a' rest, Q a a' → Agrees source (Parts source) rest (k a) (k' a') R) :
    Agrees source (Parts source) text (x >>= k) (x' >>= k') R := by
  intro c c' hc hbeside
  have hmeets := hx c c' hc hbeside
  rw [run_bind, run_bind]
  generalize x.run c = r at hmeets ⊢
  generalize x'.run c' = r' at hmeets ⊢
  cases hmeets with
  | ok hQ h => exact hk _ _ _ hQ _ _ rfl h
  | error h => exact .error h
  | parts h =>
    obtain h | h | ⟨e, h, hwhy⟩ := h
    · rw [h]
      exact .parts (.inl rfl)
    · rw [h]
      exact .parts (.inr (.inl rfl))
    · rw [h]
      refine .parts (.inr (.inr ⟨e, rfl, ?_⟩))
      obtain hsame | hrefuses := hwhy
      · rw [hsame]
        exact .inl rfl
      · exact .inr hrefuses

theorem nameRest_agrees (fuel fuel' : Nat) (name : String) :
    Agrees source (Parts source) text (nameRest fuel name) (nameRest fuel' name) Eq := by
  induction fuel generalizing text fuel' name with
  | zero => exact .stuck_left
  | succ fuel ih =>
    obtain - | fuel' := fuel'
    · exact .stuck_right
    refine .peek_cases (.pure rfl) (fun rest => .pure rfl) fun c rest hc => ?_
    split
    · refine .here_bind fun span span' hspan => .skip_one hc (.next_cases ?_ (fun rest => ?_) fun u rest _ _ => ?_)
      · rw [if_pos (by decide), if_pos (by decide)]
        exact .fail_bind hspan
      · rw [if_pos (by decide), if_pos (by decide)]
        exact .fail_bind hspan
      · refine .ite (fun _ => .fail_bind hspan) fun _ => (unicodeEscape_agrees hspan).bind ?_
        rintro c _ rest rfl
        exact ih _ _
    · next hd =>
      obtain rfl := Option.some.inj hd
      exact .ite (fun _ => .skip_one hc (ih _ _)) fun _ => .pure rfl
    · next hnone => cases hnone

theorem name_agrees : Agrees source (Parts source) text name name Eq :=
  .bound_bind fun fuel fuel' => nameRest_agrees fuel fuel' ""

theorem privateName_agrees : Agrees source (Parts source) ('#' :: rest) privateName privateName Eq := by
  refine .get_bind fun c c' hc hbeside => .skip_one (by decide) (.peek_bind ?_)
  refine .ite_iff ?_ (fun _ => .fail_bind hbeside.here) fun _ => ?_
  · rw [any_head?_withReturns (by decide) (by decide)]
  · refine (name_agrees).bind_loop ?_
    rintro name _ rest rfl
    exact .pure rfl

theorem stringRest_agrees {start start' : Span} (hstart : SamePlace start start') {quote : Char}
    (hfeed : quote ≠ '\n') (hreturn : quote ≠ '\r') (fuel fuel' : Nat) (value : String) :
    Agrees source (Parts source) text (stringRest start quote fuel value)
      (stringRest start' quote fuel' value) Eq := by
  induction fuel generalizing text fuel' value with
  | zero => exact .stuck_left
  | succ fuel ih =>
    obtain - | fuel' := fuel'
    · exact .stuck_right
    refine .peek_cases (.fail hstart) (fun rest => ?_) fun c rest hc => ?_
    · dsimp only
      rw [if_neg hfeed.symm, if_neg hreturn.symm]
      exact .fail hstart
    · refine .ite (fun _ => .skip_one hc (.pure rfl)) fun _ => .ite (fun _ => ?_) fun _ =>
        .ite (fun _ => .fail hstart) fun _ => .skip_one hc (ih _ _)
      refine .here_bind fun span span' hspan => .skip_one hc ((escape_agrees hspan).bind ?_)
      rintro d _ rest rfl
      cases d with
      | none => exact ih _ _
      | some d => exact ih _ _

theorem string_agrees {quote : Char} (hfeed : quote ≠ '\n') (hreturn : quote ≠ '\r') :
    Agrees source (Parts source) (quote :: rest) (string quote) (string quote) Eq := by
  refine .here_bind fun start start' hstart => .skip_one hfeed (.bound_bind fun fuel fuel' => ?_)
  refine (stringRest_agrees hstart hfeed hreturn fuel fuel' "").bind_loop ?_
  rintro value _ rest rfl
  exact .pure rfl

def Extends (start : Span) (pattern : String) (x : Scan String) : Prop :=
  ∀ c, (x.run c).1 = .error .stuck ∨ (x.run c).1 = .error (.at start .unterminatedRegExp) ∨
    ∃ whole, (x.run c).1 = .ok whole ∧ pattern.toList <+: whole.toList

namespace Extends
variable {start : Span} {pattern more : String} {x y : Scan String}

theorem of_more (h : Extends start more x) (hmore : pattern.toList <+: more.toList) : Extends start pattern x := by
  intro c
  obtain h | h | ⟨whole, h, hwhole⟩ := h c
  · exact .inl h
  · exact .inr (.inl h)
  · exact .inr (.inr ⟨whole, h, hmore.trans hwhole⟩)

theorem fail : Extends start pattern (Scan.fail start .unterminatedRegExp) := fun _ => .inr (.inl rfl)

theorem ite {b : Prop} [Decidable b] (hx : Extends start pattern x) (hy : Extends start pattern y) :
    Extends start pattern (if b then x else y) := by
  split
  · exact hx
  · exact hy

theorem next_bind {k : Option Char → Scan String} (h : ∀ c, Extends start pattern (k c)) :
    Extends start pattern (next >>= k) := fun c => h c.peek c.next

end Extends

theorem regExpRest_extends (start : Span) (fuel : Nat) (inClass : Bool) (pattern : String) :
    Extends start pattern (regExpRest start fuel inClass pattern) := by
  induction fuel generalizing inClass pattern with
  | zero => exact fun _ => .inl rfl
  | succ fuel ih =>
    have hpush (inClass : Bool) (c : Char) :
        Extends start pattern (regExpRest start fuel inClass (pattern.push c)) :=
      (ih inClass _).of_more (by simp)
    refine .next_bind fun c => ?_
    split
    · exact .fail
    · refine .ite .fail (.ite (.next_bind fun d => ?_) (.ite (hpush _ _) (.ite (hpush _ _) (.ite ?_ (hpush _ _)))))
      · split
        · exact (ih _ _).of_more (by simp)
        · exact hpush _ _
      · exact fun _ => .inr (.inr ⟨pattern, rfl, List.prefix_rfl⟩)

def PartsIn (start : Span) (r r' : Except ReadError String) : Prop :=
  r = .error .stuck ∨ r' = .error .stuck ∨ r' = .error (.at start .unterminatedRegExp) ∧
    (r = r' ∨ ∃ pattern, r = .ok pattern ∧ '\n' ∈ pattern.toList)

theorem regExpRest_agrees {start start' : Span} (hstart : SamePlace start start') (fuel fuel' : Nat)
    (inClass : Bool) (pattern : String) : Agrees source (PartsIn start) text
      (regExpRest start fuel inClass pattern) (regExpRest start' fuel' inClass pattern) Eq := by
  induction fuel generalizing text fuel' inClass pattern with
  | zero => exact fun _ _ _ _ => .parts (.inl rfl)
  | succ fuel ih =>
    obtain - | fuel' := fuel'
    · exact fun _ _ _ _ => .parts (.inr (.inl rfl))
    refine .next_cases (.fail hstart) (fun rest => .fail hstart) fun c rest _ _ => ?_
    refine .ite (fun _ => .fail hstart) fun _ => .ite (fun _ => ?_) fun _ => .ite (fun _ => ih _ _ _) fun _ =>
      .ite (fun _ => ih _ _ _) fun _ => .ite (fun _ => .pure rfl) fun _ => ih _ _ _
    refine .next_cases (ih _ _ _) (fun rest c c' hc hbetween => ?_) fun d rest _ _ => ih _ _ _
    obtain - | fuel' := fuel'
    · exact .parts (.inr (.inl rfl))
    have hpeek : c'.peek = some '\n' := by rw [Cursor.peek, hbetween.rest, List.head?_cons]
    have hrefused : ((regExpRest start' (fuel' + 1) inClass ((pattern.push '\\').push '\r')).run c').1 =
        .error (.at start .unterminatedRegExp) := by
      rw [← hstart.at_eq]
      rw [regExpRest, run_next_bind, hpeek]
      rfl
    obtain h | h | ⟨whole, h, hwhole⟩ := regExpRest_extends start fuel inClass ((pattern.push '\\').push '\n') c
    · exact .parts (.inl h)
    · exact .parts (.inr (.inr ⟨hrefused, .inl (h.trans hrefused.symm)⟩))
    · exact .parts (.inr (.inr ⟨hrefused, .inr ⟨whole, h, hwhole.subset (by simp)⟩⟩))

theorem regExp_agrees : Agrees source (Parts source) ('/' :: rest) regExp regExp Eq := by
  intro c c' hc hbeside
  have hrun (c : Cursor) : regExp.run c = (do
      let pattern ← regExpRest c.here ((c.skip 1).rest.length + 1) false ""
      let flags ← takeWhile isNamePart
      return .regExp pattern (String.ofList flags) : Scan Token).run (c.skip 1) := rfl
  have hmeets := regExpRest_agrees hbeside.here ((c.skip 1).rest.length + 1) ((c'.skip 1).rest.length + 1) false ""
    (c.skip 1) (c'.skip 1) rfl (hbeside.next hc (by decide))
  have hflags (pattern : String) (rest : List Char) : Agrees source (Parts source) rest
      (do return Token.regExp pattern (String.ofList (← takeWhile isNamePart)))
      (do return Token.regExp pattern (String.ofList (← takeWhile isNamePart))) Eq :=
    .takeWhile_bind (by decide) (by decide) fun _ => .pure rfl
  have hfirst := hrun c
  rw [hrun c', hfirst, run_bind, run_bind]
  rw [run_bind] at hfirst
  generalize (regExpRest c.here _ false "").run (c.skip 1) = r at hmeets hfirst ⊢
  generalize (regExpRest c'.here _ false "").run (c'.skip 1) = r' at hmeets ⊢
  cases hmeets with
  | ok hQ h =>
    subst hQ
    exact hflags _ _ _ _ rfl h
  | error h => exact .error h
  | parts h =>
    obtain h | h | ⟨hrefused, hwhy⟩ := h
    · rw [h]
      exact .parts (.inl rfl)
    · rw [h]
      exact .parts (.inr (.inl rfl))
    · rw [hrefused]
      refine .parts (.inr (.inr ⟨_, rfl, ?_⟩))
      obtain hsame | ⟨pattern, hpattern, hfeed⟩ := hwhy
      · rw [hsame, hrefused]
        exact .inl rfl
      · obtain ⟨i, rfl⟩ := hbeside.place
        rw [hpattern] at hfirst
        rw [Cursor.rest_after] at hc
        exact .inr ⟨i, pattern, _, ⟨rest, hc.symm⟩, congrArg Prod.fst hfirst, hfeed, rfl⟩

end Loops
end Scan
end EcmaScript

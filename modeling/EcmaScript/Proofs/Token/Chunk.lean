import EcmaScript.Proofs.Token.Quoted
import EcmaScript.Proofs.Token.Tiling

/-! Where the chunks of a template end, and their raw text. Escapes need not be well formed, but the mark at
which the digits of an escape with braces break off is lost. -/
namespace EcmaScript
open EcmaScript.Text

/-- The marks that end a chunk. -/
def endsChunk : List Char → Bool
  | '`' :: _ => true
  | '$' :: '{' :: _ => true
  | _ => false

def backslashes (cs : List Char) (i : Nat) : Nat := ((cs.take i).rtakeWhile (· == '\\')).length

def Unescaped (cs : List Char) (i : Nat) : Prop := Even (backslashes cs i)

def IsChunkEnd (cs : List Char) (i : Nat) : Prop :=
  (Unescaped cs i ∧ endsChunk (cs.drop i) = true) ∧ ∀ j < i, Unescaped cs j → endsChunk (cs.drop j) = false

def templateMarks : List Char := ['`', '$', '\\', '\r']

def BreaksOff (text : List Char) : Prop :=
  ∃ digits c rest, text = '\\' :: 'u' :: '{' :: (digits ++ c :: rest) ∧ digits ≠ [] ∧ AllHex digits ∧
    c ∈ templateMarks

def IsChunk (cs : List Char) (i : Nat) : Prop :=
  IsChunkEnd cs i ∧ ∀ j < i, Unescaped cs j → ¬ BreaksOff (cs.drop j)

/-- The raw text of a chunk. A carriage return becomes a line feed, unless a backslash escapes it. -/
def rawText : List Char → List Char
  | '\\' :: c :: rest => '\\' :: c :: rawText rest
  | '\r' :: '\n' :: rest => '\n' :: rawText rest
  | '\r' :: rest => '\n' :: rawText rest
  | c :: rest => c :: rawText rest
  | [] => []

/-- A text in which every line that ends with a carriage return, alone or before a line feed, ends with a
line feed. -/
def withLineFeeds : List Char → List Char
  | '\r' :: '\n' :: rest => '\n' :: withLineFeeds rest
  | '\r' :: rest => '\n' :: withLineFeeds rest
  | c :: rest => c :: withLineFeeds rest
  | [] => []

section Places
variable {cs : List Char} {c : Char} {i : Nat}

theorem unescaped_zero : Unescaped cs 0 := by simp [Unescaped, backslashes]

theorem backslashes_cons (c : Char) (cs : List Char) (i : Nat) : backslashes (c :: cs) (i + 1) =
    if (cs.take i).all (· == '\\') then (if c = '\\' then (cs.take i).length + 1 else (cs.take i).length)
    else backslashes cs i := by
  rw [backslashes, List.take_succ_cons, length_rtakeWhile_cons]
  simp only [beq_iff_eq]
  rfl

theorem backslashes_of_all (h : (cs.take i).all (· == '\\') = true) : backslashes cs i = (cs.take i).length := by
  rw [backslashes, List.rtakeWhile, List.length_reverse, List.takeWhile_eq_self_iff.mpr (by simpa using h),
    List.length_reverse]

theorem unescaped_cons (hc : c ≠ '\\') : Unescaped (c :: cs) (i + 1) ↔ Unescaped cs i := by
  rw [Unescaped, Unescaped, backslashes_cons, if_neg hc]
  split
  · next hall => rw [backslashes_of_all hall]
  · rfl

theorem unescaped_escaped : Unescaped ('\\' :: c :: cs) (i + 2) ↔ Unescaped cs i := by
  rw [Unescaped, Unescaped, backslashes_cons, if_pos rfl, List.take_succ_cons, List.all_cons]
  by_cases hc : c = '\\'
  · rw [backslashes_cons, if_pos hc, hc]
    by_cases hall : (cs.take i).all (· == '\\') = true
    · rw [backslashes_of_all hall]
      simp [hall, Nat.even_add_one]
    · simp [hall]
  · have hother : Even (backslashes (c :: cs) (i + 1)) ↔ Even (backslashes cs i) := unescaped_cons hc
    simpa [hc] using hother

theorem not_unescaped_one : ¬ Unescaped ('\\' :: cs) 1 := by
  rw [Unescaped, backslashes_cons]
  simp

theorem IsChunk.not_endsChunk (h : IsChunk cs (i + 1)) : endsChunk cs = false :=
  h.1.2 0 (Nat.succ_pos i) unescaped_zero

theorem IsChunk.plain (hc : c ≠ '\\') (h : IsChunk (c :: cs) (i + 1)) : IsChunk cs i := by
  obtain ⟨⟨⟨hplace, hmark⟩, hfirst⟩, hsound⟩ := h
  refine ⟨⟨⟨(unescaped_cons hc).mp hplace, hmark⟩, fun j hj h => ?_⟩, fun j hj h => ?_⟩
  · exact hfirst (j + 1) (Nat.succ_lt_succ hj) ((unescaped_cons hc).mpr h)
  · exact hsound (j + 1) (Nat.succ_lt_succ hj) ((unescaped_cons hc).mpr h)

theorem IsChunk.escaped (h : IsChunk ('\\' :: cs) i) : ∃ c rest k, cs = c :: rest ∧ i = k + 2 ∧ IsChunk rest k := by
  obtain ⟨⟨⟨hplace, hmark⟩, hfirst⟩, hsound⟩ := h
  obtain - | - | k := i
  · cases hmark
  · exact absurd hplace not_unescaped_one
  · cases cs with
    | nil => cases hmark
    | cons c rest =>
      refine ⟨c, rest, k, rfl, rfl, ⟨⟨(unescaped_escaped).mp hplace, hmark⟩, fun j hj h => ?_⟩, fun j hj h => ?_⟩
      · exact hfirst (j + 2) (by omega) ((unescaped_escaped).mpr h)
      · exact hsound (j + 2) (by omega) ((unescaped_escaped).mpr h)

end Places

theorem rawText_cons {cs : List Char} {c : Char} (hback : c ≠ '\\') (hreturn : c ≠ '\r') :
    rawText (c :: cs) = c :: rawText cs := by
  rw [rawText]
  · exact fun _ _ h => absurd h hback
  · exact fun _ h => absurd h hreturn
  · exact fun h => absurd h hreturn

theorem rawText_return {cs : List Char} (hfeed : cs.head? ≠ some '\n') :
    rawText ('\r' :: cs) = '\n' :: rawText cs := by
  rw [rawText]
  rintro rest rfl
  exact hfeed rfl

theorem withLineFeeds_cons {cs : List Char} {c : Char} (hreturn : c ≠ '\r') :
    withLineFeeds (c :: cs) = c :: withLineFeeds cs := by
  rw [withLineFeeds]
  · exact fun _ h => absurd h hreturn
  · exact fun h => absurd h hreturn

theorem rawText_eq_withLineFeeds {cs : List Char} (h : ¬ ['\\', '\r'] <:+: cs) :
    rawText cs = withLineFeeds cs := by
  fun_induction rawText cs with
  | case1 c rest ih =>
    have hc : c ≠ '\r' := by
      rintro rfl
      exact h ⟨[], rest, rfl⟩
    rw [ih fun hpart => h (hpart.trans ⟨['\\', c], [], by simp⟩), withLineFeeds_cons (by decide),
      withLineFeeds_cons hc]
  | case2 rest ih => rw [ih fun hpart => h (hpart.trans ⟨['\r', '\n'], [], by simp⟩), withLineFeeds]
  | case3 rest hfeed ih =>
    rw [ih fun hpart => h (hpart.trans ⟨['\r'], [], by simp⟩), withLineFeeds]
    exact hfeed
  | case4 c rest _ _ hreturn ih =>
    rw [ih fun hpart => h (hpart.trans ⟨[c], [], by simp⟩), withLineFeeds_cons hreturn]
  | case5 => rfl

/-- Characters that stand for themselves in a template and escaped ones. -/
inductive Verbatim : List Char → Prop
  | nil : Verbatim []
  | plain {c : Char} {text : List Char} (hc : c ∉ templateMarks) (h : Verbatim text) :
      Verbatim (c :: text)
  | escaped {c : Char} {text : List Char} (h : Verbatim text) : Verbatim ('\\' :: c :: text)

section Text
variable {text rest : List Char} {i : Nat}

theorem Verbatim.append (h : Verbatim text) (hrest : Verbatim rest) : Verbatim (text ++ rest) := by
  induction h with
  | nil => exact hrest
  | plain hc _ ih => exact .plain hc ih
  | escaped _ ih => exact .escaped ih

theorem Verbatim.of_digits {radix : Nat} (hradix : radix ≤ 36) {digits : List Char}
    (hdigits : ∀ c ∈ digits, (Number.digitValue? radix c).isSome) : Verbatim digits := by
  induction digits with
  | nil => exact .nil
  | cons c digits ih =>
    obtain ⟨hc, hdigits⟩ := List.forall_mem_cons.mp hdigits
    refine .plain (fun hmark => ?_) (ih hdigits)
    simp only [templateMarks, List.mem_cons, List.not_mem_nil, or_false] at hmark
    obtain rfl | rfl | rfl | rfl := hmark
    all_goals
      simp [Number.digitValue?] at hc
      omega

theorem Verbatim.rawText_append (h : Verbatim text) : rawText (text ++ rest) = text ++ rawText rest := by
  induction h with
  | nil => rfl
  | @plain c text hc _ ih =>
    simp only [templateMarks, List.mem_cons, List.not_mem_nil, or_false, not_or] at hc
    rw [List.cons_append, rawText_cons hc.2.2.1 hc.2.2.2, ih, List.cons_append]
  | escaped _ ih => rw [List.cons_append, List.cons_append, rawText, ih, List.cons_append, List.cons_append]

theorem Verbatim.isChunk (h : Verbatim text) (hchunk : IsChunk (text ++ rest) i) :
    ∃ k, i = text.length + k ∧ IsChunk rest k := by
  induction h generalizing i with
  | nil => exact ⟨i, (Nat.zero_add i).symm, hchunk⟩
  | @plain c text hc _ ih =>
    simp only [templateMarks, List.mem_cons, List.not_mem_nil, or_false, not_or] at hc
    obtain - | i := i
    · have hmark : endsChunk (c :: (text ++ rest)) = true := hchunk.1.1.2
      rw [endsChunk] at hmark
      · cases hmark
      · exact fun _ h => hc.1 (List.cons.inj h).1
      · exact fun _ h => hc.2.1 (List.cons.inj h).1
    · obtain ⟨k, rfl, hk⟩ := ih (hchunk.plain hc.2.2.1)
      exact ⟨k, by simp; omega, hk⟩
  | escaped _ ih =>
    obtain ⟨c, tail, l, heq, rfl, hl⟩ := hchunk.escaped
    obtain ⟨rfl, rfl⟩ := List.cons.inj heq
    obtain ⟨k, rfl, hk⟩ := ih hl
    exact ⟨k, by simp; omega, hk⟩

end Text

namespace Scan
variable {α β : Type} {text rest : List Char} {span start : Span}

def EatsFrom (c : Cursor) (x : Scan α) (P : List Char → Prop) : Prop :=
  ∃ eaten rest, c.rest = eaten ++ rest ∧ P eaten ∧ (x.run c).2 = c.skip eaten.length

def Eats (x : Scan α) (text : List Char) (P : List Char → Prop) : Prop := ∀ c, c.rest = text → EatsFrom c x P

/-- A reader may go back to where it started. -/
theorem EatsFrom.lookahead {c : Cursor} {x : Scan α} {P Q : List Char → Prop} {p : α → Prop}
    [DecidablePred p] {f : α → β} {b : β} (hx : EatsFrom c x P) (hP : ∀ eaten, P eaten → Q eaten) (hnil : Q []) :
    EatsFrom c (x >>= fun a => if p a then Pure.pure (f a) else do
      set c
      Pure.pure b) Q := by
  obtain ⟨eaten, rest, htext, heaten, hstop⟩ := hx
  rw [EatsFrom, run_bind]
  cases (x.run c).1 with
  | error e => exact ⟨eaten, rest, htext, hP eaten heaten, hstop⟩
  | ok a =>
    by_cases ha : p a
    · simp only [ha, if_true]
      exact ⟨eaten, rest, htext, hP eaten heaten, hstop⟩
    · simp only [ha, if_false]
      exact ⟨[], c.rest, rfl, hnil, rfl⟩

theorem EatsFrom.get_bind {c : Cursor} {k : Cursor → Scan α} {P : List Char → Prop} (h : EatsFrom c (k c) P) :
    EatsFrom c (get >>= k) P := h

namespace Eats
variable {x : Scan α} {P Q : List Char → Prop}

theorem pure {a : α} (h : P []) : Eats (Pure.pure a) text P := fun c _ => ⟨[], c.rest, rfl, h, rfl⟩

theorem fail {span : Span} {what : SyntaxFault} (h : P []) : Eats (Scan.fail span what : Scan α) text P :=
  fun c _ => ⟨[], c.rest, rfl, h, rfl⟩

theorem bind {k : α → Scan β} (hx : Eats x text P) (hfault : ∀ eaten, P eaten → Q eaten)
    (hk : ∀ a eaten rest, text = eaten ++ rest → P eaten → Eats (k a) rest fun more => Q (eaten ++ more)) :
    Eats (x >>= k) text Q := by
  intro c hc
  obtain ⟨eaten, rest, htext, heaten, hstop⟩ := hx c hc
  rw [EatsFrom, run_bind]
  cases (x.run c).1 with
  | error e => exact ⟨eaten, rest, htext, hfault eaten heaten, hstop⟩
  | ok a =>
    have hrest : (c.skip eaten.length).rest = rest := by rw [Cursor.rest_skip, htext, List.drop_left]
    obtain ⟨more, rest', hmore, hQ, hstop'⟩ := hk a eaten rest (hc ▸ htext) heaten _ hrest
    refine ⟨eaten ++ more, rest', by rw [htext, ← hrest, hmore, List.append_assoc], hQ, ?_⟩
    rw [hstop, List.length_append, Cursor.skip_add]
    exact hstop'

theorem mono (hx : Eats x text P) (h : ∀ eaten, P eaten → Q eaten) : Eats x text Q := by
  intro c hc
  obtain ⟨eaten, rest, htext, heaten, hstop⟩ := hx c hc
  exact ⟨eaten, rest, htext, h eaten heaten, hstop⟩

theorem ite {b : Prop} [Decidable b] {y : Scan α} (hx : b → Eats x text P) (hy : ¬ b → Eats y text P) :
    Eats (if b then x else y) text P := by
  split
  · exact hx ‹_›
  · exact hy ‹_›

theorem fail_bind {γ : Type} {span : Span} {what : SyntaxFault} {k : γ → Scan α} (h : P []) :
    Eats (Scan.fail span what >>= k) text P := fun c _ => ⟨[], c.rest, rfl, h, rfl⟩

theorem peek_bind {k : Option Char → Scan β} (h : Eats (k text.head?) text P) : Eats (peek >>= k) text P := by
  rintro c rfl
  exact h c rfl

theorem skip_bind (text : List Char) {k : Unit → Scan β} (h : Eats (k ()) rest fun more => P (text ++ more)) :
    Eats (skip text.length >>= k) (text ++ rest) P := by
  intro c hc
  have hrest : (c.skip text.length).rest = rest := by rw [Cursor.rest_skip, hc, List.drop_left]
  obtain ⟨more, rest', hmore, hP, hstop⟩ := h _ hrest
  refine ⟨text ++ more, rest', by rw [hc, ← hrest, hmore, List.append_assoc], hP, ?_⟩
  rw [List.length_append, Cursor.skip_add]
  exact hstop

theorem skip_one {c : Char} {k : Unit → Scan β} (h : Eats (k ()) rest fun more => P (c :: more)) :
    Eats (skip 1 >>= k) (c :: rest) P := skip_bind [c] h

theorem next_bind {c : Char} {k : Option Char → Scan β} (h : Eats (k (some c)) rest fun more => P (c :: more)) :
    Eats (next >>= k) (c :: rest) P := by
  intro d hd
  have hrun : (next >>= k).run d = (k d.peek).run (d.skip 1) := rfl
  rw [Cursor.peek, hd, List.head?_cons] at hrun
  rw [EatsFrom, hrun]
  exact skip_one (k := fun _ => k (some c)) h d hd

theorem next_end {k : Option Char → Scan β} (h : Eats (k none) [] P) : Eats (next >>= k) [] P := by
  intro c hc
  have hrun : (next >>= k).run c = (k c.peek).run c.next := rfl
  rw [Cursor.peek, hc, List.head?_nil, Cursor.next, hc] at hrun
  rw [EatsFrom, hrun]
  exact h c hc

theorem takeWhile_bind {p : Char → Bool} {k : List Char → Scan β}
    (h : Eats (k (text.takeWhile p)) (text.dropWhile p) fun more => P (text.takeWhile p ++ more)) :
    Eats (takeWhile p >>= k) text P := by
  intro c hc
  subst hc
  have hskip := skip_bind (c.rest.takeWhile p) (k := fun _ => k (c.rest.takeWhile p)) h
  rw [List.takeWhile_append_dropWhile] at hskip
  exact hskip c rfl

end Eats

theorem hexDigits_eats (count value : Nat) : Eats (hexDigits span count value) text AllHex := by
  induction count generalizing text value with
  | zero => exact .pure (by simp [AllHex])
  | succ count ih =>
    refine .peek_bind ?_
    cases text with
    | nil => exact .fail (by simp [AllHex])
    | cons c text =>
      rw [List.head?_cons, Option.bind_some]
      cases hd : Number.digitValue? 16 c with
      | none => exact .fail (by simp [AllHex])
      | some d =>
        refine .skip_one ((ih _).mono fun digits hdigits => ?_)
        exact List.forall_mem_cons.mpr ⟨by rw [hd]; rfl, hdigits⟩

theorem octalDigits_eats (count value : Nat) : Eats (octalDigits count value) text fun digits =>
    ∀ c ∈ digits, (Number.digitValue? 8 c).isSome := by
  induction count generalizing text value with
  | zero => exact .pure (by simp)
  | succ count ih =>
    refine .peek_bind ?_
    cases text with
    | nil => exact .pure (by simp)
    | cons c text =>
      rw [List.head?_cons, Option.bind_some]
      cases hd : Number.digitValue? 8 c with
      | none => exact .pure (by simp)
      | some d =>
        refine .ite (fun _ => .skip_one ((ih _).mono fun digits hdigits => ?_)) fun _ => .pure (by simp)
        exact List.forall_mem_cons.mpr ⟨by rw [hd]; rfl, hdigits⟩

theorem lowSurrogate_eats (high : Nat) : Eats (lowSurrogate span high) text Verbatim := by
  intro c _
  refine EatsFrom.get_bind ?_
  split
  · next tail hrest =>
    rw [← bind_assoc]
    refine EatsFrom.lookahead (P := Verbatim) ?_ (fun _ h => h) .nil
    refine Eats.skip_bind ['\\', 'u'] ?_ c hrest
    exact (hexDigits_eats 4 0).mono fun digits hdigits => .escaped (.of_digits (by decide) hdigits)
  · exact ⟨[], c.rest, rfl, .nil, rfl⟩

theorem unicodeEscape_eats (hsound : ¬ BreaksOff ('\\' :: 'u' :: text)) :
    Eats (unicodeEscape span) text Verbatim := by
  have hdigits {digits : List Char} (h : AllHex digits) : Verbatim digits := .of_digits (by decide) h
  refine .peek_bind (.ite (fun hbrace => ?_) fun _ => ?_)
  · obtain ⟨text, rfl⟩ := List.head?_eq_some_iff.mp hbrace
    have hplain : '{' ∉ templateMarks := by decide
    refine .skip_one (.takeWhile_bind ?_)
    have hhex : AllHex (text.takeWhile fun c => (Number.digitValue? 16 c).isSome) := fun c hc => by
      simpa using List.mem_takeWhile_imp hc
    have hsplit := (List.takeWhile_append_dropWhile (p := fun c => (Number.digitValue? 16 c).isSome) (l := text)).symm
    generalize text.takeWhile (fun c => (Number.digitValue? 16 c).isSome) = digits at hhex hsplit ⊢
    generalize text.dropWhile (fun c => (Number.digitValue? 16 c).isSome) = rest at hsplit ⊢
    subst hsplit
    have hrun : Verbatim ('{' :: (digits ++ [])) := .plain hplain (by simpa using hdigits hhex)
    refine .ite (fun _ => .fail_bind hrun) fun hsome => ?_
    cases rest with
    | nil => exact .next_end (.ite (fun _ => .fail_bind hrun) fun _ => .pure hrun)
    | cons c rest =>
      have hclose : c ∉ templateMarks := fun hc => hsound ⟨digits, c, rest, rfl, by simpa using hsome, hhex, hc⟩
      have hread : Verbatim ('{' :: (digits ++ [c])) := .plain hplain ((hdigits hhex).append (.plain hclose .nil))
      exact .next_bind (.ite (fun _ => .fail_bind hread) fun _ => .pure hread)
  · refine (hexDigits_eats 4 0).bind (fun _ => hdigits) fun high digits rest _ hhex => ?_
    have hread : Verbatim (digits ++ []) := by simpa using hdigits hhex
    exact .ite (fun _ => (lowSurrogate_eats high).mono fun _ => (hdigits hhex).append) fun _ => .pure hread

theorem escape_eats {c : Char} (hsound : ¬ BreaksOff ('\\' :: c :: text)) :
    Eats (escape span) (c :: text) fun eaten => Verbatim ('\\' :: eaten) := by
  refine .next_bind ?_
  have hone : Verbatim ['\\', c] := .escaped .nil
  split
  case h_1 h => cases h
  case h_8 =>
    refine (hexDigits_eats 2 0).bind (fun _ hhex => .escaped (.of_digits (by decide) hhex))
      fun _ digits _ _ hhex => .pure (.escaped ?_)
    simpa using Verbatim.of_digits (by decide) hhex
  case h_9 h =>
    obtain rfl := Option.some.inj h
    refine (unicodeEscape_eats hsound).bind (fun _ => .escaped) fun _ eaten _ _ heaten => .pure (.escaped ?_)
    simpa using heaten
  case h_10 h =>
    refine .peek_bind (.ite (fun hfeed => ?_) fun _ => .pure hone)
    obtain ⟨text, rfl⟩ := List.head?_eq_some_iff.mp hfeed
    exact .skip_one (.pure (.escaped (.plain (by decide) .nil)))
  case h_14 =>
    refine .peek_bind (.ite (fun _ => .pure hone) fun _ => ?_)
    split
    · refine (octalDigits_eats 2 _).bind (fun _ hoctal => .escaped (.of_digits (by decide) hoctal))
        fun _ digits _ _ hoctal => .pure (.escaped ?_)
      simpa using Verbatim.of_digits (by decide) hoctal
    · exact .pure hone
  all_goals exact .pure hone

/-- In a template an escape is over where it is known to be malformed. Only the cooked text depends on what it
stands for. -/
theorem chunkEscape_eq (chunk : Chunk) (c : Cursor) : (chunkEscape chunk).run c =
    let read := (escape c.here).run (c.skip 1)
    (.ok ⟨match read.1 with
        | .ok (some d) => chunk.cooked.map (·.push d)
        | .ok none => chunk.cooked
        | .error _ => none,
      chunk.raw ++ String.ofList (c.rest.take (c.rest.length - read.2.rest.length))⟩, read.2) := by
  have hcaught : (tryCatch (do return Except.ok (← escape c.here))
      fun e => return Except.error e : Scan (Except ReadError (Option Char))).run (c.skip 1) =
        (.ok ((escape c.here).run (c.skip 1)).1, ((escape c.here).run (c.skip 1)).2) := by
    rw [run_tryCatch, run_bind]
    cases ((escape c.here).run (c.skip 1)).1 <;> rfl
  change ((tryCatch (do return Except.ok (← escape c.here))
      fun e => return Except.error e : Scan (Except ReadError (Option Char))) >>= _).run (c.skip 1) = _
  rw [run_bind, hcaught]
  obtain ⟨e | - | d, after⟩ := (escape c.here).run (c.skip 1)
  · rfl
  · rfl
  · rfl

theorem chunkEscape_run {c : Cursor} {d : Char} (chunk : Chunk) (hc : c.rest = '\\' :: d :: text)
    (hsound : ¬ BreaksOff c.rest) : ∃ eaten cooked rest, c.rest = eaten ++ rest ∧ Verbatim eaten ∧ eaten ≠ [] ∧
      (chunkEscape chunk).run c = (.ok ⟨cooked, chunk.raw ++ String.ofList eaten⟩, c.skip eaten.length) := by
  have hrest : (c.skip 1).rest = d :: text := by rw [Cursor.rest_skip, hc, List.drop_succ_cons, List.drop_zero]
  have heats : Eats (escape c.here) (d :: text) fun eaten => Verbatim ('\\' :: eaten) :=
    escape_eats (hc ▸ hsound)
  obtain ⟨eaten, rest, htext, heaten, hstop⟩ := heats (c.skip 1) hrest
  rw [hrest] at htext
  rw [← Cursor.skip_add, Nat.add_comm, ← List.length_cons] at hstop
  have hraw : c.rest.take (c.rest.length - (c.skip ('\\' :: eaten).length).rest.length) = '\\' :: eaten := by
    rw [Cursor.rest_skip, List.length_drop, hc, htext, ← List.cons_append, List.length_append,
      Nat.add_sub_cancel_left, Nat.add_sub_cancel, List.take_left]
  have hread := chunkEscape_eq chunk c
  dsimp only at hread
  rw [hstop, hraw] at hread
  exact ⟨'\\' :: eaten, _, rest, by rw [hc, htext, List.cons_append], heaten, by simp, hread⟩

section Template
variable {fuel i : Nat} {c : Cursor} (start : Span) (chunks : List TemplateChunk)
  (substitutions : List (List Lexeme))

/-- One step inside a chunk goes over characters of it and adds to the raw text what they leave there. -/
theorem template_step_chunk (fuel : Nat) (h : IsChunk c.rest (i + 1)) (chunk : Chunk) : ∃ eaten rest raw cooked k,
    c.rest = eaten ++ rest ∧ eaten ≠ [] ∧ i + 1 = eaten.length + k ∧ IsChunk rest k ∧
      rawText (eaten ++ rest.take k) = raw ++ rawText (rest.take k) ∧
        (template start (fuel + 1) chunk chunks substitutions).run c =
          (template start fuel ⟨cooked, chunk.raw ++ String.ofList raw⟩ chunks substitutions).run
            (c.skip eaten.length) := by
  have hend := h.not_endsChunk
  have hpush (d : Char) : chunk.push d = ⟨chunk.cooked.map (·.push d), chunk.raw ++ String.ofList [d]⟩ := by
    rw [Chunk.push, Chunk.mk.injEq, ← String.toList_inj]
    simp
  rw [template, run_get_bind]
  split
  · next hrest => exact absurd h.1.1.2 (by simp [hrest, endsChunk])
  · next hrest =>
    rw [hrest] at hend
    cases hend
  · next hrest =>
    rw [hrest] at hend
    cases hend
  · next rest hrest =>
    obtain ⟨d, text, _, rfl, -⟩ := (hrest ▸ h).escaped
    have hsound := h.2 0 (Nat.succ_pos i) unescaped_zero
    obtain ⟨eaten, cooked, rest, hsplit, heaten, hsome, hread⟩ := chunkEscape_run chunk hrest hsound
    obtain ⟨k, hi, hk⟩ := heaten.isChunk (hsplit ▸ h)
    refine ⟨eaten, rest, eaten, cooked, k, hsplit, hsome, hi, hk, heaten.rawText_append, ?_⟩
    rw [run_bind, hread]
  · next rest hrest =>
    rw [hrest] at h
    have hplain := h.plain (by decide)
    rw [hpush]
    split
    · next hfeed =>
      obtain ⟨rest, rfl⟩ := List.head?_eq_some_iff.mp hfeed
      obtain ⟨k, rfl, hk⟩ := (Verbatim.plain (c := '\n') (by decide) .nil).isChunk hplain
      exact ⟨['\r', '\n'], rest, ['\n'], _, k, hrest, by simp, by simp; omega, hk, rfl, rfl⟩
    · next hfeed =>
      have hraw : rawText ('\r' :: rest.take i) = '\n' :: rawText (rest.take i) :=
        rawText_return (by rw [List.head?_take]; split <;> simp [hfeed])
      exact ⟨['\r'], rest, ['\n'], _, i, hrest, by simp, Nat.add_comm i 1, hplain, hraw, rfl⟩
  · next d rest _ _ hback hreturn hrest =>
    rw [hrest] at h
    rw [hpush]
    exact ⟨[d], rest, [d], _, i, hrest, by simp, Nat.add_comm i 1, h.plain hback, rawText_cons hback hreturn, rfl⟩

theorem template_chunk (h : IsChunk c.rest i) (hfuel : i < fuel) (chunk : Chunk) :
    ∃ fuel' cooked, fuel ≤ fuel' + i ∧ (template start fuel chunk chunks substitutions).run c =
      (template start fuel' ⟨cooked, chunk.raw ++ String.ofList (rawText (c.rest.take i))⟩ chunks
        substitutions).run (c.skip i) := by
  induction fuel generalizing i c chunk with
  | zero => cases hfuel
  | succ fuel ih =>
    obtain - | i := i
    · refine ⟨fuel + 1, chunk.cooked, le_rfl, ?_⟩
      have hraw : chunk.raw ++ String.ofList (rawText (c.rest.take 0)) = chunk.raw := by
        rw [List.take_zero]
        simp [rawText]
      rw [hraw]
      rfl
    · obtain ⟨eaten, rest, raw, cooked, k, hrest, hsome, hi, hk, hraw, hstep⟩ := template_step_chunk start chunks
        substitutions fuel h chunk
      have hpos := List.length_pos_iff.mpr hsome
      have hplace : (c.skip eaten.length).rest = rest := by rw [Cursor.rest_skip, hrest, List.drop_left]
      obtain ⟨fuel', cooked', hle, hrun⟩ := ih (hplace.symm ▸ hk) (by omega) ⟨cooked, chunk.raw ++ String.ofList raw⟩
      refine ⟨fuel', cooked', by omega, ?_⟩
      rw [hstep, hrun, hplace, hi, hrest, Cursor.skip_add, List.take_length_add_append, hraw, String.ofList_append,
        String.append_assoc]

theorem template_close (h : IsChunk c.rest i) (hmark : (c.rest.drop i).head? = some '`') (hfuel : i < fuel) :
    ∃ cooked, (template start fuel {} chunks substitutions).run c =
      (.ok ((⟨cooked, String.ofList (rawText (c.rest.take i))⟩ :: chunks).reverse, substitutions.reverse),
        c.skip (i + 1)) := by
  obtain ⟨fuel', cooked, hle, hrun⟩ := template_chunk start chunks substitutions h hfuel {}
  obtain ⟨rest, hrest⟩ := List.head?_eq_some_iff.mp hmark
  obtain ⟨fuel', rfl⟩ : ∃ k, fuel' = k + 1 := ⟨fuel' - 1, by omega⟩
  refine ⟨cooked, hrun.trans ?_⟩
  rw [template, run_get_bind, Cursor.rest_skip, hrest, Cursor.skip_add]
  simp only [String.empty_append]
  rfl

/-- Behind the text up to a dollar sign and a brace, the tokens of a substitution are read. -/
theorem template_open (h : IsChunk c.rest i) (hmark : ['$', '{'] <+: c.rest.drop i) (hfuel : i < fuel) :
    ∃ fuel' cooked, fuel ≤ fuel' + i + 1 ∧ (template start fuel {} chunks substitutions).run c =
      (do
        let (inner, _) ← tokens true fuel' 0 false []
        template start fuel' {} (⟨cooked, String.ofList (rawText (c.rest.take i))⟩ :: chunks)
          (inner :: substitutions)).run (c.skip (i + 2)) := by
  obtain ⟨fuel', cooked, hle, hrun⟩ := template_chunk start chunks substitutions h hfuel {}
  obtain ⟨rest, hrest⟩ := hmark
  obtain ⟨fuel', rfl⟩ : ∃ k, fuel' = k + 1 := ⟨fuel' - 1, by omega⟩
  refine ⟨fuel', cooked, by omega, hrun.trans ?_⟩
  rw [template, run_get_bind, Cursor.rest_skip, ← hrest, Cursor.skip_add]
  simp only [String.empty_append]
  rfl

end Template
end Scan

/-- The backtick is lost to an escape that breaks off there. -/
example : tokenize "`\\u\x7b1`" = .error (.at ⟨0, 0, 1, 1⟩ .unterminatedTemplate) := by cbv

/-- An escaped line terminator stays in the raw text as it is. -/
example : (tokenize "`\\\r\n`").map (·.map Lexeme.token) =
    .ok [.template [⟨some "", "\\\r\n"⟩] [], .endOfInput] := by cbv

end EcmaScript

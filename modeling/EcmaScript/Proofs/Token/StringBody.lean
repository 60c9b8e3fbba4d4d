import EcmaScript.Proofs.Token.Quoted
import EcmaScript.Proofs.Token.Tiling

/-! What may be written between the quotes of a string, and how two such texts are put together. -/
namespace EcmaScript
open EcmaScript.Text

/-- What may be written behind a backslash. -/
inductive EscapeText : List Char → Prop
  | character {c : Char} (hx : c ≠ 'x') (hu : c ≠ 'u') : EscapeText [c]
  | lineBreak : EscapeText ['\r', '\n']
  | byte {digits : List Char} (hhex : AllHex digits) (hlength : digits.length = 2) :
      EscapeText ('x' :: digits)
  | unit {digits : List Char} (hhex : AllHex digits) (hlength : digits.length = 4) :
      EscapeText ('u' :: digits)
  | braced {digits : List Char} (hhex : AllHex digits) (hsome : digits ≠ [])
      (hvalue : hexValue digits 0 ≤ 0x10FFFF) : EscapeText ('u' :: '{' :: (digits ++ ['}']))

def IsHighEscape (text : List Char) : Prop :=
  ∃ digits, text = 'u' :: digits ∧ AllHex digits ∧ digits.length = 4 ∧
    0xD800 ≤ hexValue digits 0 ∧ hexValue digits 0 < 0xDC00

def bracedMark : List Char := ['\\', 'u', '{']

/-- A text between quotes. No escape with braces may follow the first half of a surrogate pair: there
only another unit of four digits is looked for. -/
inductive StringBody (quote : Char) : List Char → Prop
  | nil : StringBody quote []
  | plain {c : Char} {rest : List Char} (hquote : c ≠ quote) (hback : c ≠ '\\') (hfeed : c ≠ '\n')
      (hreturn : c ≠ '\r') (h : StringBody quote rest) : StringBody quote (c :: rest)
  | escape {text rest : List Char} (htext : EscapeText text)
      (hpair : IsHighEscape text → ¬ bracedMark <+: rest) (h : StringBody quote rest) :
      StringBody quote ('\\' :: (text ++ rest))

def EndsHigh (quote : Char) (body : List Char) : Prop :=
  ∃ front text, body = front ++ '\\' :: text ∧ StringBody quote front ∧ IsHighEscape text

theorem AllHex.ne_brace {digits : List Char} (hhex : AllHex digits) : digits.head? ≠ some '{' := by
  intro h
  obtain ⟨rest, rfl⟩ := List.head?_eq_some_iff.mp h
  exact absurd (hhex '{' (List.mem_cons_self ..)) (by decide)

theorem IsHighEscape.length_eq {text : List Char} (h : IsHighEscape text) : text.length = 5 := by
  obtain ⟨digits, rfl, -, hlength, -⟩ := h
  rw [List.length_cons, hlength]

theorem not_isHighEscape_braced {rest : List Char} : ¬ IsHighEscape ('u' :: '{' :: rest) := by
  rintro ⟨digits, htext, hhex, -⟩
  obtain ⟨-, rfl⟩ := List.cons.inj htext
  exact hhex.ne_brace rfl

def escapeLength : List Char → Nat
  | 'x' :: _ => 3
  | 'u' :: '{' :: rest => (rest.takeWhile fun c => (Number.digitValue? 16 c).isSome).length + 3
  | 'u' :: _ => 5
  | '\r' :: '\n' :: _ => 2
  | _ => 1

theorem EscapeText.escapeLength_eq {text rest : List Char} (h : EscapeText text)
    (hfeed : text = ['\r'] → rest.head? ≠ some '\n') : escapeLength (text ++ rest) = text.length := by
  cases h with
  | character hx hu =>
    rw [List.singleton_append, escapeLength]
    · rfl
    · exact fun _ h => hx (List.cons.inj h).1
    · exact fun _ h => hu (List.cons.inj h).1
    · exact fun _ h => hu (List.cons.inj h).1
    · intro tail h
      obtain ⟨rfl, rfl⟩ := List.cons.inj h
      exact hfeed rfl rfl
  | lineBreak => rfl
  | byte _ hlength => rw [List.cons_append, escapeLength, List.length_cons, hlength]
  | @unit digits hhex hlength =>
    rw [List.cons_append, escapeLength, List.length_cons, hlength]
    rintro tail htail
    obtain ⟨c, digits, rfl⟩ := List.exists_cons_of_length_pos (by omega : 0 < digits.length)
    obtain ⟨rfl, -⟩ := List.cons.inj htail
    exact hhex.ne_brace rfl
  | @braced digits hhex =>
    have hrun : ((digits ++ ['}']) ++ rest).takeWhile (fun c => (Number.digitValue? 16 c).isSome) = digits := by
      rw [List.append_assoc, List.takeWhile_append_of_pos hhex, List.singleton_append,
        List.takeWhile_cons_of_neg (by decide), List.append_nil]
    rw [List.cons_append, List.cons_append, escapeLength, hrun]
    simp

section Octal
variable {quote c : Char} {body digits : List Char} {d : Nat}

theorem plain_of_octal (hquote : Scan.IsQuote quote) (hd : Number.digitValue? 8 c = some d) :
    c ≠ quote ∧ c ≠ '\\' ∧ c ≠ '\n' ∧ c ≠ '\r' := by
  refine ⟨?_, ?_, ?_, ?_⟩ <;> rintro rfl
  · obtain rfl | rfl := hquote <;> cases hd
  all_goals cases hd

theorem StringBody.octal (hquote : Scan.IsQuote quote)
    (hdigits : ∀ c ∈ digits, (Number.digitValue? 8 c).isSome) (h : StringBody quote body) :
    StringBody quote (digits ++ body) := by
  induction digits with
  | nil => exact h
  | cons c digits ih =>
    obtain ⟨hc, hdigits⟩ := List.forall_mem_cons.mp hdigits
    obtain ⟨d, hd⟩ := Option.isSome_iff_exists.mp hc
    obtain ⟨hne, hback, hfeed, hreturn⟩ := plain_of_octal hquote hd
    exact .plain hne hback hfeed hreturn (ih hdigits)

end Octal

section Beginning
variable {quote : Char} {rest after : List Char}

theorem StringBody.head?_ne_feed (h : StringBody quote rest) : rest.head? ≠ some '\n' := by
  cases h with
  | nil => simp
  | plain _ _ hfeed => exact fun h => hfeed (Option.some.inj h)
  | escape => simp

theorem StringBody.head?_append_ne_feed (h : StringBody quote rest) (hfeed : after.head? ≠ some '\n') :
    (rest ++ after).head? ≠ some '\n' := by
  cases rest with
  | nil => exact hfeed
  | cons c rest => exact h.head?_ne_feed

theorem StringBody.of_unicode (h : StringBody quote ('\\' :: 'u' :: rest))
    (hpair : ¬ bracedMark <+: '\\' :: 'u' :: rest) :
    ∃ digits rest', rest = digits ++ rest' ∧ AllHex digits ∧ digits.length = 4 ∧ StringBody quote rest' := by
  generalize htext : '\\' :: 'u' :: rest = body at h
  cases h with
  | nil => cases htext
  | plain _ hback => exact absurd (List.cons.inj htext).1.symm hback
  | @escape text rest' hescape _ h =>
    obtain ⟨-, htext⟩ := List.cons.inj htext
    cases hescape with
    | character _ hu => exact absurd (List.cons.inj htext).1.symm hu
    | lineBreak => cases htext
    | byte => cases htext
    | unit hhex hlength => exact ⟨_, rest', (List.cons.inj htext).2, hhex, hlength, h⟩
    | braced =>
      obtain ⟨-, rfl⟩ := List.cons.inj htext
      exact absurd ⟨_, rfl⟩ hpair

theorem StringBody.of_plain {c : Char} (h : StringBody quote (c :: rest)) (hback : c ≠ '\\') :
    StringBody quote rest := by
  cases h with
  | plain _ _ _ _ h => exact h
  | escape => exact absurd rfl hback

theorem StringBody.of_escape {text : List Char} (h : StringBody quote ('\\' :: (text ++ rest)))
    (htext : EscapeText text) (hfeed : text = ['\r'] → rest.head? ≠ some '\n') :
    (IsHighEscape text → ¬ bracedMark <+: rest) ∧ StringBody quote rest := by
  generalize hbody : '\\' :: (text ++ rest) = body at h
  cases h with
  | nil => cases hbody
  | plain _ hback => exact absurd (List.cons.inj hbody).1.symm hback
  | @escape text' rest' htext' hpair' h' =>
    have hsplit := (List.cons.inj hbody).2
    have hlength : text.length = text'.length := by
      rw [← htext.escapeLength_eq hfeed, hsplit, htext'.escapeLength_eq fun _ => h'.head?_ne_feed]
    obtain ⟨rfl, rfl⟩ := List.append_inj hsplit hlength
    exact ⟨hpair', h'⟩

theorem StringBody.of_append {front : List Char} (hfront : StringBody quote front)
    (h : StringBody quote (front ++ rest)) (hfeed : rest.head? ≠ some '\n') : StringBody quote rest := by
  induction hfront with
  | nil => exact h
  | plain _ hback _ _ _ ih =>
    exact ih (h.of_plain hback)
  | @escape text front htext _ hfront ih =>
    rw [List.cons_append, List.append_assoc] at h
    exact ih (h.of_escape htext fun _ => hfront.head?_append_ne_feed hfeed).2

theorem StringBody.bracedMark_prefix (h : StringBody quote rest) (hsome : rest ≠ [])
    (hmark : bracedMark <+: rest ++ after) : bracedMark <+: rest := by
  cases h with
  | nil => exact absurd rfl hsome
  | plain _ hback => exact absurd (List.cons_prefix_cons.mp hmark).1.symm hback
  | @escape text rest htext hpair h =>
    obtain ⟨-, hmark⟩ := List.cons_prefix_cons.mp hmark
    cases htext with
    | character _ hu => exact absurd (List.cons_prefix_cons.mp hmark).1.symm hu
    | lineBreak => exact absurd (List.cons_prefix_cons.mp hmark).1 (by decide)
    | byte => exact absurd (List.cons_prefix_cons.mp hmark).1 (by decide)
    | @unit digits hhex hlength =>
      obtain ⟨c, digits, rfl⟩ := List.exists_cons_of_length_pos (by omega : 0 < digits.length)
      obtain ⟨rfl, -⟩ := List.cons_prefix_cons.mp (List.cons_prefix_cons.mp hmark).2
      exact absurd rfl hhex.ne_brace
    | braced => exact ⟨_, rfl⟩

theorem StringBody.append_iff {a b : List Char} (ha : StringBody quote a) (hb : StringBody quote b) :
    StringBody quote (a ++ b) ↔ ¬ (EndsHigh quote a ∧ bracedMark <+: b) := by
  constructor
  · rintro h ⟨⟨front, text, rfl, hfront, hhigh⟩, hmark⟩
    rw [List.append_assoc, List.cons_append] at h
    obtain ⟨digits, rfl, hhex, hlength, -⟩ := id hhigh
    have hrest := hfront.of_append h (by simp)
    exact (hrest.of_escape (.unit hhex hlength) (by simp)).1 hhigh hmark
  · intro h
    induction ha with
    | nil => exact hb
    | @plain c rest hne hback hfeed hreturn _ ih =>
      refine .plain hne hback hfeed hreturn (ih fun ⟨⟨front, text, hrest, hfront, hhigh⟩, hmark⟩ => h ⟨?_, hmark⟩)
      exact ⟨c :: front, text, by rw [hrest, List.cons_append], .plain hne hback hfeed hreturn hfront, hhigh⟩
    | @escape text rest htext hpair hrest ih =>
      rw [List.cons_append, List.append_assoc]
      refine .escape htext (fun hhigh hmark => ?_)
        (ih fun ⟨⟨front, text', hrest', hfront, hhigh⟩, hmark⟩ => h ⟨?_, hmark⟩)
      · by_cases hsome : rest = []
        · subst hsome
          exact h ⟨⟨[], text, by simp, .nil, hhigh⟩, hmark⟩
        · exact hpair hhigh (hrest.bracedMark_prefix hsome hmark)
      · refine ⟨'\\' :: (text ++ front), text', by rw [hrest']; simp, .escape htext (fun hhigh hmark => ?_) hfront,
          hhigh⟩
        exact hpair hhigh (hrest' ▸ hmark.trans (List.prefix_append _ _))

end Beginning

namespace Scan
variable {cs : List Char} {i : Nat} {quote : Char} {span start : Span}

/-! What is accepted is such a text. -/

theorem hexDigits_reads (count value : Nat) : Reads cs i (hexDigits span count value) fun n j =>
    ∃ digits, cs.drop i = digits ++ cs.drop j ∧ AllHex digits ∧ digits.length = count ∧
      n = hexValue digits value := by
  induction count generalizing i value with
  | zero => exact .pure fun _ => ⟨[], rfl, by simp [AllHex], rfl, rfl⟩
  | succ count ih =>
    refine .peek_bind ?_
    cases hc : (cs.drop i).head? with
    | none => exact .fail
    | some c =>
      rw [Option.bind_some]
      cases hd : Number.digitValue? 16 c with
      | none => exact .fail
      | some d =>
        obtain ⟨hi, hdrop⟩ := drop_of_head? hc
        refine (skip_reads 1).bind fun _ j _ hj => ?_
        obtain rfl : j = i + 1 := by omega
        refine (ih _).mono fun n l _ _ h => ?_
        obtain ⟨digits, hsplit, hhex, hlength, hn⟩ := h
        refine ⟨c :: digits, ?_, ?_, ?_, ?_⟩
        · rw [hdrop, hsplit, List.cons_append]
        · exact List.forall_mem_cons.mpr ⟨by rw [hd]; rfl, hhex⟩
        · rw [List.length_cons, hlength]
        · rw [hn, hexValue, hexValue, List.foldl_cons, hd, Option.getD_some]

theorem octalDigits_reads (count value : Nat) : Reads cs i (octalDigits count value) fun _ j =>
    ∃ digits, cs.drop i = digits ++ cs.drop j ∧ ∀ c ∈ digits, (Number.digitValue? 8 c).isSome := by
  induction count generalizing i value with
  | zero => exact .pure fun _ => ⟨[], rfl, by simp⟩
  | succ count ih =>
    refine .peek_bind ?_
    cases hc : (cs.drop i).head? with
    | none => exact .pure fun _ => ⟨[], rfl, by simp⟩
    | some c =>
      rw [Option.bind_some]
      cases hd : Number.digitValue? 8 c with
      | none => exact .pure fun _ => ⟨[], rfl, by simp⟩
      | some d =>
        refine .ite (fun _ => ?_) fun _ => .pure fun _ => ⟨[], rfl, by simp⟩
        obtain ⟨hi, hdrop⟩ := drop_of_head? hc
        refine (skip_reads 1).bind fun _ j _ hj => ?_
        obtain rfl : j = i + 1 := by omega
        refine (ih _).mono fun n l _ _ ⟨digits, hsplit, hoctal⟩ => ⟨c :: digits, ?_, ?_⟩
        · rw [hdrop, hsplit, List.cons_append]
        · exact List.forall_mem_cons.mpr ⟨by rw [hd]; rfl, hoctal⟩

def Escapes (quote : Char) (cs : List Char) (i j : Nat) : Prop :=
  ∀ body after, cs.drop j = body ++ quote :: after → StringBody quote body →
    ∃ body', cs.drop i = body' ++ quote :: after ∧ StringBody quote ('\\' :: body')

theorem Escapes.of_text {j : Nat} {text : List Char} (htext : EscapeText text)
    (hsplit : cs.drop i = text ++ cs.drop j) (hpair : IsHighEscape text → ¬ bracedMark <+: cs.drop j) :
    Escapes quote cs i j := by
  intro body after hbody h
  refine ⟨text ++ body, by rw [hsplit, hbody, List.append_assoc], .escape htext (fun hhigh hmark => ?_) h⟩
  exact hpair hhigh (hbody ▸ hmark.trans (List.prefix_append _ _))

theorem Escapes.of_short {j : Nat} {text : List Char} (htext : EscapeText text)
    (hsplit : cs.drop i = text ++ cs.drop j) (hlength : text.length < 5) : Escapes quote cs i j :=
  .of_text htext hsplit fun hhigh => absurd hhigh.length_eq (by omega)

theorem lowSurrogate_reads (high : Nat) : Reads cs i (lowSurrogate span high) fun _ j =>
    j = i ∧ ¬ bracedMark <+: cs.drop i ∨ ∃ digits, cs.drop i = '\\' :: 'u' :: (digits ++ cs.drop j) ∧
      AllHex digits ∧ digits.length = 4 ∧ ¬ hexValue digits 0 < 0xDC00 := by
  refine Reads.get_bind ?_
  rw [Cursor.rest_after]
  split
  · next rest hdrop =>
    have hlength := congrArg List.length hdrop
    rw [List.length_drop, List.length_cons, List.length_cons] at hlength
    have hdigits : Reads cs i (skip 2 >>= fun _ => hexDigits span 4 0) fun n j =>
        ∃ digits, cs.drop i = '\\' :: 'u' :: (digits ++ cs.drop j) ∧ AllHex digits ∧ digits.length = 4 ∧
          n = hexValue digits 0 := by
      refine (skip_reads 2).bind fun _ j _ hj => ?_
      obtain rfl : j = i + 2 := by omega
      have hrest : cs.drop (i + 2) = rest := by rw [← List.drop_drop, hdrop]; rfl
      refine (hexDigits_reads 4 0).mono fun n l _ _ ⟨digits, hsplit, hhex, hfour, hn⟩ => ?_
      exact ⟨digits, by rw [hdrop, ← hrest, hsplit], hhex, hfour, hn⟩
    rw [← bind_assoc]
    refine hdigits.lookahead (fun n j ⟨digits, hsplit, hhex, hfour, hn⟩ hlow => .inr ?_)
      fun n j ⟨digits, hsplit, hhex, hfour, hn⟩ _ => .inl ⟨rfl, fun hmark => ?_⟩
    · exact ⟨digits, hsplit, hhex, hfour, by omega⟩
    · rw [hsplit, bracedMark, List.cons_prefix_cons, List.cons_prefix_cons] at hmark
      obtain ⟨c, digits, rfl⟩ := List.exists_cons_of_length_pos (l := digits) (by omega)
      obtain ⟨rfl, -⟩ := List.cons_prefix_cons.mp hmark.2.2
      exact hhex.ne_brace rfl
  · next hother =>
    refine .pure fun _ => .inl ⟨rfl, fun ⟨rest, hmark⟩ => ?_⟩
    exact hother _ hmark.symm

theorem unicodeEscape_reads (hu : cs.drop i = 'u' :: cs.drop (i + 1)) :
    Reads cs (i + 1) (unicodeEscape span) fun _ j => Escapes quote cs i j := by
  refine .peek_bind (.ite (fun hbrace => ?_) fun _ => ?_)
  · obtain ⟨hi, hdrop⟩ := drop_of_head? hbrace
    refine (skip_reads 1).bind fun _ j _ hj => ?_
    obtain rfl : j = i + 1 + 1 := by omega
    refine (takeWhile_reads _).bind fun digits j _ ⟨hdigits, hj⟩ => ?_
    refine .ite (fun _ => .fail_bind) fun hsome => next_reads.bind fun close l hl ⟨hclose, hl'⟩ => ?_
    refine .ite (fun _ => .fail_bind) fun hvalue => .pure fun _ => ?_
    obtain ⟨rfl, hmax⟩ : close = some '}' ∧ ¬ 0x10FFFF < hexValue digits 0 := by
      rw [not_or, not_not] at hvalue
      exact hvalue
    obtain ⟨hlt, hdrop'⟩ := drop_of_head? hclose.symm
    obtain rfl : l = j + 1 := by omega
    have hsplit : cs.drop (i + 1 + 1) = digits ++ cs.drop j := by rw [hj, hdigits, takeWhile_append_drop]
    have hhex : AllHex digits := by
      intro c hc
      rw [hdigits] at hc
      simpa using List.mem_takeWhile_imp hc
    have htext : EscapeText ('u' :: '{' :: (digits ++ ['}'])) := .braced hhex (by simpa using hsome) (by omega)
    refine .of_text htext ?_ fun hhigh => absurd hhigh not_isHighEscape_braced
    rw [hu, hdrop, hsplit, hdrop']
    simp
  · refine (hexDigits_reads 4 0).bind fun n j _ ⟨digits, hsplit, hhex, hfour, hn⟩ => ?_
    have htext : cs.drop i = ('u' :: digits) ++ cs.drop j := by rw [hu, hsplit, List.cons_append]
    refine .ite (fun hhigh => ?_) fun hhigh => .pure fun _ => ?_
    · refine (lowSurrogate_reads n).mono fun _ l _ _ h => ?_
      obtain ⟨rfl, hmark⟩ | ⟨digits', hsplit', hhex', hfour', hlow⟩ := h
      · exact .of_text (.unit hhex hfour) htext fun _ => hmark
      · -- Both halves are units of the body, and the second is no first half of another pair.
        intro body after hbody h
        have hunit : StringBody quote ('\\' :: ('u' :: digits' ++ body)) := by
          refine .escape (.unit hhex' hfour') (fun ⟨_, htext', _, _, _, hhigh'⟩ => ?_) h
          obtain ⟨-, rfl⟩ := List.cons.inj htext'
          exact absurd hhigh' hlow
        refine ⟨'u' :: digits ++ '\\' :: ('u' :: digits' ++ body), ?_, ?_⟩
        · rw [htext, hsplit', hbody]
          simp
        · refine .escape (.unit hhex hfour) (fun _ hmark => ?_) hunit
          rw [bracedMark, List.cons_prefix_cons, List.cons_append, List.cons_prefix_cons] at hmark
          obtain ⟨c, digits', rfl⟩ := List.exists_cons_of_length_pos (l := digits') (by omega)
          obtain ⟨rfl, -⟩ := List.cons_prefix_cons.mp hmark.2.2
          exact hhex'.ne_brace rfl
    · refine .of_text (.unit hhex hfour) htext fun ⟨_, htext', _, _, hhigh'⟩ => ?_
      obtain ⟨-, rfl⟩ := List.cons.inj htext'
      exact absurd (hn ▸ hhigh') hhigh

theorem escape_reads (hquote : IsQuote quote) :
    Reads cs i (escape span) fun _ j => Escapes quote cs i j := by
  refine next_reads.bind fun c j _ ⟨hc, hj⟩ => ?_
  cases c with
  | none => exact .fail
  | some c =>
    obtain ⟨hi, hdrop⟩ := drop_of_head? hc.symm
    obtain rfl : j = i + 1 := by omega
    -- A character that is taken as it is, whatever it stands for.
    have hcharacter (hx : c ≠ 'x') (hu : c ≠ 'u') : Escapes quote cs i (i + 1) :=
      .of_short (.character hx hu) hdrop (by simp)
    split
    case h_1 h => cases h
    case h_8 h =>
      obtain rfl := Option.some.inj h
      refine (hexDigits_reads 2 0).bind fun n l _ ⟨digits, hsplit, hhex, htwo, _⟩ => .pure fun _ => ?_
      exact .of_short (.byte hhex htwo) (by rw [hdrop, hsplit]; rfl) (by simp [htwo])
    case h_9 h =>
      obtain rfl := Option.some.inj h
      exact (unicodeEscape_reads hdrop).bind fun d l _ hl => .pure fun _ => hl
    case h_10 h =>
      obtain rfl := Option.some.inj h
      refine .peek_bind (.ite (fun hfeed => ?_) fun _ => .pure fun _ => hcharacter (by decide) (by decide))
      obtain ⟨hi', hdrop'⟩ := drop_of_head? hfeed
      refine (skip_reads 1).bind fun _ l _ hl => .pure fun _ => ?_
      obtain rfl : l = i + 1 + 1 := by omega
      exact .of_short .lineBreak (by rw [hdrop, hdrop']; rfl) (by simp)
    case h_14 hx hu _ _ _ _ h =>
      obtain rfl := Option.some.inj h
      refine .peek_bind (.ite (fun _ => .pure fun _ => hcharacter hx hu) fun _ => ?_)
      split
      · refine (octalDigits_reads 2 _).bind fun n l _ ⟨digits, hsplit, hoctal⟩ => .pure fun _ => ?_
        intro body after hbody h
        refine ⟨[c] ++ (digits ++ body), by rw [hdrop, hsplit, hbody]; simp, ?_⟩
        refine .escape (.character hx hu) (fun hhigh => absurd hhigh.length_eq (by simp)) ?_
        exact .octal hquote hoctal h
      · exact .pure fun _ => hcharacter hx hu
    all_goals
      rename_i h
      obtain rfl := Option.some.inj h
      exact .pure fun _ => hcharacter (by decide) (by decide)

theorem stringRest_reads (hquote : IsQuote quote) (fuel : Nat) (value : String) :
    Reads cs i (stringRest start quote fuel value) fun _ j =>
      ∃ body, cs.drop i = body ++ quote :: cs.drop j ∧ StringBody quote body := by
  induction fuel generalizing i value with
  | zero => exact .stuck
  | succ fuel ih =>
    refine .peek_bind ?_
    split
    · exact .fail
    · next c hc =>
      obtain ⟨hi, hdrop⟩ := drop_of_head? hc
      refine .ite (fun hclose => ?_) fun hne => .ite (fun hback => ?_) fun hback =>
        .ite (fun _ => .fail) fun hline => ?_
      · refine (skip_reads 1).bind fun _ j _ hj => .pure fun _ => ⟨[], ?_, .nil⟩
        obtain rfl : j = i + 1 := by omega
        rw [hdrop, hclose, List.nil_append]
      · refine .here_bind ((skip_reads 1).bind fun _ j _ hj => ?_)
        obtain rfl : j = i + 1 := by omega
        refine (escape_reads hquote).bind fun d l _ hl => ?_
        have hgo (value : String) : Reads cs l (stringRest start quote fuel value) fun _ j =>
            ∃ body, cs.drop i = body ++ quote :: cs.drop j ∧ StringBody quote body := by
          refine (ih value).mono fun _ k _ _ ⟨body, hbody, h⟩ => ?_
          obtain ⟨body', hbody', h'⟩ := hl body _ hbody h
          exact ⟨'\\' :: body', by rw [hdrop, hback, hbody', List.cons_append], h'⟩
        split
        · exact hgo _
        · exact hgo _
      · obtain ⟨hfeed, hreturn⟩ := not_or.mp hline
        refine (skip_reads 1).bind fun _ j _ hj => ?_
        obtain rfl : j = i + 1 := by omega
        refine (ih _).mono fun _ k _ _ ⟨body, hbody, h⟩ => ?_
        exact ⟨c :: body, by rw [hdrop, hbody, List.cons_append], .plain hne hback hfeed hreturn h⟩

/-! Such a text is accepted. -/

section Accepted
variable {rest : List Char} (span) (after : List Char)

theorem octalDigits_takes (hquote : IsQuote quote) (h : StringBody quote rest) (count value : Nat) :
    ∃ rest', StringBody quote rest' ∧ rest'.length ≤ rest.length ∧
      Takes (octalDigits count value) (rest ++ quote :: after) (fun _ => True) (rest' ++ quote :: after) := by
  induction count generalizing rest value with
  | zero => exact ⟨rest, h, le_rfl, .pure trivial⟩
  | succ count ih =>
    by_cases hgo : ∃ d, (rest ++ quote :: after).head?.bind (Number.digitValue? 8) = some d ∧
        value * 8 + d ≤ 0o377
    · obtain ⟨d, hd, hmax⟩ := hgo
      have hdigit : ∃ c rest', rest = c :: rest' ∧ StringBody quote rest' := by
        cases h with
        | nil =>
          obtain rfl | rfl := hquote
          all_goals cases hd
        | plain _ _ _ _ h => exact ⟨_, _, rfl, h⟩
        | escape => cases hd
      obtain ⟨c, tail, rfl, htail⟩ := hdigit
      obtain ⟨rest', h', hlength, htakes⟩ := ih htail (value * 8 + d)
      refine ⟨rest', h', hlength.trans (Nat.le_succ _), .peek_bind ?_⟩
      rw [hd]
      exact .ite (fun _ => .skip_bind htakes) fun hmax' => absurd hmax hmax'
    · refine ⟨rest, h, le_rfl, .peek_bind ?_⟩
      split
      · next d hd => exact .ite (fun hmax => absurd ⟨d, hd, hmax⟩ hgo) fun _ => .pure trivial
      · exact .pure trivial

theorem lowSurrogate_takes (hquote : IsQuote quote) (h : StringBody quote rest) (hpair : ¬ bracedMark <+: rest)
    (high : Nat) :
    ∃ rest', StringBody quote rest' ∧ rest'.length ≤ rest.length ∧
      Takes (lowSurrogate span high) (rest ++ quote :: after) (fun _ => True) (rest' ++ quote :: after) := by
  by_cases hmark : ∃ tail, rest = '\\' :: 'u' :: tail
  · obtain ⟨_, rfl⟩ := hmark
    obtain ⟨digits, tail, rfl, hhex, hlength, htail⟩ := h.of_unicode hpair
    have hread : Takes (hexDigits span 4 0) (digits ++ (tail ++ quote :: after)) (· = hexValue digits 0)
        (tail ++ quote :: after) := hlength ▸ hexDigits_takes hhex
    have hsplit : '\\' :: 'u' :: (digits ++ tail) ++ quote :: after =
        '\\' :: 'u' :: (digits ++ (tail ++ quote :: after)) := by simp
    by_cases hlow : 0xDC00 ≤ hexValue digits 0 ∧ hexValue digits 0 < 0xE000
    · refine ⟨tail, htail, by simp; omega, .get_bind fun c hc => ?_⟩
      rw [hc, hsplit]
      refine .skip_bind (hread.bind ?_)
      rintro _ rfl
      exact .ite (fun _ => .pure trivial) fun hlow' => absurd hlow hlow'
    · refine ⟨_, h, le_rfl, .get_bind fun c hc => ?_⟩
      rw [hc, hsplit]
      refine .skip_bind (hread.bind ?_)
      rintro _ rfl
      refine .ite (fun hlow' => absurd hlow' hlow) fun _ => .set_bind ?_
      rw [hc, hsplit]
      exact .pure trivial
  · refine ⟨rest, h, le_rfl, .get_bind fun c hc => ?_⟩
    rw [hc]
    split
    · next htext =>
      -- The mark would be a quote.
      obtain - | ⟨c, - | ⟨d, tail⟩⟩ := rest
      · obtain rfl | rfl := hquote
        all_goals cases htext
      · obtain rfl | rfl := hquote
        all_goals cases (List.cons.inj htext).2
      · obtain ⟨rfl, hsecond⟩ := List.cons.inj htext
        obtain ⟨rfl, -⟩ := List.cons.inj hsecond
        exact absurd ⟨tail, rfl⟩ hmark
    · exact .pure trivial

theorem takeWhile_takes {p : Char → Bool} {run : List Char} (hrun : ∀ c ∈ run, p c = true)
    (hend : ∀ c ∈ rest.head?, p c = false) : Takes (takeWhile p) (run ++ rest) (· = run) rest := by
  intro c hc
  have hsplit : (run ++ rest).takeWhile p = run := by
    rw [List.takeWhile_append_of_pos hrun]
    cases rest with
    | nil => simp
    | cons d rest => simp [hend d rfl]
  have hread : c.takeWhile p = (run, c.skip run.length) := by rw [Cursor.takeWhile, hc, hsplit]
  change ∃ a, Except.ok (c.takeWhile p).1 = .ok a ∧ a = run ∧ (c.takeWhile p).2.rest = rest
  rw [hread]
  exact ⟨run, rfl, rfl, by rw [Cursor.rest_skip, hc, List.drop_left]⟩

theorem unicodeEscape_braced {digits : List Char} (hhex : AllHex digits) (hsome : digits ≠ [])
    (hvalue : hexValue digits 0 ≤ 0x10FFFF) :
    Takes (unicodeEscape span) ('{' :: (digits ++ '}' :: after)) (fun _ => True) after := by
  refine .peek_bind (.ite (fun _ => ?_) fun hbrace => absurd rfl hbrace)
  refine .skip_bind ((takeWhile_takes hhex fun c hc => ?_).bind ?_)
  · obtain rfl := Option.some.inj hc
    rfl
  · rintro _ rfl
    refine .ite (fun hempty => absurd (by simpa using hempty) hsome) fun _ => .next_bind ?_
    refine .ite (fun hbad => ?_) fun _ => .pure trivial
    obtain hbad | hbad := hbad
    · exact absurd rfl hbad
    · exact absurd hvalue (Nat.not_le_of_lt hbad)

theorem unicodeEscape_takes {digits : List Char} (hquote : IsQuote quote) (hhex : AllHex digits)
    (hlength : digits.length = 4) (hpair : IsHighEscape ('u' :: digits) → ¬ bracedMark <+: rest)
    (h : StringBody quote rest) : ∃ rest', StringBody quote rest' ∧ rest'.length ≤ rest.length ∧
      Takes (unicodeEscape span) (digits ++ (rest ++ quote :: after)) (fun _ => True) (rest' ++ quote :: after) := by
  by_cases hhigh : 0xD800 ≤ hexValue digits 0 ∧ hexValue digits 0 < 0xDC00
  · have hmark := hpair ⟨digits, rfl, hhex, hlength, hhigh.1, hhigh.2⟩
    obtain ⟨rest', h', hle, htakes⟩ := lowSurrogate_takes span after hquote h hmark (hexValue digits 0)
    refine ⟨rest', h', hle, unicodeEscape_digits hhex hlength ?_⟩
    exact .ite (fun _ => htakes) fun hlow => absurd hhigh hlow
  · refine ⟨rest, h, le_rfl, unicodeEscape_digits hhex hlength ?_⟩
    exact .ite (fun hhigh' => absurd hhigh' hhigh) fun _ => .pure trivial

theorem escape_character {c : Char} (hquote : IsQuote quote) (hx : c ≠ 'x') (hu : c ≠ 'u')
    (h : StringBody quote rest) : ∃ rest', StringBody quote rest' ∧ rest'.length ≤ rest.length ∧
      Takes (escape span) (c :: (rest ++ quote :: after)) (fun _ => True) (rest' ++ quote :: after) := by
  by_cases hoctal : (Number.digitValue? 8 c).isSome ∧
      ¬ (c = '0' ∧ (!(rest ++ quote :: after).head?.any Char.isDigit) = true)
  · obtain ⟨hdigit, hnull⟩ := hoctal
    obtain ⟨d, hd⟩ := Option.isSome_iff_exists.mp hdigit
    obtain ⟨rest', h', hle, htakes⟩ := octalDigits_takes after hquote h 2 d
    refine ⟨rest', h', hle, .next_bind ?_⟩
    dsimp only [List.head?_cons]
    split
    case h_14 heq =>
      obtain rfl := Option.some.inj heq
      refine .peek_bind (.ite (fun hnull' => absurd hnull' hnull) fun _ => ?_)
      rw [hd]
      exact htakes.bind fun _ _ => .pure trivial
    all_goals
      rename_i heq
      cases heq
    all_goals cases hd
  · refine ⟨rest, h, le_rfl, .next_bind ?_⟩
    dsimp only [List.head?_cons]
    split
    case h_8 heq => exact absurd (Option.some.inj heq) hx
    case h_9 heq => exact absurd (Option.some.inj heq) hu
    case h_10 =>
      have hfeed : quote ≠ '\n' := by
        obtain rfl | rfl := hquote <;> decide
      refine .peek_bind (.ite (fun hhead => absurd hhead ?_) fun _ => .pure trivial)
      exact h.head?_append_ne_feed fun h => hfeed (Option.some.inj h)
    case h_14 heq =>
      obtain rfl := Option.some.inj heq
      refine .peek_bind (.ite (fun _ => .pure trivial) fun hnull => ?_)
      split
      · next hd => exact absurd ⟨by rw [hd]; rfl, hnull⟩ hoctal
      · exact .pure trivial
    case h_1 heq => cases heq
    all_goals exact .pure trivial

theorem escape_takes {text : List Char} (hquote : IsQuote quote) (htext : EscapeText text)
    (hpair : IsHighEscape text → ¬ bracedMark <+: rest) (h : StringBody quote rest) :
    ∃ rest', StringBody quote rest' ∧ rest'.length ≤ rest.length ∧
      Takes (escape span) (text ++ (rest ++ quote :: after)) (fun _ => True) (rest' ++ quote :: after) := by
  cases htext with
  | character hx hu => exact escape_character span after hquote hx hu h
  | lineBreak =>
    refine ⟨rest, h, le_rfl, .next_bind (.peek_bind (.ite (fun _ => ?_) fun hfeed => absurd rfl hfeed))⟩
    exact .skip_bind (.pure trivial)
  | byte hhex hlength =>
    refine ⟨rest, h, le_rfl, .next_bind ?_⟩
    rw [← hlength]
    exact (hexDigits_takes hhex).bind fun _ _ => .pure trivial
  | unit hhex hlength =>
    obtain ⟨rest', h', hle, htakes⟩ := unicodeEscape_takes span after hquote hhex hlength hpair h
    exact ⟨rest', h', hle, .next_bind (htakes.bind fun _ _ => .pure trivial)⟩
  | braced hhex hsome hvalue =>
    have hread := unicodeEscape_braced span (rest ++ quote :: after) hhex hsome hvalue
    refine ⟨rest, h, le_rfl, .next_bind ?_⟩
    simp only [List.cons_append, List.append_assoc, List.tail_cons, List.nil_append]
    exact hread.bind fun _ _ => .pure trivial

theorem stringRest_takes (hquote : IsQuote quote) {body : List Char} (h : StringBody quote body)
    {fuel : Nat} (hfuel : body.length < fuel) (value : String) :
    Takes (stringRest start quote fuel value) (body ++ quote :: after) (fun _ => True) after := by
  induction fuel generalizing body value with
  | zero => cases hfuel
  | succ fuel ih =>
    cases h with
    | nil => exact stringRest_close.mono fun _ _ => trivial
    | plain hne hback hfeed hreturn h =>
      exact stringRest_plain hne hback hfeed hreturn (ih h (Nat.lt_of_succ_lt_succ hfuel) _)
    | @escape text rest htext hpair h =>
      rw [List.cons_append, List.append_assoc]
      refine stringRest_escape hquote fun span => ?_
      obtain ⟨rest', h', hle, htakes⟩ := escape_takes span after hquote htext hpair h
      refine ⟨_, _, htakes, fun d _ => ih h' ?_ _⟩
      simp only [List.length_cons, List.length_append] at hfuel
      omega

theorem string_takes (hquote : IsQuote quote) {body : List Char} (h : StringBody quote body) :
    Takes (string quote) (quote :: (body ++ quote :: after)) (fun token => ∃ s, token = .string s) after := by
  refine .here_bind fun start => .skip_bind (.bound_bind ((stringRest_takes after hquote h ?_ "").bind ?_))
  · rw [List.drop_succ_cons, List.drop_zero, List.length_append]
    omega
  · exact fun s _ => .pure ⟨s, rfl⟩

end Accepted

theorem string_iff (hquote : IsQuote quote) {body : List Char} :
    Takes (string quote) (quote :: (body ++ [quote])) (fun token => ∃ s, token = .string s) [] ↔
      StringBody quote body := by
  refine ⟨fun h => ?_, fun h => string_takes [] hquote h⟩
  generalize hcs : quote :: (body ++ [quote]) = cs at h
  have hreads : Reads cs 0 (string quote) fun _ j =>
      ∃ body', cs.drop 1 = body' ++ quote :: cs.drop j ∧ StringBody quote body' := by
    refine .here_bind ((skip_reads 1).bind fun _ i _ hi => .bound_bind ?_)
    obtain rfl : i = 1 := by
      rw [hi, ← hcs, List.length_cons]
      omega
    exact (stringRest_reads hquote _ "").bind fun _ j _ hbody => .pure fun _ => hbody
  obtain ⟨token, hrun, -, hrest⟩ := h (.after cs 0) (by rw [Cursor.rest_after, List.drop_zero])
  obtain ⟨j, -, -, hstop, hresult⟩ := hreads (Nat.zero_le _)
  obtain ⟨body', hbody, h'⟩ := hresult token hrun
  rw [hstop, Cursor.rest_after] at hrest
  rw [hrest, ← hcs, List.drop_succ_cons, List.drop_zero, List.append_left_inj] at hbody
  exact hbody ▸ h'

end Scan

/-- Strings are put together by putting together what is between their quotes, where no escape with braces
comes to stand behind the first half of a surrogate pair. -/
theorem tokenize_stringBody_append {quote : Char} (hquote : Scan.IsQuote quote) {a b : List Char}
    (ha : StringBody quote a) (hb : StringBody quote b) (hpair : ¬ (EndsHigh quote a ∧ bracedMark <+: b)) :
    ∃ s, (tokenize (String.ofList (quote :: (a ++ b ++ [quote])))).map (·.map Lexeme.token) =
      .ok [.string s, .endOfInput] := by
  have hbody := (ha.append_iff hb).mpr hpair
  obtain ⟨_, ⟨s, rfl⟩, htokens⟩ := tokenize_string hquote ((Scan.string_iff hquote).mpr hbody)
  exact ⟨s, htokens⟩

/-- The escapes are accepted each in a string of its own, and refused in one. -/
example :
    (tokenize "'\\uD83D'").map (·.map Lexeme.token) = .ok [.string "\uFFFD", .endOfInput] ∧
      (tokenize "'\\u\x7b41\x7d'").map (·.map Lexeme.token) = .ok [.string "A", .endOfInput] ∧
        tokenize "'\\uD83D\\u\x7b41\x7d'" = .error (.at ⟨1, 1, 1, 2⟩ .invalidHexEscape) := by
  refine ⟨?_, ?_, ?_⟩ <;> cbv

end EcmaScript

import EcmaScript.Proofs.Progress.Token
import EcmaScript.Proofs.Token.Beside
import EcmaScript.Proofs.Token.Chunk

/-! The tokens of a text do not depend on how its lines end, but for regular expressions with an escaped
line feed. -/
namespace EcmaScript
open EcmaScript.Text

def TemplateChunk.withLineFeeds (chunk : TemplateChunk) : TemplateChunk :=
  ⟨chunk.cooked, String.ofList (EcmaScript.withLineFeeds chunk.raw.toList)⟩

mutual

/-- What a token is apart from bytes: the places in it are lines and columns, and lines in the raw text of
a template end with line feeds. -/
def Token.unplaced : Token → Token
  | .template chunks substitutions =>
    .template (chunks.map TemplateChunk.withLineFeeds) (unplacedSubstitutions substitutions)
  | token => token

def Lexeme.unplaced : Lexeme → Lexeme
  | .mk token span afterNewline => .mk token.unplaced ⟨0, 0, span.line, span.column⟩ afterNewline

def unplacedLexemes : List Lexeme → List Lexeme
  | [] => []
  | l :: rest => l.unplaced :: unplacedLexemes rest

def unplacedSubstitutions : List (List Lexeme) → List (List Lexeme)
  | [] => []
  | inner :: rest => unplacedLexemes inner :: unplacedSubstitutions rest

end

theorem unplacedLexemes_eq_map (ls : List Lexeme) : unplacedLexemes ls = ls.map Lexeme.unplaced := by
  induction ls with
  | nil => rfl
  | cons l ls ih => rw [unplacedLexemes, ih, List.map_cons]

theorem unplacedSubstitutions_eq_map (substitutions : List (List Lexeme)) :
    unplacedSubstitutions substitutions = substitutions.map (·.map Lexeme.unplaced) := by
  induction substitutions with
  | nil => rfl
  | cons inner rest ih => rw [unplacedSubstitutions, ih, unplacedLexemes_eq_map, List.map_cons]

theorem regExpMayFollow_unplaced (l? : Option Lexeme) :
    regExpMayFollow ((l?.map Lexeme.unplaced).map Lexeme.token) = regExpMayFollow (l?.map Lexeme.token) := by
  obtain - | ⟨token, span, afterNewline⟩ := l?
  · rfl
  · cases token <;> rfl

/-- The same text, but that lines may end with a carriage return before the line feed in the second one. -/
inductive SameLines : List Char → List Char → Prop
  | nil : SameLines [] []
  | plain {c : Char} {text text' : List Char} (hc : c ≠ '\r') (h : SameLines text text') :
      SameLines (c :: text) (c :: text')
  | lineBreak {text text' : List Char} (h : SameLines text text') :
      SameLines ('\n' :: text) ('\r' :: '\n' :: text')

namespace SameLines
variable {text text' more more' : List Char}

theorem append (h : SameLines text text') (hmore : SameLines more more') :
    SameLines (text ++ more) (text' ++ more') := by
  induction h with
  | nil => exact hmore
  | plain hc _ ih => exact .plain hc ih
  | lineBreak _ ih => exact .lineBreak ih

theorem of_withReturns (h : '\r' ∉ text) : SameLines text (withReturns text) := by
  fun_induction withReturns text with
  | case1 => exact .nil
  | case2 rest ih => exact .lineBreak (ih (List.not_mem_of_not_mem_cons h))
  | case3 c rest _ ih => exact .plain (List.ne_of_not_mem_cons h).symm (ih (List.not_mem_of_not_mem_cons h))

theorem left (h : SameLines text text') : SameLines text text := by
  induction h with
  | nil => exact .nil
  | plain hc _ ih => exact .plain hc ih
  | lineBreak _ ih => exact .plain (by decide) ih

theorem withLineFeeds_eq (h : SameLines text text') : withLineFeeds text' = text := by
  induction h with
  | nil => rfl
  | plain hc _ ih => rw [withLineFeeds_cons hc, ih]
  | lineBreak _ ih => rw [withLineFeeds, ih]

end SameLines

namespace Scan
variable {source text rest : List Char} {start start' : Span}

/-! Comments. -/

theorem blockCommentRest_run {c : Cursor} {a : Char} {fuel : Nat} {newline : Bool} (hc : c.rest = a :: rest)
    (ha : a ≠ '*') :
    (blockCommentRest start (fuel + 1) newline).run c =
      (blockCommentRest start fuel (newline || isLineTerminator a)).run c.next := by
  rw [blockCommentRest, run_next_bind, Cursor.peek, hc, List.head?_cons]
  change ExceptT.run (if a = '*' ∧ c.next.peek = some '/' then (do skip 1; return newline)
    else blockCommentRest start fuel (newline || isLineTerminator a)) c.next = _
  rw [if_neg fun h => ha h.1]

theorem blockCommentRest_agrees (hstart : SamePlace start start') (fuel fuel' : Nat) (newline : Bool) :
    Agrees source (Parts source) text (blockCommentRest start fuel newline)
      (blockCommentRest start' fuel' newline) Eq := by
  induction fuel generalizing text fuel' newline with
  | zero => exact .stuck_left
  | succ fuel ih =>
    obtain - | fuel' := fuel'
    · exact .stuck_right
    fun_cases withReturns text with
    | case1 => exact .next_end (.fail hstart)
    | case2 rest =>
      intro c c' hc hbeside
      have hbetween := hbeside.between hc
      have hc' : c'.rest = '\r' :: '\n' :: withReturns rest := by rw [hbeside.rest, hc, withReturns]
      have hlines : isLineTerminator '\n' = true ∧ isLineTerminator '\r' = true := ⟨rfl, rfl⟩
      rw [blockCommentRest_run hc (by decide), blockCommentRest_run hc' (by decide), hlines.1, hlines.2,
        Bool.or_true]
      obtain - | fuel' := fuel'
      · exact .parts (.inr (.inl rfl))
      rw [blockCommentRest_run hbetween.rest (by decide), Bool.true_or]
      exact ih _ _ _ _ rfl hbetween.beside
    | case3 a rest ha =>
      refine .next_bind ha (.peek_bind (.ite_iff ?_ (fun hclose => ?_) fun _ => ih _ _))
      · rw [head?_withReturns_iff (by decide) (by decide)]
      · obtain ⟨rest, rfl⟩ := List.head?_eq_some_iff.mp hclose.2
        exact .skip_one (by decide) (.pure rfl)

/-- A character that does not start a comment. -/
theorem trivia_run {c : Cursor} {a : Char} {fuel : Nat} {newline : Bool} (hc : c.rest = a :: rest)
    (hmark : ¬ (a = '/' ∧ (rest.head? = some '/' ∨ rest.head? = some '*'))) :
    (trivia (fuel + 1) newline).run c = ExceptT.run (do
      if isLineTerminator a then
        skip 1
        trivia fuel true
      else if isBlank a then
        skip 1
        trivia fuel newline
      else return newline) c := by
  rw [trivia, run_get_bind, hc]
  split
  · next heq =>
    obtain ⟨rfl, rfl⟩ := List.cons.inj heq
    exact absurd ⟨rfl, .inl rfl⟩ hmark
  · next heq =>
    obtain ⟨rfl, rfl⟩ := List.cons.inj heq
    exact absurd ⟨rfl, .inr rfl⟩ hmark
  · next heq =>
    obtain ⟨rfl, rfl⟩ := List.cons.inj heq
    rfl
  · next heq => cases heq

theorem trivia_agrees (fuel fuel' : Nat) (newline : Bool) :
    Agrees source (Parts source) text (trivia fuel newline) (trivia fuel' newline) Eq := by
  induction fuel generalizing text fuel' newline with
  | zero => exact .stuck_left
  | succ fuel ih =>
    obtain - | fuel' := fuel'
    · exact .stuck_right
    fun_cases withReturns text with
    | case1 =>
      rw [trivia, trivia]
      refine .get_bind fun c c' hc hbeside => ?_
      rw [hbeside.rest, hc]
      exact .pure rfl
    | case2 rest =>
      intro c c' hc hbeside
      have hbetween := hbeside.between hc
      have hc' : c'.rest = '\r' :: '\n' :: withReturns rest := by rw [hbeside.rest, hc, withReturns]
      rw [trivia_run hc (by simp), trivia_run hc' (by simp)]
      obtain - | fuel' := fuel'
      · exact .parts (.inr (.inl rfl))
      change Meets source _ Eq ((trivia fuel true).run c.next) ((trivia (fuel' + 1) true).run c'.next)
      rw [trivia_run hbetween.rest (by simp)]
      exact ih _ _ _ _ rfl hbetween.beside
    | case3 a rest ha =>
      by_cases hmark : a = '/' ∧ (rest.head? = some '/' ∨ rest.head? = some '*')
      · rw [trivia, trivia]
        refine .get_bind fun c c' hc hbeside => ?_
        obtain ⟨rfl, hmark | hmark⟩ := hmark
        · obtain ⟨rest, rfl⟩ := List.head?_eq_some_iff.mp hmark
          rw [hbeside.rest, hc, withReturns_cons ha, withReturns_cons (by decide)]
          exact .takeWhile_bind rfl rfl fun _ => ih _ _
        · obtain ⟨rest, rfl⟩ := List.head?_eq_some_iff.mp hmark
          rw [hbeside.rest, hc, withReturns_cons ha, withReturns_cons (by decide)]
          refine .skip_bind ['/', '*'] (by decide) (.bound_bind fun n n' => ?_)
          refine (blockCommentRest_agrees hbeside.here n n' newline).bind_loop ?_
          rintro b _ rest rfl
          exact ih _ _
      · intro c c' hc hbeside
        have hc' : c'.rest = a :: withReturns rest := by rw [hbeside.rest, hc, withReturns_cons ha]
        rw [trivia_run hc hmark, trivia_run hc' ?_]
        · exact Agrees.ite (fun _ => .skip_one ha (ih _ _)) (fun _ => .ite (fun _ => .skip_one ha (ih _ _))
            fun _ => .pure rfl) c c' hc hbeside
        · rwa [head?_withReturns_iff (by decide) (by decide), head?_withReturns_iff (by decide) (by decide)]

/-! Templates. -/

def SameChunk (chunk chunk' : Chunk) : Prop :=
  chunk'.cooked = chunk.cooked ∧ SameLines chunk.raw.toList chunk'.raw.toList

theorem SameChunk.push {chunk chunk' : Chunk} (h : SameChunk chunk chunk') {c : Char} (hc : c ≠ '\r') :
    SameChunk (chunk.push c) (chunk'.push c) := by
  refine ⟨by rw [Chunk.push, Chunk.push, h.1], ?_⟩
  rw [Chunk.push, Chunk.push, String.toList_push, String.toList_push]
  exact h.2.append (.plain hc .nil)

theorem SameChunk.finish {chunk chunk' : Chunk} (h : SameChunk chunk chunk') :
    chunk'.finish.withLineFeeds = chunk.finish.withLineFeeds := by
  rw [Chunk.finish, Chunk.finish, TemplateChunk.withLineFeeds, TemplateChunk.withLineFeeds, h.1,
    h.2.withLineFeeds_eq, h.2.left.withLineFeeds_eq]

theorem Forward.eaten {α : Type} {x : Scan α} (hx : Forward x) {c : Cursor} {cs : List Char}
    (hc : ∃ i, c = .after cs i) : ∃ eaten, c.rest = eaten ++ (x.run c).2.rest := by
  obtain ⟨i, rfl⟩ := hc
  rw [← Cursor.after_min]
  obtain ⟨j, hij, hj, hstop, -⟩ := hx cs (min i cs.length) (Nat.min_le_right _ _)
  rw [hstop, Cursor.rest_after, Cursor.rest_after]
  obtain ⟨k, rfl⟩ := Nat.exists_eq_add_of_le hij
  exact ⟨(cs.drop (min i cs.length)).take k, by rw [← List.drop_drop, List.take_append_drop]⟩

theorem escape_eaten {c : Cursor} {cs : List Char} (hplace : ∃ i, c = .after cs i) (hc : c.rest = '\\' :: rest) :
    ∃ eaten, rest = eaten ++ ((escape c.here).run (c.skip 1)).2.rest ∧
      c.rest.take (c.rest.length - ((escape c.here).run (c.skip 1)).2.rest.length) = '\\' :: eaten := by
  obtain ⟨eaten, heaten⟩ := (escape_forward c.here).eaten (c.place_next hplace)
  have hrest : rest = eaten ++ ((escape c.here).run (c.skip 1)).2.rest := by
    rw [Cursor.rest_next, hc, List.tail_cons] at heaten
    exact heaten
  refine ⟨eaten, hrest, ?_⟩
  rw [hc, hrest, ← List.cons_append, List.length_append, Nat.add_sub_cancel, List.take_left]

theorem chunkEscape_meets {c c' : Cursor} {chunk chunk' : Chunk} (hbeside : Beside source c c')
    (hc : c.rest = '\\' :: rest) (hchunk : SameChunk chunk chunk') : ∃ next next' d d',
      (chunkEscape chunk).run c = (.ok next, d) ∧ (chunkEscape chunk').run c' = (.ok next', d') ∧
        (Beside source d d' ∧ SameChunk next next' ∨ Between source d d' ∧ SameChunk next (next'.push '\n')) := by
  have hc' : c'.rest = '\\' :: withReturns rest := by rw [hbeside.rest, hc, withReturns_cons (by decide)]
  have hmeets : Meets source Never Eq ((escape c.here).run (c.skip 1)) ((escape c'.here).run (c'.skip 1)) :=
    escape_agrees hbeside.here _ _ rfl (hbeside.next hc (by decide))
  obtain ⟨eaten, hrest, hraw⟩ := escape_eaten hbeside.place hc
  obtain ⟨eaten', hrest', hraw'⟩ := escape_eaten hbeside.place' hc'
  have hread := chunkEscape_eq chunk c
  have hread' := chunkEscape_eq chunk' c'
  dsimp only at hread hread'
  rw [hraw] at hread
  rw [hraw'] at hread'
  refine ⟨_, _, _, _, hread, hread', ?_⟩
  have hsplit := congrArg withReturns hrest
  rw [withReturns_append, hrest'] at hsplit
  have hplain : '\r' ∉ eaten := fun hmem => hbeside.noReturn (by rw [hc, hrest]; simp [hmem])
  generalize (escape c.here).run (c.skip 1) = read at hmeets hsplit
  generalize (escape c'.here).run (c'.skip 1) = read' at hmeets hsplit
  have hlines : SameLines (chunk.raw.toList ++ '\\' :: eaten) (chunk'.raw.toList ++ '\\' :: withReturns eaten) :=
    hchunk.2.append (.plain (by decide) (.of_withReturns hplain))
  have hbesides (h : Beside source read.2 read'.2) : SameLines (chunk.raw ++ String.ofList ('\\' :: eaten)).toList
      (chunk'.raw ++ String.ofList ('\\' :: eaten')).toList := by
    rw [h.rest, List.append_left_inj] at hsplit
    simpa [hsplit] using hlines
  cases hmeets with
  | ok hQ h =>
    subst hQ
    refine .inl ⟨h, ?_, hbesides h⟩
    dsimp only
    rw [hchunk.1]
  | error h =>
    obtain h | h := h
    · exact .inl ⟨h, rfl, hbesides h⟩
    · -- The line feed behind the carriage return is read as a character of the template.
      refine .inr ⟨h, rfl, ?_⟩
      rw [h.rest, List.append_cons, List.append_left_inj] at hsplit
      simpa [Chunk.push, ← hsplit] using hlines
  | parts h => exact h.elim

def SameTemplate (r r' : List TemplateChunk × List (List Lexeme)) : Prop :=
  r'.1.map TemplateChunk.withLineFeeds = r.1.map TemplateChunk.withLineFeeds ∧
    r'.2.map (·.map Lexeme.unplaced) = r.2.map (·.map Lexeme.unplaced)

def SameFound (r r' : List Lexeme × Bool) : Prop :=
  r'.1.map Lexeme.unplaced = r.1.map Lexeme.unplaced ∧ r'.2 = r.2

section Steps
variable {fuel : Nat} {chunk chunk' : Chunk} {chunks chunks' : List TemplateChunk}
  {substitutions substitutions' : List (List Lexeme)}

theorem template_run {c : Cursor} {a : Char} (hc : c.rest = a :: rest) (hmark : a ∉ ['`', '\\', '\r'])
    (hopen : ¬ (a = '$' ∧ rest.head? = some '{')) :
    (template start (fuel + 1) chunk chunks substitutions).run c =
      (template start fuel (chunk.push a) chunks substitutions).run c.next := by
  rw [template, run_get_bind, hc]
  split
  · next heq => cases heq
  · next heq =>
    obtain ⟨rfl, rfl⟩ := List.cons.inj heq
    exact absurd (by decide) hmark
  · next heq =>
    obtain ⟨rfl, rfl⟩ := List.cons.inj heq
    exact absurd ⟨rfl, rfl⟩ hopen
  · next heq =>
    obtain ⟨rfl, rfl⟩ := List.cons.inj heq
    exact absurd (by decide) hmark
  · next heq =>
    obtain ⟨rfl, rfl⟩ := List.cons.inj heq
    exact absurd (by decide) hmark
  · next heq =>
    obtain ⟨rfl, rfl⟩ := List.cons.inj heq
    rfl

theorem template_step_agrees (hstart : SamePlace start start') (fuel' : Nat)
    (htokens : ∀ fuel' text, Agrees source (Parts source) text (tokens true fuel 0 false [])
      (tokens true fuel' 0 false []) SameFound)
    (htemplate : ∀ fuel' text chunk chunk' chunks chunks' substitutions substitutions', SameChunk chunk chunk' →
      SameTemplate (chunks, substitutions) (chunks', substitutions') →
        Agrees source (Parts source) text (template start fuel chunk chunks substitutions)
          (template start' fuel' chunk' chunks' substitutions') SameTemplate)
    (hchunk : SameChunk chunk chunk') (hbefore : SameTemplate (chunks, substitutions) (chunks', substitutions')) :
    Agrees source (Parts source) text (template start (fuel + 1) chunk chunks substitutions)
      (template start' (fuel' + 1) chunk' chunks' substitutions') SameTemplate := by
  have hchunks : (chunk'.finish :: chunks').map TemplateChunk.withLineFeeds =
      (chunk.finish :: chunks).map TemplateChunk.withLineFeeds := by
    rw [List.map_cons, List.map_cons, hchunk.finish, hbefore.1]
  by_cases hplain : ∃ a rest, text = a :: rest ∧ a ∉ ['`', '\\', '\r', '\n'] ∧ ¬ (a = '$' ∧ rest.head? = some '{')
  · obtain ⟨a, rest, rfl, hmark, hopen⟩ := hplain
    simp only [List.mem_cons, List.not_mem_nil, or_false, not_or] at hmark
    intro c c' hc hbeside
    have hc' : c'.rest = a :: withReturns rest := by rw [hbeside.rest, hc, withReturns_cons hmark.2.2.2]
    rw [template_run hc (by simp [hmark]) hopen, template_run hc' (by simp [hmark]) ?_]
    · have hnext := htemplate fuel' rest _ _ _ _ _ _ (hchunk.push hmark.2.2.1) hbefore
      exact hnext c.next c'.next (by rw [Cursor.rest_next, hc, List.tail_cons]) (hbeside.next hc hmark.2.2.2)
    · rwa [head?_withReturns_iff (by decide) (by decide)]
  · rw [template, template]
    refine .get_bind fun c c' hc hbeside => ?_
    rw [hbeside.rest, hc]
    split
    · exact .fail hstart
    · next rest =>
      rw [withReturns_cons (by decide)]
      refine .skip_one (by decide) (.pure ⟨?_, ?_⟩)
      · rw [List.map_reverse, List.map_reverse, hchunks]
      · rw [List.map_reverse, List.map_reverse, hbefore.2]
    · next rest =>
      rw [withReturns_cons (by decide), withReturns_cons (by decide)]
      refine .skip_bind ['$', '{'] (by decide) ((htokens _ _).bind_loop fun r r' rest hr => ?_)
      refine htemplate _ _ _ _ _ _ _ _ ⟨rfl, .nil⟩ ⟨hchunks, ?_⟩
      rw [List.map_cons, List.map_cons, hr.1, hbefore.2]
    · next rest =>
      rw [withReturns_cons (by decide)]
      intro d d' hd hbeside
      obtain ⟨next, next', e, e', hread, hread', hmeets⟩ := chunkEscape_meets hbeside hd hchunk
      change Meets source _ SameTemplate
        ((chunkEscape chunk >>= fun next => template start fuel next chunks substitutions).run d)
        ((chunkEscape chunk' >>= fun next => template start' fuel' next chunks' substitutions').run d')
      rw [run_bind, run_bind, hread, hread']
      obtain ⟨hbeside, hnext⟩ | ⟨hbetween, hnext⟩ := hmeets
      · exact htemplate _ _ _ _ _ _ _ _ hnext hbefore e e' rfl hbeside
      · obtain - | fuel' := fuel'
        · exact .parts (.inr (.inl rfl))
        · dsimp only
          rw [template_run hbetween.rest (by decide) (by simp)]
          exact htemplate _ _ _ _ _ _ _ _ hnext hbefore e e'.next rfl hbetween.beside
    · exact .noReturn fun hreturn => absurd (List.mem_cons_self ..) hreturn
    · next a rest hclose hopen hback hreturn =>
      have ha : a = '\n' := by
        by_contra hne
        refine hplain ⟨a, rest, rfl, ?_, ?_⟩
        · simp only [List.mem_cons, List.not_mem_nil, or_false]
          rintro (h | h | h | h)
          · exact hclose h
          · exact hback h
          · exact hreturn h
          · exact hne h
        · rintro ⟨ha, hrest⟩
          obtain ⟨tail, rfl⟩ := List.head?_eq_some_iff.mp hrest
          exact hopen tail ha rfl
      subst ha
      exact .skip_feed (htemplate _ _ _ _ _ _ _ _ (hchunk.push (by decide)) hbefore)

theorem tokens_step_agrees (inTemplate : Bool) (fuel' depth : Nat) (newline : Bool) {before before' : List Lexeme}
    (htokens : ∀ fuel' text depth before before', before'.map Lexeme.unplaced = before.map Lexeme.unplaced →
      Agrees source (Parts source) text (tokens inTemplate fuel depth false before)
        (tokens inTemplate fuel' depth false before') SameFound)
    (htemplate : ∀ fuel' text start start', SamePlace start start' → Agrees source (Parts source) text
      (template start fuel {} [] []) (template start' fuel' {} [] []) SameTemplate)
    (hbefore : before'.map Lexeme.unplaced = before.map Lexeme.unplaced) :
    Agrees source (Parts source) text (tokens inTemplate (fuel + 1) depth newline before)
      (tokens inTemplate (fuel' + 1) depth newline before') SameFound := by
  rw [tokens, tokens]
  refine .bound_bind fun n n' => (trivia_agrees n n' newline).bind_loop ?_
  rintro newline _ text rfl
  refine .get_bind fun c c' hc hbeside => ?_
  have hpeek : c.peek = text.head? := congrArg List.head? hc
  have hpeek' : c'.peek = (withReturns text).head? := by rw [Cursor.peek, hbeside.rest, hc]
  rw [hpeek, hpeek']
  have hfound : SameFound (before.reverse, newline) (before'.reverse, newline) :=
    ⟨by rw [List.map_reverse, List.map_reverse, hbefore], rfl⟩
  -- What is left to do once a token was read.
  have hnext {token token' : Token} (htoken : token'.unplaced = token.unplaced) (depth : Nat) (rest : List Char) :
      Agrees source (Parts source) rest
        (do
          let stop ← get
          tokens inTemplate fuel depth false (Lexeme.mk token (c.spanTo stop) newline :: before))
        (do
          let stop ← get
          tokens inTemplate fuel' depth false (Lexeme.mk token' (c'.spanTo stop) newline :: before')) SameFound := by
    refine .get_bind fun d d' _ _ => htokens _ _ _ _ _ ?_
    rw [List.map_cons, List.map_cons, hbefore, Lexeme.unplaced, Lexeme.unplaced, htoken, Cursor.spanTo,
      Cursor.spanTo, hbeside.line, hbeside.column]
  have hpunctuator (rest : List Char) : Agrees source (Parts source) rest
      (do
        let p ← punctuator
        let depth := if p = .lBrace then depth + 1 else if p = .rBrace then depth - 1 else depth
        let stop ← get
        tokens inTemplate fuel depth false (Lexeme.mk (.punctuator p) (c.spanTo stop) newline :: before))
      (do
        let p ← punctuator
        let depth := if p = .lBrace then depth + 1 else if p = .rBrace then depth - 1 else depth
        let stop ← get
        tokens inTemplate fuel' depth false (Lexeme.mk (.punctuator p) (c'.spanTo stop) newline :: before')) SameFound := by
    refine punctuator_agrees.bind ?_
    rintro p _ rest rfl
    exact hnext rfl _ _
  fun_cases withReturns text with
  | case1 => exact .ite (fun _ => .fail_bind hbeside.here) fun _ => .pure hfound
  | case2 rest =>
    -- No token starts with the end of a line.
    have hstart : isNameStart '\n' = false ∧ isNameStart '\r' = false := by decide
    refine .neither (by simp) (by simp) (.peekAt_bind fun next next' => ?_)
    refine .neither (by simp [hstart]) (by simp [hstart]) (.neither (by simp) (by simp) ?_)
    refine .neither (by simp) (by simp) (.neither (by simp) (by simp) ?_)
    exact .neither (by simp) (by simp) (.neither (by simp) (by simp) (hpunctuator _))
  | case3 a rest ha =>
    have hfollow : regExpMayFollow (before'.head?.map Lexeme.token) =
        regExpMayFollow (before.head?.map Lexeme.token) := by
      rw [← regExpMayFollow_unplaced, ← List.head?_map, hbefore, List.head?_map, regExpMayFollow_unplaced]
    refine .ite (fun _ => .skip_one ha (.pure hfound)) fun _ => .peekAt_one ha ?_
    refine .ite (fun _ => ?_) fun _ => .ite_iff ?_ (fun _ => ?_) fun _ => .ite (fun h => ?_) fun _ =>
      .ite (fun _ => ?_) fun _ => .ite (fun h => ?_) fun _ => .ite_iff ?_ (fun h => ?_) fun _ => hpunctuator _
    · refine name_agrees.bind_loop ?_
      rintro name _ rest rfl
      exact hnext rfl _ _
    · rw [any_head?_withReturns rfl rfl]
    · refine number_agrees.bind ?_
      rintro token _ rest rfl
      exact hnext rfl _ _
    · have hquote : a ≠ '\r' := by
        rintro rfl
        exact absurd h (by decide)
      refine (string_agrees ha hquote).bind_loop ?_
      rintro token _ rest rfl
      exact hnext rfl _ _
    · refine .skip_one ha ((htemplate _ _ _ _ hbeside.here).bind_loop fun r r' rest hr => hnext ?_ _ _)
      rw [Token.unplaced, Token.unplaced, unplacedSubstitutions_eq_map, unplacedSubstitutions_eq_map, hr.1, hr.2]
    · obtain rfl := beq_iff_eq.mp h
      refine privateName_agrees.bind_loop ?_
      rintro token _ rest rfl
      exact hnext rfl _ _
    · rw [hfollow]
    · obtain rfl := beq_iff_eq.mp (Bool.and_eq_true_iff.mp h).1
      refine regExp_agrees.bind_loop ?_
      rintro token _ rest rfl
      exact hnext rfl _ _

theorem tokens_agrees (fuel : Nat) :
    (∀ fuel' text inTemplate depth before before', before'.map Lexeme.unplaced = before.map Lexeme.unplaced →
      Agrees source (Parts source) text (tokens inTemplate fuel depth false before)
        (tokens inTemplate fuel' depth false before') SameFound) ∧
    ∀ fuel' text start start' chunk chunk' chunks chunks' substitutions substitutions', SamePlace start start' →
      SameChunk chunk chunk' → SameTemplate (chunks, substitutions) (chunks', substitutions') →
        Agrees source (Parts source) text (template start fuel chunk chunks substitutions)
          (template start' fuel' chunk' chunks' substitutions') SameTemplate := by
  induction fuel with
  | zero =>
    refine ⟨fun fuel' text inTemplate depth before before' _ => ?_, ?_⟩
    · rw [tokens]
      exact .stuck_left
    · intros
      rw [template]
      exact .stuck_left
  | succ fuel ih =>
    obtain ⟨htokens, htemplate⟩ := ih
    refine ⟨fun fuel' text inTemplate depth before before' hbefore => ?_, ?_⟩
    · obtain - | fuel' := fuel'
      · have hstuck : tokens inTemplate 0 depth false before' = stuck := by rw [tokens]
        rw [hstuck]
        exact .stuck_right
      · exact tokens_step_agrees inTemplate fuel' depth false (fun fuel' text => htokens fuel' text inTemplate)
          (fun fuel' text start start' hstart => htemplate _ _ _ _ _ _ _ _ _ _ hstart ⟨rfl, .nil⟩ ⟨rfl, rfl⟩) hbefore
    · intro fuel' text start start' chunk chunk' chunks chunks' substitutions substitutions' hstart hchunk hbefore
      obtain - | fuel' := fuel'
      · have hstuck : template start' 0 chunk' chunks' substitutions' = stuck := by rw [template]
        rw [hstuck]
        exact .stuck_right
      · exact template_step_agrees hstart fuel' (fun fuel' text => htokens fuel' text true 0 [] [] rfl)
          (fun fuel' text chunk chunk' chunks chunks' substitutions substitutions' =>
            htemplate fuel' text start start' chunk chunk' chunks chunks' substitutions substitutions' hstart)
          hchunk hbefore

theorem script_agrees : Agrees source (Parts source) text script script
    fun ls ls' => ls'.map Lexeme.unplaced = ls.map Lexeme.unplaced := by
  have hrest (text : List Char) : Agrees source (Parts source) text
      (do
        let r ← tokens false (← bound) 0 false []
        return r.1 ++ [Lexeme.mk .endOfInput (← here) r.2])
      (do
        let r ← tokens false (← bound) 0 false []
        return r.1 ++ [Lexeme.mk .endOfInput (← here) r.2])
      fun ls ls' => ls'.map Lexeme.unplaced = ls.map Lexeme.unplaced := by
    refine .bound_bind fun n n' => ((tokens_agrees n).1 n' text false 0 [] [] rfl).bind_loop ?_
    rintro ⟨found, newline⟩ ⟨found', newline'⟩ rest ⟨hfound, rfl⟩
    refine .here_bind fun span span' hspan => .pure ?_
    simp only [List.map_append, List.map_cons, List.map_nil, Lexeme.unplaced, Token.unplaced, hspan.1, hspan.2]
    rw [hfound]
  refine .get_bind fun c c' hc hbeside => ?_
  rw [hbeside.rest, hc]
  split
  · rw [withReturns_cons (by decide), withReturns_cons (by decide)]
    exact .takeWhile_bind rfl rfl hrest
  · next hother =>
    split
    · next heq =>
      obtain ⟨rest, rfl, hmark⟩ := withReturns_eq_cons heq (by decide)
      obtain ⟨rest, rfl, -⟩ := withReturns_eq_cons hmark (by decide)
      exact absurd rfl (hother rest)
    · exact hrest text

end Steps
end Scan

/-- Where every line feed of a text gets a carriage return before it, the tokens stay the same apart from
bytes, and so does the fault if there is one, unless the longer text is refused for a regular expression that
holds a line feed in the shorter one. -/
theorem tokenize_withReturns {source : String} (hplain : '\r' ∉ source.toList) :
    (tokenize (String.ofList (withReturns source.toList))).map (·.map Lexeme.unplaced) =
        (tokenize source).map (·.map Lexeme.unplaced) ∨
      ∃ e, tokenize (String.ofList (withReturns source.toList)) = .error e ∧ Scan.Refuses source.toList e := by
  have hmeets := Scan.script_agrees (Cursor.start source)
    (Cursor.start (String.ofList (withReturns source.toList))) rfl (Beside.start hplain)
  have hstuck := tokenize_ne_stuck source
  have hstuck' := tokenize_ne_stuck (String.ofList (withReturns source.toList))
  unfold tokenize at hstuck hstuck' ⊢
  generalize Scan.script.run (Cursor.start source) = r at hmeets hstuck ⊢
  generalize Scan.script.run (Cursor.start (String.ofList (withReturns source.toList))) = r' at hmeets hstuck' ⊢
  cases hmeets with
  | ok hsame => exact .inl (congrArg Except.ok hsame)
  | error => exact .inl rfl
  | parts h =>
    obtain h | h | ⟨e, h, hsame | hrefuses⟩ := h
    · exact absurd h hstuck
    · exact absurd h hstuck'
    · exact .inl (by rw [h, hsame])
    · exact .inr ⟨e, h, hrefuses⟩

/-- A regular expression takes an escaped line feed, but not both characters of an escaped line end. -/
example : (tokenize "/\\\n/").map (·.map Lexeme.token) = .ok [.regExp "\\\n" "", .endOfInput] ∧
    tokenize "/\\\r\n/" = .error (.at ⟨0, 0, 1, 1⟩ .unterminatedRegExp) := by
  constructor <;> cbv

end EcmaScript

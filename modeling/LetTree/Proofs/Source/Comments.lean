import LetTree.Proofs.Result
import LetTree.Proofs.Source.Composition
import LetTree.Proofs.Token.Layout

/-!
# Block comments

Where reading comes to the opening of a block comment, it passes over the text up to the first
close after it, whatever stands between. An opening without a close is read as the operators `/` and
`*`, one right after the other, and the grammar has no place for that: a source with such an opening
is refused when it is read into tokens or when they are read as a program.
-/

namespace LetTree

namespace Lexical

/-! ### Places -/

/-- Reading a text from the byte `offset` on comes to the byte `place`, where `last` is left, and
    has found the tokens `ts` on the way: each time the longest text of any class is taken. -/
inductive Arrives : Nat → List Char → List Token.Placed → Nat → List Char → Prop where
  | here {offset : Nat} {cs : List Char} : Arrives offset cs [] offset cs
  | skip {offset place : Nat} {text rest last : List Char} {ts : List Token.Placed}
      {lexeme : Lexeme} (h : Lexeme.longest (text ++ rest) = some (lexeme, text.length))
      (hread : lexeme.read text = .skip)
      (hrest : Arrives (offset + Text.bytes text) rest ts place last) :
      Arrives offset (text ++ rest) ts place last
  | token {offset place : Nat} {text rest last : List Char} {ts : List Token.Placed}
      {lexeme : Lexeme} {t : Token}
      (h : Lexeme.longest (text ++ rest) = some (lexeme, text.length))
      (hread : lexeme.read text = .token t)
      (hrest : Arrives (offset + Text.bytes text) rest ts place last) :
      Arrives offset (text ++ rest) (⟨t, ⟨offset, offset + Text.bytes text⟩⟩ :: ts) place last

/-- The text that is taken where reading goes on. -/
theorem munch_of_longest_append {text rest : List Char} {lexeme : Lexeme}
    (h : Lexeme.longest (text ++ rest) = some (lexeme, text.length)) :
    Munch (text ++ rest) text rest ∧ Reads text (lexeme.read text) := by
  have hmunch := Lexeme.munch_of_longest h
  rwa [List.take_left, List.drop_left] at hmunch

namespace Arrives

variable {offset place : Nat} {cs last : List Char} {ts : List Token.Placed}

/-- Reading goes on from a place with what was found before it. -/
theorem lexFrom_eq (h : Arrives offset cs ts place last) :
    Token.lexFrom offset cs = (Token.lexFrom place last).map (ts ++ ·) := by
  induction h with
  | @here offset cs => cases Token.lexFrom offset cs <;> rfl
  | skip hlongest hread _ ih =>
    obtain ⟨hmunch, hreads⟩ := munch_of_longest_append hlongest
    rw [hread] at hreads
    rw [Token.lexFrom_munch hmunch hreads]
    exact ih
  | @token offset place text rest last ts lexeme t hlongest hread _ ih =>
    obtain ⟨hmunch, hreads⟩ := munch_of_longest_append hlongest
    rw [hread] at hreads
    rw [Token.lexFrom_munch hmunch hreads, ih]
    cases Token.lexFrom place last <;> rfl

theorem trans {place' : Nat} {last' : List Char} {us : List Token.Placed}
    (h : Arrives offset cs ts place last) (h' : Arrives place last us place' last') :
    Arrives offset cs (ts ++ us) place' last' := by
  induction h with
  | here => exact h'
  | skip hlongest hread _ ih => exact .skip hlongest hread (ih h')
  | token hlongest hread _ ih => exact .token hlongest hread (ih h')

end Arrives

/-- A text that is read into tokens is read to its end. -/
theorem arrives_of_lexFrom (cs : List Char) :
    ∀ offset ts, Token.lexFrom offset cs = .ok ts →
      Arrives offset cs ts (offset + Text.bytes cs) [] := by
  induction cs using munch_induction with
  | nil =>
    intro offset ts h
    rw [Token.lexFrom_nil] at h
    cases h
    exact .here
  | munch cs text rest r hmunch hread ih =>
    intro offset ts h
    rw [Token.lexFrom_munch hmunch hread] at h
    obtain ⟨lexeme, hall, hmatch, rfl⟩ := Lexeme.reads_iff.mp hread
    have hlongest := longest_of_munch hmunch hall hmatch
    obtain rfl := hmunch.split
    rw [Text.bytes_append, ← Nat.add_assoc]
    cases hmeaning : lexeme.read text with
    | skip =>
      rw [hmeaning] at h
      exact .skip hlongest hmeaning (ih _ _ h)
    | token t =>
      rw [hmeaning] at h
      obtain ⟨us, hus, rfl⟩ := Result.map_eq_ok_iff.mp h
      exact .token hlongest hmeaning (ih _ _ hus)
    | outOfRange =>
      rw [hmeaning] at h
      cases h
  | stuck cs text hstuck hfault =>
    intro offset ts h
    rw [Token.lexFrom_stuck hstuck hfault] at h
    cases h

/-! ### The first close -/

/-- The first `*/` of a text comes after `body`, and `later` after it. -/
structure FirstClose (cs body later : List Char) : Prop where
  split : cs = body ++ '*' :: '/' :: later
  first : ∀ as bs, cs = as ++ '*' :: '/' :: bs → body.length ≤ as.length

variable {cs body later : List Char}

theorem FirstClose.tail {c : Char} (h : FirstClose (c :: cs) (c :: body) later) :
    FirstClose cs body later := by
  refine ⟨List.tail_eq_of_cons_eq h.split, ?_⟩
  rintro as bs rfl
  have hle := h.first (c :: as) bs rfl
  exact Nat.le_of_succ_le_succ hle

theorem exists_firstClose (h : ['*', '/'] <:+: cs) :
    ∃ body later, FirstClose cs body later := by
  induction cs with
  | nil => simp at h
  | cons c cs ih =>
    by_cases hbegins : ['*', '/'] <+: c :: cs
    · obtain ⟨later, hlater⟩ := hbegins
      exact ⟨[], later, hlater.symm, fun _ _ _ => Nat.zero_le _⟩
    · obtain ⟨body, later, hclose⟩ := ih ((List.infix_cons_iff.mp h).resolve_left hbegins)
      refine ⟨c :: body, later, congrArg (c :: ·) hclose.split, ?_⟩
      intro as bs hsplit
      cases as with
      | nil => exact absurd ⟨bs, hsplit.symm⟩ hbegins
      | cons a as =>
        have hle := hclose.first as bs (List.tail_eq_of_cons_eq hsplit)
        exact Nat.succ_le_succ hle

theorem FirstClose.commentExtent? (h : FirstClose cs body later) :
    commentExtent? cs = some (body.length + 2) := by
  induction body generalizing cs with
  | nil =>
    rw [h.split]
    rfl
  | cons c body ih =>
    obtain ⟨rest, rfl⟩ : ∃ rest, cs = c :: rest := ⟨_, h.split⟩
    have hopen : c = '*' → rest.head? ≠ some '/' := by
      rintro rfl hhead
      obtain ⟨bs, rfl⟩ := List.head?_eq_some_iff.mp hhead
      exact absurd (h.first [] bs rfl) (by simp)
    rw [commentExtent?_cons hopen, ih h.tail]
    rfl

theorem infix_of_commentExtent? {n : Nat} (h : commentExtent? cs = some n) :
    ['*', '/'] <:+: cs := by
  fun_induction commentExtent? cs generalizing n with
  | case1 => cases h
  | case2 cs => exact (List.prefix_append ['*', '/'] cs).isInfix
  | case3 c cs _ ih =>
    obtain ⟨m, hm, -⟩ := Option.map_eq_some_iff.mp h
    exact List.infix_cons (ih hm)

/-- The text of a block comment: from its opening to its close. -/
def commentText (body : List Char) : List Char := '/' :: '*' :: (body ++ ['*', '/'])

theorem FirstClose.matches_commentText (h : FirstClose cs body later) :
    blockComment.Matches (commentText body) := by
  obtain ⟨t, v, hsplit, hlength, ht⟩ := (commentTail_of_commentExtent? cs).1 _ h.commentExtent?
  have hsame : body ++ ['*', '/'] ++ later = t ++ v := by
    rw [List.append_assoc, ← hsplit]
    exact h.split.symm
  have htext : body ++ ['*', '/'] = t := List.append_inj_left hsame (by simp [hlength])
  exact Lexeme.matches_exactly_seq_iff.mpr ⟨t, ht, by rw [commentText, htext]; rfl⟩

theorem FirstClose.split_open (h : FirstClose cs body later) :
    '/' :: '*' :: cs = commentText body ++ later := by
  rw [h.split]
  simp [commentText]

/-- The longest text at the opening of a comment is the comment. -/
theorem FirstClose.longest (h : FirstClose cs body later) :
    Lexeme.longest ('/' :: '*' :: cs) = some (.blockComment, (commentText body).length) := by
  have hmunch := munch_blockComment h.matches_commentText later
  rw [h.split_open]
  exact longest_of_munch hmunch (by decide) h.matches_commentText

theorem FirstClose.arrives (h : FirstClose cs body later) (offset : Nat) :
    Arrives offset ('/' :: '*' :: cs) [] (offset + Text.bytes (commentText body)) later := by
  have hlongest := h.longest
  rw [h.split_open] at hlongest ⊢
  exact .skip hlongest rfl .here

/-! ### An opening without a close -/

/-- The slash of an opening without a close is read by itself. -/
theorem munch_slash {rest : List Char} (h : ¬ ['*', '/'] <:+: rest) :
    Munch ('/' :: '*' :: rest) ['/'] ('*' :: rest) := by
  refine ⟨rfl, List.cons_ne_nil _ _,
    ⟨_, .operator (Lexeme.matches_operator_iff.mpr ⟨.div, by decide, rfl⟩)⟩, ?_⟩
  intro other hother hdecl
  rcases other with - | ⟨c, - | ⟨d, t⟩⟩
  · exact Nat.zero_le 1
  · exact Nat.le_refl 1
  · obtain ⟨rfl, htail⟩ := List.cons_prefix_cons.mp hother
    obtain ⟨rfl, v, rfl⟩ := List.cons_prefix_cons.mp htail
    obtain ⟨u, hu, heq⟩ :=
      Lexeme.matches_exactly_seq_iff.mp (blockComment_of_declared hdecl)
    obtain rfl : t = u := by simpa using heq
    exact absurd (infix_of_commentExtent? (commentExtent?_of_commentTail hu v)) h

/-- The two tokens of an opening without a close. -/
def openTokens (offset : Nat) : List Token.Placed :=
  [⟨.operator "/", ⟨offset, offset + 1⟩⟩, ⟨.operator "*", ⟨offset + 1, offset + 2⟩⟩]

theorem arrives_open {rest : List Char} (h : ¬ ['*', '/'] <:+: rest) (offset : Nat) :
    Arrives offset ('/' :: '*' :: rest) (openTokens offset) (offset + 2) rest := by
  have hslash : Lexeme.longest ('/' :: '*' :: rest) = some (.symbol "/" (.operator "/"), 1) :=
    longest_of_munch (munch_slash h) (by decide +kernel) .exactly
  have hstar : Lexeme.longest ('*' :: rest) = some (.symbol "*" (.operator "*"), 1) :=
    longest_of_munch (Token.munch_star rest) (by decide +kernel) .exactly
  have hsecond : Arrives (offset + 1) (['*'] ++ rest)
      [⟨.operator "*", ⟨offset + 1, offset + 2⟩⟩] (offset + 2) rest := .token hstar rfl .here
  have hfirst : Arrives offset (['/'] ++ '*' :: rest) (openTokens offset) (offset + 2) rest :=
    .token hslash rfl hsecond
  exact hfirst

end Lexical

open Lexical

/-- Tokens in which `/` and `*` meet are those of no program. -/
theorem parse_of_meet {tokens : List Token.Placed}
    (h : [.operator "/", .operator "*"] <:+: tokens.map Token.Placed.token) (limit : Nat) :
    ∃ e, parse limit tokens = .error e := by
  cases hparse : parse limit tokens with
  | ok root => exact absurd h (sentence_of_parse hparse).unopened.not_meet
  | error e => exact ⟨e, rfl⟩

/-- How the opening of a block comment is read at a place to which reading a source comes. -/
structure CommentExact (source : String) (ts : List Token.Placed) (offset : Nat)
    (rest : List Char) : Prop where
  /-- If there is a close, there is a first one. -/
  closes : ['*', '/'] <:+: rest → ∃ body later, FirstClose rest body later
  /-- The text up to the first close is passed over, and no more. -/
  closed : ∀ body later, FirstClose rest body later →
    Lexeme.longest ('/' :: '*' :: rest) = some (.blockComment, (commentText body).length) ∧
      Arrives 0 source.toList ts (offset + Text.bytes (commentText body)) later
  /-- Without a close, the opening is read as two operators. -/
  unclosed : ¬ ['*', '/'] <:+: rest →
    Arrives 0 source.toList (ts ++ openTokens offset) (offset + 2) rest
  /-- Without a close, the source is no program. -/
  refused : ¬ ['*', '/'] <:+: rest → ∀ tokens, Token.lex source = .ok tokens →
    ∀ limit, ∃ e, parse limit tokens = .error e

theorem commentExact {source : String} {ts : List Token.Placed} {offset : Nat} {rest : List Char}
    (h : Arrives 0 source.toList ts offset ('/' :: '*' :: rest)) :
    CommentExact source ts offset rest where
  closes := exists_firstClose
  closed body later hclose := by
    have hskip := h.trans (hclose.arrives offset)
    rw [List.append_nil] at hskip
    exact ⟨hclose.longest, hskip⟩
  unclosed hopen := h.trans (arrives_open hopen offset)
  refused hopen tokens htokens limit := by
    have hlex := (h.trans (arrives_open hopen offset)).lexFrom_eq
    rw [← Token.lex, htokens] at hlex
    obtain ⟨us, -, rfl⟩ := Result.map_eq_ok_iff.mp hlex.symm
    refine parse_of_meet ⟨ts.map Token.Placed.token, us.map Token.Placed.token, ?_⟩ limit
    simp [openTokens]

/-- **Block comments end at their first close.**  Reading a source goes on from each place it comes
    to with the tokens found before, up to the end if it does not fail. Where it comes to the
    opening of a block comment, exactly the text up to the end of the first close after the opening
    is passed over. If there is no close, the opening is read as the operators `/` and `*`, and then
    the source cannot be read into tokens, or at every limit the tokens are refused. -/
theorem block_comments_exact (source : String) :
    (∀ ts offset last, Arrives 0 source.toList ts offset last →
      Token.lex source = (Token.lexFrom offset last).map (ts ++ ·)) ∧
    (∀ ts, Token.lex source = .ok ts →
      Arrives 0 source.toList ts (Text.bytes source.toList) []) ∧
    ∀ ts offset rest, Arrives 0 source.toList ts offset ('/' :: '*' :: rest) →
      CommentExact source ts offset rest := by
  refine ⟨fun _ _ _ h => h.lexFrom_eq, ?_, fun _ _ _ h => commentExact h⟩
  intro ts h
  have hend := arrives_of_lexFrom source.toList 0 ts h
  rwa [Nat.zero_add] at hend

/-- A comment with a quote, an opening slash and a run of stars ends at its first close. An opening
    that shares its star with a slash has no close: it gives tokens, and no limit admits them. -/
theorem block_comments_exact_star_runs :
    Arrives 0 "/*\"/***/1*/".toList [] 8 ['1', '*', '/'] ∧
    ∃ tokens, Token.lex "/*/" = .ok tokens ∧ tokens.length = 3 ∧
      ∀ limit, ∃ e, parse limit tokens = .error e := by
  constructor
  · have hexact := (block_comments_exact "/*\"/***/1*/").2.2 [] 0
      ['"', '/', '*', '*', '*', '/', '1', '*', '/'] .here
    refine (hexact.closed ['"', '/', '*', '*'] ['1', '*', '/'] ⟨rfl, ?_⟩).2
    intro as bs hsplit
    rcases as with - | ⟨a, - | ⟨b, - | ⟨c, - | ⟨d, as⟩⟩⟩⟩ <;> simp_all
  · obtain ⟨hlex, -, hexact⟩ := block_comments_exact "/*/"
    have hopen : ¬ ['*', '/'] <:+: ['/'] := by decide
    have hslash : Reads ['/'] (.token (.operator "/")) :=
      .operator (Lexeme.matches_operator_iff.mpr ⟨.div, by decide, rfl⟩)
    have hread := hlex _ _ _ ((hexact [] 0 ['/'] .here).unclosed hopen)
    rw [Token.lexFrom_munch (munch_whole hslash) hslash, Token.lexFrom_nil] at hread
    exact ⟨_, hread, rfl, (hexact [] 0 ['/'] .here).refused hopen _ hread⟩

end LetTree

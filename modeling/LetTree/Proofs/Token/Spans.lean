import LetTree.Proofs.Token.Munch

/-!
# Spans of tokens

A source that is read into tokens is a row of texts: something to skip, the text of a token,
something to skip, and so on to the end. `Laid` says this together with the byte offsets, and what
the spans of the tokens are follows from it: each covers the text of its token, they stand one after
the other, and only blanks and comments are left over. Where reading fails, the span of the error
covers the text at fault.
-/

namespace LetTree

namespace Text

/-- A byte offset that does not split a character of `source`. -/
def Boundary (source : List Char) (offset : Nat) : Prop :=
  ∃ before after, source = before ++ after ∧ offset = bytes before

theorem Boundary.le_bytes {source : List Char} {offset : Nat} (h : Boundary source offset) :
    offset ≤ bytes source := by
  obtain ⟨before, after, rfl, rfl⟩ := h
  rw [bytes_append]
  exact Nat.le_add_right _ _

theorem boundary_zero (source : List Char) : Boundary source 0 := ⟨[], source, rfl, rfl⟩

theorem bytes_pos {cs : List Char} (h : cs ≠ []) : 0 < bytes cs := by
  cases cs with
  | nil => exact absurd rfl h
  | cons c cs => exact Nat.lt_add_right _ c.utf8Size_pos

end Text

namespace Span

variable {source text : List Char} {s : Span}

/-- A span that lies in `source` and splits no character of it. -/
structure Sound (source : List Char) (s : Span) : Prop where
  ordered : s.start ≤ s.stop
  within : s.stop ≤ Text.bytes source
  start : Text.Boundary source s.start
  stop : Text.Boundary source s.stop

theorem sound_of_boundaries (hle : s.start ≤ s.stop) (hstart : Text.Boundary source s.start)
    (hstop : Text.Boundary source s.stop) : s.Sound source :=
  ⟨hle, hstop.le_bytes, hstart, hstop⟩

/-- The bytes of a span are those of `text`, at some place in `source`. -/
def Covers (source text : List Char) (s : Span) : Prop :=
  ∃ before after, source = before ++ text ++ after ∧
    s = ⟨Text.bytes before, Text.bytes before + Text.bytes text⟩

theorem Covers.sound (h : s.Covers source text) : s.Sound source := by
  obtain ⟨before, after, rfl, rfl⟩ := h
  refine sound_of_boundaries (Nat.le_add_right _ _) ⟨before, text ++ after, by simp, rfl⟩ ?_
  exact ⟨before ++ text, after, rfl, (Text.bytes_append before text).symm⟩

theorem Covers.slice (h : s.Covers source text) :
    Text.slice? s.start s.stop source = some text := by
  obtain ⟨before, after, rfl, rfl⟩ := h
  rw [Text.slice?, if_pos (Nat.le_add_right _ _), Nat.add_sub_cancel_left, List.append_assoc,
    Text.dropBytes?_bytes_append, Option.bind_some, Text.takeBytes?_bytes_append]

theorem Covers.start_lt_stop (h : s.Covers source text) (hne : text ≠ []) : s.start < s.stop := by
  obtain ⟨before, after, rfl, rfl⟩ := h
  exact Nat.lt_add_of_pos_right (Text.bytes_pos hne)

/-- What some spans leave over of the bytes from `start` up to `stop`: before the first of them,
    between neighbours and after the last. -/
def gaps (start : Nat) (spans : List Span) (stop : Nat) : List Span :=
  match spans with
  | [] => [⟨start, stop⟩]
  | s :: spans => ⟨start, s.start⟩ :: gaps s.stop spans stop

end Span

/-- An error comes from what follows a text, or is about the text itself. -/
theorem Token.onto_eq_error {offset : Nat} {text : List Char} {r : Reading}
    {others : Except LexError (List Token.Placed)} {e : LexError}
    (h : Token.onto offset text others r = .error e) :
    others = .error e ∨ r = .outOfRange ∧
      e = ⟨⟨offset, offset + Text.bytes text⟩, .outOfRange (String.ofList text)⟩ := by
  cases r with
  | skip => exact .inl h
  | token t =>
    cases others with
    | error e' =>
      cases h
      exact .inl rfl
    | ok us => cases h
  | outOfRange =>
    cases h
    exact .inr ⟨rfl, rfl⟩

namespace Lexical

/-- The texts that give no token. -/
def skipped : Pattern := .star (.either blanks (.either lineComment blockComment))

theorem skipped_of_reads {text gap : List Char} (h : Reads text .skip)
    (hgap : skipped.Matches gap) : skipped.Matches (text ++ gap) := by
  refine .more ?_ hgap
  cases h with
  | blanks h => exact .left h
  | lineComment h => exact .right (.left h)
  | blockComment h => exact .right (.right h)

/-- A text from the byte `offset` on, cut into the texts of tokens and what is skipped around
    them. -/
inductive Laid : Nat → List Char → List Token.Placed → Prop where
  | last {offset : Nat} {gap : List Char} (hgap : skipped.Matches gap) : Laid offset gap []
  | next {offset : Nat} {gap text rest : List Char} {t : Token} {ts : List Token.Placed}
      (hgap : skipped.Matches gap) (hread : Reads text (.token t))
      (hrest : Laid (offset + Text.bytes gap + Text.bytes text) rest ts) :
      Laid offset (gap ++ text ++ rest)
        (⟨t, ⟨offset + Text.bytes gap, offset + Text.bytes gap + Text.bytes text⟩⟩ :: ts)

theorem Laid.skip {offset : Nat} {text rest : List Char} {ts : List Token.Placed}
    (h : Laid (offset + Text.bytes text) rest ts) (hread : Reads text .skip) :
    Laid offset (text ++ rest) ts := by
  cases h with
  | last hgap => exact .last (skipped_of_reads hread hgap)
  | @next _ gap token others t ts hgap htoken hrest =>
    rw [Nat.add_assoc offset, ← Text.bytes_append] at hrest ⊢
    have hlaid := Laid.next (skipped_of_reads hread hgap) htoken hrest
    simpa only [List.append_assoc] using hlaid

theorem laid_of_lexFrom (cs : List Char) :
    ∀ offset ts, Token.lexFrom offset cs = .ok ts → Laid offset cs ts := by
  induction cs using munch_induction with
  | nil =>
    intro offset ts h
    rw [Token.lexFrom_nil] at h
    cases h
    exact .last .stop
  | munch cs text rest r hmunch hread ih =>
    intro offset ts h
    rw [Token.lexFrom_munch hmunch hread] at h
    rw [hmunch.split]
    cases r with
    | skip => exact (ih _ ts h).skip hread
    | token t =>
      cases hothers : Token.lexFrom (offset + Text.bytes text) rest with
      | error e =>
        rw [hothers] at h
        cases h
      | ok others =>
        rw [hothers] at h
        cases h
        exact .next .stop hread (ih _ others hothers)
    | outOfRange => cases h
  | stuck cs text hstuck hfault =>
    intro offset ts h
    rw [Token.lexFrom_stuck hstuck hfault] at h
    cases h

namespace Laid

variable {cs : List Char} {offset : Nat} {ts : List Token.Placed}

/-- The span of each token covers a text that means the token. -/
theorem covers (h : Laid offset cs ts) (before : List Char) (hbefore : offset = Text.bytes before) :
    ∀ t ∈ ts, ∃ text, t.span.Covers (before ++ cs) text ∧ Reads text (.token t.token) := by
  induction h generalizing before with
  | last => simp
  | @next offset gap text rest t ts hgap hread hrest ih =>
    subst hbefore
    have hgapped : Text.bytes before + Text.bytes gap = Text.bytes (before ++ gap) :=
      (Text.bytes_append before gap).symm
    intro u hu
    rcases List.mem_cons.mp hu with rfl | hu
    · exact ⟨text, ⟨before ++ gap, rest, by simp, by rw [hgapped]⟩, hread⟩
    · have hothers := ih (before ++ gap ++ text) (by simp only [Text.bytes_append]) u hu
      simpa only [List.append_assoc] using hothers

/-- What the spans leave over is skipped text. -/
theorem covers_gaps (h : Laid offset cs ts) (before : List Char)
    (hbefore : offset = Text.bytes before) :
    ∀ gap ∈ Span.gaps offset (ts.map (·.span)) (Text.bytes (before ++ cs)),
      ∃ text, gap.Covers (before ++ cs) text ∧ skipped.Matches text := by
  induction h generalizing before with
  | @last offset gap hgap =>
    subst hbefore
    intro s hs
    obtain rfl := List.mem_singleton.mp hs
    exact ⟨gap, ⟨before, [], by simp, by rw [Text.bytes_append]⟩, hgap⟩
  | @next offset gap text rest t ts hgap hread hrest ih =>
    subst hbefore
    intro s hs
    rcases List.mem_cons.mp hs with rfl | hs
    · exact ⟨gap, ⟨before, text ++ rest, by simp, rfl⟩, hgap⟩
    · have hothers := ih (before ++ gap ++ text) (by simp only [Text.bytes_append]) s
      simp only [List.append_assoc] at hothers hs ⊢
      exact hothers hs

theorem offset_le (h : Laid offset cs ts) : ∀ t ∈ ts, offset ≤ t.span.start := by
  induction h with
  | last => simp
  | next hgap hread hrest ih =>
    intro u hu
    rcases List.mem_cons.mp hu with rfl | hu
    · exact Nat.le_add_right _ _
    · have hle := ih u hu
      omega

/-- The spans stand one after the other. -/
theorem increasing (h : Laid offset cs ts) : ts.Pairwise fun t u =>
    t.span.start < u.span.start ∧ t.span.stop ≤ u.span.start := by
  induction h with
  | last => exact .nil
  | @next offset gap text rest t ts hgap hread hrest ih =>
    refine List.pairwise_cons.mpr ⟨?_, ih⟩
    intro u hu
    have hle := hrest.offset_le u hu
    have hpos := Text.bytes_pos (Lexeme.ne_nil_of_declared ⟨_, hread⟩)
    exact ⟨by simp only; omega, hle⟩

end Laid

/-- The reason for an error is about a text: no pattern has a text at its beginning, or it is a
    numeral that is too large. -/
def Blames (text : List Char) : LexCause → Prop
  | .unexpected shown =>
    shown = String.ofList text ∧ ∀ other, other <+: text → other ≠ [] → ¬ Declared other
  | .outOfRange shown => shown = String.ofList text ∧ Reads text .outOfRange

/-- The span of an error covers the text that the error is about. -/
theorem blames_of_lexFrom_error (cs : List Char) :
    ∀ before e, Token.lexFrom (Text.bytes before) cs = .error e →
      ∃ text, text ≠ [] ∧ e.span.Covers (before ++ cs) text ∧ Blames text e.cause := by
  induction cs using munch_induction with
  | nil =>
    intro before e h
    rw [Token.lexFrom_nil] at h
    cases h
  | munch cs text rest r hmunch hread ih =>
    intro before e h
    rw [Token.lexFrom_munch hmunch hread] at h
    rcases Token.onto_eq_error h with hlater | ⟨rfl, rfl⟩
    · rw [← Text.bytes_append] at hlater
      have hblames := ih (before ++ text) e hlater
      rwa [List.append_assoc, ← hmunch.split] at hblames
    · exact ⟨text, hmunch.nonempty, ⟨before, rest, by rw [hmunch.split, List.append_assoc], rfl⟩,
        rfl, hread⟩
  | stuck cs text hstuck hfault =>
    intro before e h
    rw [Token.lexFrom_stuck hstuck hfault] at h
    cases h
    refine ⟨text, hfault.nonempty, ?_, rfl, ?_⟩
    · obtain ⟨rest, rfl⟩ := hfault.begins
      exact ⟨before, rest, (List.append_assoc _ _ _).symm, rfl⟩
    · intro other hother
      exact hstuck.2 other (hother.trans hfault.begins)

theorem covers_of_lexFrom_error (cs before : List Char) (e : LexError)
    (h : Token.lexFrom (Text.bytes before) cs = .error e) :
    ∃ text, text ≠ [] ∧ e.span.Covers (before ++ cs) text := by
  obtain ⟨text, hne, hcovers, -⟩ := blames_of_lexFrom_error cs before e h
  exact ⟨text, hne, hcovers⟩

/-- What the spans of some tokens say about a source: each covers the text of its token, they stand
    one after the other, and only skipped text is left over. -/
structure Tiled (source : List Char) (tokens : List Token.Placed) : Prop where
  covers : ∀ t ∈ tokens, t.span.start < t.span.stop ∧ t.span.Sound source ∧
    ∃ text, Text.slice? t.span.start t.span.stop source = some text ∧ Reads text (.token t.token)
  increasing : tokens.Pairwise fun t u =>
    t.span.start < u.span.start ∧ t.span.stop ≤ u.span.start
  gaps : ∀ gap ∈ Span.gaps 0 (tokens.map (·.span)) (Text.bytes source),
    ∃ text, Text.slice? gap.start gap.stop source = some text ∧ skipped.Matches text

theorem tiled_of_lex {source : String} {tokens : List Token.Placed}
    (h : Token.lex source = .ok tokens) : Tiled source.toList tokens := by
  have hlaid := laid_of_lexFrom source.toList 0 tokens h
  refine ⟨?_, hlaid.increasing, ?_⟩
  · intro t ht
    obtain ⟨text, hcovers, hread⟩ := hlaid.covers [] rfl t ht
    have hne := Lexeme.ne_nil_of_declared ⟨_, hread⟩
    exact ⟨hcovers.start_lt_stop hne, hcovers.sound, text, hcovers.slice, hread⟩
  · intro gap hgap
    obtain ⟨text, hcovers, hskipped⟩ := hlaid.covers_gaps [] rfl gap hgap
    exact ⟨text, hcovers.slice, hskipped⟩

end Lexical

end LetTree

import LetTree.Proofs.Grammar.Session
import LetTree.Proofs.Token.Spans

/-!
# Spans of a source

Whatever is reported about a source can be shown in it. Tokens cover texts of their own, so that the
places which the grammar may report, and which are all made from the spans of tokens, lie in the
source and split no character.
-/

namespace LetTree

open Lexical

namespace Parse

variable {source : List Char} {tokens : List Token.Placed} {span : Span}

/-- The places of errors over all tokens of a source. -/
inductive Reported (tokens : List Token.Placed) : Span → Prop where
  | token {t : Token.Placed} (h : t ∈ tokens) : Reported tokens t.span
  | ending {t : Token.Placed} (h : tokens.getLast? = some t) :
      Reported tokens ⟨t.span.stop, t.span.stop⟩
  | nothing (h : tokens = []) : Reported tokens ⟨0, 0⟩
  | signed {minus number : Span} {n : UInt64}
      (h : [⟨.operator "-", minus⟩, ⟨.integer n, number⟩] <:+: tokens) :
      Reported tokens ⟨minus.start, number.stop⟩

theorem reported_endOf (tokens : List Token.Placed) : Reported tokens (endOf tokens) := by
  cases hlast : tokens.getLast? with
  | none =>
    rw [endOf, hlast]
    exact .nothing (List.getLast?_eq_none_iff.mp hlast)
  | some t =>
    rw [endOf, hlast]
    exact .ending hlast

theorem Located.reported (htiled : Tiled source tokens)
    (h : Located (endOf tokens) tokens span) : Reported tokens span := by
  cases h with
  | token h => exact .token h
  | ending => exact reported_endOf tokens
  | @signed minus number n h =>
    -- The numeral comes after the sign, so nothing is gained by taking the least and the greatest.
    have hpair := htiled.increasing.sublist h.sublist
    obtain ⟨hstart, hstop⟩ := List.rel_of_pairwise_cons hpair List.mem_cons_self
    have hnumber := (htiled.covers _ (h.subset (List.mem_cons_of_mem _ List.mem_cons_self))).1
    have hmerge : minus.merge number = ⟨minus.start, number.stop⟩ := by
      simp only [Span.merge, Span.mk.injEq]
      simp only at hstart hstop hnumber
      omega
    rw [hmerge]
    exact .signed h

theorem Reported.sound (htiled : Tiled source tokens) (h : Reported tokens span) :
    span.Sound source := by
  cases h with
  | token h => exact (htiled.covers _ h).2.1
  | @ending t h =>
    have hstop := (htiled.covers t (List.mem_of_getLast? h)).2.1.stop
    exact Span.sound_of_boundaries (Nat.le_refl _) hstop hstop
  | nothing h =>
    have hzero := Text.boundary_zero source
    exact Span.sound_of_boundaries (Nat.le_refl _) hzero hzero
  | @signed minus number n h =>
    obtain ⟨-, hminus, -⟩ := htiled.covers _ (h.subset List.mem_cons_self)
    obtain ⟨hlt, hnumber, -⟩ :=
      htiled.covers _ (h.subset (List.mem_cons_of_mem _ List.mem_cons_self))
    have hpair := htiled.increasing.sublist h.sublist
    have hstart := (List.rel_of_pairwise_cons hpair List.mem_cons_self).1
    exact Span.sound_of_boundaries (hstart.le.trans hlt.le) hminus.start hnumber.stop

/-- The errors of programs, and of parts in any order, over some tokens. -/
def Raised (limit : Nat) (tokens : List Token.Placed) (e : ParseError) : Prop :=
  parse limit tokens = .error e ∨
    ∃ calls : List Session.Call,
      .error e ∈ (Session.start limit tokens).run (calls.map Session.Call.part)

theorem Raised.located {limit : Nat} {e : ParseError} (h : Raised limit tokens e) :
    Located (endOf tokens) tokens e.span := by
  rcases h with h | ⟨calls, h⟩
  · exact parse_error_located h
  · rw [← Session.history_results] at h
    obtain ⟨step, hstep, herror⟩ := List.mem_map.mp h
    obtain ⟨hmade, hover⟩ := Session.over_of_mem_history hstep
    have hlocal := step.call.part_local (s := step.before.surroundings) step.before.rest
    rcases hmade.outcome with ⟨node, rest, -, hresult, -⟩ | ⟨stop, hpart, hresult, -⟩
    · rw [hresult] at herror
      cases herror
    · rw [hresult] at herror
      cases herror
      rw [hpart, Remains, hover.ending_eq] at hlocal
      exact hlocal.2.mono hover.rest_suffix

end Parse

/-- **Spans are sound.**  Where a source is read into tokens, their spans cover it apart from blanks
    and comments, each the text of its token; and at any limit, for programs and for parts in any
    order, an error has a sound span, which is that of a token, the end of the last one, or the
    range from a minus sign to the numeral after it. Where a source cannot be read into tokens, the
    span of the error covers some text of it. -/
theorem spans_sound (source : String) :
    (∀ tokens, Token.lex source = .ok tokens →
      Tiled source.toList tokens ∧
        ∀ limit e, Parse.Raised limit tokens e →
          e.span.Sound source.toList ∧ Parse.Reported tokens e.span) ∧
      ∀ e, Token.lex source = .error e →
        e.span.start < e.span.stop ∧ e.span.Sound source.toList ∧
          ∃ text, Text.slice? e.span.start e.span.stop source.toList = some text := by
  refine ⟨?_, ?_⟩
  · intro tokens htokens
    have htiled := tiled_of_lex htokens
    refine ⟨htiled, ?_⟩
    intro limit e he
    have hreported := he.located.reported htiled
    exact ⟨hreported.sound htiled, hreported⟩
  · intro e he
    obtain ⟨text, hne, hcovers⟩ := covers_of_lexFrom_error source.toList [] e he
    exact ⟨hcovers.start_lt_stop hne, hcovers.sound, text, hcovers.slice⟩

/-- After a character of two bytes, a numeral that is too small even with its sign is reported from
    the sign on, and a string that is not closed from its quote up to the line feed after a
    backslash. -/
theorem spans_sound_two_bytes :
    (∃ tokens e, Token.lex "let a: int = \"é\" + - 9223372036854775809;" = .ok tokens ∧
      parse 9 tokens = .error e ∧ e.span = ⟨20, 41⟩ ∧
        e.span.Sound "let a: int = \"é\" + - 9223372036854775809;".toList) ∧
      ∃ e, Token.lex "let \"é\\\n" = .error e ∧ e.span = ⟨4, 8⟩ ∧
        e.span.Sound "let \"é\\\n".toList := by
  have hlex : Token.lex "let a: int = \"é\" + - 9223372036854775809;" =
      .ok [⟨.letWord, ⟨0, 3⟩⟩, ⟨.identifier "a", ⟨4, 5⟩⟩, ⟨.colon, ⟨5, 6⟩⟩,
        ⟨.type .int, ⟨7, 10⟩⟩, ⟨.equals, ⟨11, 12⟩⟩, ⟨.string "é", ⟨13, 17⟩⟩,
        ⟨.operator "+", ⟨18, 19⟩⟩, ⟨.operator "-", ⟨20, 21⟩⟩,
        ⟨.integer 9223372036854775809, ⟨22, 41⟩⟩, ⟨.semicolon, ⟨41, 42⟩⟩] := by
    with_unfolding_all rfl
  have hparse : parse 9 [⟨.letWord, ⟨0, 3⟩⟩, ⟨.identifier "a", ⟨4, 5⟩⟩, ⟨.colon, ⟨5, 6⟩⟩,
      ⟨.type .int, ⟨7, 10⟩⟩, ⟨.equals, ⟨11, 12⟩⟩, ⟨.string "é", ⟨13, 17⟩⟩,
      ⟨.operator "+", ⟨18, 19⟩⟩, ⟨.operator "-", ⟨20, 21⟩⟩,
      ⟨.integer 9223372036854775809, ⟨22, 41⟩⟩, ⟨.semicolon, ⟨41, 42⟩⟩] =
        .error ⟨⟨20, 41⟩, .integerOutOfRange true 9223372036854775809⟩ := by
    with_unfolding_all rfl
  have hopen : Token.lex "let \"é\\\n" = .error ⟨⟨4, 8⟩, .unexpected "\"é\\"⟩ := by
    with_unfolding_all rfl
  refine ⟨⟨_, _, hlex, hparse, rfl, ?_⟩, _, hopen, rfl, ?_⟩
  · exact (((spans_sound _).1 _ hlex).2 9 _ (.inl hparse)).1
  · exact ((spans_sound _).2 _ hopen).2.1

end LetTree

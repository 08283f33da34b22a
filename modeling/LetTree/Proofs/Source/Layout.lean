import LetTree.Proofs.Source.Composition
import LetTree.Proofs.Token.Layout

/-!
# Programs in other layouts

How a list of tokens is laid out as text has no influence on what it is read as. The tokens come
back, and the grammar looks at tokens and not at their places: two lists with the same tokens give
the same tree or errors of the same cause, because both are the same once all places are put into
one.
-/

namespace LetTree

open Lexical

namespace Parse

/-- The map that puts all places into one. -/
def gather (_ : Span) : Span := ⟨0, 0⟩

theorem gather_respects : Span.Respects gather := fun _ _ => rfl

/-- With all places in one, only the tokens of a list are left. -/
theorem map_relocate_gather (ts : List Token.Placed) :
    ts.map (·.relocate gather) = (ts.map Token.Placed.token).map fun t => ⟨t, ⟨0, 0⟩⟩ := by
  rw [List.map_map]
  rfl

theorem endOf_gather (ts : List Token.Placed) :
    endOf (ts.map (·.relocate gather)) = gather (endOf ts) := by
  unfold endOf
  rw [List.getLast?_map]
  cases ts.getLast? <;> rfl

theorem items_gather (limit : Nat) (ts : List Token.Placed) :
    items limit (ts.map (·.relocate gather)) =
      (items limit ts).mapError (·.relocate gather) := by
  have hrun := items_stable gather_respects ⟨limit, 0, endOf ts⟩ ts
  rw [Surroundings.relocate] at hrun
  unfold items
  rw [endOf_gather, hrun]
  rcases many List.isEmpty item ⟨limit, 0, endOf ts⟩ ts with stop | ⟨ns, rest⟩
  · rfl
  · rfl

end Parse

/-- The result of reading does not depend on the places of the tokens, apart from that of an
    error. -/
theorem parse_eq_of_tokens {ts us : List Token.Placed}
    (h : ts.map Token.Placed.token = us.map Token.Placed.token) (limit : Nat) :
    (parse limit ts).mapError (·.cause) = (parse limit us).mapError (·.cause) := by
  have hsame : ts.map (·.relocate Parse.gather) = us.map (·.relocate Parse.gather) := by
    rw [Parse.map_relocate_gather, Parse.map_relocate_gather, h]
  have hforget : ∀ vs, (parse limit vs).mapError (·.cause) =
      ((Parse.items limit (vs.map (·.relocate Parse.gather))).map Node.statements).mapError
        (·.cause) := by
    intro vs
    rw [Parse.parse_eq_items, Parse.items_gather]
    cases Parse.items limit vs <;> rfl
  rw [hforget, hforget, hsame]

/-- **Layout makes no difference.**  Well-formed tokens that are written one after the other, each
    by any of its spellings and with any separators between them, are read as they were written; so
    two layouts of the same tokens give the same tree or errors of the same cause. -/
theorem lex_of_layout {ts : List Token} {source : String}
    (h : Lexical.Layout ts source.toList) :
    (∃ placed, Token.lex source = .ok placed ∧ placed.map Token.Placed.token = ts) ∧
    ∀ other : String, Lexical.Layout ts other.toList → ∀ limit,
      ∃ placed placed', Token.lex source = .ok placed ∧ Token.lex other = .ok placed' ∧
        (parse limit placed).mapError (·.cause) = (parse limit placed').mapError (·.cause) := by
  obtain ⟨placed, hplaced, htokens⟩ := Token.lexFrom_layout h 0
  refine ⟨⟨placed, hplaced, htokens⟩, ?_⟩
  intro other hother limit
  obtain ⟨placed', hplaced', htokens'⟩ := Token.lexFrom_layout hother 0
  exact ⟨placed, placed', hplaced, hplaced', parse_eq_of_tokens (htokens.trans htokens'.symm) limit⟩

/-- A slash before a comment stays a slash, since a blank stands between them, and a quote inside a
    string does not end it. -/
theorem lex_of_layout_slash_and_comments :
    ∃ placed placed', Token.lex "0xfF /\t/**/\"\\\"\"" = .ok placed ∧
      Token.lex "255 / //\n\"\\\"\"" = .ok placed' ∧
      (parse 9 placed).mapError (·.cause) = (parse 9 placed').mapError (·.cause) := by
  have hhex : (numeral .hexadecimal).Matches ['0', 'x', 'f', 'F'] :=
    Lexeme.matches_numeral_iff.mpr ⟨['f', 'F'], ⟨nofun, List.all_eq_true.mp rfl⟩, rfl⟩
  have hdec : (numeral .decimal).Matches ['2', '5', '5'] :=
    Lexeme.matches_numeral_iff.mpr ⟨['2', '5', '5'], ⟨nofun, List.all_eq_true.mp rfl⟩, rfl⟩
  have hslash : Spells ['/'] (.operator "/") := @Spells.operator .div rfl
  have hquote : Spells ['"', '\\', '"', '"'] (.string "\"") := .string "\""
  have hblank : ∀ c, isBlank c = true → blanks.Matches [c] := fun c hc =>
    Lexeme.matches_blanks_iff.mpr ⟨List.cons_ne_nil _ _, by simpa using hc⟩
  have hblock : blockComment.Matches ['/', '*', '*', '/'] :=
    Lexeme.matches_exactly_seq_iff.mpr ⟨_, commentTail_star starredTail_close, rfl⟩
  have hline : lineComment.Matches ['/', '/'] := .seq .exactly .stop
  have hfirst : Layout [.integer 255, .operator "/", .string "\""]
      "0xfF /\t/**/\"\\\"\"".toList :=
    .next (.integer hhex rfl) (.seq (hblank ' ' rfl) .stop)
      (.next hslash (.seq (hblank '\t' rfl) (.more (.right (.left hblock)) .stop)) (.last hquote))
  have hsecond : Layout [.integer 255, .operator "/", .string "\""]
      "255 / //\n\"\\\"\"".toList :=
    .next (.integer hdec rfl) (.seq (hblank ' ' rfl) .stop)
      (.next hslash (.seq (hblank ' ' rfl) (.more (.right (.right (.seq hline .exactly))) .stop))
        (.last hquote))
  exact (lex_of_layout hfirst).2 _ hsecond 9

end LetTree

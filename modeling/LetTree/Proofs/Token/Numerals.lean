import Mathlib.Data.List.Basic
import LetTree.Proofs.Token.Layout
import LetTree.Proofs.Token.Spans

/-!
# Numerals

How a numeral is read that nothing follows: as one token with its value, or as out of range. A minus
sign before it is a token of its own, however far away it stands. Out of range is the only fault
whose text begins with a digit.
-/

namespace LetTree

namespace Lexical

/-! ### Decimal texts -/

theorem numeralValue_decimal {text : List Char} (h : (numeral .decimal).Matches text) :
    numeralValue .decimal text = Nat.ofDigitChars 10 text 0 := by
  obtain ⟨digits, ⟨-, hdigits⟩, rfl⟩ := Lexeme.matches_numeral_iff.mp h
  rw [← Lexeme.digitsValue_eq_numeralValue h]
  refine List.foldl_ext _ _ 0 ?_
  intro n c hc
  have hdigit : Text.digit? c = some (c.toNat - '0'.toNat) := if_pos (hdigits c hc)
  rw [hdigit, Option.getD_some, Nat.mul_comm]
  rfl

/-- The decimal text of a number is a numeral for it. -/
theorem numeral_repr (n : Nat) :
    (numeral .decimal).Matches n.repr.toList ∧ numeralValue .decimal n.repr.toList = n := by
  have hmatch : (numeral .decimal).Matches (Nat.toDigits 10 n) := by
    refine Lexeme.matches_numeral_iff.mpr ⟨_, ⟨Nat.toDigits_ne_nil, ?_⟩, rfl⟩
    intro c hc
    have hdigit := Nat.isDigit_of_mem_toDigits (by decide) (by decide) hc
    simpa [isDigit, isDecimal_iff, Char.isDigit_iff_toNat] using hdigit
  rw [Nat.toList_repr]
  refine ⟨hmatch, ?_⟩
  rw [numeralValue_decimal hmatch]
  exact Nat.ofDigitChars_toDigits (by decide) (by decide)

/-! ### Signs -/

/-- The text before a numeral: nothing, or a minus sign and whatever may stand between tokens. -/
inductive Sign : Bool → List Char → Prop where
  | none : Sign false []
  | minus {gap : List Char} (h : filler.Matches gap) : Sign true ('-' :: gap)

/-- A gap between tokens begins with a blank or with the slash of a comment. -/
theorem head?_filler {gap : List Char} (h : filler.Matches gap) :
    ∀ c, gap.head? = some c → isBlank c = true ∨ c = '/' := by
  refine Pattern.star_induction
    (motive := fun gap => ∀ c, gap.head? = some c → isBlank c = true ∨ c = '/') nofun ?_ h
  intro piece more hpiece _ c hc
  rcases Pattern.matches_either_iff.mp hpiece with hblanks | hcomment
  · obtain ⟨hne, hall⟩ := Lexeme.matches_blanks_iff.mp hblanks
    rw [List.head?_append_of_ne_nil _ hne] at hc
    exact .inl (hall c (List.mem_of_head? hc))
  · refine .inr ?_
    rcases Pattern.matches_either_iff.mp hcomment with hblock | hline
    · obtain ⟨u, -, rfl⟩ := Lexeme.matches_exactly_seq_iff.mp hblock
      simpa [eq_comm] using hc
    · obtain ⟨line, feed, hmatch, -, rfl⟩ := Pattern.matches_seq_iff.mp hline
      obtain ⟨u, -, rfl⟩ := Lexeme.matches_exactly_seq_iff.mp hmatch
      simpa [eq_comm] using hc

/-- A minus sign is read by itself unless it begins an arrow. -/
theorem munch_minus {rest : List Char} (h : rest.head? ≠ some '>') :
    Munch ('-' :: rest) ['-'] rest := by
  refine ⟨rfl, List.cons_ne_nil _ _,
    ⟨_, .operator (Lexeme.matches_operator_iff.mpr ⟨.sub, by decide, rfl⟩)⟩, ?_⟩
  intro other hother hdecl
  cases other with
  | nil => exact Nat.zero_le _
  | cons c u =>
    obtain ⟨rfl, hu⟩ := List.cons_prefix_cons.mp hother
    obtain ⟨s, hs, hspelled⟩ := Token.symbol_of_declared hdecl rfl
    have hdashes : ∀ s ∈ symbols, s.1.toList.head? = some '-' →
        s.1.toList = ['-'] ∨ s.1.toList = ['-', '>'] := by
      decide +kernel
    rcases hdashes s hs (by rw [hspelled]; rfl) with hdash | harrow
    · rw [hspelled] at hdash
      rw [hdash]
    · rw [hspelled] at harrow
      cases harrow
      obtain ⟨v, rfl⟩ := hu
      exact absurd rfl h

end Lexical

/-! ### Reading -/

namespace Token

open Lexical

/-- The token of a minus sign at the byte `offset`, if there is one. -/
def minusAt (offset : Nat) (negative : Bool) : List Placed :=
  if negative then [⟨.operator "-", ⟨offset, offset + 1⟩⟩] else []

theorem lexFrom_sign {negative : Bool} {sign : List Char} (h : Sign negative sign) {c : Char}
    (hc : isDecimal c = true) (rest : List Char) (offset : Nat) :
    lexFrom offset (sign ++ c :: rest) =
      (lexFrom (offset + Text.bytes sign) (c :: rest)).map (minusAt offset negative ++ ·) := by
  cases h with
  | none =>
    change lexFrom offset (c :: rest) = (lexFrom offset (c :: rest)).map ([] ++ ·)
    cases lexFrom offset (c :: rest) <;> rfl
  | @minus gap hgap =>
    have hread : Reads ['-'] (.token (.operator "-")) :=
      .operator (Lexeme.matches_operator_iff.mpr ⟨.sub, by decide, rfl⟩)
    have hhead : (gap ++ c :: rest).head? ≠ some '>' := by
      intro hgt
      rw [List.head?_append] at hgt
      rcases Option.or_eq_some_iff.mp hgt with hgap' | ⟨-, hc'⟩
      · exact absurd (head?_filler hgap _ hgap') (by decide)
      · obtain rfl := Option.some.inj hc'
        exact absurd hc (by decide)
    have hstop : offset + Text.bytes ['-'] + Text.bytes gap = offset + Text.bytes ('-' :: gap) :=
      Nat.add_assoc _ _ _
    rw [List.cons_append, lexFrom_munch (munch_minus hhead) hread, lexFrom_filler hgap, hstop]
    rfl

theorem lexFrom_numeral {base : Base} {text : List Char} (h : (numeral base).Matches text)
    (hn : numeralValue base text < 2 ^ 64) (offset : Nat) :
    lexFrom offset text =
      .ok [⟨.integer (UInt64.ofNat (numeralValue base text)),
        ⟨offset, offset + Text.bytes text⟩⟩] := by
  have hread : Reads text (.token (.integer (UInt64.ofNat (numeralValue base text)))) :=
    .integer h (UInt64.toNat_ofNat_of_lt' hn)
  rw [lexFrom_munch (munch_whole hread) hread, lexFrom_nil]
  rfl

theorem lexFrom_numeral_outOfRange {base : Base} {text : List Char}
    (h : (numeral base).Matches text) (hn : 2 ^ 64 ≤ numeralValue base text) (offset : Nat) :
    lexFrom offset text =
      .error ⟨⟨offset, offset + Text.bytes text⟩, .outOfRange (String.ofList text)⟩ := by
  have hread : Reads text .outOfRange := .outOfRange h hn
  rw [lexFrom_munch (munch_whole hread) hread]
  rfl

end Token

/-- No text at fault begins with a digit but a numeral that is too large. -/
theorem Lexical.Blames.of_isDecimal {c : Char} {cs : List Char} {cause : LexCause}
    (h : Blames (c :: cs) cause) (hc : isDecimal c = true) :
    cause = .outOfRange (String.ofList (c :: cs)) ∧
      ∃ base, (numeral base).Matches (c :: cs) ∧ 2 ^ 64 ≤ numeralValue base (c :: cs) := by
  cases cause with
  | unexpected shown =>
    have hstray := h.2 [c] (List.prefix_append [c] cs) (List.cons_ne_nil _ _)
    exact absurd (declared_of_isDecimal hc) hstray
  | outOfRange shown =>
    obtain ⟨rfl, hread⟩ := h
    cases hread with
    | outOfRange hmatch hn => exact ⟨rfl, _, hmatch, hn⟩

end LetTree

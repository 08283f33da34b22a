import LetTree.Proofs.Constant.Exactness
import LetTree.Proofs.Grammar.Measure
import LetTree.Proofs.Token.Numerals

/-!
# Integer literals

The range of a numeral is checked twice: when its token is read it has to fit into 64 bits without a
sign, and when the grammar takes the token, which is when the sign is known, the integer has to be
in range. The two checks together are exact (`NumeralExact`), at the least integer too, which is in
range although the number without its sign is not.
-/

namespace LetTree

open Lexical

/-! ### Numbers with a sign -/

/-- The integer that a number is with its sign. -/
def signed (negative : Bool) (n : Nat) : Int := if negative then -n else n

theorem lt_of_inRange_signed {negative : Bool} {n : Nat} (h : InRange (signed negative n)) :
    n < 2 ^ 64 := by
  obtain ⟨hleast, hgreatest⟩ := h
  cases negative <;> simp only [signed, Bool.false_eq_true, if_true, if_false] at * <;> omega

/-- The grammar accepts the literals whose integers are in range. -/
theorem Form.fits_integer_iff {negative : Bool} {n : UInt64} {k : Nat} :
    (Form.integer negative n).Fits k ↔ InRange (signed negative n.toNat) := by
  cases negative <;> simp only [Fits, InRange, signed, Bool.false_eq_true, if_true, if_false] <;>
    omega

theorem Form.toInt_literalValue {negative : Bool} {n : UInt64}
    (h : InRange (signed negative n.toNat)) :
    (literalValue negative n).toInt = signed negative n.toNat :=
  Int64.toInt_ofInt_of_le h.1 (Int.lt_of_le_sub_one h.2)

theorem exists_signed (v : Int) :
    ∃ negative n, v = signed negative n ∧ (negative = true → n ≠ 0) := by
  rcases lt_or_ge v 0 with hneg | hnonneg
  · refine ⟨true, v.natAbs, ?_, fun _ => by omega⟩
    simp only [signed, if_true]
    omega
  · exact ⟨false, v.natAbs, (Int.natAbs_of_nonneg hnonneg).symm, nofun⟩

/-- Zero is written without a sign, and no other number loses its sign. -/
theorem toString_signed {negative : Bool} {n : Nat} (h : negative = true → n ≠ 0) :
    toString (signed negative n) = (if negative then "-" else "") ++ n.repr := by
  cases negative with
  | false => exact String.empty_append.symm
  | true =>
    have hne := h rfl
    change (-(n : Int)).repr = "-" ++ n.repr
    rw [Int.repr_eq_if, if_neg (by omega), Int.neg_neg, Int.toNat_natCast]

/-- A literal out of range is reported by the text of its integer. -/
theorem literalText_of_not_inRange {negative : Bool} {n : UInt64}
    (h : ¬ InRange (signed negative n.toNat)) :
    literalText negative n = toString (signed negative n.toNat) := by
  refine (toString_signed ?_).symm
  rintro rfl hzero
  rw [hzero] at h
  exact h ⟨by decide, by decide⟩

/-! ### Expressions of one literal -/

/-- The tokens of a number after a sign, each at its place. -/
def signedTokens (negative : Bool) (sign text : List Char) (n : UInt64) : List Token.Placed :=
  Token.minusAt 0 negative ++
    [⟨.integer n, ⟨Text.bytes sign, Text.bytes sign + Text.bytes text⟩⟩]

theorem tokens_integer (negative : Bool) (sign text : List Char) (n : UInt64) :
    (Form.integer negative n).tokens =
      (signedTokens negative sign text n).map Token.Placed.token := by
  cases negative <;> rfl

namespace Parse

variable {negative : Bool} {sign : List Char} {s : Surroundings}

/-- The grammar takes a sign together with the number after it, and their places as one. -/
theorem primary_signed (hsign : Sign negative sign) (text : List Char) (n : UInt64)
    (inner : Parse Measured) :
    primary inner s (signedTokens negative sign text n) =
      literal ⟨0, Text.bytes (sign ++ text)⟩ negative n s [] := by
  rw [Text.bytes_append]
  cases hsign with
  | none => simp [primary, signedTokens, Token.minusAt, Text.bytes]
  | @minus gap hgap =>
    have hmerge : Span.merge ⟨0, 0 + 1⟩
        ⟨Text.bytes ('-' :: gap), Text.bytes ('-' :: gap) + Text.bytes text⟩ =
          ⟨0, Text.bytes ('-' :: gap) + Text.bytes text⟩ := by
      have hpos := Text.bytes_pos (List.cons_ne_nil '-' gap)
      simp only [Span.merge, Nat.zero_min]
      rw [Nat.max_eq_right (by omega)]
    simp [primary, signedTokens, Token.minusAt, ← hmerge]

/-- An expression fails as the operand does that it begins with. -/
theorem expression_of_primary_error {ts : List Token.Placed} {stop : Stop}
    (hroom : s.depth < s.limit) (h : ∀ inner, primary inner s ts = .error stop) :
    expression s ts = .error ⟨stop.error, stop.rest, stop.opened + 1⟩ := by
  obtain ⟨room, hroom⟩ : ∃ room, s.limit - s.depth = room + 1 :=
    ⟨s.limit - s.depth - 1, by omega⟩
  have hlevel : expressionIn (s.limit - s.depth) 0 s ts =
      .error ⟨stop.error, stop.rest, stop.opened + 1⟩ := by
    simp only [hroom, expressionIn, nested, bind_of_error (h _)]
  exact bind_of_error hlevel

end Parse

/-- Where the grammar stops, a new session has the error of the stop. -/
theorem Session.result_of_expression_error {limit : Nat} {tokens : List Token.Placed} {stop : Stop}
    (h : Parse.expression ⟨limit, 0, endOf tokens⟩ tokens = .error stop) :
    ((start limit tokens).step .expression).result = .error stop.error := by
  simp only [start, step, advance, Call.part, h]

/-- What a new session finds when it is asked for an expression in the tokens of a text. -/
def ExpressionOf (limit : Nat) (source : List Char) (result : Except ParseError Node) : Prop :=
  ∃ tokens, Token.lex (String.ofList source) = .ok tokens ∧
    ((Session.start limit tokens).step .expression).result = result

section Signed

variable {negative : Bool} {sign text : List Char} {base : Base} {limit : Nat}

theorem lex_signed (hsign : Sign negative sign) (hmatch : (numeral base).Matches text) :
    Token.lex (String.ofList (sign ++ text)) =
      (Token.lexFrom (Text.bytes sign) text).map (Token.minusAt 0 negative ++ ·) := by
  obtain ⟨c, u, rfl, hc⟩ := Lexeme.head_of_numeral hmatch
  rw [Token.lex, String.toList_ofList, Token.lexFrom_sign hsign hc, Nat.zero_add]

theorem lex_signed_of_lt (hsign : Sign negative sign) (hmatch : (numeral base).Matches text)
    (hn : numeralValue base text < 2 ^ 64) :
    Token.lex (String.ofList (sign ++ text)) =
      .ok (signedTokens negative sign text (.ofNat (numeralValue base text))) := by
  rw [lex_signed hsign hmatch, Token.lexFrom_numeral hmatch hn]
  rfl

theorem expressionOf_inRange (hsign : Sign negative sign) (hmatch : (numeral base).Matches text)
    (hlimit : 0 < limit) (hrange : InRange (signed negative (numeralValue base text))) :
    ∃ i : Int64, i.toInt = signed negative (numeralValue base text) ∧
      ExpressionOf limit (sign ++ text) (.ok (.value (.int i))) := by
  have hn := lt_of_inRange_signed hrange
  have htoNat := UInt64.toNat_ofNat_of_lt' hn
  rw [← htoNat] at hrange
  have hread := Form.readExactly (Form.fits_integer_iff.mpr hrange) limit
    (tokens_integer negative sign text _)
  refine ⟨_, (Form.toInt_literalValue hrange).trans (by rw [htoNat]), _,
    lex_signed_of_lt hsign hmatch hn, ?_⟩
  exact (hread.of_le hlimit).1

theorem expressionOf_not_inRange (hsign : Sign negative sign)
    (hmatch : (numeral base).Matches text) (hlimit : 0 < limit)
    (hn : numeralValue base text < 2 ^ 64)
    (hrange : ¬ InRange (signed negative (numeralValue base text))) :
    ExpressionOf limit (sign ++ text) (.error ⟨⟨0, Text.bytes (sign ++ text)⟩,
      .integerOutOfRange negative (.ofNat (numeralValue base text))⟩) := by
  have htoNat := UInt64.toNat_ofNat_of_lt' hn
  rw [← htoNat, ← Form.fits_integer_iff (k := 9)] at hrange
  have hprimary : ∀ s inner,
      Parse.primary inner s (signedTokens negative sign text (.ofNat (numeralValue base text))) =
        .error ⟨⟨⟨0, Text.bytes (sign ++ text)⟩,
          .integerOutOfRange negative (.ofNat (numeralValue base text))⟩, [], 0⟩ := by
    intro s inner
    rw [Parse.primary_signed hsign, Parse.literal, Parse.literal?_of_not_fits hrange]
  exact ⟨_, lex_signed_of_lt hsign hmatch hn,
    Session.result_of_expression_error (Parse.expression_of_primary_error hlimit (hprimary _))⟩

/-- How a numeral of the value `n` is read that stands alone or after a minus sign. -/
structure NumeralExact (negative : Bool) (sign text : List Char) (n : Nat) : Prop where
  /-- The token of a numeral that fits into 64 bits has the value. -/
  token : n < 2 ^ 64 → Token.lex (String.ofList (sign ++ text)) =
    .ok (signedTokens negative sign text (.ofNat n))
  /-- A numeral that does not fit is refused as a whole. -/
  tooLarge : 2 ^ 64 ≤ n → ∃ e, Token.lex (String.ofList (sign ++ text)) = .error e ∧
    e.span = ⟨Text.bytes sign, Text.bytes sign + Text.bytes text⟩ ∧
    e.message = "integer literal out of range: " ++ String.ofList text
  /-- The literal of an integer in range is that integer. -/
  literal : InRange (signed negative n) → ∀ limit, 0 < limit → ∃ i : Int64,
    i.toInt = signed negative n ∧ ExpressionOf limit (sign ++ text) (.ok (.value (.int i)))
  /-- Any other literal is refused together with its sign. -/
  outOfRange : n < 2 ^ 64 → ¬ InRange (signed negative n) → ∀ limit, 0 < limit → ∃ m,
    ExpressionOf limit (sign ++ text)
      (.error ⟨⟨0, Text.bytes (sign ++ text)⟩, .integerOutOfRange negative m⟩) ∧
    literalText negative m = toString (signed negative n)

theorem numeralExact (hsign : Sign negative sign) (hmatch : (numeral base).Matches text) :
    NumeralExact negative sign text (numeralValue base text) where
  token := lex_signed_of_lt hsign hmatch
  tooLarge hn := by
    refine ⟨⟨_, .outOfRange _⟩, ?_, rfl, rfl⟩
    rw [lex_signed hsign hmatch, Token.lexFrom_numeral_outOfRange hmatch hn]
    rfl
  literal hrange _ hlimit := expressionOf_inRange hsign hmatch hlimit hrange
  outOfRange hn hrange limit hlimit := by
    refine ⟨_, expressionOf_not_inRange hsign hmatch hlimit hn hrange, ?_⟩
    have htoNat := UInt64.toNat_ofNat_of_lt' hn
    rw [literalText_of_not_inRange (by rwa [htoNat]), htoNat]

end Signed

/-- The text by which an integer is written is a literal for it. -/
theorem expressionOf_toString {limit : Nat} (hlimit : 0 < limit) (v : Int64) :
    ExpressionOf limit (toString v.toInt).toList (.ok (.value (.int v))) := by
  obtain ⟨negative, n, hv, hne⟩ := exists_signed v.toInt
  have hsign : Sign negative (if negative then "-" else "").toList := by
    cases negative with
    | false => exact .none
    | true => exact .minus .stop
  obtain ⟨hmatch, hvalue⟩ := numeral_repr n
  have hrange : InRange (signed negative (numeralValue .decimal n.repr.toList)) := by
    rw [hvalue, ← hv]
    exact inRange_toInt v
  obtain ⟨i, hi, hfound⟩ := expressionOf_inRange hsign hmatch hlimit hrange
  rw [hvalue, ← hv] at hi
  rw [hv, toString_signed hne, String.toList_append, ← Int64.toInt_inj.mp hi]
  exact hfound

/-- **Integer literals are exact.**  A numeral in any base that stands alone or after a minus sign,
    with anything between that separates tokens, is read as the token of its value if that fits into
    64 bits, and is refused as a whole otherwise; at any limit but zero its expression is the
    integer that it is with its sign if that is in range, and otherwise the error reports that
    integer at the place from the sign to the end. So every integer is read back from the text by
    which it is written, and whenever a text that begins with a digit cannot be read, it is a
    numeral too large. -/
theorem integer_literals_exact :
    (∀ negative sign base text, Sign negative sign → (numeral base).Matches text →
      NumeralExact negative sign text (numeralValue base text)) ∧
    (∀ limit, 0 < limit → ∀ v : Int64,
      ExpressionOf limit (toString v.toInt).toList (.ok (.value (.int v)))) ∧
    ∀ source e c cs, Token.lex source = .error e →
      Text.slice? e.span.start e.span.stop source.toList = some (c :: cs) → isDecimal c = true →
      e.cause = .outOfRange (String.ofList (c :: cs)) ∧
        ∃ base, (numeral base).Matches (c :: cs) ∧ 2 ^ 64 ≤ numeralValue base (c :: cs) := by
  refine ⟨?_, ?_, ?_⟩
  · intro negative sign base text hsign hmatch
    exact numeralExact hsign hmatch
  · intro limit hlimit v
    exact expressionOf_toString hlimit v
  · intro source e c cs herror hslice hc
    obtain ⟨text, -, hcovers, hblames⟩ := blames_of_lexFrom_error source.toList [] e herror
    obtain rfl := Option.some.inj (hcovers.slice.symm.trans hslice)
    exact hblames.of_isDecimal hc

/-- The least integer is in range, also where a line break stands after the sign, and a numeral of
    sixty-five bits is not. -/
theorem integer_literals_exact_least :
    ExpressionOf 1 "-\n0x8000000000000000".toList (.ok (.value (.int Int64.minValue))) ∧
      ExpressionOf 1 "-9223372036854775808".toList (.ok (.value (.int Int64.minValue))) ∧
      ∃ span, Token.lex "18446744073709551616" =
        .error ⟨span, .outOfRange "18446744073709551616"⟩ := by
  obtain ⟨hnumeral, hwritten, hfault⟩ := integer_literals_exact
  refine ⟨?_, hwritten 1 (by decide) Int64.minValue, ?_⟩
  · have hblank : blanks.Matches ['\n'] := Lexeme.matches_blanks_iff.mpr (by simp [isBlank])
    have hsign : Sign true ['-', '\n'] := .minus (.more (.left hblank) .stop)
    have hmatch : (numeral .hexadecimal).Matches "0x8000000000000000".toList :=
      Lexeme.matches_numeral_iff.mpr
        ⟨"8000000000000000".toList, ⟨by decide, List.all_eq_true.mp (by decide)⟩, rfl⟩
    have hvalue : signed true (numeralValue .hexadecimal "0x8000000000000000".toList) =
        Int64.minValue.toInt := by
      decide +kernel
    obtain ⟨i, hi, hfound⟩ := (hnumeral _ _ _ _ hsign hmatch).literal
      (by rw [hvalue]; exact inRange_toInt _) 1 (by decide)
    rw [hvalue] at hi
    rwa [Int64.toInt_inj.mp hi] at hfound
  · have hmatch : (numeral .decimal).Matches "18446744073709551616".toList :=
      Lexeme.matches_numeral_iff.mpr
        ⟨"18446744073709551616".toList, ⟨by decide, List.all_eq_true.mp (by decide)⟩, rfl⟩
    obtain ⟨⟨span, cause⟩, herror, rfl, -⟩ := (hnumeral _ _ _ _ .none hmatch).tooLarge
      (by decide +kernel)
    obtain ⟨rfl, -⟩ := hfault _ _ '1' "8446744073709551616".toList herror
      (by with_unfolding_all rfl) (by decide)
    exact ⟨_, herror⟩

end LetTree

import Mathlib.Data.Nat.Find
import LetTree.Proofs.Grammar.Acceptance
import LetTree.Proofs.Grammar.Round

/-!
# The limit on expressions

The limit cuts reading off and does nothing else. Two runs over the same tokens, one of them under a
greater limit, go through the same steps until the smaller limit is exceeded; if it never is, they
have the same outcome (`Refines`). Both checks of the limit are covered: a level of nesting is
opened by a token, and a tree is no higher than the tokens it is made of, so that a limit is only
exceeded by at least as many tokens. From this follows that every list of tokens has a threshold:
limits from there on have no effect, and smaller ones are exceeded.
-/

namespace LetTree

/-- The limit that a cause names, if it is about the limit. -/
def ParseCause.limit? : ParseCause → Option Nat
  | .tooDeep limit | .tooTall limit => some limit
  | _ => none

theorem ParseCause.limit?_eq_some_iff {cause : ParseCause} {limit : Nat} :
    cause.limit? = some limit ↔ cause = .tooDeep limit ∨ cause = .tooTall limit := by
  cases cause <;> simp [limit?]

theorem ParseError.eq_of_limit? {e : ParseError} {limit : Nat}
    (h : e.cause.limit? = some limit) :
    e = ⟨e.span, .tooDeep limit⟩ ∨ e = ⟨e.span, .tooTall limit⟩ := by
  obtain ⟨span, cause⟩ := e
  rcases ParseCause.limit?_eq_some_iff.mp h with hdeep | htall
  · exact .inl (by rw [← hdeep])
  · exact .inr (by rw [← htall])

namespace Parse

variable {α β : Type} {n limit : Nat}

/-! ### Outcomes under two limits -/

/-- The limit was exceeded, and with `n` tokens it could be. -/
def CutOff (n limit : Nat) (o : Except Stop (α × List Token.Placed)) : Prop :=
  ∃ stop, o = .error stop ∧ stop.error.cause.limit? = some limit ∧ limit ≤ n

/-- The limit had no part in the outcome, and no more than `n` tokens are left after a success. -/
def Unaffected (n : Nat) : Except Stop (α × List Token.Placed) → Prop
  | .ok (_, rest) => rest.length ≤ n
  | .error stop => stop.error.cause.limit? = none

/-- What `o`, an outcome under a limit, has to do with `o'`, the outcome under a greater one. -/
def Refines (n limit : Nat) (o o' : Except Stop (α × List Token.Placed)) : Prop :=
  CutOff n limit o ∨ (o' = o ∧ Unaffected n o)

/-- The same surroundings with a greater limit. -/
structure Raises (s s' : Surroundings) : Prop where
  limit : s.limit ≤ s'.limit
  depth : s'.depth = s.depth
  ending : s'.ending = s.ending

variable {s s' : Surroundings} {ts : List Token.Placed}

theorem Raises.place (h : Raises s s') (ts : List Token.Placed) :
    Parse.place s' ts = Parse.place s ts := by
  cases ts with
  | nil => exact h.ending
  | cons t ts => rfl

/-- What the step `q` does under a greater limit, for any of at most `n` tokens. -/
def Extends (n : Nat) (s s' : Surroundings) (p q : Parse α) : Prop :=
  ∀ ts, ts.length ≤ n → Refines n s.limit (p s ts) (q s' ts)

theorem Refines.bind {p q : Parse α} {f g : α → Parse β}
    (h : Refines n s.limit (p s ts) (q s' ts))
    (hf : ∀ a rest, p s ts = .ok (a, rest) → rest.length ≤ n →
      Refines n s.limit (f a s rest) (g a s' rest)) :
    Refines n s.limit ((p >>= f) s ts) ((q >>= g) s' ts) := by
  rcases h with ⟨stop, hstop, hcut⟩ | ⟨hsame, hfree⟩
  · exact .inl ⟨stop, bind_of_error hstop, hcut⟩
  · rcases hp : p s ts with stop | ⟨a, rest⟩
    · rw [hp] at hsame hfree
      rw [bind_of_error hp, bind_of_error hsame]
      exact .inr ⟨rfl, hfree⟩
    · rw [hp] at hsame hfree
      rw [bind_of_ok hp, bind_of_ok hsame]
      exact hf a rest hp hfree

theorem Extends.bind {p q : Parse α} {f g : α → Parse β} (h : Extends n s s' p q)
    (hf : ∀ a, Extends n s s' (f a) (g a)) : Extends n s s' (p >>= f) (q >>= g) := by
  intro ts hts
  exact (h ts hts).bind fun a rest _ hrest => hf a rest hrest

theorem pure_extends (a : α) : Extends n s s' (pure a : Parse α) (pure a) :=
  fun _ hts => .inr ⟨rfl, hts⟩

theorem Extends.ite {c : Prop} [Decidable c] {p p' q q' : Parse α} (hp : Extends n s s' p p')
    (hq : Extends n s s' q q') : Extends n s s' (if c then p else q) (if c then p' else q') := by
  by_cases hc : c
  · rw [if_pos hc, if_pos hc]
    exact hp
  · rw [if_neg hc, if_neg hc]
    exact hq

/-! ### Single tokens -/

theorem unexpected_refines (h : Raises s s') (expected : Expected) :
    Refines n s.limit ((unexpected expected : Parse α) s ts) (unexpected expected s' ts) := by
  refine .inr ⟨?_, rfl⟩
  rw [unexpected, unexpected, h.place]

theorem take_extends (h : Raises s s') (expected : Expected) (value? : Token → Option α) :
    Extends n s s' (take expected value?) (take expected value?) := by
  intro ts hts
  cases ts with
  | nil => exact unexpected_refines h expected
  | cons t rest =>
    simp only [take]
    cases value? t.token with
    | none => exact unexpected_refines h expected
    | some a => exact .inr ⟨rfl, Nat.le_of_succ_le hts⟩

theorem expect_extends (h : Raises s s') (token : Token) :
    Extends n s s' (expect token) (expect token) :=
  (take_extends h _ _).bind fun _ => pure_extends ()

theorem identifier_extends (h : Raises s s') : Extends n s s' identifier identifier :=
  take_extends h _ _

theorem type_extends (h : Raises s s') : Extends n s s' type type :=
  (take_extends h _ _).bind fun r => pure_extends r.1

theorem optional_extends (token : Token) : Extends n s s' (optional token) (optional token) := by
  intro ts hts
  refine .inr ⟨rfl, ?_⟩
  simp only [optional, Unaffected]
  split
  · rw [List.length_drop]
    omega
  · exact hts

/-! ### Repetition -/

theorem many_extends {done : List Token.Placed → Bool} {item : Parse α}
    (hitem : Extends n s s' item item) : Extends n s s' (many done item) (many done item) := by
  intro ts hts
  induction hn : ts.length using Nat.strongRecOn generalizing ts with
  | _ k ih =>
    subst hn
    cases hdone : done ts with
    | true =>
      rw [many, many, if_pos hdone, if_pos hdone]
      exact .inr ⟨rfl, hts⟩
    | false =>
      rw [many_round hdone, many_round hdone]
      apply (hitem ts hts).bind
      intro a rest _ hrest
      split
      · next hlt =>
        apply (ih rest.length hlt rest hrest rfl).bind
        intro as last _ hlast
        exact pure_extends (a :: as) last hlast
      · exact .inr ⟨rfl, hrest⟩

/-! ### Expressions -/

/-- An expression is at least as long as it is high. -/
theorem expressionIn_height {room : Nat} (hroom : room ≤ s.limit) {least : Nat}
    (hleast : least ≤ 17) {m : Measured} {rest : List Token.Placed}
    (h : expressionIn room least s ts = .ok (m, rest)) : m.height + rest.length ≤ ts.length := by
  obtain ⟨pre, rfl, ⟨f, htokens, -, -, -, rfl⟩, -⟩ :=
    (expressionIn_exactly hroom least hleast _ _ _).mp h
  have hheight := f.height_le_length
  rw [htokens, List.length_map] at hheight
  simpa only [Form.measured, List.length_append, Nat.add_le_add_iff_right] using hheight

theorem literal_refines (span : Span) (negative : Bool) (i : UInt64) (hts : ts.length ≤ n) :
    Refines n s.limit (literal span negative i s ts) (literal span negative i s' ts) := by
  unfold literal
  cases (if negative then negative? i else positive? i) with
  | none => exact .inr ⟨rfl, rfl⟩
  | some value => exact .inr ⟨rfl, hts⟩

theorem primary_refines (h : Raises s s') {inner inner' : Parse Measured} (hts : ts.length ≤ n)
    (hinner : ∀ us, us.length < ts.length → Refines n s.limit (inner s us) (inner' s' us)) :
    Refines n s.limit (primary inner s ts) (primary inner' s' ts) := by
  unfold primary
  split
  · next i span rest => exact literal_refines span false i (Nat.le_of_succ_le hts)
  · next text span rest =>
    split
    · split
      · next i last rest =>
        refine literal_refines (span.merge last) true i ?_
        simp only [List.length_cons] at hts
        omega
      · exact unexpected_refines h .integerLiteral
    · exact unexpected_refines h .expression
  · next text span rest => exact .inr ⟨rfl, Nat.le_of_succ_le hts⟩
  · next span rest =>
    refine (hinner rest (Nat.lt_succ_self _)).bind fun e rest' _ hrest => ?_
    exact (expect_extends h .rightParen).bind (fun _ => pure_extends e) rest' hrest
  · exact unexpected_refines h .expression

/-- The chain of operators after an operand. What has been read is no higher than it is long, which
    is what `hleft` keeps track of. -/
theorem operators_refines (h : Raises s s') {operand operand' : Nat → Parse Measured} {k : Nat}
    (hoperand : ∀ j ≤ 17, ∀ us, us.length ≤ k →
      Refines n s.limit (operand j s us) (operand' j s' us))
    (hheight : ∀ j ≤ 17, ∀ us m rest, operand j s us = .ok (m, rest) →
      m.height + rest.length ≤ us.length)
    {least : Nat} {left : Measured} (hleft : left.height + ts.length ≤ n) (hts : ts.length ≤ k) :
    Refines n s.limit (operators operand least left s ts)
      (operators operand' least left s' ts) := by
  induction hn : ts.length using Nat.strongRecOn generalizing ts left with
  | _ len ih =>
    subst hn
    induction ts using chain_cases least with
    | other ts hother =>
      rw [operators_other hother, operators_other hother]
      exact .inr ⟨rfl, Nat.le_trans (Nat.le_add_left _ _) hleft⟩
    | unknown text span rest hknown =>
      rw [operators_unknown hknown, operators_unknown hknown]
      exact .inr ⟨rfl, rfl⟩
    | loose text span rest hknown hpower =>
      rw [operators_loose hknown hpower, operators_loose hknown hpower]
      exact .inr ⟨rfl, Nat.le_trans (Nat.le_add_left _ _) hleft⟩
    | round text span rest hknown hpower =>
      simp only [List.length_cons] at hleft hts ih
      have hright17 := Operator.bindingPower_right_le (Operator.ofToken text)
      rw [operators_round hknown hpower, operators_round hknown hpower]
      apply (hoperand _ hright17 rest (by omega)).bind
      intro right rest' hright _
      have hbound := hheight _ hright17 rest right rest' hright
      by_cases htall : s.limit < max left.height right.height + 1
      · rw [if_pos htall]
        exact .inl ⟨_, rfl, rfl, by omega⟩
      · have htall' : ¬ s'.limit < max left.height right.height + 1 := by
          have := h.limit
          omega
        have hlength : rest'.length ≤ rest.length := by omega
        rw [if_neg htall, if_neg htall', if_pos hlength, if_pos hlength]
        exact ih rest'.length (by omega) (by dsimp only; omega) (by omega) rfl

theorem nested_refines {p q : Parse α} (h : Refines n s.limit (p s ts) (q s' ts)) :
    Refines n s.limit (nested p s ts) (nested q s' ts) := by
  unfold nested
  rcases h with ⟨stop, hstop, hcut⟩ | ⟨hsame, hfree⟩
  · rw [hstop]
    exact .inl ⟨_, rfl, hcut⟩
  · rw [hsame]
    cases hp : p s ts with
    | error stop =>
      rw [hp] at hfree
      exact .inr ⟨rfl, hfree⟩
    | ok r =>
      rw [hp] at hfree
      exact .inr ⟨rfl, hfree⟩

/-- A literal or a parenthesised expression takes a token for each level of its tree. -/
theorem primary_height {room : Nat} (hroom : room < s.limit) {m : Measured}
    {rest : List Token.Placed} (h : primary (expressionIn room 0) s ts = .ok (m, rest)) :
    m.height + rest.length ≤ ts.length ∧ rest.length < ts.length := by
  have hinner := expressionIn_exactly (Nat.le_of_lt hroom) 0 (by omega)
  obtain ⟨pre, rfl, ⟨f, htokens, -, -, -, rfl⟩, -⟩ :=
    (primary_exactly (by omega) hinner _ _ _).mp h
  have hheight := f.height_le_length
  have hneed := f.need_le_length
  have hpos := f.need_pos
  rw [htokens, List.length_map] at hheight hneed
  simp only [Form.measured, List.length_append]
  omega

/-- With room for so many levels left, all the others have been opened by tokens. -/
theorem expressionIn_refines (h : Raises s s') {room : Nat} (hroom : room ≤ s.limit) :
    ∀ room' ≥ room, ∀ least ≤ 17, ∀ ts, ts.length ≤ n → ts.length + s.limit ≤ n + room →
      Refines n s.limit (expressionIn room least s ts) (expressionIn room' least s' ts) := by
  induction room with
  | zero =>
    intro room' _ least _ ts _ hspent
    exact .inl ⟨_, rfl, rfl, by omega⟩
  | succ room ih =>
    intro room' hroom' least hleast ts hts hspent
    obtain ⟨room', rfl⟩ : ∃ k, room' = k + 1 := ⟨room' - 1, by omega⟩
    have hinside := ih (by omega) room' (by omega)
    apply nested_refines
    apply Refines.bind
    · apply primary_refines h hts
      intro us hus
      exact hinside 0 (by omega) us (by omega) (by omega)
    · intro first mid hfirst _
      obtain ⟨hheight, hshort⟩ := primary_height (by omega) hfirst
      apply operators_refines h (k := ts.length - 1)
      · intro j hj us hus
        exact hinside j hj us (by omega) (by omega)
      · intro j hj us m rest hm
        exact expressionIn_height (by omega) hj hm
      · omega
      · omega

theorem expression_extends (h : Raises s s') (hdepth : s.depth = 0) :
    Extends n s s' expression expression := by
  intro ts hts
  have hroom := expressionIn_refines (n := n) h (Nat.sub_le s.limit s.depth)
    (s'.limit - s'.depth) (by have := h.limit; have := h.depth; omega) 0 (by omega) ts hts
    (by omega)
  exact hroom.bind fun e rest _ hrest => pure_extends e.node rest hrest

/-! ### Programs -/

theorem binding_extends (h : Raises s s') (hdepth : s.depth = 0) :
    Extends n s s' binding binding := by
  refine (expect_extends h _).bind fun _ => ?_
  refine (identifier_extends h).bind fun name => ?_
  refine (expect_extends h _).bind fun _ => ?_
  refine (type_extends h).bind fun ty => ?_
  refine (expect_extends h _).bind fun _ => ?_
  refine (expression_extends h hdepth).bind fun init => ?_
  refine (expect_extends h _).bind fun _ => ?_
  exact pure_extends _

theorem parameter_extends (h : Raises s s') (taken : List String) :
    Extends n s s' (parameter taken) (parameter taken) := by
  refine (identifier_extends h).bind fun name => ?_
  refine (expect_extends h _).bind fun _ => ?_
  refine (type_extends h).bind fun ty => ?_
  apply Extends.ite
  · exact fun _ _ => .inr ⟨rfl, rfl⟩
  · exact pure_extends _

theorem parametersFrom_extends (h : Raises s s') (taken : List String) :
    Extends n s s' (parametersFrom taken) (parametersFrom taken) := by
  intro ts hts
  induction hn : ts.length using Nat.strongRecOn generalizing ts taken with
  | _ k ih =>
    subst hn
    rw [parametersFrom_round, parametersFrom_round]
    apply (parameter_extends h taken ts hts).bind
    intro p rest hone hrest
    split
    · next span rest' =>
      split
      · next hlt =>
        apply (ih rest'.length hlt (p.name :: taken) rest' (by omega) rfl).bind
        intro ps last _ hlast
        exact pure_extends (p :: ps) last hlast
      · exact .inr ⟨rfl, hrest⟩
    · exact .inr ⟨rfl, hrest⟩

theorem parameters_extends (h : Raises s s') : Extends n s s' parameters parameters := by
  intro ts hts
  unfold parameters
  split
  · exact .inr ⟨rfl, hts⟩
  · exact parametersFrom_extends h [] ts hts

theorem function_extends (h : Raises s s') (hdepth : s.depth = 0) :
    Extends n s s' function function := by
  refine (expect_extends h _).bind fun _ => ?_
  refine (identifier_extends h).bind fun name => ?_
  refine (expect_extends h _).bind fun _ => ?_
  refine (parameters_extends h).bind fun params => ?_
  refine (expect_extends h _).bind fun _ => ?_
  refine (optional_extends _).bind fun arrow => ?_
  have hbody : ∀ ty, Extends n s s'
      (do
        expect .leftBrace
        let body ← many (nextIs .rightBrace) binding
        expect .rightBrace
        return .function name.1 ty params body : Parse Node)
      (do
        expect .leftBrace
        let body ← many (nextIs .rightBrace) binding
        expect .rightBrace
        return .function name.1 ty params body : Parse Node) := by
    intro ty
    refine (expect_extends h _).bind fun _ => ?_
    refine (many_extends (binding_extends h hdepth)).bind fun body => ?_
    refine (expect_extends h _).bind fun _ => ?_
    exact pure_extends _
  cases arrow with
  | true => exact (type_extends h).bind hbody
  | false => exact (pure_extends Ty.void).bind hbody

theorem item_extends (h : Raises s s') (hdepth : s.depth = 0) : Extends n s s' item item := by
  intro ts hts
  unfold item
  split
  · exact binding_extends h hdepth ts hts
  · split
    · exact function_extends h hdepth ts hts
    · exact unexpected_refines h .item

theorem program_extends (h : Raises s s') (hdepth : s.depth = 0) :
    Extends n s s' program program :=
  (many_extends (item_extends h hdepth)).bind fun _ => pure_extends _

end Parse

/-- A result under a limit is an error that names the limit, which is no greater than the number of
    tokens; or it has nothing to do with the limit, and a greater limit does not change it. -/
theorem parse_refines {d d' : Nat} (h : d ≤ d') (tokens : List Token.Placed) :
    (∃ e, parse d tokens = .error e ∧ e.cause.limit? = some d ∧ d ≤ tokens.length) ∨
      (parse d' tokens = parse d tokens ∧
        ∀ e, parse d tokens = .error e → e.cause.limit? = none) := by
  have hraises : Parse.Raises ⟨d, 0, endOf tokens⟩ ⟨d', 0, endOf tokens⟩ := ⟨h, rfl, rfl⟩
  unfold parse
  rcases Parse.program_extends hraises rfl tokens (Nat.le_refl _) with
    ⟨stop, hstop, hcut⟩ | ⟨hsame, hfree⟩
  · rw [hstop]
    exact .inl ⟨stop.error, rfl, hcut⟩
  · rw [hsame]
    refine .inr ⟨rfl, ?_⟩
    cases hprogram : Parse.program ⟨d, 0, endOf tokens⟩ tokens with
    | error stop =>
      rw [hprogram] at hfree
      rintro e ⟨⟩
      exact hfree
    | ok r =>
      rintro e ⟨⟩

/-! ### The threshold -/

/-- The result is an error about the limit on nesting or the one on height. -/
def Limited (r : Except ParseError Node) : Prop :=
  ∃ span limit, r = .error ⟨span, .tooDeep limit⟩ ∨ r = .error ⟨span, .tooTall limit⟩

theorem limited_iff {r : Except ParseError Node} :
    Limited r ↔ ∃ e limit, r = .error e ∧ e.cause.limit? = some limit := by
  simp only [ParseCause.limit?_eq_some_iff]
  constructor
  · rintro ⟨span, limit, rfl | rfl⟩
    · exact ⟨_, limit, rfl, .inl rfl⟩
    · exact ⟨_, limit, rfl, .inr rfl⟩
  · rintro ⟨⟨span, cause⟩, limit, rfl, hcause | hcause⟩
    · exact ⟨span, limit, .inl (by rw [← hcause])⟩
    · exact ⟨span, limit, .inr (by rw [← hcause])⟩

theorem parse_of_not_limited {d d' : Nat} {tokens : List Token.Placed} (h : d ≤ d')
    (hfree : ¬ Limited (parse d tokens)) : parse d' tokens = parse d tokens := by
  rcases parse_refines h tokens with ⟨e, he, hcause, -⟩ | ⟨hsame, -⟩
  · exact absurd (limited_iff.mpr ⟨e, d, he, hcause⟩) hfree
  · exact hsame

theorem not_limited_of_length_lt {d : Nat} {tokens : List Token.Placed}
    (h : tokens.length < d) : ¬ Limited (parse d tokens) := by
  intro hlimited
  obtain ⟨e, limit, he, hcause⟩ := limited_iff.mp hlimited
  rcases parse_refines (Nat.le_refl d) tokens with ⟨-, -, -, hle⟩ | ⟨-, hfree⟩
  · omega
  · rw [hfree e he] at hcause
    cases hcause

theorem names_limit_of_limited {d : Nat} {tokens : List Token.Placed}
    (h : Limited (parse d tokens)) :
    ∃ span, parse d tokens = .error ⟨span, .tooDeep d⟩ ∨
      parse d tokens = .error ⟨span, .tooTall d⟩ := by
  obtain ⟨e, limit, he, hcause⟩ := limited_iff.mp h
  rcases parse_refines (Nat.le_refl d) tokens with ⟨e', he', hcause', -⟩ | ⟨-, hfree⟩
  · refine ⟨e'.span, ?_⟩
    rw [he', Except.error.injEq, Except.error.injEq]
    exact ParseError.eq_of_limit? hcause'
  · rw [hfree e he] at hcause
    cases hcause

/-- **The limit only cuts off.**  A result that is not about the limit stays the same under every
    greater limit, and a limit above the number of tokens is never exceeded. So there is a threshold
    for each list of tokens: from there on every limit gives the same result, and every smaller one
    fails with an error that names it. -/
theorem parse_limit_threshold (tokens : List Token.Placed) :
    (∀ d d', d ≤ d' → ¬ Limited (parse d tokens) → parse d' tokens = parse d tokens) ∧
    (∀ d, tokens.length + 1 ≤ d → ¬ Limited (parse d tokens)) ∧
    ∃ threshold ≤ tokens.length + 1, ∃ unlimited, ¬ Limited unlimited ∧
      (∀ d, threshold ≤ d → parse d tokens = unlimited) ∧
      ∀ d < threshold, ∃ span, parse d tokens = .error ⟨span, .tooDeep d⟩ ∨
        parse d tokens = .error ⟨span, .tooTall d⟩ := by
  classical
  have hlong : ∀ d, tokens.length + 1 ≤ d → ¬ Limited (parse d tokens) :=
    fun d hd => not_limited_of_length_lt hd
  have hexists : ∃ d, ¬ Limited (parse d tokens) := ⟨_, hlong _ (Nat.le_refl _)⟩
  have hspec := Nat.find_spec hexists
  refine ⟨fun d d' => parse_of_not_limited, hlong, Nat.find hexists,
    Nat.find_min' hexists (hlong _ (Nat.le_refl _)), parse (Nat.find hexists) tokens, hspec, ?_, ?_⟩
  · intro d hd
    exact parse_of_not_limited hd hspec
  · intro d hd
    exact names_limit_of_limited (not_not.mp (Nat.find_min hexists hd))

/-- `let x: int = ((1)) + 2;`: three levels are open at once, so that the limit 3 is enough, as is
    every greater one, and 2 is not. -/
theorem parse_limit_threshold_parentheses :
    let tokens : List Token.Placed :=
      [⟨.letWord, ⟨0, 3⟩⟩, ⟨.identifier "x", ⟨4, 5⟩⟩, ⟨.colon, ⟨5, 6⟩⟩, ⟨.type .int, ⟨7, 10⟩⟩,
        ⟨.equals, ⟨11, 12⟩⟩, ⟨.leftParen, ⟨13, 14⟩⟩, ⟨.leftParen, ⟨14, 15⟩⟩,
        ⟨.integer 1, ⟨15, 16⟩⟩, ⟨.rightParen, ⟨16, 17⟩⟩, ⟨.rightParen, ⟨17, 18⟩⟩,
        ⟨.operator "+", ⟨19, 20⟩⟩, ⟨.integer 2, ⟨21, 22⟩⟩, ⟨.semicolon, ⟨22, 23⟩⟩]
    parse 2 tokens = .error ⟨⟨15, 16⟩, .tooDeep 2⟩ ∧
      parse 1000 tokens = .ok (.statements [.binding ⟨.int, "x"⟩
        (.binary .add (.value (.int 1)) (.value (.int 2)))]) := by
  intro tokens
  have hthree : parse 3 tokens = .ok (.statements [.binding ⟨.int, "x"⟩
      (.binary .add (.value (.int 1)) (.value (.int 2)))]) := by
    with_unfolding_all rfl
  have hfree : ¬ Limited (parse 3 tokens) := by
    rw [hthree]
    rintro ⟨span, limit, h | h⟩ <;> cases h
  refine ⟨by with_unfolding_all rfl, ?_⟩
  rw [(parse_limit_threshold tokens).1 3 1000 (by decide) hfree, hthree]

end LetTree

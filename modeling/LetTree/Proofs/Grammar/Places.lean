import LetTree.Proofs.Grammar.Round

/-!
# Places of errors

Every step leaves an end part of its tokens, and where it stops with an error, the place of the
error is one of few: that of a token, the end of all tokens, or the range from a minus sign to the
numeral after it. `Remains` says both of an outcome. It is passed on by sequences, so that only the
steps that look at tokens themselves, and those that report a place which they have passed, need an
argument of their own.
-/

namespace LetTree

namespace Parse

variable {α β : Type} {s : Surroundings} {ts us : List Token.Placed}

/-- The places that an error over some tokens may have. -/
inductive Located (ending : Span) (ts : List Token.Placed) : Span → Prop where
  | token {t : Token.Placed} (h : t ∈ ts) : Located ending ts t.span
  | ending : Located ending ts ending
  | signed {minus number : Span} {n : UInt64}
      (h : [⟨.operator "-", minus⟩, ⟨.integer n, number⟩] <:+: ts) :
      Located ending ts (minus.merge number)

theorem Located.mono {ending span : Span} (h : Located ending us span) (hus : us <:+ ts) :
    Located ending ts span := by
  cases h with
  | token h => exact .token (hus.subset h)
  | ending => exact .ending
  | signed h => exact .signed (h.trans hus.isInfix)

theorem located_place (s : Surroundings) (ts : List Token.Placed) :
    Located s.ending ts (place s ts) := by
  cases ts with
  | nil => exact .ending
  | cons t ts => exact .token List.mem_cons_self

/-- The tokens left by an outcome are an end part of `ts`, and an error has its place there. -/
def Remains (s : Surroundings) (ts : List Token.Placed) :
    Except Stop (α × List Token.Placed) → Prop
  | .ok (_, rest) => rest <:+ ts
  | .error stop => stop.rest <:+ ts ∧ Located s.ending ts stop.error.span

/-- A step that reports no place other than those of the tokens it was given. -/
def Local (s : Surroundings) (p : Parse α) : Prop := ∀ ts, Remains s ts (p s ts)

theorem Remains.mono {o : Except Stop (α × List Token.Placed)} (h : Remains s us o)
    (hus : us <:+ ts) : Remains s ts o := by
  rcases o with stop | ⟨a, rest⟩
  · exact ⟨h.1.trans hus, h.2.mono hus⟩
  · exact List.IsSuffix.trans h hus

theorem Remains.bind {p : Parse α} {f : α → Parse β} (h : Remains s ts (p s us))
    (hf : ∀ a rest, p s us = .ok (a, rest) → rest <:+ ts → Remains s ts (f a s rest)) :
    Remains s ts ((p >>= f) s us) := by
  rcases hp : p s us with stop | ⟨a, rest⟩
  · rw [hp] at h
    rw [bind_of_error hp]
    exact h
  · rw [hp] at h
    rw [bind_of_ok hp]
    exact hf a rest hp h

theorem Local.bind {p : Parse α} {f : α → Parse β} (h : Local s p) (hf : ∀ a, Local s (f a)) :
    Local s (p >>= f) :=
  fun ts => (h ts).bind fun a rest _ hrest => (hf a rest).mono hrest

theorem pure_local (a : α) : Local s (pure a : Parse α) := fun ts => List.suffix_refl ts

theorem Remains.ite {c : Prop} [Decidable c] {p q : Parse α} (hp : Remains s ts (p s us))
    (hq : Remains s ts (q s us)) : Remains s ts ((if c then p else q) s us) := by
  by_cases hc : c
  · rw [if_pos hc]
    exact hp
  · rw [if_neg hc]
    exact hq

/-! ### Single tokens -/

theorem unexpected_local (expected : Expected) : Local s (unexpected expected : Parse α) :=
  fun ts => ⟨List.suffix_refl ts, located_place s ts⟩

theorem take_local (expected : Expected) (value? : Token → Option α) :
    Local s (take expected value?) := by
  intro ts
  cases ts with
  | nil => exact unexpected_local expected []
  | cons t rest =>
    simp only [take]
    cases value? t.token with
    | none => exact unexpected_local expected (t :: rest)
    | some a => exact List.suffix_cons t rest

theorem expect_local (token : Token) : Local s (expect token) :=
  (take_local _ _).bind fun _ => pure_local ()

theorem identifier_local : Local s identifier := take_local _ _

theorem type_local : Local s type := (take_local _ _).bind fun r => pure_local r.1

theorem optional_local (token : Token) : Local s (optional token) := by
  intro ts
  simp only [optional, Remains]
  split
  · exact List.drop_suffix 1 ts
  · exact List.suffix_refl ts

/-! ### Repetition -/

theorem many_local {done : List Token.Placed → Bool} {item : Parse α} (hitem : Local s item) :
    Local s (many done item) := by
  intro ts
  induction hn : ts.length using Nat.strongRecOn generalizing ts with
  | _ n ih =>
    subst hn
    cases hdone : done ts with
    | true =>
      rw [many, if_pos hdone]
      exact List.suffix_refl ts
    | false =>
      rw [many_round hdone]
      apply (hitem ts).bind
      intro a rest _ hrest
      split
      · next hlt =>
        have hmore := (ih rest.length hlt rest rfl).mono hrest
        exact hmore.bind fun as last _ hlast => hlast
      · exact hrest

/-! ### Expressions -/

theorem literal_remains {span : Span} (hspan : Located s.ending ts span) (hus : us <:+ ts)
    (negative : Bool) (n : UInt64) : Remains s ts (literal span negative n s us) := by
  rw [literal]
  cases (if negative then negative? n else positive? n) with
  | none => exact ⟨hus, hspan⟩
  | some i => exact hus

theorem primary_local {inner : Parse Measured} (hinner : Local s inner) :
    Local s (primary inner) := by
  intro ts
  unfold primary
  split
  · exact literal_remains (.token List.mem_cons_self) (List.suffix_cons _ _) _ _
  · next text span rest =>
    split
    · next htext =>
      split
      · next n last rest =>
        -- Both tokens have been taken when the literal turns out too large.
        subst htext
        refine literal_remains (.signed (n := n) ?_) ?_ true n
        · exact (List.prefix_append [⟨.operator "-", span⟩, ⟨.integer n, last⟩] rest).isInfix
        · exact (List.suffix_cons _ _).trans (List.suffix_cons _ _)
      · exact (unexpected_local .integerLiteral rest).mono (List.suffix_cons _ _)
    · exact unexpected_local .expression _
  · exact List.suffix_cons _ _
  · next span rest =>
    have hgroup : Local s (do
        let e ← inner
        expect .rightParen
        return e : Parse Measured) :=
      hinner.bind fun e => (expect_local _).bind fun _ => pure_local e
    exact (hgroup rest).mono (List.suffix_cons _ _)
  · exact unexpected_local .expression ts

theorem operators_local {operand : Nat → Parse Measured} (hoperand : ∀ j, Local s (operand j))
    (least : Nat) (left : Measured) : Local s (operators operand least left) := by
  intro ts
  induction hn : ts.length using Nat.strongRecOn generalizing ts left with
  | _ n ih =>
    subst hn
    induction ts using chain_cases least with
    | other ts hother =>
      rw [operators_other hother]
      exact List.suffix_refl ts
    | unknown text span rest hknown =>
      rw [operators_unknown hknown]
      exact ⟨List.suffix_refl _, .token List.mem_cons_self⟩
    | loose text span rest hknown hpower =>
      rw [operators_loose hknown hpower]
      exact List.suffix_refl _
    | round text span rest hknown hpower =>
      rw [operators_round hknown hpower]
      apply ((hoperand _ rest).mono (List.suffix_cons _ _)).bind
      intro right rest' _ hrest'
      split
      · -- The place of a tree that is too high is that of its operator.
        exact ⟨hrest', .token List.mem_cons_self⟩
      · split
        · next hlength =>
          exact (ih rest'.length (Nat.lt_succ_of_le hlength) _ rest' rfl).mono hrest'
        · exact hrest'

theorem nested_local {p : Parse α} (h : Local s p) : Local s (nested p) := by
  intro ts
  have hp := h ts
  unfold nested
  rcases hrun : p s ts with stop | r
  · rw [hrun] at hp
    exact hp
  · rw [hrun] at hp
    exact hp

theorem expressionIn_local (room : Nat) : ∀ least, Local s (expressionIn room least) := by
  induction room with
  | zero => exact fun _ ts => ⟨List.suffix_refl ts, located_place s ts⟩
  | succ room ih =>
    intro least
    have hinside : Local s (do
        let first ← primary (expressionIn room 0)
        operators (expressionIn room) least first) :=
      (primary_local (ih 0)).bind fun first => operators_local ih least first
    exact nested_local hinside

theorem expression_local : Local s expression := by
  intro ts
  exact (expressionIn_local _ 0 ts).bind fun e rest _ hrest => hrest

/-! ### Programs -/

theorem binding_local : Local s binding := by
  refine (expect_local _).bind fun _ => ?_
  refine identifier_local.bind fun name => ?_
  refine (expect_local _).bind fun _ => ?_
  refine type_local.bind fun ty => ?_
  refine (expect_local _).bind fun _ => ?_
  refine expression_local.bind fun init => ?_
  refine (expect_local _).bind fun _ => ?_
  exact pure_local _

/-- A name that was taken before is reported at its own place, after its type has been read. -/
theorem parameter_local (taken : List String) : Local s (parameter taken) := by
  intro ts
  apply (identifier_local ts).bind
  rintro ⟨name, span⟩ rest hname hrest
  obtain rfl := identifier_eq_ok_iff.mp hname
  apply ((expect_local .colon rest).mono hrest).bind
  intro _ rest _ hrest
  apply ((type_local rest).mono hrest).bind
  intro ty rest _ hrest
  apply Remains.ite
  · exact ⟨hrest, .token List.mem_cons_self⟩
  · exact hrest

theorem parametersFrom_local (taken : List String) : Local s (parametersFrom taken) := by
  intro ts
  induction hn : ts.length using Nat.strongRecOn generalizing ts taken with
  | _ n ih =>
    subst hn
    rw [parametersFrom_round]
    apply (parameter_local taken ts).bind
    intro p rest hone hrest
    split
    · next span rest' =>
      split
      · next hlt =>
        have hothers := ih rest'.length hlt (p.name :: taken) rest' rfl
        have hmore := hothers.mono ((List.suffix_cons _ _).trans hrest)
        exact hmore.bind fun ps last _ hlast => hlast
      · exact hrest
    · exact hrest

theorem parameters_local : Local s parameters := by
  intro ts
  unfold parameters
  split
  · exact List.suffix_refl ts
  · exact parametersFrom_local [] ts

theorem function_local : Local s function := by
  refine (expect_local _).bind fun _ => ?_
  refine identifier_local.bind fun name => ?_
  refine (expect_local _).bind fun _ => ?_
  refine parameters_local.bind fun params => ?_
  refine (expect_local _).bind fun _ => ?_
  refine (optional_local _).bind fun arrow => ?_
  have hbody : ∀ ty, Local s (do
      expect .leftBrace
      let body ← many (nextIs .rightBrace) binding
      expect .rightBrace
      return .function name.1 ty params body : Parse Node) := by
    intro ty
    refine (expect_local _).bind fun _ => ?_
    refine (many_local binding_local).bind fun body => ?_
    refine (expect_local _).bind fun _ => ?_
    exact pure_local _
  cases arrow with
  | true => exact type_local.bind hbody
  | false => exact (pure_local Ty.void).bind hbody

theorem item_local : Local s item := by
  intro ts
  unfold item
  split
  · exact binding_local ts
  · split
    · exact function_local ts
    · exact unexpected_local .item ts

theorem program_local : Local s program :=
  (many_local item_local).bind fun _ => pure_local _

end Parse

theorem parse_error_located {limit : Nat} {tokens : List Token.Placed} {e : ParseError}
    (h : parse limit tokens = .error e) : Parse.Located (endOf tokens) tokens e.span := by
  have hprogram : Parse.Remains ⟨limit, 0, endOf tokens⟩ tokens
      (Parse.program ⟨limit, 0, endOf tokens⟩ tokens) := Parse.program_local tokens
  rw [parse] at h
  split at h
  · cases h
  · next stop hstop =>
    cases h
    rw [hstop] at hprogram
    exact hprogram.2

end LetTree

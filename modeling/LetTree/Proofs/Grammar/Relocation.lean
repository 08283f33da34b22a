import LetTree.Grammar.Program
import LetTree.Proofs.Grammar.Step
import LetTree.Proofs.Source.Relocation

/-!
# Steps and places

A step looks at tokens and never at their places, which it only passes on or merges. So a map of
places that commutes with merging can be applied to the tokens before a step or to its outcome after
it, with the same result (`items_stable`). That holds of every step of the grammar reader, whether
it succeeds or stops.
-/

namespace LetTree

namespace Parse

variable {φ : Span → Span} {α β : Type}

/-- The outcome of a step at other places; `f` says what becomes of the result. -/
def outcome (φ : Span → Span) (f : α → α) :
    Except Stop (α × List Token.Placed) → Except Stop (α × List Token.Placed)
  | .ok (a, rest) => .ok (f a, rest.map (·.relocate φ))
  | .error stop => .error (stop.relocate φ)

/-- At other places the step `q` has the outcome of `p`. -/
def Follows (φ : Span → Span) (f : α → α) (p q : Parse α) : Prop :=
  ∀ s ts, q (s.relocate φ) (ts.map (·.relocate φ)) = outcome φ f (p s ts)

/-- A step whose result has no places in it, and whose outcome moves with the tokens. -/
def Stable (φ : Span → Span) (p : Parse α) : Prop := Follows φ id p p

theorem Follows.bind {f : α → α} {g : β → β} {p q : Parse α} {F G : α → Parse β}
    (h : Follows φ f p q) (hF : ∀ a, Follows φ g (F a) (G (f a))) :
    Follows φ g (p >>= F) (q >>= G) := by
  intro s ts
  have hq := h s ts
  cases hp : p s ts with
  | ok r =>
    rw [hp] at hq
    rw [bind_of_ok hq, bind_of_ok hp]
    exact hF r.1 s r.2
  | error stop =>
    rw [hp] at hq
    rw [bind_of_error hq, bind_of_error hp]
    rfl

theorem Stable.bind {g : β → β} {p : Parse α} {F G : α → Parse β} (h : Stable φ p)
    (hF : ∀ a, Follows φ g (F a) (G a)) : Follows φ g (p >>= F) (p >>= G) :=
  Follows.bind h hF

theorem pure_stable (a : α) : Stable φ (pure a : Parse α) := fun _ _ => rfl

theorem Follows.ite {c : Prop} [Decidable c] {f : α → α} {p p' q q' : Parse α}
    (hp : Follows φ f p p') (hq : Follows φ f q q') :
    Follows φ f (if c then p else q) (if c then p' else q') := by
  by_cases hc : c
  · rw [if_pos hc, if_pos hc]
    exact hp
  · rw [if_neg hc, if_neg hc]
    exact hq

/-! ### Single tokens -/

theorem place_relocate (s : Surroundings) (ts : List Token.Placed) :
    place (s.relocate φ) (ts.map (·.relocate φ)) = φ (place s ts) := by
  cases ts <;> rfl

@[simp] theorem nextIs_relocate (token : Token) (ts : List Token.Placed) :
    nextIs token (ts.map (·.relocate φ)) = nextIs token ts := by
  cases ts <;> rfl

theorem unexpected_follows (f : α → α) (expected : Expected) :
    Follows φ f (unexpected expected : Parse α) (unexpected expected) := by
  intro s ts
  rw [unexpected, unexpected, place_relocate]
  cases ts <;> rfl

/-- The value of a token stays, its place moves. -/
theorem take_follows (expected : Expected) (value? : Token → Option α) :
    Follows φ (Prod.map id φ) (take expected value?) (take expected value?) := by
  intro s ts
  cases ts with
  | nil => exact unexpected_follows _ expected s []
  | cons t rest =>
    have hno : Follows φ (Prod.map id φ) (unexpected expected : Parse (α × Span))
        (unexpected expected) := unexpected_follows _ expected
    simp only [List.map_cons, take, Token.Placed.relocate]
    cases value? t.token with
    | some a => rfl
    | none => exact hno s (t :: rest)

theorem expect_stable (token : Token) : Stable φ (expect token) :=
  (take_follows _ _).bind fun _ => pure_stable ()

theorem identifier_follows : Follows φ (Prod.map id φ) identifier identifier :=
  take_follows _ _

theorem type_stable : Stable φ type :=
  (take_follows _ _).bind fun r => pure_stable r.1

theorem optional_stable (token : Token) : Stable φ (optional token) := by
  intro s ts
  simp only [optional, nextIs_relocate]
  cases hnext : nextIs token ts with
  | false => rfl
  | true => simp [outcome]

/-! ### Repetition -/

theorem many_stable {done : List Token.Placed → Bool} {item : Parse α}
    (hdone : ∀ ts, done (ts.map (·.relocate φ)) = done ts) (hitem : Stable φ item) :
    Stable φ (many done item) := by
  intro s ts
  induction hn : ts.length using Nat.strongRecOn generalizing ts with
  | _ n ih =>
    subst hn
    rw [many, many, hdone, hitem s ts]
    cases hd : done ts with
    | true => rfl
    | false =>
      cases item s ts with
      | error stop => rfl
      | ok r =>
        obtain ⟨a, rest⟩ := r
        by_cases hlt : rest.length < ts.length
        · have hmore := ih rest.length hlt rest rfl
          simp only [outcome, List.length_map, if_pos hlt, hmore]
          cases many done item s rest <;> rfl
        · simp [outcome, if_neg hlt]

/-! ### Expressions -/

theorem literal_follows (span : Span) (negative : Bool) (n : UInt64) :
    Follows φ id (literal span negative n) (literal (φ span) negative n) := by
  intro s ts
  rw [literal, literal]
  cases (if negative then negative? n else positive? n) <;> rfl

/-- The inside of parentheses with the closing one. -/
theorem group_stable {inner : Parse Measured} (hinner : Stable φ inner) :
    Stable φ (do
      let e ← inner
      expect .rightParen
      return e : Parse Measured) :=
  hinner.bind fun e => (expect_stable _).bind fun _ => pure_stable e

theorem primary_stable (hφ : Span.Respects φ) {inner : Parse Measured}
    (hinner : Stable φ inner) : Stable φ (primary inner) := by
  intro s ts
  have hno : Stable φ (unexpected .expression : Parse Measured) := unexpected_follows id _
  cases ts with
  | nil => exact hno s []
  | cons t rest =>
    obtain ⟨token, span⟩ := t
    cases token with
    | integer n => exact literal_follows span false n s rest
    | string text => rfl
    | leftParen => exact group_stable hinner s rest
    | operator text =>
      simp only [List.map_cons, Token.Placed.relocate_mk, primary]
      by_cases htext : text = "-"
      · rw [if_pos htext, if_pos htext]
        have hlit : Stable φ (unexpected .integerLiteral : Parse Measured) :=
          unexpected_follows id _
        cases rest with
        | nil => exact hlit s []
        | cons t rest =>
          obtain ⟨token, last⟩ := t
          cases token with
          | integer n =>
            simp only [List.map_cons, Token.Placed.relocate_mk]
            rw [← hφ span last]
            exact literal_follows (span.merge last) true n s rest
          | _ => exact hlit s (⟨_, last⟩ :: rest)
      · rw [if_neg htext, if_neg htext]
        exact hno s (⟨.operator text, span⟩ :: rest)
    | _ => exact hno s (⟨_, span⟩ :: rest)

theorem operators_stable {operand : Nat → Parse Measured}
    (hoperand : ∀ least, Stable φ (operand least)) (least : Nat) (left : Measured) :
    Stable φ (operators operand least left) := by
  intro s ts
  induction hn : ts.length using Nat.strongRecOn generalizing ts left with
  | _ n ih =>
    subst hn
    cases ts with
    | nil =>
      rw [operators.eq_def, operators.eq_def]
      rfl
    | cons t rest =>
      obtain ⟨token, span⟩ := t
      rw [operators.eq_def, operators.eq_def]
      cases token with
      | operator text =>
        simp only [List.map_cons, Token.Placed.relocate_mk]
        cases hknown : (Operator.ofToken text).known with
        | false => rfl
        | true =>
          by_cases hleast : (Operator.ofToken text).bindingPower.1 < least
          · simp [if_pos hleast, outcome]
          · rw [hoperand _ s rest]
            cases operand (Operator.ofToken text).bindingPower.2 s rest with
            | error stop => simp [if_neg hleast, outcome]
            | ok r =>
              obtain ⟨right, rest'⟩ := r
              simp only [Bool.not_true, Bool.false_eq_true, if_false, if_neg hleast, outcome, id,
                List.length_map]
              by_cases htall : s.limit < max left.height right.height + 1
              · simp [Surroundings.relocate, htall, Stop.relocate, ParseError.relocate]
              · by_cases hlt : rest'.length ≤ rest.length
                · have hmore := ih rest'.length (by simp; omega)
                    ⟨.binary (Operator.ofToken text) left.node right.node,
                      max left.height right.height + 1⟩ rest' rfl
                  simp only [Surroundings.relocate, if_neg htall, if_pos hlt] at hmore ⊢
                  exact hmore
                · simp [Surroundings.relocate, htall, hlt]
      | _ => rfl

theorem nested_stable {p : Parse α} (h : Stable φ p) : Stable φ (nested p) := by
  intro s ts
  rw [nested, nested, h s ts]
  cases p s ts <;> rfl

theorem expressionIn_stable (hφ : Span.Respects φ) (room : Nat) :
    ∀ least, Stable φ (expressionIn room least) := by
  induction room with
  | zero =>
    intro least s ts
    simp only [expressionIn, place_relocate]
    rfl
  | succ room ih =>
    intro least
    have hinside : Stable φ (do
        let first ← primary (expressionIn room 0)
        operators (expressionIn room) least first) :=
      (primary_stable hφ (ih 0)).bind fun first => operators_stable ih least first
    exact nested_stable hinside

theorem expression_stable (hφ : Span.Respects φ) : Stable φ expression := by
  intro s ts
  have hroom : Stable φ (do
      let e ← expressionIn (s.limit - s.depth) 0
      return e.node : Parse Node) :=
    (expressionIn_stable hφ _ 0).bind fun e => pure_stable e.node
  exact hroom s ts

/-! ### Programs -/

theorem binding_stable (hφ : Span.Respects φ) : Stable φ binding := by
  refine (expect_stable _).bind fun _ => ?_
  refine identifier_follows.bind ?_
  rintro ⟨name, span⟩
  refine (expect_stable _).bind fun _ => ?_
  refine type_stable.bind fun ty => ?_
  refine (expect_stable _).bind fun _ => ?_
  refine (expression_stable hφ).bind fun init => ?_
  refine (expect_stable _).bind fun _ => ?_
  exact pure_stable _

theorem parameter_stable (taken : List String) : Stable φ (parameter taken) := by
  refine identifier_follows.bind ?_
  rintro ⟨name, span⟩
  refine (expect_stable _).bind fun _ => ?_
  refine type_stable.bind fun ty => ?_
  exact Follows.ite (fun _ _ => rfl) (pure_stable _)

theorem parametersFrom_stable (taken : List String) : Stable φ (parametersFrom taken) := by
  intro s ts
  induction hn : ts.length using Nat.strongRecOn generalizing ts taken with
  | _ n ih =>
    subst hn
    rw [parametersFrom.eq_def, parametersFrom.eq_def, parameter_stable taken s ts]
    cases parameter taken s ts with
    | error stop => rfl
    | ok r =>
      obtain ⟨p, rest⟩ := r
      cases rest with
      | nil => rfl
      | cons t rest =>
        obtain ⟨token, span⟩ := t
        cases token with
        | comma =>
          simp only [outcome, List.map_cons, Token.Placed.relocate_mk, List.length_map, id]
          by_cases hlt : rest.length < ts.length
          · have hmore := ih rest.length hlt (p.name :: taken) rest rfl
            rw [if_pos hlt, if_pos hlt, hmore]
            cases parametersFrom (p.name :: taken) s rest <;> rfl
          · rw [if_neg hlt, if_neg hlt]
            rfl
        | _ => rfl

theorem parameters_stable : Stable φ parameters := by
  intro s ts
  rw [parameters, parameters, nextIs_relocate]
  cases nextIs .rightParen ts with
  | true => rfl
  | false => exact parametersFrom_stable [] s ts

theorem function_stable (hφ : Span.Respects φ) : Stable φ function := by
  refine (expect_stable _).bind fun _ => ?_
  refine identifier_follows.bind ?_
  rintro ⟨name, span⟩
  refine (expect_stable _).bind fun _ => ?_
  refine parameters_stable.bind fun params => ?_
  refine (expect_stable _).bind fun _ => ?_
  refine (optional_stable _).bind fun arrow => ?_
  have hbody : ∀ ty, Stable φ (do
      expect .leftBrace
      let body ← many (nextIs .rightBrace) binding
      expect .rightBrace
      return .function name ty params body : Parse Node) := by
    intro ty
    refine (expect_stable _).bind fun _ => ?_
    refine (many_stable (nextIs_relocate _) (binding_stable hφ)).bind fun body => ?_
    refine (expect_stable _).bind fun _ => ?_
    exact pure_stable _
  cases arrow with
  | true => exact type_stable.bind hbody
  | false => exact (pure_stable Ty.void).bind hbody

theorem item_stable (hφ : Span.Respects φ) : Stable φ item := by
  intro s ts
  rw [item, item, nextIs_relocate, nextIs_relocate]
  cases nextIs .letWord ts with
  | true => exact binding_stable hφ s ts
  | false =>
    cases nextIs .fnWord ts with
    | true => exact function_stable hφ s ts
    | false => exact unexpected_follows id .item s ts

theorem items_stable (hφ : Span.Respects φ) :
    Stable φ (many List.isEmpty item) :=
  many_stable (fun _ => List.isEmpty_map) (item_stable hφ)

end Parse

end LetTree

import LetTree.Grammar.Program
import LetTree.Proofs.Grammar.Step

/-!
# Rounds

The loops of the grammar reader, one round at a time. Each equation gives what a loop does at some
tokens as a sequence of steps: the first of them is the one that the loop repeats, and the loop
itself comes after it. With these equations, whatever is shown of sequences holds of loops by
induction on the tokens that are left.
-/

namespace LetTree

namespace Parse

variable {α β : Type} {s : Surroundings} {ts : List Token.Placed}

theorem bind_congr {p : Parse α} {f g : α → Parse β}
    (h : ∀ a rest, p s ts = .ok (a, rest) → f a s rest = g a s rest) :
    (p >>= f) s ts = (p >>= g) s ts := by
  rcases hp : p s ts with stop | ⟨a, rest⟩
  · rw [bind_of_error hp, bind_of_error hp]
  · rw [bind_of_ok hp, bind_of_ok hp, h a rest hp]

/-- A round of a repetition that does not end yet. -/
theorem many_round {done : List Token.Placed → Bool} {item : Parse α} (h : done ts = false) :
    many done item s ts =
      (item >>= fun a => fun s rest =>
        if rest.length < ts.length then (many done item >>= fun as => pure (a :: as)) s rest
        else .ok ([a], rest)) s ts := by
  rw [many, if_neg (by simp [h])]
  simp only [bind, pure]
  rcases item s ts with stop | ⟨a, rest⟩
  · rfl
  · dsimp only
    rcases many done item s rest with stop | ⟨as, last⟩ <;> rfl

/-- A repetition of a step that takes tokens is the step with the repetition after it. -/
theorem many_bind {done : List Token.Placed → Bool} {item : Parse α} (h : done ts = false)
    (hshort : ∀ a rest, item s ts = .ok (a, rest) → rest.length < ts.length) :
    many done item s ts =
      (item >>= fun a => many done item >>= fun as => pure (a :: as)) s ts := by
  rw [many_round h]
  apply bind_congr
  intro a rest hone
  rw [if_pos (hshort a rest hone)]

/-! ### Chains of operators -/

section Chain

variable {operand : Nat → Parse Measured} {least : Nat} {left : Measured} {text : String}
  {span : Span}

/-- The ways in which a chain of operators can go on: it ends because no operator comes next, an
    operator is not known or too loose, or there is another round. -/
theorem chain_cases {motive : List Token.Placed → Prop} (least : Nat)
    (other : ∀ ts, (∀ text span us, ts ≠ ⟨.operator text, span⟩ :: us) → motive ts)
    (unknown : ∀ text span us, (Operator.ofToken text).known = false →
      motive (⟨.operator text, span⟩ :: us))
    (loose : ∀ text span us, (Operator.ofToken text).known = true →
      (Operator.ofToken text).bindingPower.1 < least → motive (⟨.operator text, span⟩ :: us))
    (round : ∀ text span us, (Operator.ofToken text).known = true →
      least ≤ (Operator.ofToken text).bindingPower.1 → motive (⟨.operator text, span⟩ :: us))
    (ts : List Token.Placed) : motive ts := by
  by_cases hop : ∃ text span us, ts = ⟨.operator text, span⟩ :: us
  · obtain ⟨text, span, us, rfl⟩ := hop
    cases hknown : (Operator.ofToken text).known with
    | false => exact unknown text span us hknown
    | true =>
      rcases Nat.lt_or_ge (Operator.ofToken text).bindingPower.1 least with hlt | hge
      · exact loose text span us hknown hlt
      · exact round text span us hknown hge
  · simp only [not_exists] at hop
    exact other ts hop

theorem operators_other (h : ∀ text span us, ts ≠ ⟨.operator text, span⟩ :: us) :
    operators operand least left s ts = .ok (left, ts) := by
  rw [operators.eq_def]
  split
  · next text span us => exact absurd rfl (h text span us)
  · rfl

theorem operators_unknown (h : (Operator.ofToken text).known = false) :
    operators operand least left s (⟨.operator text, span⟩ :: ts) =
      .error ⟨⟨span, .unknownOperator text⟩, ⟨.operator text, span⟩ :: ts, 0⟩ := by
  rw [operators.eq_def]
  simp [h]

theorem operators_loose (hknown : (Operator.ofToken text).known = true)
    (hpower : (Operator.ofToken text).bindingPower.1 < least) :
    operators operand least left s (⟨.operator text, span⟩ :: ts) =
      .ok (left, ⟨.operator text, span⟩ :: ts) := by
  rw [operators.eq_def]
  simp [hknown, hpower]

/-- A round of a chain: an operator that is tight enough and its right operand. -/
theorem operators_round (hknown : (Operator.ofToken text).known = true)
    (hpower : least ≤ (Operator.ofToken text).bindingPower.1) :
    operators operand least left s (⟨.operator text, span⟩ :: ts) =
      (operand (Operator.ofToken text).bindingPower.2 >>= fun right => fun s rest =>
        if s.limit < max left.height right.height + 1 then
          .error ⟨⟨span, .tooTall s.limit⟩, rest, 0⟩
        else if rest.length ≤ ts.length then
          operators operand least ⟨.binary (Operator.ofToken text) left.node right.node,
            max left.height right.height + 1⟩ s rest
        else .ok (⟨.binary (Operator.ofToken text) left.node right.node,
            max left.height right.height + 1⟩, rest)) s ts := by
  rw [operators.eq_def]
  simp only [hknown, Nat.not_lt.mpr hpower, bind, Bool.not_true, Bool.false_eq_true, if_false]
  rcases operand (Operator.ofToken text).bindingPower.2 s ts with stop | ⟨right, rest⟩
  · rfl
  · rfl

/-- What a chain does with the right operand of an operator that stands at `span`: both operands are
    joined if the tree is not too high, and the chain goes on. -/
def joinRight (operand : Nat → Parse Measured) (least : Nat) (left : Measured) (op : Operator)
    (span : Span) (right : Measured) : Parse Measured := fun s rest =>
  if s.limit < max left.height right.height + 1 then .error ⟨⟨span, .tooTall s.limit⟩, rest, 0⟩
  else operators operand least
    ⟨.binary op left.node right.node, max left.height right.height + 1⟩ s rest

/-- A round of a chain whose operands do not give tokens back. -/
theorem operators_bind (hknown : (Operator.ofToken text).known = true)
    (hpower : least ≤ (Operator.ofToken text).bindingPower.1)
    (hshort : ∀ right rest,
      operand (Operator.ofToken text).bindingPower.2 s ts = .ok (right, rest) →
      rest.length ≤ ts.length) :
    operators operand least left s (⟨.operator text, span⟩ :: ts) =
      (operand (Operator.ofToken text).bindingPower.2 >>=
        joinRight operand least left (Operator.ofToken text) span) s ts := by
  rw [operators_round hknown hpower]
  apply bind_congr
  intro right rest hright
  simp only [joinRight, hshort right rest hright, if_true]

end Chain

/-! ### Parameters -/

/-- A round of a list of parameters: one parameter, and the others if a comma comes after it. -/
theorem parametersFrom_round {taken : List String} :
    parametersFrom taken s ts =
      (parameter taken >>= fun p => fun s rest =>
        match rest with
        | ⟨.comma, _⟩ :: rest' =>
          if rest'.length < ts.length then
            (parametersFrom (p.name :: taken) >>= fun ps => pure (p :: ps)) s rest'
          else .ok ([p], rest)
        | _ => .ok ([p], rest)) s ts := by
  rw [parametersFrom.eq_def]
  simp only [bind, pure]
  rcases parameter taken s ts with stop | ⟨p, rest⟩
  · rfl
  · dsimp only
    rcases rest with - | ⟨⟨token, span⟩, rest'⟩
    · rfl
    · cases token with
      | comma =>
        dsimp only
        rcases parametersFrom (p.name :: taken) s rest' with stop | ⟨ps, last⟩ <;> rfl
      | _ => rfl

/-- A list of parameters is one parameter, and the others if a comma comes after it. -/
theorem parametersFrom_bind {taken : List String}
    (hshort : ∀ p rest, parameter taken s ts = .ok (p, rest) → rest.length < ts.length) :
    parametersFrom taken s ts =
      (parameter taken >>= fun p => optional .comma >>= fun more =>
        if more = true then parametersFrom (p.name :: taken) >>= fun ps => pure (p :: ps)
        else pure [p]) s ts := by
  rw [parametersFrom_round]
  apply bind_congr
  intro p rest hone
  have hlt := hshort p rest hone
  rcases rest with - | ⟨⟨token, span⟩, rest'⟩
  · rfl
  · simp only [List.length_cons] at hlt
    by_cases hcomma : token = .comma
    · subst hcomma
      dsimp only
      rw [if_pos (by omega)]
      rfl
    · have hno : optional .comma s (⟨token, span⟩ :: rest') =
          .ok (false, ⟨token, span⟩ :: rest') := by
        simp [optional, hcomma]
      rw [bind_of_ok hno]
      cases token with
      | comma => exact absurd rfl hcomma
      | _ => rfl

end Parse

end LetTree

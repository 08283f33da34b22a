import LetTree.Proofs.Grammar.Form
import LetTree.Proofs.Grammar.Step

/-!
# Climbing through precedences

The reader of expressions knows no levels: it compares binding powers while it goes along. This file
shows that what it takes at a least power is exactly what the level of that power allows, at every
limit on nesting and height (`expression_exactly`).

Two facts carry the proof. A power is a level in disguise: for the powers that occur, half of a
least power is the loosest level it lets through. And when a right operand has been taken, the next
operator is too loose for it, so that what stands on its left by then may be its left operand.
-/

namespace LetTree

/-! ### Powers and levels -/

namespace Operator

theorem le_bindingPower_iff {op : Operator} (hop : op.known = true) {least : Nat}
    (hleast : least ≤ 17) : least ≤ op.bindingPower.1 ↔ least / 2 ≤ op.precedence := by
  cases op <;> cases hop <;> simp only [bindingPower, precedence] <;> omega

theorem bindingPower_right_half {op : Operator} (hop : op.known = true) :
    op.bindingPower.2 / 2 = op.rightLevel := by
  cases op with
  | unknown => cases hop
  | _ => rfl

theorem bindingPower_right_le (op : Operator) : op.bindingPower.2 ≤ 17 := by
  cases op <;> decide

end Operator

/-! ### Limited expressions -/

/-- The tokens of an expression of a level that needs no more than so much room and is no higher
    than the limit. -/
def Grammar.Within (k room limit : Nat) (ts : List Token) (m : Measured) : Prop :=
  ∃ f : Form, f.tokens = ts ∧ f.Fits k ∧ f.need ≤ room ∧ f.height ≤ limit ∧ f.measured = m

namespace Parse

open Grammar (Within)

/-- No expression of the level goes on at these tokens: the next one is not an operator, or it is
    one that belongs to a looser level. -/
def Stops (k : Nat) (ts : List Token.Placed) : Prop :=
  ∀ text span us, ts = ⟨.operator text, span⟩ :: us →
    (Operator.ofToken text).known = true ∧ (Operator.ofToken text).precedence < k

theorem Stops.mono {j k : Nat} {ts : List Token.Placed} (h : Stops j ts) (hjk : j ≤ k) :
    Stops k ts := by
  intro text span us hts
  obtain ⟨hknown, hlt⟩ := h text span us hts
  exact ⟨hknown, Nat.lt_of_lt_of_le hlt hjk⟩

/-- What follows a form belongs to none of the operands on its right edge. -/
def Closed : Form → List Token.Placed → Prop
  | .operation _ op _, ts => Stops op.rightLevel ts
  | _, _ => True

theorem closed_of_stops {f : Form} {k : Nat} {ts : List Token.Placed} (hfits : f.Fits k)
    (h : Stops k ts) : Closed f ts := by
  cases f with
  | operation left op right =>
    exact h.mono (Nat.le_trans hfits.2.1 op.precedence_le_rightLevel)
  | _ => trivial

/-- An operator is no part of a form that may be its left operand. -/
theorem closed_of_operator {f : Form} {op : Operator} (hop : op.known = true)
    (hfits : f.Fits op.leftLevel) (span : Span) (ts : List Token.Placed) :
    Closed f (⟨.operator op.text, span⟩ :: ts) := by
  cases f with
  | operation l inner r =>
    intro text span' us heq
    cases heq
    rw [Operator.ofToken_text op]
    exact ⟨hop, Operator.precedence_lt_rightLevel hfits.1 hfits.2.1⟩
  | _ => trivial

/-- A form that fits the level above all operators is a literal or stands in parentheses. -/
theorem fits_of_fits_nine {f : Form} (h : f.Fits 9) (k : Nat) : f.Fits k := by
  cases f with
  | operation left op right =>
    have hle := Operator.precedence_le_eight h.1
    have := h.2.1
    omega
  | _ => exact h

variable {s : Surroundings} {room : Nat}

/-! ### Literals and parentheses -/

theorem literal?_of_fits {negative : Bool} {n : UInt64} (h : (Form.integer negative n).Fits 9) :
    (if negative then negative? n else positive? n) = some (Form.literalValue negative n) := by
  cases negative with
  | false =>
    have hn : n.toNat ≤ 2 ^ 63 - 1 := h
    have hle : (n.toNat : Int) ≤ Int64.maxValue.toInt := by
      rw [Int64.toInt_maxValue]
      omega
    exact if_pos hle
  | true =>
    have hn : n.toNat ≤ 2 ^ 63 := h
    have hle : Int64.minValue.toInt ≤ -(n.toNat : Int) := by
      rw [Int64.toInt_minValue]
      omega
    exact if_pos hle

theorem literal?_of_not_fits {negative : Bool} {n : UInt64}
    (h : ¬ (Form.integer negative n).Fits 9) :
    (if negative then negative? n else positive? n) = none := by
  cases negative with
  | false =>
    have hn : ¬ n.toNat ≤ 2 ^ 63 - 1 := h
    have hlt : ¬ (n.toNat : Int) ≤ Int64.maxValue.toInt := by
      rw [Int64.toInt_maxValue]
      omega
    exact if_neg hlt
  | true =>
    have hn : ¬ n.toNat ≤ 2 ^ 63 := h
    have hlt : ¬ Int64.minValue.toInt ≤ -(n.toNat : Int) := by
      rw [Int64.toInt_minValue]
      omega
    exact if_neg hlt

theorem literal_eq_ok_iff {span : Span} {negative : Bool} {n : UInt64} {m : Measured}
    {ts rest : List Token.Placed} :
    literal span negative n s ts = .ok (m, rest) ↔
      ts = rest ∧ (Form.integer negative n).Fits 9 ∧ (Form.integer negative n).measured = m := by
  by_cases hfits : (Form.integer negative n).Fits 9
  · rw [literal, literal?_of_fits hfits]
    constructor
    · intro h
      cases h
      exact ⟨rfl, hfits, rfl⟩
    · rintro ⟨rfl, -, rfl⟩
      rfl
  · rw [literal, literal?_of_not_fits hfits]
    constructor
    · intro h
      cases h
    · rintro ⟨-, h, -⟩
      exact absurd h hfits

theorem group_eq_ok_iff {inner : Parse Measured} {m : Measured} {ts rest : List Token.Placed} :
    (do
      let e ← inner
      expect .rightParen
      return e : Parse Measured) s ts = .ok (m, rest) ↔
      ∃ span, inner s ts = .ok (m, ⟨.rightParen, span⟩ :: rest) := by
  simp only [bind_eq_ok_iff, expect_eq_ok_iff, pure_eq_ok_iff]
  constructor
  · rintro ⟨e, mid, hinner, -, _, ⟨span, rfl⟩, rfl, rfl⟩
    exact ⟨span, hinner⟩
  · rintro ⟨span, hinner⟩
    exact ⟨m, _, hinner, (), rest, ⟨span, rfl⟩, rfl, rfl⟩

/-- A literal or a parenthesised expression is an expression of the level above all operators,
    whatever follows it. What stands in the parentheses has one level less. -/
theorem primary_exactly {inner : Parse Measured} (hlimit : 0 < s.limit)
    (hinner : Exactly inner s (Within 0 room s.limit) (Stops 0)) :
    Exactly (primary inner) s (Within 9 (room + 1) s.limit) fun _ => True := by
  intro ts m rest
  constructor
  · intro h
    unfold primary at h
    split at h
    · next n span us =>
      obtain ⟨rfl, hfits, rfl⟩ := literal_eq_ok_iff.mp h
      exact ⟨[_], rfl, ⟨.integer false n, rfl, hfits, by simp [Form.need], hlimit, rfl⟩, trivial⟩
    · next text span us =>
      split at h
      · next htext =>
        subst htext
        split at h
        · next n last vs =>
          obtain ⟨rfl, hfits, rfl⟩ := literal_eq_ok_iff.mp h
          exact ⟨[_, _], rfl, ⟨.integer true n, rfl, hfits, by simp [Form.need], hlimit, rfl⟩,
            trivial⟩
        · exact absurd h unexpected_ne_ok
      · exact absurd h unexpected_ne_ok
    · next text span us =>
      cases h
      exact ⟨[_], rfl, ⟨.string text, rfl, trivial, by simp [Form.need], hlimit, rfl⟩, trivial⟩
    · next span us =>
      obtain ⟨last, hin⟩ := group_eq_ok_iff.mp h
      obtain ⟨pre, rfl, ⟨f, htokens, hfits, hneed, hheight, rfl⟩, -⟩ := (hinner _ _ _).mp hin
      refine ⟨⟨.leftParen, span⟩ :: (pre ++ [⟨.rightParen, last⟩]), by simp, ?_, trivial⟩
      refine ⟨.group f, by simp [Form.tokens, htokens], hfits, ?_, hheight, rfl⟩
      simp only [Form.need]
      omega
    · exact absurd h unexpected_ne_ok
  · rintro ⟨pre, rfl, ⟨f, htokens, hfits, hneed, hheight, rfl⟩, -⟩
    cases f with
    | integer negative n =>
      cases negative with
      | false =>
        obtain ⟨⟨token, span⟩, rfl, rfl⟩ := List.map_eq_singleton_iff.mp htokens.symm
        exact (literal_eq_ok_iff (s := s)).mpr ⟨rfl, hfits, rfl⟩
      | true =>
        obtain ⟨⟨minus, span⟩, us, rfl, rfl, hus⟩ := List.map_eq_cons_iff.mp htokens.symm
        obtain ⟨⟨token, last⟩, rfl, rfl⟩ := List.map_eq_singleton_iff.mp hus
        exact (literal_eq_ok_iff (s := s)).mpr ⟨rfl, hfits, rfl⟩
    | string text =>
      obtain ⟨⟨token, span⟩, rfl, rfl⟩ := List.map_eq_singleton_iff.mp htokens.symm
      rfl
    | group f =>
      obtain ⟨⟨token, span⟩, us, rfl, rfl, hus⟩ := List.map_eq_cons_iff.mp htokens.symm
      obtain ⟨vs, ws, rfl, hvs, hws⟩ := List.map_eq_append_iff.mp hus
      obtain ⟨⟨token, last⟩, rfl, rfl⟩ := List.map_eq_singleton_iff.mp hws
      simp only [Form.need] at hneed
      refine group_eq_ok_iff.mpr ⟨last, (hinner _ _ _).mpr ⟨vs, by simp, ?_, ?_⟩⟩
      · exact ⟨f, hvs.symm, hfits, by omega, hheight, rfl⟩
      · intro text place more hmore
        simp at hmore
    | operation left op right =>
      have hle := Operator.precedence_le_eight hfits.1
      have := hfits.2.1
      omega

/-! ### Chains of operators -/

section Chain

variable {operand : Nat → Parse Measured} {least : Nat} {left : Measured}

theorem operators_of_stops (hleast : least ≤ 17) {ts : List Token.Placed}
    (h : Stops (least / 2) ts) : operators operand least left s ts = .ok (left, ts) := by
  rw [operators.eq_def]
  split
  · next text span us =>
    obtain ⟨hknown, hlt⟩ := h text span us rfl
    have hpower : (Operator.ofToken text).bindingPower.1 < least := by
      have := Operator.le_bindingPower_iff hknown hleast
      omega
    simp [hknown, hpower]
  · rfl

/-- One round: an operator that is tight enough, with its right operand. -/
theorem operators_cons (hleast : least ≤ 17) {op : Operator} (hop : op.known = true)
    (hlevel : least / 2 ≤ op.precedence) {span : Span} {us rest : List Token.Placed}
    {right : Measured} (hright : operand op.bindingPower.2 s us = .ok (right, rest))
    (hlength : rest.length ≤ us.length)
    (hheight : max left.height right.height + 1 ≤ s.limit) :
    operators operand least left s (⟨.operator op.text, span⟩ :: us) =
      operators operand least
        ⟨.binary op left.node right.node, max left.height right.height + 1⟩ s rest := by
  have hpower : ¬ op.bindingPower.1 < least := by
    have := Operator.le_bindingPower_iff hop hleast
    omega
  rw [operators.eq_def]
  simp only [Operator.ofToken_text op, hop, hpower, hright, hlength, Bool.not_true,
    Bool.false_eq_true, if_false, if_true]
  rw [if_neg (by omega)]

/-- What a chain of operators takes, given what stands on its left. The invariant of the chain is
    that the form on the left may be the left operand of whatever operator comes next. -/
theorem operators_sound
    (hoperand : ∀ j ≤ 17, Exactly (operand j) s (Within (j / 2) room s.limit) (Stops (j / 2)))
    (hleast : least ≤ 17) {f : Form} {ts rest : List Token.Placed} {m : Measured}
    (hfits : f.Fits (least / 2)) (hneed : f.need ≤ room + 1) (hheight : f.height ≤ s.limit)
    (hnext : ∀ text span us, ts = ⟨.operator text, span⟩ :: us →
      (Operator.ofToken text).known = true → f.Fits (Operator.ofToken text).leftLevel)
    (h : operators operand least f.measured s ts = .ok (m, rest)) :
    ∃ (g : Form) (pre : List Token.Placed), ts = pre ++ rest ∧
      g.tokens = f.tokens ++ pre.map Token.Placed.token ∧ g.Fits (least / 2) ∧
      g.need ≤ room + 1 ∧ g.height ≤ s.limit ∧ g.measured = m ∧ Stops (least / 2) rest := by
  induction hn : ts.length using Nat.strongRecOn generalizing ts f with
  | _ n ih =>
    subst hn
    rw [operators.eq_def] at h
    split at h
    · next text span us =>
      cases hknown : (Operator.ofToken text).known with
      | false => simp [hknown] at h
      | true =>
        simp only [hknown, Bool.not_true, Bool.false_eq_true, if_false] at h
        have hlevel := Operator.le_bindingPower_iff hknown hleast
        split at h
        · next hpower =>
          cases h
          refine ⟨f, [], rfl, by simp, hfits, hneed, hheight, rfl, ?_⟩
          intro text' span' us' heq
          cases heq
          exact ⟨hknown, by omega⟩
        · next hpower =>
          cases hright : operand (Operator.ofToken text).bindingPower.2 s us with
          | error stop => simp [hright] at h
          | ok r =>
            obtain ⟨right, rest'⟩ := r
            obtain ⟨pre, rfl, ⟨g, htokens, hgfits, hgneed, hgheight, rfl⟩, hstops⟩ :=
              (hoperand _ (Operator.bindingPower_right_le _) _ _ _).mp hright
            rw [Operator.bindingPower_right_half hknown] at hgfits hstops
            simp only [hright] at h
            split at h
            · cases h
            · next htall =>
              rw [if_pos (by simp)] at h
              -- The operator and both operands become the form on the left.
              have hjoined : (Form.operation f (Operator.ofToken text) g).Fits (least / 2) :=
                ⟨hknown, by omega, hnext text span _ rfl hknown, hgfits⟩
              have hshorter : rest'.length < (⟨.operator text, span⟩ :: (pre ++ rest')).length := by
                simp only [List.length_cons, List.length_append]
                omega
              obtain ⟨e, post, rfl, hetokens, he⟩ := ih rest'.length hshorter hjoined
                (by simp only [Form.need]; omega)
                (Nat.le_of_not_lt htall)
                (by
                  intro text' span' us' heq hknown'
                  obtain ⟨-, hlt⟩ := hstops text' span' us' heq
                  exact ⟨hknown, Operator.leftLevel_le_precedence hknown' hknown hlt,
                    hjoined.2.2⟩)
                h rfl
              refine ⟨e, ⟨.operator text, span⟩ :: (pre ++ post), by simp, ?_, he⟩
              rw [hetokens]
              simp [Form.tokens, Operator.text_ofToken hknown, htokens]
    · next hno =>
      cases h
      refine ⟨f, [], rfl, by simp, hfits, hneed, hheight, rfl, ?_⟩
      intro text span us heq
      exact absurd heq (hno text span us)

/-- A form that is read with enough room and height is on the left of what comes next, once its
    own tokens are taken. -/
theorem climb {inner : Parse Measured}
    (hprimary : Exactly (primary inner) s (Within 9 (room + 1) s.limit) fun _ => True)
    (hoperand : ∀ j ≤ 17, Exactly (operand j) s (Within (j / 2) room s.limit) (Stops (j / 2)))
    (hleast : least ≤ 17) (f : Form) :
    ∀ pre rest : List Token.Placed, pre.map Token.Placed.token = f.tokens →
      f.Fits (least / 2) → f.need ≤ room + 1 → f.height ≤ s.limit → Closed f rest →
      (primary inner >>= operators operand least) s (pre ++ rest) =
        operators operand least f.measured s rest := by
  have hatom : ∀ (g : Form) (pre rest : List Token.Placed), pre.map Token.Placed.token = g.tokens →
      g.Fits 9 → g.need ≤ room + 1 → g.height ≤ s.limit →
      (primary inner >>= operators operand least) s (pre ++ rest) =
        operators operand least g.measured s rest := by
    intro g pre rest htokens hfits hneed hheight
    have hone : primary inner s (pre ++ rest) = .ok (g.measured, rest) :=
      (hprimary _ _ _).mpr ⟨pre, rfl, ⟨g, htokens.symm, hfits, hneed, hheight, rfl⟩, trivial⟩
    exact bind_of_ok hone
  induction f with
  | integer negative n =>
    intro pre rest htokens hfits hneed hheight _
    exact hatom _ pre rest htokens hfits hneed hheight
  | string text =>
    intro pre rest htokens hfits hneed hheight _
    exact hatom _ pre rest htokens hfits hneed hheight
  | group g _ =>
    intro pre rest htokens hfits hneed hheight _
    exact hatom _ pre rest htokens hfits hneed hheight
  | operation left op right ihl _ =>
    intro pre rest htokens hfits hneed hheight hclosed
    obtain ⟨hknown, hlevel, hleft, hright⟩ := hfits
    obtain ⟨us, vs, rfl, hus, hvs⟩ := List.map_eq_append_iff.mp htokens
    obtain ⟨⟨token, span⟩, ws, rfl, rfl, hws⟩ := List.map_eq_cons_iff.mp hvs
    simp only [Form.need] at hneed
    simp only [Form.height] at hheight
    have hop := closed_of_operator hknown hleft span (ws ++ rest)
    have hlow : least / 2 ≤ op.leftLevel := Nat.le_trans hlevel op.precedence_le_leftLevel
    have hfirst := ihl us (⟨.operator op.text, span⟩ :: (ws ++ rest)) hus (hleft.mono hlow)
      (by omega) (by omega) hop
    have hsecond : operand op.bindingPower.2 s (ws ++ rest) = .ok (right.measured, rest) := by
      refine (hoperand _ (Operator.bindingPower_right_le op) _ _ _).mpr ⟨ws, rfl, ?_, ?_⟩
      · rw [Operator.bindingPower_right_half hknown]
        exact ⟨right, hws.symm, hright, by omega, by omega, rfl⟩
      · rw [Operator.bindingPower_right_half hknown]
        exact hclosed
    rw [List.append_assoc, List.cons_append, hfirst,
      operators_cons hleast hknown hlevel hsecond (by simp) hheight]
    rfl

end Chain

/-! ### Expressions -/

theorem expressionIn_exactly (hroom : room ≤ s.limit) :
    ∀ least ≤ 17, Exactly (expressionIn room least) s (Within (least / 2) room s.limit)
      (Stops (least / 2)) := by
  induction room with
  | zero =>
    intro least _ ts m rest
    constructor
    · intro h
      simp [expressionIn] at h
    · rintro ⟨pre, rfl, ⟨f, -, -, hneed, -⟩, -⟩
      have := f.need_pos
      omega
  | succ room ih =>
    intro least hleast ts m rest
    have hoperand := ih (by omega)
    have hprimary : Exactly (primary (expressionIn room 0)) s (Within 9 (room + 1) s.limit)
        fun _ => True := primary_exactly (by omega) (hoperand 0 (by omega))
    have hnested : expressionIn (room + 1) least s ts = .ok (m, rest) ↔
        (primary (expressionIn room 0) >>= operators (expressionIn room) least) s ts =
          .ok (m, rest) := by
      simp only [expressionIn, nested]
      split <;> simp_all
    rw [hnested]
    constructor
    · intro h
      obtain ⟨first, mid, hfirst, hchain⟩ := bind_eq_ok_iff.mp h
      obtain ⟨pre, rfl, ⟨f, htokens, hfits, hneed, hheight, rfl⟩, -⟩ := (hprimary _ _ _).mp hfirst
      obtain ⟨g, post, rfl, hgtokens, hgfits, hgneed, hgheight, rfl, hstops⟩ :=
        operators_sound hoperand hleast (fits_of_fits_nine hfits _) hneed hheight
          (fun _ _ _ _ _ => fits_of_fits_nine hfits _) hchain
      refine ⟨pre ++ post, by simp, ⟨g, ?_, hgfits, hgneed, hgheight, rfl⟩, hstops⟩
      rw [hgtokens, htokens, List.map_append]
    · rintro ⟨pre, rfl, ⟨f, htokens, hfits, hneed, hheight, rfl⟩, hstops⟩
      rw [climb hprimary hoperand hleast f pre rest htokens.symm hfits hneed hheight
        (closed_of_stops hfits hstops)]
      exact operators_of_stops hleast hstops

/-- The tokens of an expression that fits into the limits of the surroundings. -/
def Fitting (s : Surroundings) (ts : List Token) (e : Node) : Prop :=
  ∃ f : Form, f.tokens = ts ∧ f.Fits 0 ∧ f.need ≤ s.limit - s.depth ∧ f.height ≤ s.limit ∧
    f.node = e

/-- An expression is taken exactly where one stands that fits into the limits and no operator comes
    after it. -/
theorem expression_exactly : Exactly expression s (Fitting s) (Stops 0) := by
  intro ts e rest
  have hin : Exactly (expressionIn (s.limit - s.depth) 0) s _ _ :=
    expressionIn_exactly (Nat.sub_le _ _) 0 (by omega)
  simp only [expression, bind_eq_ok_iff, pure_eq_ok_iff]
  constructor
  · rintro ⟨m, mid, hm, rfl, rfl⟩
    obtain ⟨pre, rfl, ⟨f, htokens, hfits, hneed, hheight, rfl⟩, hstops⟩ := (hin ts m mid).mp hm
    exact ⟨pre, rfl, ⟨f, htokens, hfits, hneed, hheight, rfl⟩, hstops⟩
  · rintro ⟨pre, rfl, ⟨f, htokens, hfits, hneed, hheight, rfl⟩, hstops⟩
    refine ⟨f.measured, rest, (hin _ _ _).mpr ⟨pre, rfl, ?_, hstops⟩, rfl, rfl⟩
    exact ⟨f, htokens, hfits, hneed, hheight, rfl⟩

end Parse

end LetTree

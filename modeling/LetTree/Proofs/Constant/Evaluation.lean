import LetTree.Constant.Fold
import LetTree.Node.Teardown

/-!
# Folding is plain evaluation

Folding looks at an operand that is a constant before one that is itself a tree. Plain evaluation
goes from left to right instead. The values are the same: the order matters only for what is
reported when there is none, and then only in one situation, that of a constant on the right which
is not an integer, next to an operand that is not a constant. It is reported ahead of everything
that the left operand may have to report, an operator without meaning included.
-/

namespace LetTree

namespace Node

/-- The value of a tree by plain evaluation: the left operand, the right operand, then the
    operator. Only integers are values, and a binding stands for its initializer. -/
def evaluate : Node → Folded
  | binding _ init => init.evaluate
  | value (.int n) => .ok n
  | value v => .error (.error (.notInteger v.ty))
  | binary op left right => do
    let lhs ← left.evaluate
    let rhs ← right.evaluate
    op.fold lhs rhs
  | other => .error (.error (.notConstant other.kind))

/-- An operation on a tree and a constant that is not an integer, in this order. -/
inductive RefusedEarly : Node → Prop where
  | intro {op : Operator} {left : Node} {v : Value} (hleft : left.value? = none)
      (hv : v.int? = none) : RefusedEarly (.binary op left (.value v))

/-- A tree occurs in another one if it is that tree, or occurs in one of those that it owns. -/
inductive OccursIn (m : Node) : Node → Prop where
  | self : OccursIn m m
  | owned {n child : Node} (hchild : child ∈ n.owned) (h : OccursIn m child) : OccursIn m n

variable {op : Operator} {left right n m : Node}

theorem occursIn_value_iff {v : Value} : m.OccursIn (value v) ↔ m = value v := by
  constructor
  · intro h
    cases h with
    | self => rfl
    | owned hchild => cases hchild
  · rintro rfl
    exact .self

theorem occursIn_binary_iff :
    m.OccursIn (binary op left right) ↔
      m = binary op left right ∨ m.OccursIn left ∨ m.OccursIn right := by
  constructor
  · intro h
    cases h with
    | self => exact .inl rfl
    | owned hchild h =>
      simp only [Node.owned, List.mem_cons, List.not_mem_nil, or_false] at hchild
      rcases hchild with rfl | rfl
      · exact .inr (.inl h)
      · exact .inr (.inr h)
  · rintro (rfl | h | h)
    · exact .self
    · exact .owned (by simp [Node.owned]) h
    · exact .owned (by simp [Node.owned]) h

/-! ### The order of operands -/

/-- An operand that has a value may as well be looked at later. -/
theorem bind_ok_comm {f : Int64 → Int64 → Folded} (r : Folded) (b : Int64) :
    (do
      let rhs ← .ok b
      let lhs ← r
      f lhs rhs) =
    (do
      let lhs ← r
      let rhs ← .ok b
      f lhs rhs) := by
  cases r <;> rfl

/-- A constant on the right of a tree is looked at first. -/
theorem fold_binary_constant (hleft : left.value? = none) (v : Value) :
    (binary op left (value v)).fold =
      (do
        let rhs ← v.fold
        let lhs ← left.fold
        op.fold lhs rhs) := by
  rw [fold, hleft]
  rfl

theorem RefusedEarly.fold_eq (h : n.RefusedEarly) :
    ∃ ty, n.fold = .error (.error (.notInteger ty)) := by
  cases h with
  | @intro op left v hleft hv =>
    refine ⟨v.ty, ?_⟩
    have hvalue : v.fold = .error (.error (.notInteger v.ty)) := by simp [Value.fold, hv]
    rw [fold_binary_constant hleft, hvalue]
    rfl

theorem RefusedEarly.evaluate_eq (h : n.RefusedEarly) : ∃ halt, n.evaluate = .error halt := by
  cases h with
  | @intro op left v hleft hv =>
    have hvalue : (value v).evaluate = .error (.error (.notInteger v.ty)) := by
      cases v with
      | int i => cases hv
      | string s => rfl
      | void => rfl
      | auto => rfl
    cases hl : left.evaluate with
    | error halt => exact ⟨halt, by simp [evaluate, hl, bind, Except.bind]⟩
    | ok lhs => exact ⟨.error (.notInteger v.ty), by simp [evaluate, hl, hvalue, bind, Except.bind]⟩

/-- Other operations fold their operands as if from left to right. -/
theorem fold_binary (h : ¬ (binary op left right).RefusedEarly) :
    (binary op left right).fold =
      (do
        let lhs ← left.fold
        let rhs ← right.fold
        op.fold lhs rhs) := by
  cases hleft : left.value? with
  | some l =>
    cases hright : right.value? with
    | some r => rw [fold, hleft, hright, ← fold_of_value? hleft, ← fold_of_value? hright]
    | none => rw [fold, hleft, hright, ← fold_of_value? hleft]
  | none =>
    cases hright : right.value? with
    | none => rw [fold, hleft, hright]
    | some r =>
      cases right <;> cases hright
      cases r with
      | int i =>
        have hvalue : (value (.int i)).fold = .ok i := rfl
        rw [fold_binary_constant hleft, fold_of_value? (n := value (.int i)) rfl, hvalue]
        exact bind_ok_comm left.fold i
      | string s => exact absurd (.intro hleft rfl) h
      | void => exact absurd (.intro hleft rfl) h
      | auto => exact absurd (.intro hleft rfl) h

end Node

/-! ### Two outcomes -/

/-- The outcomes are the same, or the first one reports a constant that is not an integer where the
    second one has no value either. -/
def Preempts (folded plain : Folded) : Prop :=
  folded = plain ∨
    (∃ ty, folded = .error (.error (.notInteger ty))) ∧ ∃ halt, plain = .error halt

theorem Preempts.bind {r r' : Folded} {f f' : Int64 → Folded} (h : Preempts r r')
    (hf : ∀ a, Preempts (f a) (f' a)) : Preempts (r >>= f) (r' >>= f') := by
  rcases h with rfl | ⟨⟨ty, rfl⟩, halt, rfl⟩
  · cases r with
    | error halt => exact .inl rfl
    | ok a => exact hf a
  · exact .inr ⟨⟨ty, rfl⟩, halt, rfl⟩

namespace Node

theorem fold_preempts : (n : Node) → Preempts n.fold n.evaluate
  | binding _ init => fold_preempts init
  | value (.int _) => .inl rfl
  | value (.string _) => .inl rfl
  | value .void => .inl rfl
  | value .auto => .inl rfl
  | binary op left right => by
    by_cases hearly : (binary op left right).RefusedEarly
    · exact .inr ⟨hearly.fold_eq, hearly.evaluate_eq⟩
    · rw [fold_binary hearly, evaluate]
      apply (fold_preempts left).bind
      intro lhs
      apply (fold_preempts right).bind
      intro rhs
      exact .inl rfl
  | reserved _ => .inl rfl
  | function .. => .inl rfl
  | declaration _ => .inl rfl
  | declarations _ => .inl rfl
  | statements _ => .inl rfl

theorem fold_eq_evaluate : (n : Node) → (∀ m : Node, m.OccursIn n → ¬ m.RefusedEarly) →
    n.fold = n.evaluate
  | binding _ init, h =>
    fold_eq_evaluate init fun m hm => h m (.owned (by simp [owned]) hm)
  | value (.int _), _ => rfl
  | value (.string _), _ => rfl
  | value .void, _ => rfl
  | value .auto, _ => rfl
  | binary op left right, h => by
    have hleft := fold_eq_evaluate left fun m hm => h m (occursIn_binary_iff.mpr (.inr (.inl hm)))
    have hright := fold_eq_evaluate right fun m hm => h m (occursIn_binary_iff.mpr (.inr (.inr hm)))
    rw [fold_binary (h _ .self), evaluate, hleft, hright]
  | reserved _, _ => rfl
  | function .., _ => rfl
  | declaration _, _ => rfl
  | declarations _, _ => rfl
  | statements _, _ => rfl

end Node

/-- **Folding computes the plain value.**  Folding has a value exactly if plain evaluation has it;
    where the outcomes differ, folding reports a constant that is not an integer; it meets an
    operator without meaning only if plain evaluation does; and the outcomes are the same if no
    operation in the tree has a constant other than an integer after an operand that is not a
    constant. -/
theorem fold_computes_plain_value (n : Node) :
    (∀ v, n.fold = .ok v ↔ n.evaluate = .ok v) ∧
    (n.fold ≠ n.evaluate → ∃ ty, n.fold = .error (.error (.notInteger ty))) ∧
    (n.fold = .error .unknownOperator → n.evaluate = .error .unknownOperator) ∧
    ((∀ m : Node, m.OccursIn n → ¬ m.RefusedEarly) → n.fold = n.evaluate) := by
  refine ⟨fun v => ?_, fun hne => ?_, fun hunknown => ?_, n.fold_eq_evaluate⟩
  · rcases n.fold_preempts with heq | ⟨⟨ty, hfold⟩, halt, hplain⟩
    · rw [heq]
    · rw [hfold, hplain]
      exact iff_of_false nofun nofun
  · rcases n.fold_preempts with heq | ⟨hfold, -⟩
    · exact absurd heq hne
    · exact hfold
  · rcases n.fold_preempts with heq | ⟨⟨ty, hfold⟩, -⟩
    · rw [← heq, hunknown]
    · rw [hfold] at hunknown
      cases hunknown

/-- `"a" * (1 / 0) + 2`: the string is on the left of a tree, where both orders come to it first. -/
theorem fold_computes_plain_value_left_string :
    let tree : Node := .binary .add
      (.binary .mul (.value (.string "a")) (.binary .div (.value (.int 1)) (.value (.int 0))))
      (.value (.int 2))
    (∀ m : Node, m.OccursIn tree → ¬ m.RefusedEarly) ∧ tree.fold = tree.evaluate := by
  intro tree
  have hnone : ∀ m : Node, m.OccursIn tree → ¬ m.RefusedEarly := by
    intro m hm hearly
    simp only [tree, Node.occursIn_binary_iff, Node.occursIn_value_iff] at hm
    rcases hm with rfl | (rfl | rfl | rfl | rfl | rfl) | rfl
    · cases hearly with
      | intro _ hv => cases hv
    · cases hearly
    · cases hearly
    · cases hearly with
      | intro _ hv => cases hv
    all_goals cases hearly
  exact ⟨hnone, (fold_computes_plain_value tree).2.2.2 hnone⟩

/-- `(1 <ERROR> 2) + "s"`: the string on the right is reported before the operator is met. -/
example :
    let tree : Node := .binary .add
      (.binary .unknown (.value (.int 1)) (.value (.int 2))) (.value (.string "s"))
    tree.fold = .error (.error (.notInteger .string)) ∧ tree.evaluate = .error .unknownOperator :=
  ⟨rfl, rfl⟩

end LetTree

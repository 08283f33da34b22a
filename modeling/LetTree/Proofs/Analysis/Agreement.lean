import LetTree.Proofs.Analysis.Safety
import LetTree.Proofs.Constant.Evaluation
import LetTree.Proofs.Result

/-!
# Types agree with folding

On expressions made of constants and known operators, the two recursions over a tree say the same.
Finding the type looks for two constants of different types, folding for the first constant that is
not an integer, each in an order of its own; but once all constants have one type the order does not
matter, and once folding has a value all constants are integers.
-/

namespace LetTree

namespace Node

variable {leaf : Value → Prop} {op : Operator} {l r e : Node} {t : Ty}

/-! ### The type of an expression -/

theorem typeOf_binary_eq_ok_iff :
    (binary op l r).typeOf = .ok t ↔ l.typeOf = .ok t ∧ r.typeOf = .ok t := by
  constructor
  · exact typeOf_binary_eq_ok
  · rintro ⟨hl, hr⟩
    simp [typeOf, hl, hr, bind, Except.bind, pure, Except.pure]

/-- An expression has a type exactly if all its constants have that type. -/
theorem BuiltFrom.typeOf_eq_ok_iff (h : e.BuiltFrom leaf) :
    e.typeOf = .ok t ↔ ∀ v, (Node.value v).OccursIn e → v.ty = t := by
  induction h with
  | @value v hv => simp [typeOf, occursIn_value_iff, pure, Except.pure]
  | binary hop hl hr ihl ihr =>
    simp only [typeOf_binary_eq_ok_iff, ihl, ihr, occursIn_binary_iff]
    constructor
    · rintro ⟨hleft, hright⟩ v (hself | hmem | hmem)
      · cases hself
      · exact hleft v hmem
      · exact hright v hmem
    · intro hall
      exact ⟨fun v hv => hall v (.inr (.inl hv)), fun v hv => hall v (.inr (.inr hv))⟩

/-! ### Expressions of other types -/

/-- Where both operands halt in the same way, their order does not matter. -/
theorem fold_binary_of_halt {halt : Halt FoldError} (hl : l.fold = .error halt)
    (hr : r.fold = .error halt) : (binary op l r).fold = .error halt := by
  rw [fold]
  split
  · next lv rv hlv hrv => simp [fold_of_value? hlv, hl, bind, Except.bind]
  · next lv hlv hrv => simp [fold_of_value? hlv, hl, bind, Except.bind]
  · next rv hlv hrv => simp [fold_of_value? hrv, hr, bind, Except.bind]
  · simp [hl, bind, Except.bind]

theorem BuiltFrom.fold_of_ne_int (h : e.BuiltFrom leaf) (hty : e.typeOf = .ok t)
    (hne : t ≠ .int) : e.fold = .error (.error (.notInteger t)) := by
  induction h with
  | @value v hv =>
    cases v with
    | int n =>
      cases hty
      exact absurd rfl hne
    | string s | void | auto =>
      cases hty
      rfl
  | binary hop hl hr ihl ihr =>
    obtain ⟨hleft, hright⟩ := typeOf_binary_eq_ok hty
    exact fold_binary_of_halt (ihl hleft) (ihr hright)

/-! ### Expressions with a value -/

theorem BuiltFrom.typeOf_of_evaluate (h : e.BuiltFrom leaf) :
    ∀ n, e.evaluate = .ok n → e.typeOf = .ok .int := by
  induction h with
  | @value v hv =>
    intro n hn
    cases v with
    | int i => rfl
    | string s | void | auto => cases hn
  | @binary op l r hop hl hr ihl ihr =>
    intro n hn
    rw [evaluate, Result.bind_eq_ok_iff] at hn
    obtain ⟨a, hleft, hn⟩ := hn
    rw [Result.bind_eq_ok_iff] at hn
    obtain ⟨b, hright, -⟩ := hn
    exact typeOf_binary_eq_ok_iff.mpr ⟨ihl a hleft, ihr b hright⟩

/-- Only integers fold. -/
theorem BuiltFrom.typeOf_of_fold (h : e.BuiltFrom leaf) {n : Int64} (hn : e.fold = .ok n) :
    e.typeOf = .ok .int := by
  rcases e.fold_preempts with heq | ⟨⟨ty, herror⟩, -⟩
  · exact h.typeOf_of_evaluate n (heq ▸ hn)
  · rw [hn] at herror
    cases herror

end Node

/-- **Types agree with folding.**  An expression made of constants and known operators has a type
    exactly if all its constants have that type, and its operands mismatch otherwise. If the type is
    `int`, folding has a value or fails in arithmetic; if it is another one, folding reports that
    type; and whatever folds has the type `int`. -/
theorem types_agree_with_folding (e : Node) (h : e.BuiltFrom fun _ => True) :
    (∀ t, e.typeOf = .ok t ↔ ∀ v, (Node.value v).OccursIn e → v.ty = t) ∧
    ((∀ t, e.typeOf ≠ .ok t) → ∃ op l r, e.typeOf = .error (.mismatch op l r)) ∧
    (e.typeOf = .ok .int → FoldsOrFails e.fold) ∧
    (∀ t, t ≠ .int → e.typeOf = .ok t → e.fold = .error (.error (.notInteger t))) ∧
    ∀ n, e.fold = .ok n → e.typeOf = .ok .int := by
  refine ⟨fun t => h.typeOf_eq_ok_iff, ?_, h.fold_of_int, ?_, fun n => h.typeOf_of_fold⟩
  · intro hnone
    rcases h.typeOf_cases with ⟨v, -, hty⟩ | hmismatch
    · exact absurd hty (hnone _)
    · exact hmismatch
  · intro t hne hty
    exact h.fold_of_ne_int hty hne

/-- `"a" * ("b" / "c")`: the string on the left is a constant, and is looked at first. -/
theorem types_agree_with_folding_strings :
    let tree : Node := .binary .mul (.value (.string "a"))
      (.binary .div (.value (.string "b")) (.value (.string "c")))
    (tree.BuiltFrom fun _ => True) ∧ tree.typeOf = .ok .string ∧
      tree.fold = .error (.error (.notInteger .string)) := by
  intro tree
  have hbuilt : tree.BuiltFrom fun _ => True :=
    .binary rfl (.value trivial) (.binary rfl (.value trivial) (.value trivial))
  exact ⟨hbuilt, rfl, (types_agree_with_folding tree hbuilt).2.2.2.1 .string nofun rfl⟩

/-- `"s" + 1` has no type, and folding reports the string. -/
example :
    let tree : Node := .binary .add (.value (.string "s")) (.value (.int 1))
    tree.typeOf = .error (.mismatch .add .string .int) ∧
      tree.fold = .error (.error (.notInteger .string)) :=
  ⟨rfl, rfl⟩

end LetTree

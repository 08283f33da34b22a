import LetTree.Grammar.Expression
import LetTree.Proofs.Grammar.Sentence

/-!
# Written forms of expressions

A form is an expression as it is written: its tree together with the parentheses. It has tokens, a
tree, a height, and a need, which is the number of levels that are open at once while it is read. A
form fits a level when it is stratified as the grammar asks for, and the expressions of a level are
exactly the forms that fit it (`expression_iff`).
-/

namespace LetTree

namespace Operator

/-- The level of the left operand of an operator. -/
def leftLevel (op : Operator) : Nat := if op = power then 9 else op.precedence

/-- The level of the right operand of an operator. -/
def rightLevel (op : Operator) : Nat := if op = power then 8 else op.precedence + 1

theorem precedence_le_eight {op : Operator} (h : op.known = true) : op.precedence ≤ 8 := by
  cases op <;> simp_all [known, precedence]

theorem precedence_le_rightLevel (op : Operator) : op.precedence ≤ op.rightLevel := by
  cases op <;> simp [rightLevel, precedence]

theorem precedence_le_leftLevel (op : Operator) : op.precedence ≤ op.leftLevel := by
  cases op <;> simp [leftLevel, precedence]

/-- An operator does not reach into an operand on its left: if the operand may stand there, the
    operator at its top closes before. -/
theorem precedence_lt_rightLevel {op inner : Operator} (hinner : inner.known = true)
    (h : op.leftLevel ≤ inner.precedence) : op.precedence < inner.rightLevel := by
  have hle := precedence_le_eight hinner
  by_cases hop : op = power
  · subst hop
    simp only [leftLevel, if_pos] at h
    omega
  · have hlevel : op.leftLevel = op.precedence := if_neg hop
    by_cases hin : inner = power
    · subst hin
      cases op <;> simp_all [rightLevel, precedence, leftLevel]
    · have hright : inner.rightLevel = inner.precedence + 1 := if_neg hin
      omega

/-- The converse: an operator that stops before the right operand of another one may have that other
    one at the top of its left operand. -/
theorem leftLevel_le_precedence {op inner : Operator} (hop : op.known = true)
    (hinner : inner.known = true) (h : op.precedence < inner.rightLevel) :
    op.leftLevel ≤ inner.precedence := by
  cases op <;> cases inner <;> simp_all [known, leftLevel, rightLevel, precedence]

end Operator

/-- An expression as it is written. -/
inductive Form where
  | integer (negative : Bool) (n : UInt64)
  | string (s : String)
  | group (inner : Form)
  | operation (left : Form) (op : Operator) (right : Form)

namespace Form

/-- The integer of a literal. -/
def literalValue (negative : Bool) (n : UInt64) : Int64 :=
  Int64.ofInt (if negative then -(n.toNat : Int) else n.toNat)

def tokens : Form → List Token
  | integer false n => [.integer n]
  | integer true n => [.operator "-", .integer n]
  | string s => [.string s]
  | group inner => .leftParen :: (inner.tokens ++ [.rightParen])
  | operation left op right => left.tokens ++ .operator op.text :: right.tokens

/-- The tree; parentheses leave nothing in it. -/
def node : Form → Node
  | integer negative n => .value (.int (literalValue negative n))
  | string s => .value (.string s)
  | group inner => inner.node
  | operation left op right => .binary op left.node right.node

/-- The height of the tree. -/
def height : Form → Nat
  | integer _ _ | string _ => 1
  | group inner => inner.height
  | operation left _ right => max left.height right.height + 1

/-- The levels that are open at once while the form is read: a parenthesis opens one for what is
    inside it, an operator one for its right operand. -/
def need : Form → Nat
  | integer _ _ | string _ => 1
  | group inner => 1 + inner.need
  | operation left _ right => max left.need (1 + right.need)

/-- The tree with its height. -/
def measured (f : Form) : Measured := ⟨f.node, f.height⟩

/-- The form is stratified, its operators are known and at least as tight as the level, and its
    integers are in range. -/
def Fits : Nat → Form → Prop
  | _, integer negative n => if negative then n.toNat ≤ 2 ^ 63 else n.toNat ≤ 2 ^ 63 - 1
  | _, string _ => True
  | _, group inner => inner.Fits 0
  | k, operation left op right =>
    op.known = true ∧ k ≤ op.precedence ∧ left.Fits op.leftLevel ∧ right.Fits op.rightLevel

theorem Fits.mono {f : Form} {j k : Nat} (h : f.Fits k) (hjk : j ≤ k) : f.Fits j := by
  cases f with
  | integer negative n => simpa only [Fits] using h
  | string s => trivial
  | group inner => simpa only [Fits] using h
  | operation left op right =>
    simp only [Fits] at h ⊢
    exact ⟨h.1, Nat.le_trans hjk h.2.1, h.2.2⟩

theorem need_pos (f : Form) : 0 < f.need := by
  cases f <;> simp only [need] <;> omega

/-- Every level that has to be open has a token that opens it. -/
theorem need_le_length (f : Form) : f.need ≤ f.tokens.length := by
  induction f with
  | integer negative n => cases negative <;> simp [need, tokens]
  | string s => simp [need, tokens]
  | group inner ih => simp [need, tokens]; omega
  | operation left op right ihl ihr => simp [need, tokens]; omega

theorem height_le_length (f : Form) : f.height ≤ f.tokens.length := by
  induction f with
  | integer negative n => cases negative <;> simp [height, tokens]
  | string s => simp [height, tokens]
  | group inner ih => simp [height, tokens]; omega
  | operation left op right ihl ihr => simp [height, tokens]; omega

end Form

/-! ### Forms and expressions -/

namespace Grammar

/-- An expression of a level is one of every looser level. -/
theorem Expression.loosen {j k : Nat} {ts : List Token} {e : Node} (h : Expression k ts e)
    (hjk : j ≤ k) (hk : k ≤ 9) : Expression j ts e := by
  induction hd : k - j generalizing j with
  | zero =>
    obtain rfl : j = k := by omega
    exact h
  | succ d ih => exact .tighter (by omega) (ih (by omega) (by omega))

theorem Expression.exists_form {k : Nat} {ts : List Token} {e : Node} (h : Expression k ts e) :
    ∃ f : Form, f.Fits k ∧ f.tokens = ts ∧ f.node = e := by
  induction h with
  | @integer n i hrange hi =>
    refine ⟨.integer false n, by simpa [Form.Fits] using hrange, rfl, ?_⟩
    simp [Form.node, Form.literalValue, ← hi]
  | @negated n i hrange hi =>
    refine ⟨.integer true n, by simpa [Form.Fits] using hrange, rfl, ?_⟩
    simp [Form.node, Form.literalValue, ← hi]
  | string s => exact ⟨.string s, trivial, rfl, rfl⟩
  | group inner ih =>
    obtain ⟨f, hfits, rfl, rfl⟩ := ih
    exact ⟨.group f, hfits, rfl, rfl⟩
  | tighter hk he ih =>
    obtain ⟨f, hfits, htokens, hnode⟩ := ih
    exact ⟨f, hfits.mono (Nat.le_succ _), htokens, hnode⟩
  | @leftward k op ls rs l r hk hop hl hr ihl ihr =>
    obtain ⟨f, hf, rfl, rfl⟩ := ihl
    obtain ⟨g, hg, rfl, rfl⟩ := ihr
    have hpower : op ≠ .power := by
      rintro rfl
      simp only [Operator.precedence] at hop
      omega
    have hknown : op.known = true := by
      cases op <;> first | rfl | (simp only [Operator.precedence] at hop; omega)
    refine ⟨.operation f op g, ⟨hknown, Nat.le_of_eq hop.symm, ?_, ?_⟩, rfl, rfl⟩
    · simpa only [Operator.leftLevel, if_neg hpower, hop] using hf
    · simpa only [Operator.rightLevel, if_neg hpower, hop] using hg
  | rightward hl hr ihl ihr =>
    obtain ⟨f, hf, rfl, rfl⟩ := ihl
    obtain ⟨g, hg, rfl, rfl⟩ := ihr
    exact ⟨.operation f .power g, ⟨rfl, Nat.le_refl _, hf, hg⟩, rfl, rfl⟩

end Grammar

namespace Form

theorem expression_of_fits (f : Form) :
    ∀ k ≤ 9, f.Fits k → Grammar.Expression k f.tokens f.node := by
  induction f with
  | integer negative n =>
    intro k hk h
    refine Grammar.Expression.loosen ?_ hk (Nat.le_refl 9)
    cases negative with
    | false =>
      simp only [Fits, Bool.false_eq_true, if_false] at h
      refine .integer h (Int64.toInt_ofInt_of_le ?_ ?_)
      · simp only [Bool.false_eq_true, if_false]; omega
      · simp only [Bool.false_eq_true, if_false]; omega
    | true =>
      simp only [Fits, if_true] at h
      refine .negated h (Int64.toInt_ofInt_of_le ?_ ?_)
      · simp only [if_true]; omega
      · simp only [if_true]; omega
  | string s =>
    intro k hk _
    exact (Grammar.Expression.string s).loosen hk (Nat.le_refl 9)
  | group inner ih =>
    intro k hk h
    exact (Grammar.Expression.group (ih 0 (by omega) h)).loosen hk (Nat.le_refl 9)
  | operation left op right ihl ihr =>
    intro k _ h
    obtain ⟨hknown, hle, hl, hr⟩ := h
    have hprec := Operator.precedence_le_eight hknown
    refine Grammar.Expression.loosen ?_ hle (by omega)
    by_cases hpower : op = .power
    · subst hpower
      exact .rightward (ihl 9 (by omega) hl) (ihr 8 (by omega) hr)
    · simp only [Operator.leftLevel, if_neg hpower] at hl
      simp only [Operator.rightLevel, if_neg hpower] at hr
      have hlt : op.precedence < 8 := by
        cases op <;> first | (exact absurd rfl hpower) | decide | cases hknown
      exact .leftward hlt rfl (ihl _ (by omega) hl) (ihr _ (by omega) hr)

end Form

/-- The expressions of a level are the forms that fit it. -/
theorem Grammar.expression_iff {k : Nat} (hk : k ≤ 9) {ts : List Token} {e : Node} :
    Expression k ts e ↔ ∃ f : Form, f.Fits k ∧ f.tokens = ts ∧ f.node = e := by
  constructor
  · exact Expression.exists_form
  · rintro ⟨f, hfits, rfl, rfl⟩
    exact f.expression_of_fits k hk hfits

end LetTree

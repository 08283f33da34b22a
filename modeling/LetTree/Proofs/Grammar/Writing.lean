import LetTree.Proofs.Analysis.Safety

/-!
# Writing expressions

The ways to write a tree down as tokens. Operators stand between their operands, and an operand is
put in parentheses where it would otherwise be torn apart; more parentheses may stand anywhere. All
of these ways are expressions of the grammar with the same tree, so reading them gives the tree back
and parentheses that are not needed make no difference.
-/

namespace LetTree

namespace Operator

/-- The left operand of `op` needs parentheses when the operator at its top is looser, or as tight
    and grouping to the right. -/
def GuardsLeft (op inner : Operator) : Prop :=
  inner.precedence < op.precedence ∨ (inner.precedence = op.precedence ∧ op = power)

/-- The right operand of `op` needs parentheses when the operator at its top is looser, or as tight
    and grouping to the left. -/
def GuardsRight (op inner : Operator) : Prop :=
  inner.precedence < op.precedence ∨ (inner.precedence = op.precedence ∧ op ≠ power)

end Operator

namespace Grammar

/-- The tokens of a tree as it may be written, with the operator that stands outside of all
    parentheses in them, if there is one. A negative integer is a minus sign before its magnitude;
    zero may have the sign too. -/
inductive Written : Node → Option Operator → List Token → Prop where
  | natural {i : Int64} {n : UInt64} (hi : i.toInt = n.toNat) :
      Written (.value (.int i)) none [.integer n]
  | negated {i : Int64} {n : UInt64} (hi : i.toInt = -n.toNat) :
      Written (.value (.int i)) none [.operator "-", .integer n]
  | string (s : String) : Written (.value (.string s)) none [.string s]
  | parentheses {e : Node} {outer : Option Operator} {ts : List Token} (h : Written e outer ts) :
      Written e none (.leftParen :: (ts ++ [.rightParen]))
  | operation {op : Operator} {l r : Node} {outerl outerr : Option Operator} {ls rs : List Token}
      (hop : op.known = true) (hl : Written l outerl ls) (hr : Written r outerr rs)
      (hleft : ∀ inner ∈ outerl, ¬ op.GuardsLeft inner)
      (hright : ∀ inner ∈ outerr, ¬ op.GuardsRight inner) :
      Written (.binary op l r) (some op) (ls ++ .operator op.text :: rs)

/-- The level of what is written with an operator outside of all parentheses, or without one. -/
def outerLevel : Option Operator → Nat
  | some op => op.precedence
  | none => 9

/-- Without parentheses on the right, the operand belongs to the level of right operands. -/
theorem rightLevel_le_outerLevel {op : Operator} {outer : Option Operator}
    (hright : ∀ inner ∈ outer, ¬ op.GuardsRight inner) (hop : op.known = true) :
    op.rightLevel ≤ outerLevel outer := by
  have hprec := Operator.precedence_le_eight hop
  cases hcase : outer with
  | none =>
    simp only [Operator.rightLevel, outerLevel]
    split <;> omega
  | some inner =>
    have hfree := hright inner hcase
    simp only [Operator.GuardsRight, not_or, not_and, Decidable.not_not] at hfree
    obtain ⟨hloose, hsame⟩ := hfree
    simp only [Operator.rightLevel, outerLevel]
    split
    · next hpower =>
      have htop : op.precedence = 8 := by rw [hpower]; rfl
      omega
    · next hpower =>
      have hne : inner.precedence ≠ op.precedence := fun heq => hpower (hsame heq)
      omega

namespace Written

variable {e : Node} {outer : Option Operator} {ts : List Token}

theorem outer_known (h : Written e outer ts) : ∀ op ∈ outer, op.known = true := by
  intro op hop
  cases h with
  | operation hknown =>
    obtain rfl := Option.some.inj hop
    exact hknown
  | _ => cases hop

theorem outerLevel_le (h : Written e outer ts) : outerLevel outer ≤ 9 := by
  cases hcase : outer with
  | none => exact Nat.le_refl 9
  | some op =>
    have hle := Operator.precedence_le_eight (h.outer_known op hcase)
    exact Nat.le_succ_of_le hle

/-- Without parentheses on the left, the operand belongs to the level of left operands. -/
theorem leftLevel_le_outerLevel (h : Written e outer ts) {op : Operator}
    (hleft : ∀ inner ∈ outer, ¬ op.GuardsLeft inner) (hop : op.known = true) :
    op.leftLevel ≤ outerLevel outer := by
  have hprec := Operator.precedence_le_eight hop
  cases hcase : outer with
  | none =>
    simp only [Operator.leftLevel, outerLevel]
    split <;> omega
  | some inner =>
    have hfree := hleft inner hcase
    have hinner := Operator.precedence_le_eight (h.outer_known inner hcase)
    simp only [Operator.GuardsLeft, not_or, not_and] at hfree
    obtain ⟨hloose, hsame⟩ := hfree
    simp only [Operator.leftLevel, outerLevel]
    split
    · next hpower =>
      -- Nothing is tighter than a power, so its left operand has no operator outside.
      have hne : inner.precedence ≠ op.precedence := fun heq => hsame heq hpower
      have htop : op.precedence = 8 := by rw [hpower]; rfl
      omega
    · omega

/-- What is written is an expression of the grammar, and the tree is the one it stands for. -/
theorem expression (h : Written e outer ts) : Expression (outerLevel outer) ts e := by
  induction h with
  | @natural i n hi =>
    have hmax := i.toInt_lt
    exact .integer (by omega) hi
  | @negated i n hi =>
    have hmin := i.le_toInt
    exact .negated (by omega) hi
  | string s => exact .string s
  | parentheses h ih => exact .group (ih.loosen (Nat.zero_le _) h.outerLevel_le)
  | @operation op l r outerl outerr ls rs hop hl hr hleft hright ihl ihr =>
    have hl' := ihl.loosen (hl.leftLevel_le_outerLevel hleft hop) hl.outerLevel_le
    have hr' := ihr.loosen (rightLevel_le_outerLevel hright hop) hr.outerLevel_le
    by_cases hpower : op = .power
    · subst hpower
      exact .rightward hl' hr'
    · rw [Operator.leftLevel, if_neg hpower] at hl'
      rw [Operator.rightLevel, if_neg hpower] at hr'
      have hlt : op.precedence < 8 := by
        cases op <;> first | (exact absurd rfl hpower) | decide | cases hop
      exact .leftward hlt rfl hl' hr'

/-- Reading gives the tree back, whatever comes after the tokens, unless it is an operator. -/
theorem reads {s : Surroundings} {pre rest : List Token.Placed}
    (h : Written e outer (pre.map Token.Placed.token)) (hroom : pre.length ≤ s.limit - s.depth)
    (hrest : Parse.Stops 0 rest) : Parse.expression s (pre ++ rest) = .ok (e, rest) := by
  have hexpression := h.expression.loosen (Nat.zero_le _) h.outerLevel_le
  have hfitting : Parse.Fitting s (pre.map Token.Placed.token) e :=
    .of_expression hexpression (by rwa [List.length_map])
  exact (Parse.expression_exactly _ _ _).mpr ⟨pre, rfl, hfitting, hrest⟩

end Written

/-- Every integer has a literal. -/
theorem exists_written_int (i : Int64) : ∃ ts, Written (.value (.int i)) none ts := by
  have hmax := i.toInt_lt
  have hmin := i.le_toInt
  rcases Int.le_total 0 i.toInt with hpos | hneg
  · have hn : (UInt64.ofNat i.toInt.toNat).toNat = i.toInt.toNat :=
      UInt64.toNat_ofNat_of_lt' (by simp only [UInt64.size]; omega)
    exact ⟨_, .natural (n := UInt64.ofNat i.toInt.toNat) (by omega)⟩
  · have hn : (UInt64.ofNat (-i.toInt).toNat).toNat = (-i.toInt).toNat :=
      UInt64.toNat_ofNat_of_lt' (by simp only [UInt64.size]; omega)
    exact ⟨_, .negated (n := UInt64.ofNat (-i.toInt).toNat) (by omega)⟩

/-- Every expression can be written: with parentheses around all operands nothing is torn apart. -/
theorem exists_written {e : Node} (h : e.BuiltFrom Node.Literal) :
    ∃ outer ts, Written e outer ts := by
  induction h with
  | value hv =>
    rcases hv with ⟨i, rfl⟩ | ⟨s, rfl⟩
    · exact ⟨none, exists_written_int i⟩
    · exact ⟨none, _, .string s⟩
  | binary hop hl hr ihl ihr =>
    obtain ⟨outerl, ls, hls⟩ := ihl
    obtain ⟨outerr, rs, hrs⟩ := ihr
    exact ⟨_, _, .operation hop hls.parentheses hrs.parentheses (by simp) (by simp)⟩

end Grammar

/-- **Written expressions are read back.**  Every tree of literals and known operators can be
    written, and however it is written, with parentheses where precedence needs them and anywhere
    else, reading gives exactly the tree and leaves no token. -/
theorem expression_written_roundtrip {e : Node} (h : e.BuiltFrom Node.Literal) :
    (∃ outer ts, Grammar.Written e outer ts) ∧
    ∀ outer (tokens : List Token.Placed) limit,
      Grammar.Written e outer (tokens.map Token.Placed.token) → tokens.length + 1 ≤ limit →
      (Session.start limit tokens).advance Parse.expression =
        (.ok e, ⟨⟨limit, 0, endOf tokens⟩, []⟩) := by
  refine ⟨Grammar.exists_written h, ?_⟩
  intro outer tokens limit hwritten hlimit
  have hroom : tokens.length ≤ limit - 0 := by omega
  have hend : Parse.Stops 0 [] := nofun
  have hread := hwritten.reads (s := ⟨limit, 0, endOf tokens⟩) hroom hend
  rw [List.append_nil] at hread
  simp only [Session.start, Session.advance, hread]

/-- `(1 - -2) ^^ 3 ^^ (2)`: the first parentheses are needed, the last ones are not, and the second
    minus sign belongs to the literal. -/
theorem expression_written_roundtrip_powers :
    let tokens : List Token.Placed :=
      [⟨.leftParen, ⟨0, 1⟩⟩, ⟨.integer 1, ⟨1, 2⟩⟩, ⟨.operator "-", ⟨3, 4⟩⟩,
        ⟨.operator "-", ⟨5, 6⟩⟩, ⟨.integer 2, ⟨6, 7⟩⟩, ⟨.rightParen, ⟨7, 8⟩⟩,
        ⟨.operator "^^", ⟨9, 11⟩⟩, ⟨.integer 3, ⟨12, 13⟩⟩, ⟨.operator "^^", ⟨14, 16⟩⟩,
        ⟨.leftParen, ⟨17, 18⟩⟩, ⟨.integer 2, ⟨18, 19⟩⟩, ⟨.rightParen, ⟨19, 20⟩⟩]
    (Session.start 13 tokens).advance Parse.expression =
      (.ok (.binary .power (.binary .sub (.value (.int 1)) (.value (.int (-2))))
        (.binary .power (.value (.int 3)) (.value (.int 2)))), ⟨⟨13, 0, ⟨20, 20⟩⟩, []⟩) := by
  intro tokens
  have hint : ∀ i : Int64, (Node.value (.int i)).BuiltFrom Node.Literal :=
    fun i => .value (.inl ⟨i, rfl⟩)
  have hone : Grammar.Written (.value (.int 1)) none [.integer 1] := .natural rfl
  have htwo : Grammar.Written (.value (.int (-2))) none [.operator "-", .integer 2] := .negated rfl
  have hdiff := @Grammar.Written.operation .sub _ _ _ _ _ _ rfl hone htwo (by simp) (by simp)
  have hthree : Grammar.Written (.value (.int 3)) none [.integer 3] := .natural rfl
  have hlast : Grammar.Written (.value (.int 2)) none [.integer 2] := .natural rfl
  have hpower := @Grammar.Written.operation .power _ _ _ _ _ _ rfl hthree hlast.parentheses
    (by simp) (by simp)
  have hwhole := @Grammar.Written.operation .power _ _ _ _ _ _ rfl hdiff.parentheses hpower
    (by simp) (by simp [Operator.GuardsRight])
  exact (expression_written_roundtrip
    (.binary rfl (.binary rfl (hint 1) (hint (-2))) (.binary rfl (hint 3) (hint 2)))).2
    _ tokens 13 hwhole (by decide)

end LetTree

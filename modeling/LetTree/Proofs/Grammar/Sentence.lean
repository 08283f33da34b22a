import Mathlib.Algebra.Group.Nat.Defs
import LetTree.Node.Basic
import LetTree.Token.Basic

/-!
# The grammar

The language as rules, with no word about how a program is read. Each rule relates a list of tokens
to the tree it stands for. Expressions are stratified: there is one level for each precedence, the
operands of an operator are taken from levels that bind at least as tightly, and the level above all
operators holds literals and parenthesised expressions.

The rules of bindings, functions and programs are stated over any notion of expression, since the
limits on nesting and height concern expressions alone. `Sentence` is the grammar itself.
-/

namespace LetTree

/-- The precedence level of an operator, from the loosest to the tightest. `unknown` has none, and
    its number is above those of all the others. -/
def Operator.precedence : Operator → Nat
  | logicalOr => 0
  | logicalAnd => 1
  | bitOr => 2
  | bitXor => 3
  | bitAnd => 4
  | shl | shr => 5
  | add | sub => 6
  | mul | div | mod => 7
  | power => 8
  | unknown => 9

namespace Grammar

/-- The tokens of an expression of a level. Levels 0 to 7 associate to the left, level 8 to the
    right, and level 9 is that of literals and parentheses. -/
inductive Expression : Nat → List Token → Node → Prop where
  | integer {n : UInt64} {i : Int64} (hrange : n.toNat ≤ 2 ^ 63 - 1) (hi : i.toInt = n.toNat) :
      Expression 9 [.integer n] (.value (.int i))
  | negated {n : UInt64} {i : Int64} (hrange : n.toNat ≤ 2 ^ 63) (hi : i.toInt = -n.toNat) :
      Expression 9 [.operator "-", .integer n] (.value (.int i))
  | string (s : String) : Expression 9 [.string s] (.value (.string s))
  | group {ts : List Token} {e : Node} (inner : Expression 0 ts e) :
      Expression 9 (.leftParen :: (ts ++ [.rightParen])) e
  | tighter {k : Nat} {ts : List Token} {e : Node} (hk : k < 9) (he : Expression (k + 1) ts e) :
      Expression k ts e
  | leftward {k : Nat} {op : Operator} {ls rs : List Token} {l r : Node} (hk : k < 8)
      (hop : op.precedence = k) (hl : Expression k ls l) (hr : Expression (k + 1) rs r) :
      Expression k (ls ++ .operator op.text :: rs) (.binary op l r)
  | rightward {ls rs : List Token} {l r : Node} (hl : Expression 9 ls l) (hr : Expression 8 rs r) :
      Expression 8 (ls ++ .operator Operator.power.text :: rs) (.binary .power l r)

variable (E : List Token → Node → Prop)

/-- The tokens of a binding: `let name: type = expression;`. -/
inductive Let : List Token → Node → Prop where
  | intro {name : String} {ty : Ty} {ts : List Token} {e : Node} (he : E ts e) :
      Let (.letWord :: .identifier name :: .colon :: .type ty :: .equals :: (ts ++ [.semicolon]))
        (.binding ⟨ty, name⟩ e)

/-- The tokens of a list of things, one after the other. -/
inductive Star (G : List Token → Node → Prop) : List Token → List Node → Prop where
  | nil : Star G [] []
  | cons {ts us : List Token} {n : Node} {ns : List Node} (h : G ts n) (hs : Star G us ns) :
      Star G (ts ++ us) (n :: ns)

/-- The tokens of one parameter or more, with commas between them and none after the last. -/
inductive Parameters : List Token → List Declaration → Prop where
  | last {name : String} {ty : Ty} :
      Parameters [.identifier name, .colon, .type ty] [⟨ty, name⟩]
  | more {name : String} {ty : Ty} {ts : List Token} {ps : List Declaration}
      (hs : Parameters ts ps) :
      Parameters (.identifier name :: .colon :: .type ty :: .comma :: ts) (⟨ty, name⟩ :: ps)

/-- The tokens between the parentheses of a function. -/
inductive Signature : List Token → List Declaration → Prop where
  | empty : Signature [] []
  | listed {ts : List Token} {ps : List Declaration} (h : Parameters ts ps)
      (distinct : (ps.map (·.name)).Nodup) : Signature ts ps

/-- The tokens of a return type. A function without one returns nothing. -/
inductive Returns : List Token → Ty → Prop where
  | absent : Returns [] .void
  | present {ty : Ty} : Returns [.arrow, .type ty] ty

/-- The tokens of a function: `fn name(parameters) -> type { bindings }`. -/
inductive Function : List Token → Node → Prop where
  | intro {name : String} {ty : Ty} {ps : List Declaration} {body : List Node}
      {pts rts bts : List Token} (hps : Signature pts ps) (hty : Returns rts ty)
      (hbody : Star (Let E) bts body) :
      Function (.fnWord :: .identifier name :: .leftParen ::
          (pts ++ .rightParen :: (rts ++ .leftBrace :: (bts ++ [.rightBrace]))))
        (.function name ty ps body)

/-- The tokens of a binding or a function. -/
def Item (ts : List Token) (n : Node) : Prop := Let E ts n ∨ Function E ts n

/-- The tokens of a program: bindings and functions in any order. -/
inductive Program : List Token → Node → Prop where
  | intro {ts : List Token} {items : List Node} (h : Star (Item E) ts items) :
      Program ts (.statements items)

/-- The tokens of a program whose expressions are of the loosest level. -/
def Sentence (ts : List Token) (root : Node) : Prop := Program (Expression 0) ts root

end Grammar

end LetTree

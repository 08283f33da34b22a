import LetTree.Operator
import LetTree.Value

/-!
# Trees

The tree of a program. Every kind of node is here, those a program text never produces included:
trees are also built by hand, and every operation on trees is defined on all of them.
-/

namespace LetTree

/-- The control structures whose names are taken but which have no content yet. -/
inductive Reserved where
  | conditional
  | whileLoop
  | forLoop
  deriving DecidableEq, Repr

/-- A tree. Bindings own their initializer, functions and statement lists own their elements. -/
inductive Node where
  | binary (op : Operator) (left right : Node)
  | binding (decl : Declaration) (init : Node)
  | value (v : Value)
  | reserved (what : Reserved)
  | function (name : String) (returns : Ty) (params : List Declaration) (body : List Node)
  | declaration (decl : Declaration)
  | declarations (decls : List Declaration)
  | statements (items : List Node)
  deriving Repr

namespace Node

inductive Kind where
  | binary
  | binding
  | value
  | reserved (what : Reserved)
  | function
  | declaration
  | declarations
  | statements
  deriving DecidableEq, Repr

/-- The name of a kind, in outlines and in messages. -/
def Kind.text : Kind → String
  | .binary => "BinaryOp"
  | .binding => "Variable"
  | .value => "Value"
  | .reserved .conditional => "If"
  | .reserved .whileLoop => "While"
  | .reserved .forLoop => "For"
  | .function => "Function"
  | .declaration => "VariableDeclaration"
  | .declarations => "VariableDeclarations"
  | .statements => "Statements"

def Kind.all : List Kind :=
  [.binary, .binding, .value, .reserved .conditional, .reserved .whileLoop, .reserved .forLoop,
    .function, .declaration, .declarations, .statements]

def Kind.ofText? (name : String) : Option Kind :=
  Kind.all.find? fun kind => kind.text == name

def kind : Node → Kind
  | binary .. => .binary
  | binding .. => .binding
  | value _ => .value
  | reserved what => .reserved what
  | function .. => .function
  | declaration _ => .declaration
  | declarations _ => .declarations
  | statements _ => .statements

def value? : Node → Option Value
  | value v => some v
  | _ => none

/-! ### Equality -/

mutual

/-- Two trees are the same when they agree in every operator, type, name, text and list. -/
def same : Node → Node → Bool
  | binary op l r, binary op' l' r' => op == op' && same l l' && same r r'
  | binding d i, binding d' i' => d == d' && same i i'
  | value v, value v' => v == v'
  | reserved w, reserved w' => w == w'
  | function n t ps b, function n' t' ps' b' => n == n' && t == t' && ps == ps' && sameAll b b'
  | declaration d, declaration d' => d == d'
  | declarations ds, declarations ds' => ds == ds'
  | statements ss, statements ss' => sameAll ss ss'
  | _, _ => false

/-- Two lists of trees are the same when they have equal length and the same elements in order. -/
def sameAll : List Node → List Node → Bool
  | [], [] => true
  | a :: as, b :: bs => same a b && sameAll as bs
  | _, _ => false

end

mutual

theorem same_iff : (a b : Node) → (same a b = true ↔ a = b)
  | binary _ l r, b => by
    cases b <;> simp [same, same_iff l, same_iff r, and_assoc]
  | binding _ i, b => by
    cases b <;> simp [same, same_iff i]
  | value _, b => by cases b <;> simp [same]
  | reserved _, b => by cases b <;> simp [same]
  | function _ _ _ body, b => by
    cases b <;> simp [same, sameAll_iff body, and_assoc]
  | declaration _, b => by cases b <;> simp [same]
  | declarations _, b => by cases b <;> simp [same]
  | statements items, b => by
    cases b <;> simp [same, sameAll_iff items]

theorem sameAll_iff : (as bs : List Node) → (sameAll as bs = true ↔ as = bs)
  | [], bs => by cases bs <;> simp [sameAll]
  | a :: as, bs => by
    cases bs <;> simp [sameAll, same_iff a, sameAll_iff as]

end

instance : DecidableEq Node := fun a b => decidable_of_iff _ (same_iff a b)

end Node

end LetTree

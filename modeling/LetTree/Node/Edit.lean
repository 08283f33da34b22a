import LetTree.Node.Basic

/-!
# Making and changing trees

Nodes made from their kind alone, changes to the top of a tree, and copies. A change that does not
fit the kind of the node gives nothing.
-/

namespace LetTree

/-- A declaration built anew. -/
def Declaration.copy (decl : Declaration) : Declaration :=
  ⟨decl.ty, decl.name⟩

namespace Node

/-- A kind of node that cannot be made without content. -/
structure MissingContent where
  kind : Kind
  deriving DecidableEq, Repr

def MissingContent.message (e : MissingContent) : String :=
  "a " ++ e.kind.text ++ " node cannot be created without a payload"

/-- The node of a kind that needs no content: an empty list or a reserved node. -/
def ofKind : Kind → Except MissingContent Node
  | .statements => .ok (statements [])
  | .declarations => .ok (declarations [])
  | .reserved what => .ok (reserved what)
  | kind => .error ⟨kind⟩

/-- Gives a binding, a declaration or a function another name. -/
def rename? (name : String) : Node → Option Node
  | binding decl init => some (binding ⟨decl.ty, name⟩ init)
  | declaration decl => some (declaration ⟨decl.ty, name⟩)
  | function _ returns params body => some (function name returns params body)
  | _ => none

/-- Gives a binary operation another operator. -/
def withOperator? (op : Operator) : Node → Option Node
  | binary _ left right => some (binary op left right)
  | _ => none

def appendText? (more : String) : Node → Option Node
  | value (.string s) => some (value (.string (s ++ more)))
  | _ => none

def appendItem? (list item : Node) : Option Node :=
  match list with
  | statements items => some (statements (items ++ [item]))
  | _ => none

def items? : Node → Option (List Node)
  | statements items => some items
  | _ => none

/-- The declarations of a declaration list, or the parameters of a function. -/
def params? : Node → Option (List Declaration)
  | declarations decls => some decls
  | function _ _ params _ => some params
  | _ => none

/-! ### Copies -/

mutual

/-- A tree built anew, node by node. -/
def copy : Node → Node
  | binary op left right => binary op left.copy right.copy
  | binding decl init => binding decl.copy init.copy
  | value v => value v
  | reserved what => reserved what
  | function name returns params body =>
    function name returns (params.map Declaration.copy) (copyAll body)
  | declaration decl => declaration decl.copy
  | declarations decls => declarations (decls.map Declaration.copy)
  | statements items => statements (copyAll items)

def copyAll : List Node → List Node
  | [] => []
  | n :: ns => n.copy :: copyAll ns

end

end Node

end LetTree

import LetTree.Node.Basic

/-!
# Outlines

A tree is drawn in two stages. It first becomes an outline, in which every entry is a text with
entries below it; the outline then becomes rows, one for each entry in order. A row has a guide for
every entry above its own, an arrow, and the text.
-/

namespace LetTree

/-- A text with entries below it. -/
inductive Outline where
  | entry (text : String) (below : List Outline)
  deriving Repr

/-- One row of a drawing. A guide is `true` where the line of an entry above goes on to a later
    entry; `last` says that no entry beside this one follows. -/
structure Row where
  guides : List Bool
  last : Bool
  text : String
  deriving DecidableEq, Repr

namespace Row

/-- The two characters of a guide. -/
def guide (goesOn : Bool) : String :=
  if goesOn then "| " else "  "

/-- The two characters before the text. -/
def arrow (last : Bool) : String :=
  if last then "`-" else "|-"

def line (r : Row) : String :=
  String.join (r.guides.map guide) ++ arrow r.last ++ r.text

end Row

namespace Outline

def leaf (text : String) : Outline := entry text []

mutual

/-- The rows of an outline that stands under the given guides. -/
def rows (guides : List Bool) (last : Bool) : Outline → List Row
  | entry text below => ⟨guides, last, text⟩ :: rowsAll (guides ++ [!last]) below

/-- The rows of entries that stand beside each other; the last of them closes the line. -/
def rowsAll (guides : List Bool) : List Outline → List Row
  | [] => []
  | o :: os => o.rows guides os.isEmpty ++ rowsAll guides os

end

end Outline

namespace Node

mutual

def outline : Node → Outline
  | binary op left right =>
    .entry "BinaryOp:"
      [.leaf ("Operator: " ++ op.text), .entry "Left:" [left.outline],
        .entry "Right:" [right.outline]]
  | value v => .leaf ("Value: " ++ v.text)
  | binding decl init =>
    .entry "Variable:"
      [.leaf ("typeinfo: " ++ decl.ty.text), .leaf ("identifier: " ++ decl.name),
        .entry "init:" [init.outline]]
  | declaration decl =>
    .entry "VariableDeclaration:"
      [.leaf ("typeinfo: " ++ decl.ty.text), .leaf ("identifier: " ++ decl.name)]
  | declarations decls =>
    .entry "VariableDeclarations:" (decls.map fun d => .leaf d.text)
  | statements items => .entry "Statements:" (outlineAll items)
  | function name returns params body =>
    .entry "Function:"
      [.leaf ("identifier: " ++ name), .leaf ("return type: " ++ returns.text),
        .entry "Parameters:" (params.map fun d => .leaf d.text),
        .entry "Body:" (outlineAll body)]
  | reserved what => .leaf ((Kind.reserved what).text ++ ": <not lowered>")

def outlineAll : List Node → List Outline
  | [] => []
  | n :: ns => n.outline :: outlineAll ns

end

def rows (n : Node) : List Row :=
  n.outline.rows [] true

def lines (n : Node) : List String :=
  n.rows.map Row.line

/-- The drawing of a tree, every line ended by a line feed. -/
def render (n : Node) : String :=
  String.join (n.lines.map (· ++ "\n"))

end Node

end LetTree

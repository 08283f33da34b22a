import LetTree.Toml.Scalar

/-!
# TOML documents

A document is a list of lines: headers, which name the table that the following lines add to, and
assignments. Between brackets and between braces a line may end anywhere but inside a key. Arrays
and tables in braces may be nested only so far.
-/

namespace LetTree.Toml

/-- The greatest nesting of arrays and tables in braces. -/
def nestingLimit : Nat := 80

/-! ### Values -/

/-- Takes items with commas between them, and perhaps one after the last, up to a closing character.
    Blanks, comments and line ends may stand around items. -/
def items {α : Type} (closing : Char) (item : Scan α) (cs : List Char) :
    Option (List α × List Char) :=
  match gap false cs with
  | [] => none
  | c :: rest =>
    if c = closing then some ([], rest)
    else
      match item (c :: rest) with
      | none => none
      | some (a, rest) =>
        match gap false rest with
        | ',' :: rest =>
          if rest.length < cs.length then
            (items closing item rest).map fun (as, rest) => (a :: as, rest)
          else none
        | d :: rest => if d = closing then some ([a], rest) else none
        | [] => none
  termination_by cs.length

/-- Takes an assignment: a key, an equals sign and a value. The reader `between` skips what may
    stand on both sides of the sign. -/
def assignment (between : Scan Unit) (value : Scan Value) : Scan (List String × Value) := do
  let path ← key
  between
  Scan.exactly ['=']
  between
  let v ← value
  return (path, v)

/-- The table in braces that assignments make. -/
def bracesTable? (assignments : List (List String × Value)) : Option Entries :=
  assignments.foldlM (fun entries (path, v) => entries.assign? path v) []

/-- Takes a value that holds no other values. -/
def plainValue : Scan Value := fun cs =>
  match cs with
  | '"' :: _ | '\'' :: _ => (string cs).map fun (s, rest) => (.string s, rest)
  | _ => scalar cs

/-- Takes a value, with room for so many levels of nesting. -/
def valueIn : Nat → Scan Value
  | 0 => plainValue
  | room + 1 => fun cs =>
    match cs with
    | '[' :: rest => (items ']' (valueIn room) rest).map fun (vs, rest) => (.array vs, rest)
    | '{' :: rest => do
      let (assignments, rest) ← items '}' (assignment gaps (valueIn room)) rest
      return (.table .braces (← bracesTable? assignments), rest)
    | _ => plainValue cs

def value : Scan Value := valueIn nestingLimit

/-! ### Lines -/

inductive Line where
  | blank
  | header (path : List String)
  | element (path : List String)
  | assignment (path : List String) (v : Value)

def lineContent : Scan Line := fun cs =>
  match cs with
  | '[' :: '[' :: rest =>
    (do
      blanks
      let path ← key
      blanks
      Scan.exactly [']', ']']
      return .element path : Scan Line) rest
  | '[' :: rest =>
    (do
      blanks
      let path ← key
      blanks
      Scan.exactly [']']
      return .header path : Scan Line) rest
  | [] | '#' :: _ | '\n' :: _ | '\r' :: _ => some (.blank, cs)
  | _ => (assignment blanks value cs).map fun ((path, v), rest) => (.assignment path v, rest)

def line : Scan Line := do
  blanks
  let content ← lineContent
  blanks
  comment
  return content

def lines (cs : List Char) : Option (List Line) :=
  match line cs with
  | none => none
  | some (l, rest) =>
    match rest with
    | [] => some [l]
    | _ =>
      match newline? rest with
      | none => none
      | some rest => if rest.length < cs.length then (lines rest).map (l :: ·) else none
  termination_by cs.length

/-! ### Documents -/

/-- The tables made so far, and the path of the one that assignments add to. -/
structure Draft where
  entries : Entries
  current : List String

def Draft.add? (d : Draft) : Line → Option Draft
  | .blank => some d
  | .header path => do return ⟨← d.entries.openTable? path, path⟩
  | .element path => do return ⟨← d.entries.openElement? path, path⟩
  | .assignment path v => do
    return ⟨← d.entries.within? d.current fun inside => inside.assign? path v, d.current⟩

/-- The entries of a document; a byte order mark at its beginning is left out. -/
def document? (text : String) : Option Entries := do
  let cs :=
    match text.toList with
    | '\ufeff' :: cs => cs
    | cs => cs
  let draft ← (← lines cs).foldlM Draft.add? ⟨[], []⟩
  return draft.entries

end LetTree.Toml

import LetTree.Text.Bytes
import LetTree.Text.Lines

/-!
# Places in a source text

A span is a pair of byte offsets. Offsets are arbitrary numbers: a span may lie past the end of the
text, split a character or end before it starts, and every function here is defined on all of them.
Lines and columns count from one, columns in characters.
-/

namespace LetTree

/-- The bytes from `start` up to, and not including, `stop`. -/
structure Span where
  start : Nat
  stop : Nat
  deriving DecidableEq, Repr

/-- A line and a column in it, both counted from one. -/
structure Position where
  line : Nat
  column : Nat
  deriving DecidableEq, Repr

namespace Position

/-- The first place of a text. -/
def first : Position := ⟨1, 1⟩

def after (p : Position) (c : Char) : Position :=
  if c = '\n' then ⟨p.line + 1, 1⟩ else ⟨p.line, p.column + 1⟩

/-- Walks over the characters that begin in the next `offset` bytes. -/
def walk (p : Position) (offset : Nat) : List Char → Position
  | [] => p
  | c :: cs => if offset = 0 then p else walk (p.after c) (offset - c.utf8Size) cs

/-- The place of a byte offset. An offset inside a character has the place after that character,
    an offset past the end has the place of the end. -/
def ofOffset (source : List Char) (offset : Nat) : Position :=
  first.walk offset source

/-- The text of a place: line and column with a colon between them. -/
def text (p : Position) : String :=
  toString p.line ++ ":" ++ toString p.column

end Position

namespace Span

/-- The least span that covers two spans. -/
def merge (a b : Span) : Span :=
  ⟨min a.start b.start, max a.stop b.stop⟩

def position (s : Span) (source : List Char) : Position :=
  .ofOffset source s.start

/-- The line on which a span starts; empty if the text has no such line. -/
def lineText (s : Span) (source : List Char) : List Char :=
  (Text.lines source)[(s.position source).line - 1]?.getD []

/-- The number of characters to mark: those of the span's first line, and at least one. -/
def markWidth (s : Span) (source : List Char) : Nat :=
  match Text.slice? s.start s.stop source with
  | some cs => max 1 ((Text.lines cs).head?.getD []).length
  | none => 1

/-- The block of text that shows a span in its source: where it starts, the line, and below the line
    a marker with the message. The line's number sets the width of the margin. -/
def excerpt (s : Span) (source : String) (file : Option String) (message : String) : String :=
  let cs := source.toList
  let p := s.position cs
  let number := toString p.line
  let margin := String.ofList (List.replicate number.length ' ')
  let place :=
    match file with
    | some name => name ++ ":" ++ p.text
    | none => p.text
  let marker :=
    String.ofList (List.replicate (p.column - 1) ' ' ++ List.replicate (s.markWidth cs) '^')
  margin ++ "--> " ++ place ++ "\n"
    ++ margin ++ " |\n"
    ++ number ++ " | " ++ String.ofList (s.lineText cs) ++ "\n"
    ++ margin ++ " | " ++ marker ++ " " ++ message

end Span

end LetTree

import LetTree.Command.Path

/-!
# Files

What a run asks of the file system, and a file tree that answers from memory. A place in a tree is
the list of names that lead to it from the root. One place is the working directory, in which a path
begins unless a slash says that it begins at the root.
-/

namespace LetTree

/-- Why a file cannot be read or written. -/
inductive FileError where
  | notFound
  | notDirectory
  | isDirectory
  | notText
  | other (text : String)
  deriving DecidableEq, Repr

def FileError.message : FileError → String
  | .notFound => "No such file or directory (os error 2)"
  | .notDirectory => "Not a directory (os error 20)"
  | .isDirectory => "Is a directory (os error 21)"
  | .notText => "stream did not contain valid UTF-8"
  | .other text => text

/-- The file operations of a run, in any monad. -/
structure Host (m : Type → Type) where
  read : String → m (Except FileError String)
  isFile : String → m Bool
  write : String → String → m (Except FileError Unit)

/-- The content of a file: a text, or bytes, which may be those of a text. -/
inductive Content where
  | text (s : String)
  | bytes (bs : List UInt8)
  deriving DecidableEq, Repr

namespace Content

def ofBytes (bs : List UInt8) : Content :=
  match String.fromUTF8? bs.toByteArray with
  | some s => .text s
  | none => .bytes bs

def text? : Content → Option String
  | .text s => some s
  | .bytes bs => String.fromUTF8? bs.toByteArray

end Content

/-- Files and directories, each at its place, and the working directory. -/
structure FileTree where
  files : List (List String × Content)
  directories : List (List String)
  working : List String
  deriving DecidableEq, Repr

namespace FileTree

def names (path : String) : List String :=
  ((Path.components path.toList).filter fun c => !Path.isVoid c).map String.ofList

/-- A working directory with nothing in it. -/
def empty : FileTree := ⟨[], [], ["work"]⟩

def content? (tree : FileTree) (place : List String) : Option Content :=
  tree.files.lookup place

/-- A directory is the working directory, one that is listed, or one above those or above a file. -/
def isDirectory (tree : FileTree) (place : List String) : Bool :=
  (tree.working :: tree.directories).any place.isPrefixOf
    || tree.files.any fun (file, _) => place.isPrefixOf file && place.length < file.length

/-- Gives a file its content; a file at the same place is replaced. -/
def putIn (place : List String) (content : Content) :
    List (List String × Content) → List (List String × Content)
  | [] => [(place, content)]
  | (other, old) :: rest =>
    if other = place then (place, content) :: rest else (other, old) :: putIn place content rest

def put (tree : FileTree) (place : List String) (content : Content) : FileTree :=
  ⟨putIn place content tree.files, tree.directories, tree.working⟩

/-- Adds a file by its names below the working directory. -/
def addFile (tree : FileTree) (path : List String) (content : Content) : FileTree :=
  tree.put (tree.working ++ path) content

def addDirectory (tree : FileTree) (path : List String) : FileTree :=
  ⟨tree.files, (tree.working ++ path) :: tree.directories, tree.working⟩

/-! ### Finding places -/

inductive Target where
  | directory
  | file (place : List String) (content : Content)
  | vacant (place : List String)
  deriving DecidableEq, Repr

/-- The place of a file, be it there or not. -/
def Target.place? : Target → Option (List String)
  | directory => none
  | file place _ | vacant place => some place

/-- Goes from a directory to the directory that a component names in it. Two dots name the directory
    above; above the root is the root. -/
def enter (tree : FileTree) (above : List String) (component : List Char) :
    Except FileError (List String) :=
  if Path.isVoid component then .ok above
  else if component = ['.', '.'] then .ok above.dropLast
  else
    let place := above ++ [String.ofList component]
    if tree.isDirectory place then .ok place
    else if (tree.content? place).isSome then .error .notDirectory
    else .error .notFound

/-- What the last component of a path names in a directory. -/
def target (tree : FileTree) (above : List String) (last : List Char) : Target :=
  if Path.isVoid last || last = ['.', '.'] then .directory
  else
    let place := above ++ [String.ofList last]
    if tree.isDirectory place then .directory
    else
      match tree.content? place with
      | some content => .file place content
      | none => .vacant place

/-- Where a path begins. -/
def origin (tree : FileTree) (path : List Char) : List String :=
  if path.head? = some '/' then [] else tree.working

/-- Goes along a path from directory to directory, up to what the last component names. -/
def walk (tree : FileTree) (path : List Char) : Except FileError Target := do
  let components := Path.components path
  let above ← components.dropLast.foldlM tree.enter (tree.origin path)
  return tree.target above (components.getLast?.getD [])

/-- What a path leads to; the empty path leads nowhere. -/
def find (tree : FileTree) (path : List Char) : Except FileError Target :=
  if path.isEmpty then .error .notFound else tree.walk path

/-! ### Operations -/

def read (tree : FileTree) (path : String) : Except FileError String := do
  match ← tree.find path.toList with
  | .directory => .error .isDirectory
  | .vacant _ => .error .notFound
  | .file _ content =>
    match content.text? with
    | some s => .ok s
    | none => .error .notText

def isFile (tree : FileTree) (path : String) : Bool :=
  match tree.find path.toList with
  | .ok (.file ..) => true
  | _ => false

/-- Opens a file to write it: a file that is there is emptied, and one that is not is made. The
    result is the file's place and the tree with the empty file. A path that ends in a slash can
    only name a directory, whether there is one or not. -/
def create (tree : FileTree) (path : String) : Except FileError (List String × FileTree) := do
  let cs := path.toList
  let bare := (cs.reverse.dropWhile (· = '/')).reverse
  if cs.isEmpty then .error .notFound
  else
    match (← tree.walk bare).place? with
    | some place =>
      if bare.length < cs.length then .error .isDirectory
      else .ok (place, tree.put place (.text ""))
    | none => .error .isDirectory

/-- Writes a text to a file, which may be new. A file that has been opened takes every text, so a
    write that fails does so before anything is changed. -/
def write (tree : FileTree) (path text : String) : Except FileError FileTree := do
  let (place, opened) ← tree.create path
  return opened.put place (.text text)

/-- The tree as the file system of a run. -/
def host : Host (StateM FileTree) where
  read path := do return (← get).read path
  isFile path := do return (← get).isFile path
  write path text := do
    match (← get).write path text with
    | .ok tree =>
      set tree
      return .ok ()
    | .error e => return .error e

/-- The path of a place, from the working directory if the place is in it. -/
def pathTo (tree : FileTree) (place : List String) : String :=
  if tree.working.isPrefixOf place then "/".intercalate (place.drop tree.working.length)
  else "/" ++ "/".intercalate place

/-- The files that are new in a tree or have another content than before, with their paths. -/
def changes (before after : FileTree) : List (String × Content) :=
  (after.files.filter fun (place, content) => before.content? place ≠ some content).map
    fun (place, content) => (after.pathTo place, content)

end FileTree

end LetTree

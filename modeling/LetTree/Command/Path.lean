/-!
# Paths

Paths are texts with slashes between their components. Empty components and single dots name
nothing, except that a dot at the beginning of a path is kept.
-/

namespace LetTree.Path

/-- The components of a path, the empty ones included. -/
def components : List Char → List (List Char)
  | [] => [[]]
  | '/' :: cs => [] :: components cs
  | c :: cs =>
    match components cs with
    | [] => [[c]]
    | first :: others => (c :: first) :: others

/-- A component that names nothing. -/
def isVoid (component : List Char) : Bool :=
  component = [] || component = ['.']

/-- Leaves out components that name nothing from the front of a list. A dot that is the only
    component left is kept if `dotFirst` says that a dot may begin the path. -/
def dropVoid (dotFirst : Bool) : List (List Char) → List (List Char)
  | [] => []
  | [component] => if component = [] || (component = ['.'] && !dotFirst) then [] else [component]
  | component :: others =>
    if isVoid component then dropVoid dotFirst others else component :: others

def join (components : List (List Char)) : List Char :=
  match components with
  | [] => []
  | [component] => component
  | component :: others => component ++ '/' :: join others

/-- The directory part of a path; the root has none, nor has an empty path. -/
def parent? (path : String) : Option String :=
  let (rooted, body) : Bool × List Char :=
    match path.toList with
    | '/' :: cs => (true, cs)
    | cs => (false, cs)
  match dropVoid (!rooted) (components body).reverse with
  | [] => none
  | _ :: above =>
    let directory := join (dropVoid (!rooted) above).reverse
    some (String.ofList (if rooted then '/' :: directory else directory))

/-- The path of a name in a directory. -/
def within (directory name : String) : String :=
  match directory.toList.getLast? with
  | none => name
  | some '/' => directory ++ name
  | some _ => directory ++ "/" ++ name

end LetTree.Path

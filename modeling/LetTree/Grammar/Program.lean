import LetTree.Grammar.Expression

/-!
# Programs

A program is a list of bindings and functions; the body of a function is a list of bindings.
-/

namespace LetTree

namespace Parse

/-- Takes a binding: `let name: type = expression;`. -/
def binding : Parse Node := do
  expect .letWord
  let (name, _) ← identifier
  expect .colon
  let ty ← type
  expect .equals
  let init ← expression
  expect .semicolon
  return .binding ⟨ty, name⟩ init

/-- Takes one parameter, `name: type`, whose name is not among those taken before. -/
def parameter (taken : List String) : Parse Declaration := do
  let (name, span) ← identifier
  expect .colon
  let ty ← type
  if name ∈ taken then
    fun _ ts => .error ⟨⟨span, .duplicateParameter name⟩, ts, 0⟩
  else return ⟨ty, name⟩

/-- Takes one parameter or more, with commas between them. -/
def parametersFrom (taken : List String) : Parse (List Declaration) := fun s ts =>
  match parameter taken s ts with
  | .error stop => .error stop
  | .ok (p, rest) =>
    match rest with
    | ⟨.comma, _⟩ :: rest' =>
      if rest'.length < ts.length then
        match parametersFrom (p.name :: taken) s rest' with
        | .error stop => .error stop
        | .ok (ps, rest) => .ok (p :: ps, rest)
      else .ok ([p], rest)
    | _ => .ok ([p], rest)
  termination_by _ ts => ts.length

/-- Takes the parameters between the parentheses of a function. -/
def parameters : Parse (List Declaration) := fun s ts =>
  if nextIs .rightParen ts then .ok ([], ts) else parametersFrom [] s ts

/-- Takes a function: `fn name(parameters) -> type { bindings }`. Without an arrow the function
    returns nothing. -/
def function : Parse Node := do
  expect .fnWord
  let (name, _) ← identifier
  expect .leftParen
  let params ← parameters
  expect .rightParen
  let returns ← if ← optional .arrow then type else pure .void
  expect .leftBrace
  let body ← many (nextIs .rightBrace) binding
  expect .rightBrace
  return .function name returns params body

def item : Parse Node := fun s ts =>
  if nextIs .letWord ts then binding s ts
  else if nextIs .fnWord ts then function s ts
  else unexpected .item s ts

/-- Takes bindings and functions up to the end. -/
def program : Parse Node := do
  let items ← many List.isEmpty item
  return .statements items

end Parse

/-- The limit on expressions where nothing else is said. -/
def defaultLimit : Nat := 256

def parse (limit : Nat) (tokens : List Token.Placed) : Except ParseError Node :=
  match Parse.program ⟨limit, 0, endOf tokens⟩ tokens with
  | .ok (root, _) => .ok root
  | .error stop => .error stop.error

/-! ### Sessions -/

/-- A list of tokens that is taken part by part. Whatever a part left, the next one starts from. -/
structure Session where
  surroundings : Surroundings
  rest : List Token.Placed
  deriving DecidableEq, Repr

namespace Session

/-- A session at the beginning of a list of tokens. -/
def start (limit : Nat) (tokens : List Token.Placed) : Session :=
  ⟨⟨limit, 0, endOf tokens⟩, tokens⟩

/-- Takes one part. Levels that a failure left open stay open for the parts that follow. -/
def advance (session : Session) (part : Parse Node) : Except ParseError Node × Session :=
  let s := session.surroundings
  match part s session.rest with
  | .ok (node, rest) => (.ok node, ⟨s, rest⟩)
  | .error stop =>
    (.error stop.error, ⟨⟨s.limit, s.depth + stop.opened, s.ending⟩, stop.rest⟩)

/-- Takes several parts, also after failures. -/
def run (session : Session) : List (Parse Node) → List (Except ParseError Node)
  | [] => []
  | part :: parts =>
    let (result, session) := session.advance part
    result :: session.run parts

end Session

end LetTree

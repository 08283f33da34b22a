import LetTree.Grammar.Error

/-!
# Steps over a list of tokens

A `Parse` takes tokens from the front of a list. When it stops without a result it still says which
tokens are left and how many levels of an expression were open, because whoever continues from there
continues with both.
-/

namespace LetTree

/-- What a step depends on besides the tokens. -/
structure Surroundings where
  /-- The greatest nesting and the greatest height of an expression. -/
  limit : Nat
  /-- The levels of expressions that are open already. -/
  depth : Nat
  /-- The place of the end of the tokens. -/
  ending : Span
  deriving DecidableEq, Repr

/-- How a step stops without a result. -/
structure Stop where
  error : ParseError
  /-- The tokens not taken. -/
  rest : List Token.Placed
  /-- The levels of expressions opened and not closed. -/
  opened : Nat
  deriving DecidableEq, Repr

/-- The place of the end of a list of tokens: after the last one. -/
def endOf (tokens : List Token.Placed) : Span :=
  match tokens.getLast? with
  | some last => ⟨last.span.stop, last.span.stop⟩
  | none => ⟨0, 0⟩

/-- A step that takes tokens and gives a result of type `α`. -/
def Parse (α : Type) : Type :=
  Surroundings → List Token.Placed → Except Stop (α × List Token.Placed)

namespace Parse

instance : Monad Parse where
  pure a := fun _ ts => .ok (a, ts)
  bind p f := fun s ts =>
    match p s ts with
    | .ok (a, rest) => f a s rest
    | .error stop => .error stop

/-- The place of the next token, or of the end. -/
def place (s : Surroundings) : List Token.Placed → Span
  | [] => s.ending
  | t :: _ => t.span

/-- Stops at the next token. -/
def unexpected {α : Type} (expected : Expected) : Parse α := fun s ts =>
  .error ⟨⟨place s ts, .unexpected expected (ts.head?.map (·.token))⟩, ts, 0⟩

/-- Takes the next token if it has a value of the kind asked for; gives the value and the place. -/
def take {α : Type} (expected : Expected) (value? : Token → Option α) : Parse (α × Span) :=
  fun s ts =>
    match ts with
    | [] => unexpected expected s ts
    | t :: rest =>
      match value? t.token with
      | some a => .ok ((a, t.span), rest)
      | none => unexpected expected s ts

def expect (token : Token) : Parse Unit := do
  let _ ← take (.token token) fun t => if t = token then some () else none

def identifier : Parse (String × Span) :=
  take .identifier fun
    | .identifier name => some name
    | _ => none

def type : Parse Ty := do
  let (ty, _) ← take .type fun
    | .type ty => some ty
    | _ => none
  return ty

/-- Whether the next token is a particular one. -/
def nextIs (token : Token) (ts : List Token.Placed) : Bool :=
  match ts with
  | t :: _ => t.token = token
  | [] => false

/-- Takes a particular token if it is the next one, and says whether it was. -/
def optional (token : Token) : Parse Bool := fun _ ts =>
  .ok (nextIs token ts, if nextIs token ts then ts.drop 1 else ts)

/-- Repeats a step until a test of the tokens holds. The step has to take a token each time, which
    is why this comes to an end; a step that takes none is not repeated. -/
def many {α : Type} (done : List Token.Placed → Bool) (item : Parse α) : Parse (List α) :=
  fun s ts =>
    if done ts then .ok ([], ts)
    else
      match item s ts with
      | .error stop => .error stop
      | .ok (a, rest) =>
        if rest.length < ts.length then
          match many done item s rest with
          | .error stop => .error stop
          | .ok (as, rest) => .ok (a :: as, rest)
        else .ok ([a], rest)
  termination_by _ ts => ts.length

end Parse

end LetTree

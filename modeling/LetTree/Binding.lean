import LetTree.Constant.Fold
import LetTree.Typing

/-!
# Bindings of a program

Every binding is checked: its initializer has a type, the type agrees with the declared one, and an
integer initializer folds to an integer. The check goes through a program in the order of its text
and stops at the first binding that fails.
-/

namespace LetTree

/-- What is known of a binding's value before the program runs. -/
inductive Known where
  | int (n : Int64)
  | string (s : String)
  | computed
  | nothing
  deriving DecidableEq, Repr

/-- The text of a known value; `computed` is a string that is not a single constant. -/
def Known.text : Known → String
  | .int n => toString n.toInt
  | .string s => "\"" ++ s ++ "\""
  | .computed => "<not constant>"
  | .nothing => "<ERROR>"

/-- A checked binding. -/
structure Binding where
  name : String
  ty : Ty
  value : Known
  deriving DecidableEq, Repr

def Binding.text (b : Binding) : String :=
  b.name ++ ": " ++ b.ty.text ++ " = " ++ b.value.text

/-- What is wrong with a binding. -/
inductive BindingFault where
  | type (e : TypeError)
  | fold (e : FoldError)
  | declared (declared found : Ty)
  deriving DecidableEq, Repr

structure BindingError where
  name : String
  fault : BindingFault
  deriving DecidableEq, Repr

def BindingError.message (e : BindingError) : String :=
  match e.fault with
  | .type t => "in binding '" ++ e.name ++ "': " ++ t.message
  | .fold f => "in binding '" ++ e.name ++ "': " ++ f.message
  | .declared declared found =>
    "binding '" ++ e.name ++ "' is declared " ++ declared.text
      ++ " but initialized with a " ++ found.text ++ " value"

abbrev Checked := Except (Halt BindingError)

namespace Declaration

/-- The type of a declared name whose initializer has type `found`. -/
def settle (decl : Declaration) (found : Ty) : Except BindingFault Ty :=
  if !decl.ty.resolved || decl.ty = found then .ok found else .error (.declared decl.ty found)

/-- Checks the binding of a declared name to an initializer. -/
def check (decl : Declaration) (init : Node) : Checked Binding := do
  let fault (f : BindingFault) : Halt BindingError := .error ⟨decl.name, f⟩
  let found ← init.typeOf.mapError fun e => fault (.type e)
  let ty ← (decl.settle found).mapError fault
  match ty with
  | .int =>
    let n ← init.fold.mapError (.map fun e => ⟨decl.name, .fold e⟩)
    return ⟨decl.name, ty, .int n⟩
  | .string =>
    match init.value? with
    | some (.string s) => return ⟨decl.name, ty, .string s⟩
    | _ => return ⟨decl.name, ty, .computed⟩
  | .void | .auto => return ⟨decl.name, ty, .nothing⟩

end Declaration

namespace Node

mutual

/-- The checked bindings of a tree. Statement lists and function bodies are searched, a binding is
    checked as a whole, and nothing else holds bindings. -/
def bindings : Node → Checked (List Binding)
  | statements items => bindingsAll items
  | function _ _ _ body => bindingsAll body
  | binding decl init => return [← decl.check init]
  | _ => return []

/-- The checked bindings of a list of trees, up to the first that fails. -/
def bindingsAll : List Node → Checked (List Binding)
  | [] => return []
  | n :: ns => do
    let first ← n.bindings
    let others ← bindingsAll ns
    return first ++ others

end

end Node

end LetTree

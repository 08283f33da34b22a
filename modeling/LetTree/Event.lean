import LetTree.Binding
import LetTree.Node.Edit
import LetTree.Node.Teardown

/-!
# Events

What is told of a program while it is worked on: that it has been read, which function is looked at,
each step of folding, and the ends of the analysis and of taking the tree apart. Events come in the
order in which things happen and stop where a failure ends the work. They are there for people who
look for faults; none of them is a warning.
-/

namespace LetTree

/-- How much an event matters, from the least to the most. -/
inductive Severity where
  | trace
  | debug
  | info
  | warn
  | error
  deriving DecidableEq, Repr

namespace Severity

def rank : Severity → Nat
  | trace => 0
  | debug => 1
  | info => 2
  | warn => 3
  | error => 4

def text : Severity → String
  | trace => "TRACE"
  | debug => "DEBUG"
  | info => "INFO"
  | warn => "WARN"
  | error => "ERROR"

end Severity

inductive Event where
  | parsed (items : Nat)
  | entered (function : String)
  | folded (op : Operator) (lhs rhs result : Int64)
  | analysed (bindings : Nat)
  | takenApart (nodes : Nat)
  | released (nodes : Nat)
  deriving DecidableEq, Repr

namespace Event

def severity : Event → Severity
  | parsed _ | entered _ | analysed _ | released _ => .debug
  | folded .. | takenApart _ => .trace

def text : Event → String
  | parsed items => "parsed program items=" ++ toString items
  | entered function => "analyzing function body function=" ++ function
  | folded op lhs rhs result =>
    "folded binary operation op=" ++ op.text ++ " lhs=" ++ toString lhs.toInt
      ++ " rhs=" ++ toString rhs.toInt ++ " result=" ++ toString result.toInt
  | analysed bindings => "analysis complete bindings=" ++ toString bindings
  | takenApart nodes => "released tree released=" ++ toString nodes
  | released nodes => "released syntax tree released=" ++ toString nodes

theorem rank_severity_lt_warn (e : Event) : e.severity.rank < Severity.warn.rank := by
  cases e <;> simp [severity, Severity.rank]

end Event

/-- Work that may fail and tells what it does. The state holds what has been told, the last first,
    and a failure takes nothing of it back. -/
abbrev Told (ε : Type) := ExceptT ε (StateM (List Event))

namespace Told

variable {ε α : Type}

def tell (e : Event) : Told ε Unit :=
  modify (e :: ·)

/-- Work that tells nothing. -/
def silent (x : Except ε α) : Told ε α :=
  ExceptT.mk (pure x)

/-- The result of some work, and the events in their order. -/
def finish (work : Told ε α) : Except ε α × List Event :=
  let (result, told) := (work.run.run []).run
  (result, told.reverse)

end Told

/-! ### Work that is told of -/

/-- Applies an operator to folded operands, and tells of it if there is a value. -/
def Operator.foldTold (lhs : Int64) (op : Operator) (rhs : Int64) :
    Told (Halt FoldError) Int64 := do
  let n ← .silent (op.fold lhs rhs)
  .tell (.folded op lhs rhs n)
  return n

/-- Folding with what is told on the way. -/
def Node.foldTold : Node → Told (Halt FoldError) Int64
  | binding _ init => init.foldTold
  | binary op left right =>
    match left.value?, right.value? with
    | some l, some r => do op.foldTold (← .silent l.fold) (← .silent r.fold)
    | some l, none => do op.foldTold (← .silent l.fold) (← right.foldTold)
    | none, some r => do
      let rhs ← .silent r.fold
      let lhs ← left.foldTold
      op.foldTold lhs rhs
    | none, none => do op.foldTold (← left.foldTold) (← right.foldTold)
  | other => .silent other.fold

/-- The check of a binding with what is told on the way: only integers are folded. -/
def Declaration.checkTold (decl : Declaration) (init : Node) : Told (Halt BindingError) Binding :=
  match init.typeOf with
  | .error _ => .silent (decl.check init)
  | .ok found =>
    match decl.settle found with
    | .ok .int => do
      let n ← ExceptT.adapt (Halt.map fun e => ⟨decl.name, .fold e⟩) init.foldTold
      return ⟨decl.name, .int, .int n⟩
    | _ => .silent (decl.check init)

namespace Node

mutual

/-- The checked bindings of a tree with what is told on the way. -/
def bindingsTold : Node → Told (Halt BindingError) (List Binding)
  | statements items => bindingsAllTold items
  | function name _ _ body => do
    .tell (.entered name)
    bindingsAllTold body
  | binding decl init => return [← decl.checkTold init]
  | _ => return []

def bindingsAllTold : List Node → Told (Halt BindingError) (List Binding)
  | [] => return []
  | n :: ns => do
    let first ← n.bindingsTold
    let others ← bindingsAllTold ns
    return first ++ others

end

/-- The analysis of a tree; its end is told of if it succeeds. -/
def analysis (root : Node) : Told (Halt BindingError) (List Binding) := do
  let bindings ← root.bindingsTold
  .tell (.analysed bindings.length)
  return bindings

/-- What is told once a tree has been read. -/
def parsedEvents (root : Node) : List Event :=
  [.parsed (root.items?.getD []).length]

/-- What is told while a tree is analysed. -/
def analysisEvents (root : Node) : List Event :=
  root.analysis.finish.2

def releaseEvents (root : Node) : List Event :=
  [.takenApart root.release, .released root.release]

end Node

end LetTree

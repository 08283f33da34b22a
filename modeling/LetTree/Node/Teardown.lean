import LetTree.Node.Basic

/-!
# Taking a tree apart

A tree is taken apart with a list of pending trees instead of by recursion, so its depth does not
matter: the first pending tree is counted and the trees it owns take its place. Every step keeps the
count so far plus the sizes of the pending trees, and makes the latter smaller by one.
-/

namespace LetTree

namespace Node

/-- The trees that a node owns, in the order in which they are taken apart: operands from left to
    right, elements of a list from the last to the first. -/
def owned : Node → List Node
  | binary _ left right => [left, right]
  | binding _ init => [init]
  | statements items => items.reverse
  | function _ _ _ body => body.reverse
  | value _ | reserved _ | declaration _ | declarations _ => []

mutual

/-- The number of nodes of a tree; declarations inside a node are part of that node. -/
def size : Node → Nat
  | binary _ left right => 1 + left.size + right.size
  | binding _ init => 1 + init.size
  | statements items => 1 + sizeAll items
  | function _ _ _ body => 1 + sizeAll body
  | value _ | reserved _ | declaration _ | declarations _ => 1

def sizeAll : List Node → Nat
  | [] => 0
  | n :: ns => n.size + sizeAll ns

end

theorem sizeAll_append (ns ms : List Node) : sizeAll (ns ++ ms) = sizeAll ns + sizeAll ms := by
  induction ns with
  | nil => simp [sizeAll]
  | cons n ns ih => simp [sizeAll, ih, Nat.add_assoc]

theorem sizeAll_reverse (ns : List Node) : sizeAll ns.reverse = sizeAll ns := by
  induction ns with
  | nil => rfl
  | cons n ns ih => simp [sizeAll, sizeAll_append, ih, Nat.add_comm]

theorem size_eq (n : Node) : n.size = 1 + sizeAll n.owned := by
  cases n <;> simp [size, owned, sizeAll, sizeAll_reverse, Nat.add_assoc]

end Node

/-- The state while trees are taken apart: how many nodes are done, and the trees yet to do. -/
structure Teardown where
  released : Nat
  pending : List Node

namespace Teardown

/-- One step, unless nothing is pending. -/
def step (t : Teardown) : Option Teardown :=
  match t.pending with
  | [] => none
  | n :: rest => some ⟨t.released + 1, n.owned ++ rest⟩

theorem sizeAll_step {t t' : Teardown} (h : t.step = some t') :
    Node.sizeAll t.pending = 1 + Node.sizeAll t'.pending := by
  cases hp : t.pending with
  | nil => simp [step, hp] at h
  | cons n rest =>
    simp only [step, hp, Option.some.injEq] at h
    subst h
    simp [Node.sizeAll, Node.sizeAll_append, Node.size_eq n, Nat.add_assoc]

/-- Takes every pending tree apart and gives the number of nodes done in all. -/
def finish (t : Teardown) : Nat :=
  match h : t.step with
  | none => t.released
  | some t' =>
    have := sizeAll_step h
    t'.finish
  termination_by Node.sizeAll t.pending
  decreasing_by omega

end Teardown

def Node.release (n : Node) : Nat :=
  Teardown.finish ⟨0, [n]⟩

end LetTree

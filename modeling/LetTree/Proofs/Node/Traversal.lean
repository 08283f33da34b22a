import Mathlib.Data.List.Basic
import LetTree.Binding
import LetTree.Node.Edit
import LetTree.Node.Outline
import LetTree.Node.Teardown

/-!
# Walks over whole trees

Two operations go through every node of a tree. A copy builds each of them anew and is the same tree
again. Taking a tree apart goes through the nodes by means of a list of pending trees, in an order
of its own; what it has taken together with what the pending trees still hold are the nodes of the
tree before and after every step, so that each node is taken once when nothing is pending any more.
-/

namespace LetTree

/-! ### Copies -/

theorem Declaration.map_copy (decls : List Declaration) : decls.map copy = decls :=
  List.map_id decls

namespace Node

mutual

theorem copy_eq : (n : Node) → n.copy = n
  | binary op left right => by rw [copy, copy_eq left, copy_eq right]
  | binding decl init => by
    rw [copy, copy_eq init]
    rfl
  | value v => by rw [copy]
  | reserved what => by rw [copy]
  | function name returns params body => by
    rw [copy, Declaration.map_copy, copyAll_eq body]
  | declaration decl => by
    rw [copy]
    rfl
  | declarations decls => by rw [copy, Declaration.map_copy]
  | statements items => by rw [copy, copyAll_eq items]

/-- The copies of the elements of a list come in the order of the list, and there are as many. -/
theorem copyAll_eq : (ns : List Node) → copyAll ns = ns
  | [] => by rw [copyAll]
  | n :: ns => by rw [copyAll, copy_eq n, copyAll_eq ns]

end

end Node

/-- **A copy is faithful.**  The copy of a tree is the same as the tree, and as no other tree; so it
    is drawn alike, and folding, typing, checking and taking apart end on it as on the tree. -/
theorem copy_faithful (n : Node) :
    n.copy.same n = true ∧ (∀ m, n.copy.same m = true ↔ n = m) ∧
      n.copy.render = n.render ∧ n.copy.fold = n.fold ∧ n.copy.typeOf = n.typeOf ∧
      n.copy.bindings = n.bindings ∧ n.copy.release = n.release := by
  rw [n.copy_eq]
  exact ⟨(Node.same_iff n n).mpr rfl, n.same_iff, rfl, rfl, rfl, rfl, rfl⟩

/-! ### The nodes of a tree -/

namespace Node

mutual

/-- The nodes of a tree, each as the tree below it: the tree itself, and then the nodes of the trees
    it owns as they stand in its text. Declarations are parts of nodes. -/
def nodes : Node → List Node
  | binary op left right => binary op left right :: (left.nodes ++ right.nodes)
  | binding decl init => binding decl init :: init.nodes
  | statements items => statements items :: nodesAll items
  | function name returns params body => function name returns params body :: nodesAll body
  | value v => [value v]
  | reserved what => [reserved what]
  | declaration decl => [declaration decl]
  | declarations decls => [declarations decls]

def nodesAll : List Node → List Node
  | [] => []
  | n :: ns => n.nodes ++ nodesAll ns

end

mutual

theorem length_nodes : (n : Node) → n.nodes.length = n.size
  | binary op left right => by
    rw [nodes, size, List.length_cons, List.length_append, length_nodes left, length_nodes right]
    omega
  | binding decl init => by
    rw [nodes, size, List.length_cons, length_nodes init, Nat.add_comm]
  | statements items => by
    rw [nodes, size, List.length_cons, length_nodesAll items, Nat.add_comm]
  | function name returns params body => by
    rw [nodes, size, List.length_cons, length_nodesAll body, Nat.add_comm]
  | value v => by simp [nodes, size]
  | reserved what => by simp [nodes, size]
  | declaration decl => by simp [nodes, size]
  | declarations decls => by simp [nodes, size]

theorem length_nodesAll : (ns : List Node) → (nodesAll ns).length = sizeAll ns
  | [] => by rw [nodesAll, sizeAll, List.length_nil]
  | n :: ns => by
    rw [nodesAll, sizeAll, List.length_append, length_nodes n, length_nodesAll ns]

end

theorem nodesAll_append (ns ms : List Node) : nodesAll (ns ++ ms) = nodesAll ns ++ nodesAll ms := by
  induction ns with
  | nil => rw [nodesAll, List.nil_append, List.nil_append]
  | cons n ns ih => rw [List.cons_append, nodesAll, nodesAll, ih, List.append_assoc]

theorem nodesAll_singleton (n : Node) : nodesAll [n] = n.nodes := by
  rw [nodesAll, nodesAll, List.append_nil]

theorem nodesAll_reverse_perm (ns : List Node) : (nodesAll ns.reverse).Perm (nodesAll ns) := by
  induction ns with
  | nil => exact .refl _
  | cons n ns ih =>
    rw [List.reverse_cons, nodesAll_append, nodesAll_singleton, nodesAll]
    exact List.perm_append_comm.trans (ih.append_left n.nodes)

/-- The nodes of a tree are the tree and the nodes of the trees it owns, whatever their order. -/
theorem nodes_perm (n : Node) : n.nodes.Perm (n :: nodesAll n.owned) := by
  cases n with
  | binary op left right =>
    rw [nodes, owned, nodesAll, nodesAll_singleton]
  | binding decl init => rw [nodes, owned, nodesAll_singleton]
  | statements items =>
    rw [nodes, owned]
    exact (nodesAll_reverse_perm items).symm.cons _
  | function name returns params body =>
    rw [nodes, owned]
    exact (nodesAll_reverse_perm body).symm.cons _
  | value v => rw [nodes, owned, nodesAll]
  | reserved what => rw [nodes, owned, nodesAll]
  | declaration decl => rw [nodes, owned, nodesAll]
  | declarations decls => rw [nodes, owned, nodesAll]

end Node

/-! ### Taking apart -/

namespace Teardown

/-- Some steps from one state to another, with the trees that they took from the pending ones. -/
inductive Run : Teardown → List Node → Teardown → Prop where
  | here {t : Teardown} : Run t [] t
  | pop {t t' t'' : Teardown} {n : Node} {rest popped : List Node}
      (hpending : t.pending = n :: rest) (hstep : t.step = some t') (hrun : Run t' popped t'') :
      Run t (n :: popped) t''

variable {t t' : Teardown} {n : Node} {rest popped : List Node}

theorem step_of_pending (h : t.pending = n :: rest) :
    t.step = some ⟨t.released + 1, n.owned ++ rest⟩ := by
  rw [step, h]

theorem step_eq_none_iff : t.step = none ↔ t.pending = [] := by
  cases h : t.pending with
  | nil => simp [step, h]
  | cons n rest => simp [step_of_pending h]

/-- A step counts one node, and the nodes that were pending are this one and those pending now. -/
theorem perm_step (hpending : t.pending = n :: rest) (hstep : t.step = some t') :
    t'.released = t.released + 1 ∧
      (Node.nodesAll t.pending).Perm (n :: Node.nodesAll t'.pending) := by
  rw [step_of_pending hpending] at hstep
  obtain rfl := Option.some.inj hstep
  rw [hpending, Node.nodesAll, Node.nodesAll_append]
  exact ⟨rfl, n.nodes_perm.append_right _⟩

theorem Run.perm (h : Run t popped t') :
    t'.released = t.released + popped.length ∧
      (Node.nodesAll t.pending).Perm (popped ++ Node.nodesAll t'.pending) := by
  induction h with
  | here => exact ⟨rfl, .refl _⟩
  | @pop t t' t'' n rest popped hpending hstep hrun ih =>
    obtain ⟨hcount, hnodes⟩ := perm_step hpending hstep
    refine ⟨?_, hnodes.trans (ih.2.cons n)⟩
    rw [ih.1, hcount, List.length_cons]
    omega

theorem finish_of_step (h : t.step = some t') : t.finish = t'.finish := by
  rw [finish]
  split
  · next hnone =>
    rw [h] at hnone
    cases hnone
  · next s hsome =>
    rw [h] at hsome
    rw [Option.some.inj hsome]

theorem finish_of_pending_nil (h : t.pending = []) : t.finish = t.released := by
  rw [finish]
  split
  · rfl
  · next s hsome =>
    rw [step_eq_none_iff.mpr h] at hsome
    cases hsome

/-- Whatever has been taken already, the count comes out the same. -/
theorem Run.finish_eq (h : Run t popped t') : t.finish = t'.finish := by
  induction h with
  | here => rfl
  | pop hpending hstep hrun ih => rw [finish_of_step hstep, ih]

/-- Every state runs to one in which nothing is pending. -/
theorem exists_run (t : Teardown) : ∃ popped t', Run t popped t' ∧ t'.pending = [] := by
  induction t using finish.induct with
  | case1 t hnone => exact ⟨[], t, .here, step_eq_none_iff.mp hnone⟩
  | case2 t t' hsome _ ih =>
    obtain ⟨popped, t'', hrun, hdone⟩ := ih
    cases hpending : t.pending with
    | nil =>
      rw [step_eq_none_iff.mpr hpending] at hsome
      cases hsome
    | cons n rest => exact ⟨n :: popped, t'', .pop hpending hsome hrun, hdone⟩

end Teardown

/-- Along every run from a tree: the steps are counted, the nodes taken and the nodes pending are
    those of the tree, the count and the sizes of the pending trees add up to its size, and nothing
    is left to do exactly when as many steps have been made as the tree has nodes. -/
structure TakesApart (n : Node) (popped : List Node) (t : Teardown) : Prop where
  counted : t.released = popped.length
  nodes : (popped ++ Node.nodesAll t.pending).Perm n.nodes
  size : t.released + Node.sizeAll t.pending = n.size
  ends : t.step = none ↔ popped.length = n.size

theorem Teardown.Run.takesApart {n : Node} {popped : List Node} {t : Teardown}
    (h : Run ⟨0, [n]⟩ popped t) : TakesApart n popped t := by
  obtain ⟨hcount, hperm⟩ := h.perm
  rw [Nat.zero_add] at hcount
  rw [Node.nodesAll_singleton] at hperm
  have hsize : t.released + Node.sizeAll t.pending = n.size := by
    have hlength := hperm.length_eq
    rwa [List.length_append, Node.length_nodes, Node.length_nodesAll, ← hcount, eq_comm] at hlength
  refine ⟨hcount, hperm.symm, hsize, ?_⟩
  -- A pending tree has at least one node, so that the sizes add up with none pending only.
  rw [step_eq_none_iff]
  cases hpending : t.pending with
  | nil =>
    rw [hpending, Node.sizeAll] at hsize
    exact iff_of_true rfl (by omega)
  | cons m rest =>
    rw [hpending, Node.sizeAll, m.size_eq] at hsize
    exact iff_of_false (List.cons_ne_nil m rest) (by omega)

/-- **Taking a tree apart meets every node once.**  There is a run from the tree to a state in which
    nothing is pending, its count is the result, which is the size of the tree, and it takes the
    nodes of the tree, each once. Every run on the way keeps the count so far plus the sizes of the
    pending trees, and none goes on for longer. -/
theorem teardown_takes_each_once (n : Node) :
    n.release = n.size ∧
    (∃ popped t, Teardown.Run ⟨0, [n]⟩ popped t ∧ t.pending = [] ∧ t.released = n.release ∧
      popped.Perm n.nodes) ∧
    ∀ popped t, Teardown.Run ⟨0, [n]⟩ popped t → TakesApart n popped t := by
  obtain ⟨popped, t, hrun, hdone⟩ := Teardown.exists_run ⟨0, [n]⟩
  have happart := hrun.takesApart
  have hnodes := happart.nodes
  have hsize := happart.size
  rw [hdone, Node.nodesAll, List.append_nil] at hnodes
  rw [hdone, Node.sizeAll, Nat.add_zero] at hsize
  have hreleased : t.released = n.release := by
    rw [Node.release, hrun.finish_eq, Teardown.finish_of_pending_nil hdone]
  exact ⟨hreleased ▸ hsize, ⟨popped, t, hrun, hdone, hreleased, hnodes⟩,
    fun _ _ => Teardown.Run.takesApart⟩

/-- `fn f(p: int) { let a: int = 1; let b: int = 2; }` has five nodes; after two steps the last
    binding is taken and its initializer is the next in turn. -/
theorem teardown_takes_each_once_function :
    let first := Node.binding ⟨.int, "a"⟩ (.value (.int 1))
    let last := Node.binding ⟨.int, "b"⟩ (.value (.int 2))
    let function := Node.function "f" .void [⟨.int, "p"⟩] [first, last]
    function.release = 5 ∧ TakesApart function [function, last] ⟨2, [.value (.int 2), first]⟩ := by
  intro first last function
  obtain ⟨hrelease, -, hruns⟩ := teardown_takes_each_once function
  exact ⟨hrelease, hruns _ _ (.pop rfl rfl (.pop rfl rfl .here))⟩

end LetTree

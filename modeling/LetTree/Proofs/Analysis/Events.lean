import LetTree.Event

/-!
# Telling changes nothing

Work that is told of has the result that it has in silence, whatever has been told before
(`Told.Gives`). Sequences keep this, and so folding, the check of a binding and the analysis of a
tree have it, each by the recursion by which they are defined.
-/

namespace LetTree

namespace Told

variable {ε ε' α β : Type} {work : Told ε α} {x : Except ε α}

/-- Whatever has been told before, the work has this result. -/
def Gives (work : Told ε α) (x : Except ε α) : Prop :=
  ∀ told, (work.run.run told).run.1 = x

theorem gives_silent (x : Except ε α) : (silent x).Gives x := fun _ => rfl

theorem gives_pure (a : α) : (pure a : Told ε α).Gives (.ok a) := fun _ => rfl

theorem Gives.bind {next : α → Told ε β} {f : α → Except ε β} (h : work.Gives x)
    (hnext : ∀ a, (next a).Gives (f a)) : (work >>= next).Gives (x >>= f) := by
  intro told
  have hx := h told
  simp only [ExceptT.run_bind, StateT.run_bind, Id.run_bind]
  cases hwork : (work.run.run told).run with
  | mk result after =>
    rw [hwork] at hx
    subst hx
    cases result with
    | error e => rfl
    | ok a => exact hnext a after

theorem Gives.tell (h : work.Gives x) (e : Event) : (do tell e; work : Told ε α).Gives x :=
  fun told => h (e :: told)

theorem Gives.adapt (h : work.Gives x) (f : ε → ε') :
    Gives (ExceptT.adapt f work) (x.mapError f) := by
  intro told
  change ((Except.mapError f <$> work.run).run told).run.1 = _
  rw [StateT.run_map, Id.run_map, h told]

end Told

theorem Operator.foldTold_gives (lhs : Int64) (op : Operator) (rhs : Int64) :
    (op.foldTold lhs rhs).Gives (op.fold lhs rhs) := by
  have h : (op.foldTold lhs rhs).Gives (op.fold lhs rhs >>= fun n => pure n) :=
    (Told.gives_silent _).bind fun n => (Told.gives_pure n).tell _
  rwa [bind_pure] at h

namespace Node

theorem foldTold_gives (n : Node) : n.foldTold.Gives n.fold := by
  fun_induction foldTold n with
  | case1 decl init ih => exact ih
  | case2 op left right l r hl hr =>
    rw [fold, hl, hr]
    refine (Told.gives_silent _).bind fun lhs => ?_
    exact (Told.gives_silent _).bind fun rhs => op.foldTold_gives lhs rhs
  | case3 op left right l hl hr ih =>
    rw [fold, hl, hr]
    refine (Told.gives_silent _).bind fun lhs => ?_
    exact ih.bind fun rhs => op.foldTold_gives lhs rhs
  | case4 op left right r hl hr ih =>
    rw [fold, hl, hr]
    refine (Told.gives_silent _).bind fun rhs => ?_
    exact ih.bind fun lhs => op.foldTold_gives lhs rhs
  | case5 op left right hl hr ihl ihr =>
    rw [fold, hl, hr]
    refine ihl.bind fun lhs => ?_
    exact ihr.bind fun rhs => op.foldTold_gives lhs rhs
  | case6 => exact Told.gives_silent _

end Node

theorem Declaration.checkTold_gives (decl : Declaration) (init : Node) :
    (decl.checkTold init).Gives (decl.check init) := by
  unfold checkTold
  split
  · exact Told.gives_silent _
  · next found hfound =>
    split
    · next hsettle =>
      have hcheck : decl.check init =
          (init.fold.mapError (Halt.map fun e => ⟨decl.name, .fold e⟩) >>= fun n =>
            pure ⟨decl.name, .int, .int n⟩) := by
        rw [check, hfound]
        dsimp only [Except.mapError, bind, Except.bind]
        rw [hsettle]
      rw [hcheck]
      exact (init.foldTold_gives.adapt _).bind fun n => Told.gives_pure _
    · exact Told.gives_silent _

namespace Node

mutual

theorem bindingsTold_gives (n : Node) : n.bindingsTold.Gives n.bindings := by
  cases n with
  | statements items => exact bindingsAllTold_gives items
  | function name ty params body => exact (bindingsAllTold_gives body).tell _
  | binding decl init => exact (decl.checkTold_gives init).bind fun b => Told.gives_pure [b]
  | _ => exact Told.gives_pure []

theorem bindingsAllTold_gives (ns : List Node) : (bindingsAllTold ns).Gives (bindingsAll ns) := by
  cases ns with
  | nil => exact Told.gives_pure []
  | cons n ns =>
    refine (bindingsTold_gives n).bind fun first => ?_
    exact (bindingsAllTold_gives ns).bind fun others => Told.gives_pure _

end

theorem analysis_gives (root : Node) : root.analysis.Gives root.bindings := by
  have h : root.analysis.Gives (root.bindings >>= fun bindings => pure bindings) :=
    root.bindingsTold_gives.bind fun bindings => (Told.gives_pure bindings).tell _
  rwa [bind_pure] at h

/-- The analysis comes to the same bindings as the check that tells nothing. -/
theorem finish_analysis (root : Node) :
    root.analysis.finish = (root.bindings, root.analysisEvents) :=
  Prod.ext (root.analysis_gives []) rfl

end Node

end LetTree

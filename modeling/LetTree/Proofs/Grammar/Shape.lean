import LetTree.Proofs.Grammar.Acceptance
import LetTree.Proofs.Grammar.Round

/-!
# The shape of a program

All conditions of the grammar but one concern the next few tokens. The exception is that the
parameters of a function have different names. A list of tokens has the shape of a program when it
obeys the other conditions (`Shaped`), and it is a program when in addition no function repeats a
name (`sentence_iff_shape`).

The reader has nothing else to say against a list of this shape: under a limit that is high enough
it accepts the list, or it refuses it because of a name (`program_of_shaped`).
-/

namespace LetTree

/-- The parameters of a function have different names. Other nodes have no parameters. -/
def Node.DistinctParameters : Node → Prop
  | .function _ _ params _ => (params.map (·.name)).Nodup
  | _ => True

namespace Grammar

variable {E E' : List Token → Node → Prop} {ts : List Token} {n : Node}

/-- The tokens between the parentheses of a function, whatever the names are. -/
inductive SignatureShape : List Token → List Declaration → Prop where
  | empty : SignatureShape [] []
  | listed {ts : List Token} {ps : List Declaration} (h : Parameters ts ps) : SignatureShape ts ps

/-- The tokens of a function, whatever the names of its parameters are. -/
inductive FunctionShape (E : List Token → Node → Prop) : List Token → Node → Prop where
  | intro {name : String} {ty : Ty} {ps : List Declaration} {body : List Node}
      {pts rts bts : List Token} (hps : SignatureShape pts ps) (hty : Returns rts ty)
      (hbody : Star (Let E) bts body) :
      FunctionShape E (.fnWord :: .identifier name :: .leftParen ::
          (pts ++ .rightParen :: (rts ++ .leftBrace :: (bts ++ [.rightBrace]))))
        (.function name ty ps body)

/-- The tokens of a binding or of a function, whatever the names of its parameters are. -/
def ItemShape (E : List Token → Node → Prop) (ts : List Token) (n : Node) : Prop :=
  Let E ts n ∨ FunctionShape E ts n

/-- The tokens are a program, except that names of parameters may be repeated. -/
def Shaped (ts : List Token) : Prop := ∃ items, Star (ItemShape (Expression 0)) ts items

/-! ### Shapes and programs -/

theorem signature_iff_shape {ps : List Declaration} :
    Signature ts ps ↔ SignatureShape ts ps ∧ (ps.map (·.name)).Nodup := by
  constructor
  · intro h
    cases h with
    | empty => exact ⟨.empty, List.nodup_nil⟩
    | listed hps hdistinct => exact ⟨.listed hps, hdistinct⟩
  · rintro ⟨hps, hdistinct⟩
    cases hps with
    | empty => exact .empty
    | listed hps => exact .listed hps hdistinct

theorem Let.distinctParameters (h : Let E ts n) : n.DistinctParameters := by
  cases h
  trivial

theorem item_iff_shape : Item E ts n ↔ ItemShape E ts n ∧ n.DistinctParameters := by
  constructor
  · rintro (hlet | hfn)
    · exact ⟨.inl hlet, hlet.distinctParameters⟩
    · cases hfn with
      | intro hps hty hbody =>
        obtain ⟨hshape, hdistinct⟩ := signature_iff_shape.mp hps
        exact ⟨.inr (.intro hshape hty hbody), hdistinct⟩
  · rintro ⟨hlet | hfn, hdistinct⟩
    · exact .inl hlet
    · cases hfn with
      | intro hps hty hbody =>
        exact .inr (.intro (signature_iff_shape.mpr ⟨hps, hdistinct⟩) hty hbody)

theorem star_item_iff_shape {items : List Node} :
    Star (Item E) ts items ↔ Star (ItemShape E) ts items ∧ ∀ n ∈ items, n.DistinctParameters := by
  constructor
  · intro h
    induction h with
    | nil => exact ⟨.nil, by simp⟩
    | cons h _ ih =>
      obtain ⟨hshape, hdistinct⟩ := item_iff_shape.mp h
      exact ⟨.cons hshape ih.1, List.forall_mem_cons.mpr ⟨hdistinct, ih.2⟩⟩
  · rintro ⟨h, hdistinct⟩
    induction h with
    | nil => exact .nil
    | cons h _ ih =>
      obtain ⟨hone, hothers⟩ := List.forall_mem_cons.mp hdistinct
      exact .cons (item_iff_shape.mpr ⟨h, hone⟩) (ih hothers)

/-- A program is what has the shape of one and repeats no name of a parameter. -/
theorem sentence_iff_shape {items : List Node} :
    Sentence ts (.statements items) ↔
      Star (ItemShape (Expression 0)) ts items ∧ ∀ n ∈ items, n.DistinctParameters := by
  rw [← star_item_iff_shape]
  constructor
  · rintro ⟨h⟩
    exact h
  · intro h
    exact .intro h

theorem Let.ne_nil (h : Let E ts n) : ts ≠ [] := by
  cases h
  exact List.cons_ne_nil _ _

theorem ItemShape.ne_nil (h : ItemShape E ts n) : ts ≠ [] := by
  rcases h with h | h
  · exact h.ne_nil
  · cases h
    exact List.cons_ne_nil _ _

theorem ItemShape.mono {bound : Nat} (hE : ∀ us e, us.length ≤ bound → E us e → E' us e)
    (h : ItemShape E ts n) (hts : ts.length ≤ bound) : ItemShape E' ts n := by
  rcases h with h | h
  · exact .inl (h.mono hE hts)
  · cases h with
    | intro hps hty hbody =>
      simp only [List.length_cons, List.length_append] at hts
      exact .inr (.intro hps hty (hbody.mono (fun _ _ hus hlet => hlet.mono hE hus) (by omega)))

end Grammar

namespace Parse

open Grammar

variable {α β : Type} {s : Surroundings} {pre rest : List Token.Placed}

/-! ### Repeated names -/

/-- The outcome is an error about the name of a parameter. -/
def Repeated (o : Except Stop (α × List Token.Placed)) : Prop :=
  ∃ stop name, o = .error stop ∧ stop.error.cause = .duplicateParameter name

theorem Repeated.bind {p : Parse α} {ts : List Token.Placed} (h : Repeated (p s ts))
    (f : α → Parse β) : Repeated ((p >>= f) s ts) := by
  obtain ⟨stop, name, hstop, hcause⟩ := h
  exact ⟨stop, name, bind_of_error hstop, hcause⟩

theorem parameter_of_taken {taken : List String} {name : String} (h : name ∈ taken) (ty : Ty)
    (a b c : Span) : Repeated (parameter taken s
      (⟨.identifier name, a⟩ :: ⟨.colon, b⟩ :: ⟨.type ty, c⟩ :: rest)) := by
  refine ⟨⟨⟨a, .duplicateParameter name⟩, rest, 0⟩, name, ?_, rfl⟩
  simp [parameter, bind, identifier, expect, type, take, h, pure]

theorem parameter_length_lt {taken : List String} {ts : List Token.Placed}
    (p : Declaration) (rest : List Token.Placed) (h : parameter taken s ts = .ok (p, rest)) :
    rest.length < ts.length := by
  obtain ⟨-, a, b, c, rfl⟩ := parameter_eq_ok_iff.mp h
  simp only [List.length_cons]
  omega

/-- A name that stands twice among the parameters, or was taken before them, is found. -/
theorem parametersFrom_repeated {taken : List String} {ps : List Declaration}
    (h : Parameters (pre.map Token.Placed.token) ps)
    (hnames : ¬ ((ps.map (·.name)).Nodup ∧ ∀ p ∈ ps, p.name ∉ taken)) :
    Repeated (parametersFrom taken s (pre ++ rest)) := by
  generalize hwords : pre.map Token.Placed.token = words at h
  induction h generalizing taken pre with
  | @last name ty =>
    simp only [List.map_eq_cons_iff] at hwords
    obtain ⟨⟨_, a⟩, _, rfl, rfl, ⟨_, b⟩, _, rfl, rfl, ⟨_, c⟩, _, rfl, rfl, -⟩ := hwords
    have htaken : name ∈ taken := by simpa using hnames
    rw [parametersFrom_round]
    exact (parameter_of_taken htaken ty a b c).bind _
  | @more name ty us qs _ ih =>
    simp only [List.map_eq_cons_iff] at hwords
    obtain ⟨⟨_, a⟩, _, rfl, rfl, ⟨_, b⟩, _, rfl, rfl, ⟨_, c⟩, _, rfl, rfl, ⟨_, d⟩, vs, rfl, rfl,
      hvs⟩ := hwords
    by_cases htaken : name ∈ taken
    · rw [parametersFrom_round]
      exact (parameter_of_taken htaken ty a b c).bind _
    · have hothers : ¬ ((qs.map (·.name)).Nodup ∧ ∀ q ∈ qs, q.name ∉ name :: taken) := by
        rintro ⟨hdistinct, hnew⟩
        apply hnames
        grind
      have hmore := ih hothers hvs
      rw [parametersFrom_bind parameter_length_lt]
      simp only [List.cons_append, bind_of_ok (parameter_of_new htaken ty a b c _)]
      exact hmore.bind _

/-- A function that repeats a name is refused for it, before its body is read. -/
theorem item_repeated {E : List Token → Node → Prop} {n : Node}
    (h : FunctionShape E (pre.map Token.Placed.token) n) (hnames : ¬ n.DistinctParameters) :
    Repeated (item s (pre ++ rest)) := by
  generalize hwords : pre.map Token.Placed.token = words at h
  cases h with
  | @intro name ty ps body pts rts bts hps _ _ =>
    simp only [List.map_eq_cons_iff, List.map_eq_append_iff] at hwords
    obtain ⟨⟨_, a⟩, _, rfl, rfl, ⟨_, b⟩, _, rfl, rfl, ⟨_, c⟩, _, rfl, rfl, pre, us, rfl, rfl, -⟩ :=
      hwords
    have hparameters : Repeated (parameters s (pre ++ (us ++ rest))) := by
      generalize hpts : pre.map Token.Placed.token = pts at hps
      cases hps with
      | empty => exact absurd List.nodup_nil hnames
      | listed hps =>
        subst hpts
        obtain ⟨first, place, vs, hstart⟩ := parameters_start hps (us ++ rest)
        rw [parameters, if_neg (by rw [hstart]; simp)]
        exact parametersFrom_repeated hps fun hfresh => hnames hfresh.1
    have hname : identifier s (⟨.identifier name, b⟩ :: ⟨.leftParen, c⟩ ::
        (pre ++ (us ++ rest))) = .ok ((name, b), _) := identifier_eq_ok_iff.mpr rfl
    simp only [List.cons_append, List.append_assoc]
    change Repeated (function s _)
    simp only [function]
    rw [bind_of_ok (expect_cons _ a _), bind_of_ok hname, bind_of_ok (expect_cons _ c _)]
    exact hparameters.bind _

/-! ### Programs -/

theorem item_of_shape {n : Node} (h : ItemShape (Fitting s) (pre.map Token.Placed.token) n) :
    item s (pre ++ rest) = .ok (n, rest) ∨ Repeated (item s (pre ++ rest)) := by
  by_cases hnames : n.DistinctParameters
  · exact .inl ((item_exactly _ _ _).mpr ⟨pre, rfl, item_iff_shape.mpr ⟨h, hnames⟩, trivial⟩)
  · rcases h with h | h
    · exact absurd h.distinctParameters hnames
    · exact .inr (item_repeated h hnames)

theorem items_of_shape {ts : List Token.Placed} {items : List Node}
    (h : Star (ItemShape (Fitting s)) (ts.map Token.Placed.token) items) :
    many List.isEmpty item s ts = .ok (items, []) ∨ Repeated (many List.isEmpty item s ts) := by
  generalize hwords : ts.map Token.Placed.token = words at h
  induction h generalizing ts with
  | nil =>
    obtain rfl := List.map_eq_nil_iff.mp hwords
    exact .inl (by rw [many]; rfl)
  | @cons us vs n ns hone _ ih =>
    obtain ⟨pre, post, rfl, rfl, rfl⟩ := List.map_eq_append_iff.mp hwords
    have hpre : pre ≠ [] := fun hnil => hone.ne_nil (by rw [hnil]; rfl)
    have hmore : (pre ++ post).isEmpty = false := by simp [hpre]
    rcases item_of_shape hone with hitem | hitem
    · have hlt : ∀ a rest, item s (pre ++ post) = .ok (a, rest) →
          rest.length < (pre ++ post).length := by
        intro a rest ha
        cases hitem.symm.trans ha
        simpa using List.length_pos_iff.mpr hpre
      rw [many_bind hmore hlt, bind_of_ok hitem]
      rcases ih rfl with hrest | hrest
      · rw [bind_of_ok hrest]
        exact .inl rfl
      · exact .inr (hrest.bind _)
    · rw [many_round hmore]
      exact .inr (hitem.bind _)

/-- Under a limit that is high enough, tokens of the shape of a program are accepted, or refused
    because the name of a parameter is repeated. -/
theorem program_of_shaped {ts : List Token.Placed} (h : Shaped (ts.map Token.Placed.token))
    (hlimit : ts.length ≤ s.limit - s.depth) :
    (∃ root, program s ts = .ok (root, [])) ∨ Repeated (program s ts) := by
  obtain ⟨items, hitems⟩ := h
  have hfitting : Star (ItemShape (Fitting s)) (ts.map Token.Placed.token) items := by
    refine hitems.mono (fun us n hus hshape => hshape.mono ?_ hus) (Nat.le_refl _)
    intro vs e hvs he
    rw [List.length_map] at hvs
    exact .of_expression he (by omega)
  rcases items_of_shape hfitting with hrun | hrun
  · exact .inl ⟨_, bind_of_ok hrun⟩
  · exact .inr (hrun.bind _)

end Parse

end LetTree

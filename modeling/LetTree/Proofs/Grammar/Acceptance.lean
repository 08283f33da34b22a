import LetTree.Grammar.Program
import LetTree.Proofs.Grammar.Climbing

/-!
# What the reader accepts

Bindings, functions and programs are taken exactly where the grammar has them, at every limit
(`parse_eq_ok_iff`). A limit that exceeds the number of tokens excludes nothing, so that under such
a limit the reader accepts the language and builds its trees.
-/

namespace LetTree

namespace Parse

open Grammar

variable {s : Surroundings} {ts rest : List Token.Placed}

/-! ### Bindings -/

theorem binding_eq_ok_iff {n : Node} :
    binding s ts = .ok (n, rest) ↔
      ∃ name ty e a b c d f g us,
        ts = ⟨.letWord, a⟩ :: ⟨.identifier name, b⟩ :: ⟨.colon, c⟩ :: ⟨.type ty, d⟩ ::
          ⟨.equals, f⟩ :: us ∧
        expression s us = .ok (e, ⟨.semicolon, g⟩ :: rest) ∧ n = .binding ⟨ty, name⟩ e := by
  simp only [binding, bind_eq_ok_iff, expect_eq_ok_iff, identifier_eq_ok_iff, type_eq_ok_iff,
    pure_eq_ok_iff, Prod.exists]
  constructor
  · rintro ⟨-, _, ⟨a, rfl⟩, name, b, _, rfl, -, _, ⟨c, rfl⟩, ty, _, ⟨d, rfl⟩, -, us, ⟨f, rfl⟩,
      e, _, he, -, _, ⟨g, rfl⟩, rfl, rfl⟩
    exact ⟨name, ty, e, a, b, c, d, f, g, us, rfl, he, rfl⟩
  · rintro ⟨name, ty, e, a, b, c, d, f, g, us, rfl, he, rfl⟩
    exact ⟨(), _, ⟨a, rfl⟩, name, b, _, rfl, (), _, ⟨c, rfl⟩, ty, _, ⟨d, rfl⟩, (), us, ⟨f, rfl⟩,
      e, _, he, (), rest, ⟨g, rfl⟩, rfl, rfl⟩

theorem binding_exactly : Exactly binding s (Let (Fitting s)) fun _ => True := by
  intro ts n rest
  rw [binding_eq_ok_iff]
  constructor
  · rintro ⟨name, ty, e, a, b, c, d, f, g, us, rfl, he, rfl⟩
    obtain ⟨pre, rfl, hfit, -⟩ := (expression_exactly _ _ _).mp he
    refine ⟨⟨.letWord, a⟩ :: ⟨.identifier name, b⟩ :: ⟨.colon, c⟩ :: ⟨.type ty, d⟩ ::
      ⟨.equals, f⟩ :: (pre ++ [⟨.semicolon, g⟩]), by simp, ?_, trivial⟩
    simp only [List.map_cons, List.map_append, List.map_nil]
    exact .intro hfit
  · rintro ⟨pre, rfl, hlet, -⟩
    generalize hwords : pre.map Token.Placed.token = words at hlet
    cases hlet with
    | @intro name ty ws e he =>
      simp only [List.map_eq_cons_iff, List.map_eq_append_iff] at hwords
      obtain ⟨⟨_, a⟩, _, rfl, rfl, ⟨_, b⟩, _, rfl, rfl, ⟨_, c⟩, _, rfl, rfl, ⟨_, d⟩, _, rfl, rfl,
        ⟨_, f⟩, _, rfl, rfl, us, vs, rfl, hus, ⟨_, g⟩, _, rfl, rfl, hvs⟩ := hwords
      obtain rfl := List.map_eq_nil_iff.mp hvs
      refine ⟨name, ty, e, a, b, c, d, f, g, us ++ ⟨.semicolon, g⟩ :: rest, by simp, ?_, rfl⟩
      refine (expression_exactly _ _ _).mpr ⟨us, rfl, hus ▸ he, ?_⟩
      intro text span more heq
      cases heq

/-- A binding starts with its word, so that it is never empty and never the end of a body. -/
theorem let_start {E : List Token → Node → Prop} {pre : List Token.Placed} {n : Node}
    (h : Let E (pre.map Token.Placed.token) n) (us : List Token.Placed) :
    ∃ span vs, pre ++ us = ⟨.letWord, span⟩ :: vs ∧ pre ≠ [] := by
  generalize hwords : pre.map Token.Placed.token = words at h
  cases h with
  | intro he =>
    obtain ⟨⟨_, span⟩, vs, rfl, rfl, -⟩ := List.map_eq_cons_iff.mp hwords
    exact ⟨span, vs ++ us, rfl, by simp⟩

theorem bindings_exactly :
    Exactly (many (nextIs .rightBrace) binding) s (Star (Let (Fitting s)))
      fun us => nextIs .rightBrace us = true := by
  refine many_exactly binding_exactly ?_
  intro pre us n h
  obtain ⟨span, vs, hpre, hne⟩ := let_start h us
  exact ⟨hne, by rw [hpre]; rfl⟩

/-! ### Functions -/

theorem parameter_eq_ok_iff {taken : List String} {p : Declaration} :
    parameter taken s ts = .ok (p, rest) ↔
      p.name ∉ taken ∧ ∃ a b c,
        ts = ⟨.identifier p.name, a⟩ :: ⟨.colon, b⟩ :: ⟨.type p.ty, c⟩ :: rest := by
  simp only [parameter, bind_eq_ok_iff, expect_eq_ok_iff, identifier_eq_ok_iff, type_eq_ok_iff,
    Prod.exists]
  constructor
  · rintro ⟨name, a, _, rfl, -, _, ⟨b, rfl⟩, ty, _, ⟨c, rfl⟩, h⟩
    rcases ite_eq_ok_iff.mp h with ⟨-, h⟩ | ⟨hnew, h⟩
    · cases h
    · obtain ⟨rfl, rfl⟩ := pure_eq_ok_iff.mp h
      exact ⟨hnew, a, b, c, rfl⟩
  · rintro ⟨hnew, a, b, c, rfl⟩
    exact ⟨p.name, a, _, rfl, (), _, ⟨b, rfl⟩, p.ty, _, ⟨c, rfl⟩,
      ite_eq_ok_iff.mpr (.inr ⟨hnew, rfl⟩)⟩

theorem parameter_of_new {taken : List String} {name : String} (hnew : name ∉ taken) (ty : Ty)
    (a b c : Span) (rest : List Token.Placed) :
    parameter taken s (⟨.identifier name, a⟩ :: ⟨.colon, b⟩ :: ⟨.type ty, c⟩ :: rest) =
      .ok (⟨ty, name⟩, rest) :=
  parameter_eq_ok_iff.mpr ⟨hnew, a, b, c, rfl⟩

/-- Parameters that are distinct from each other and from those taken before. -/
def Fresh (taken : List String) (ts : List Token) (ps : List Declaration) : Prop :=
  Parameters ts ps ∧ (ps.map (·.name)).Nodup ∧ ∀ p ∈ ps, p.name ∉ taken

theorem parametersFrom_sound {taken : List String} {ps : List Declaration}
    (h : parametersFrom taken s ts = .ok (ps, rest)) :
    ∃ pre, ts = pre ++ rest ∧ Fresh taken (pre.map Token.Placed.token) ps ∧
      nextIs .comma rest = false := by
  induction hn : ts.length using Nat.strongRecOn generalizing taken ts ps with
  | _ n ih =>
    subst hn
    rw [parametersFrom.eq_def] at h
    cases hone : parameter taken s ts with
    | error stop => simp [hone] at h
    | ok r =>
      obtain ⟨p, mid⟩ := r
      obtain ⟨hnew, a, b, c, rfl⟩ := parameter_eq_ok_iff.mp hone
      simp only [hone] at h
      split at h
      · next span us =>
        rw [if_pos (by simp; omega)] at h
        cases hmore : parametersFrom (p.name :: taken) s us with
        | error stop => simp [hmore] at h
        | ok r =>
          obtain ⟨qs, last⟩ := r
          simp only [hmore] at h
          cases h
          obtain ⟨post, rfl, ⟨hqs, hdistinct, hfresh⟩, hnext⟩ :=
            ih us.length (by simp; omega) hmore rfl
          refine ⟨_ :: _ :: _ :: _ :: post, rfl, ⟨.more hqs, ?_, ?_⟩, hnext⟩
          · rw [List.map_cons, List.nodup_cons]
            refine ⟨?_, hdistinct⟩
            intro hmem
            obtain ⟨q, hq, hname⟩ := List.mem_map.mp hmem
            exact hfresh q hq (hname ▸ List.mem_cons_self)
          · intro q hq hmem
            rcases List.mem_cons.mp hq with rfl | hq
            · exact hnew hmem
            · exact hfresh q hq (List.mem_cons_of_mem _ hmem)
      · next hno =>
        cases h
        refine ⟨[_, _, _], rfl, ⟨.last, by simp, by simpa using hnew⟩, ?_⟩
        cases hcomma : nextIs .comma rest with
        | false => rfl
        | true =>
          obtain ⟨span, us, rfl⟩ := nextIs_iff.mp hcomma
          exact absurd rfl (hno span us)

theorem parametersFrom_complete {taken : List String} {pre : List Token.Placed}
    {ps : List Declaration} (h : Fresh taken (pre.map Token.Placed.token) ps)
    (hnext : nextIs .comma rest = false) :
    parametersFrom taken s (pre ++ rest) = .ok (ps, rest) := by
  obtain ⟨hps, hdistinct, hfresh⟩ := h
  generalize hwords : pre.map Token.Placed.token = words at hps
  induction hps generalizing taken pre with
  | @last name ty =>
    simp only [List.map_eq_cons_iff] at hwords
    obtain ⟨⟨_, a⟩, _, rfl, rfl, ⟨_, b⟩, _, rfl, rfl, ⟨_, c⟩, _, rfl, rfl, hnil⟩ := hwords
    obtain rfl := List.map_eq_nil_iff.mp hnil
    rw [parametersFrom.eq_def]
    simp only [List.cons_append, List.nil_append, parameter_of_new (hfresh _ List.mem_cons_self)]
    split
    · simp at hnext
    · rfl
  | @more name ty us qs hqs ih =>
    simp only [List.map_eq_cons_iff] at hwords
    obtain ⟨⟨_, a⟩, _, rfl, rfl, ⟨_, b⟩, _, rfl, rfl, ⟨_, c⟩, _, rfl, rfl, ⟨_, d⟩, vs, rfl, rfl,
      hvs⟩ := hwords
    rw [List.map_cons, List.nodup_cons] at hdistinct
    have hmore : parametersFrom (name :: taken) s (vs ++ rest) = .ok (qs, rest) := by
      refine ih hdistinct.2 ?_ hvs
      intro q hq hmem
      rcases List.mem_cons.mp hmem with hname | hmem
      · exact hdistinct.1 (List.mem_map.mpr ⟨q, hq, hname⟩)
      · exact hfresh q (List.mem_cons_of_mem _ hq) hmem
    rw [parametersFrom.eq_def]
    simp only [List.cons_append, parameter_of_new (hfresh _ List.mem_cons_self), hmore]
    rw [if_pos (by simp; omega)]

/-- Parameters begin with a name. -/
theorem parameters_start {ps : List Declaration} {pre : List Token.Placed}
    (h : Parameters (pre.map Token.Placed.token) ps) (us : List Token.Placed) :
    ∃ name span vs, pre ++ us = ⟨.identifier name, span⟩ :: vs := by
  generalize hwords : pre.map Token.Placed.token = words at h
  cases h with
  | last =>
    obtain ⟨⟨_, span⟩, vs, rfl, rfl, -⟩ := List.map_eq_cons_iff.mp hwords
    exact ⟨_, span, _, rfl⟩
  | more hs =>
    obtain ⟨⟨_, span⟩, vs, rfl, rfl, -⟩ := List.map_eq_cons_iff.mp hwords
    exact ⟨_, span, _, rfl⟩

theorem parameters_eq_ok_iff {ps : List Declaration} {span : Span} :
    parameters s ts = .ok (ps, ⟨.rightParen, span⟩ :: rest) ↔
      ∃ pre, ts = pre ++ ⟨.rightParen, span⟩ :: rest ∧
        Signature (pre.map Token.Placed.token) ps := by
  constructor
  · intro h
    rw [parameters] at h
    split at h
    · cases h
      exact ⟨[], rfl, .empty⟩
    · obtain ⟨pre, rfl, ⟨hps, hdistinct, -⟩, -⟩ := parametersFrom_sound h
      exact ⟨pre, rfl, .listed hps hdistinct⟩
  · rintro ⟨pre, rfl, hps⟩
    generalize hwords : pre.map Token.Placed.token = words at hps
    cases hps with
    | empty =>
      obtain rfl := List.map_eq_nil_iff.mp hwords
      rfl
    | listed hps hdistinct =>
      subst hwords
      obtain ⟨name, place, vs, hstart⟩ := parameters_start hps (⟨.rightParen, span⟩ :: rest)
      rw [parameters, if_neg (by rw [hstart]; simp)]
      exact parametersFrom_complete ⟨hps, hdistinct, by simp⟩ rfl

/-- The part of a function between its parameters and its body. -/
def returns : Parse Ty := do
  if ← optional .arrow then type else pure .void

theorem returns_eq_ok_iff {ty : Ty} {span : Span} :
    returns s ts = .ok (ty, ⟨.leftBrace, span⟩ :: rest) ↔
      ∃ pre, ts = pre ++ ⟨.leftBrace, span⟩ :: rest ∧
        Returns (pre.map Token.Placed.token) ty := by
  simp only [returns, bind_eq_ok_iff, optional_eq_ok_iff, ite_eq_ok_iff, type_eq_ok_iff,
    pure_eq_ok_iff]
  constructor
  · rintro ⟨_, mid, ⟨rfl, a, rfl⟩ | ⟨rfl, -, rfl⟩, h⟩
    · rcases h with ⟨-, b, rfl⟩ | ⟨h, -⟩
      · exact ⟨[_, _], rfl, .present⟩
      · exact absurd rfl h
    · rcases h with ⟨h, -⟩ | ⟨-, rfl, rfl⟩
      · cases h
      · exact ⟨[], rfl, .absent⟩
  · rintro ⟨pre, rfl, hty⟩
    generalize hwords : pre.map Token.Placed.token = words at hty
    cases hty with
    | absent =>
      obtain rfl := List.map_eq_nil_iff.mp hwords
      exact ⟨false, _, .inr ⟨rfl, rfl, rfl⟩, .inr ⟨by decide, rfl, rfl⟩⟩
    | present =>
      simp only [List.map_eq_cons_iff] at hwords
      obtain ⟨⟨_, a⟩, _, rfl, rfl, ⟨_, b⟩, _, rfl, rfl, hnil⟩ := hwords
      obtain rfl := List.map_eq_nil_iff.mp hnil
      exact ⟨true, _, .inl ⟨rfl, a, rfl⟩, .inl ⟨rfl, b, rfl⟩⟩

theorem function_eq_ok_iff {n : Node} :
    function s ts = .ok (n, rest) ↔
      ∃ name ty ps body a b c d f g pre mid post,
        ts = ⟨.fnWord, a⟩ :: ⟨.identifier name, b⟩ :: ⟨.leftParen, c⟩ ::
          (pre ++ ⟨.rightParen, d⟩ :: (mid ++ ⟨.leftBrace, f⟩ ::
            (post ++ ⟨.rightBrace, g⟩ :: rest))) ∧
        Signature (pre.map Token.Placed.token) ps ∧ Returns (mid.map Token.Placed.token) ty ∧
        Star (Let (Fitting s)) (post.map Token.Placed.token) body ∧
        n = .function name ty ps body := by
  constructor
  · intro h
    simp only [function, ite_bind, bind_eq_ok_iff, expect_eq_ok_iff, identifier_eq_ok_iff,
      pure_eq_ok_iff, Prod.exists] at h
    obtain ⟨-, _, ⟨a, rfl⟩, name, b, _, rfl, -, _, ⟨c, rfl⟩, ps, _, hps, -, _, ⟨d, rfl⟩, arrow, vs,
      harrow, ty, _, hty, -, _, ⟨f, rfl⟩, body, _, hbody, -, _, ⟨g, rfl⟩, rfl, rfl⟩ := h
    obtain ⟨pre, rfl, hpre⟩ := parameters_eq_ok_iff.mp hps
    obtain ⟨mid, rfl, hmid⟩ := returns_eq_ok_iff.mp (bind_eq_ok_iff.mpr ⟨arrow, vs, harrow, hty⟩)
    obtain ⟨post, rfl, hpost, -⟩ := (bindings_exactly _ _ _).mp hbody
    exact ⟨name, ty, ps, body, a, b, c, d, f, g, pre, mid, post, rfl, hpre, hmid, hpost, rfl⟩
  · rintro ⟨name, ty, ps, body, a, b, c, d, f, g, pre, mid, post, rfl, hpre, hmid, hpost, rfl⟩
    have hbody := (bindings_exactly _ body (⟨.rightBrace, g⟩ :: rest)).mpr
      ⟨post, rfl, hpost, rfl⟩
    have hreturns : returns s (mid ++ ⟨.leftBrace, f⟩ :: (post ++ ⟨.rightBrace, g⟩ :: rest)) =
        .ok (ty, ⟨.leftBrace, f⟩ :: (post ++ ⟨.rightBrace, g⟩ :: rest)) :=
      returns_eq_ok_iff.mpr ⟨mid, rfl, hmid⟩
    obtain ⟨arrow, vs, harrow, hty⟩ := bind_eq_ok_iff.mp hreturns
    simp only [function, ite_bind, bind_eq_ok_iff, expect_eq_ok_iff, identifier_eq_ok_iff,
      pure_eq_ok_iff, Prod.exists]
    exact ⟨(), _, ⟨a, rfl⟩, name, b, _, rfl, (), _, ⟨c, rfl⟩, ps, _,
      parameters_eq_ok_iff.mpr ⟨pre, rfl, hpre⟩, (), _, ⟨d, rfl⟩, arrow, vs, harrow, ty, _, hty,
      (), _, ⟨f, rfl⟩, body, _, hbody, (), _, ⟨g, rfl⟩, rfl, rfl⟩

theorem function_exactly : Exactly function s (Function (Fitting s)) fun _ => True := by
  intro ts n rest
  rw [function_eq_ok_iff]
  constructor
  · rintro ⟨name, ty, ps, body, a, b, c, d, f, g, pre, mid, post, rfl, hpre, hmid, hpost, rfl⟩
    refine ⟨⟨.fnWord, a⟩ :: ⟨.identifier name, b⟩ :: ⟨.leftParen, c⟩ ::
      (pre ++ ⟨.rightParen, d⟩ :: (mid ++ ⟨.leftBrace, f⟩ :: (post ++ [⟨.rightBrace, g⟩]))),
      by simp, ?_, trivial⟩
    simp only [List.map_cons, List.map_append, List.map_nil]
    exact .intro hpre hmid hpost
  · rintro ⟨pre, rfl, hfn, -⟩
    generalize hwords : pre.map Token.Placed.token = words at hfn
    cases hfn with
    | @intro name ty ps body pts rts bts hps hty hbody =>
      simp only [List.map_eq_cons_iff, List.map_eq_append_iff] at hwords
      obtain ⟨⟨_, a⟩, _, rfl, rfl, ⟨_, b⟩, _, rfl, rfl, ⟨_, c⟩, _, rfl, rfl, pre, _, rfl, rfl,
        ⟨_, d⟩, _, rfl, rfl, mid, _, rfl, rfl, ⟨_, f⟩, _, rfl, rfl, post, _, rfl, rfl,
        ⟨_, g⟩, _, rfl, rfl, hnil⟩ := hwords
      obtain rfl := List.map_eq_nil_iff.mp hnil
      exact ⟨name, ty, ps, body, a, b, c, d, f, g, pre, mid, post, by simp, hps, hty, hbody, rfl⟩

/-! ### Programs -/

theorem function_start {E : List Token → Node → Prop} {pre : List Token.Placed} {n : Node}
    (h : Function E (pre.map Token.Placed.token) n) (us : List Token.Placed) :
    ∃ span vs, pre ++ us = ⟨.fnWord, span⟩ :: vs ∧ pre ≠ [] := by
  generalize hwords : pre.map Token.Placed.token = words at h
  cases h with
  | intro =>
    obtain ⟨⟨_, span⟩, vs, rfl, rfl, -⟩ := List.map_eq_cons_iff.mp hwords
    exact ⟨span, vs ++ us, rfl, by simp⟩

theorem item_exactly : Exactly item s (Item (Fitting s)) fun _ => True := by
  intro ts n rest
  constructor
  · intro h
    rw [item] at h
    split at h
    · obtain ⟨pre, hts, hlet, -⟩ := (binding_exactly _ _ _).mp h
      exact ⟨pre, hts, .inl hlet, trivial⟩
    · split at h
      · obtain ⟨pre, hts, hfn, -⟩ := (function_exactly _ _ _).mp h
        exact ⟨pre, hts, .inr hfn, trivial⟩
      · exact absurd h unexpected_ne_ok
  · rintro ⟨pre, rfl, hlet | hfn, -⟩
    · obtain ⟨span, vs, hstart, -⟩ := let_start hlet rest
      have hword : nextIs .letWord (pre ++ rest) = true := by rw [hstart]; rfl
      rw [item, if_pos hword]
      exact (binding_exactly _ _ _).mpr ⟨pre, rfl, hlet, trivial⟩
    · obtain ⟨span, vs, hstart, -⟩ := function_start hfn rest
      have hlet : nextIs .letWord (pre ++ rest) = false := by rw [hstart]; rfl
      have hword : nextIs .fnWord (pre ++ rest) = true := by rw [hstart]; rfl
      rw [item, hlet, if_neg (by decide), if_pos hword]
      exact (function_exactly _ _ _).mpr ⟨pre, rfl, hfn, trivial⟩

/-- Neither kind of item is empty, so that the end of the tokens is none. -/
theorem item_start {E : List Token → Node → Prop} (pre us : List Token.Placed) (n : Node)
    (h : Item E (pre.map Token.Placed.token) n) : pre ≠ [] ∧ (pre ++ us).isEmpty = false := by
  rcases h with h | h
  · obtain ⟨span, vs, hpre, hne⟩ := let_start h us
    exact ⟨hne, by rw [hpre]; rfl⟩
  · obtain ⟨span, vs, hpre, hne⟩ := function_start h us
    exact ⟨hne, by rw [hpre]; rfl⟩

theorem items_exactly :
    Exactly (many List.isEmpty item) s (Star (Item (Fitting s))) fun us => us.isEmpty = true :=
  many_exactly item_exactly item_start

end Parse

/-- At every limit, a list of tokens is accepted exactly if it is a program whose expressions fit
    into the limit, and the result is the tree of that program. -/
theorem parse_eq_ok_iff {limit : Nat} {tokens : List Token.Placed} {root : Node} :
    parse limit tokens = .ok root ↔
      Grammar.Program (Parse.Fitting ⟨limit, 0, endOf tokens⟩)
        (tokens.map Token.Placed.token) root := by
  have hparse : parse limit tokens = .ok root ↔
      ∃ rest, Parse.program ⟨limit, 0, endOf tokens⟩ tokens = .ok (root, rest) := by
    rw [parse]
    split <;> simp_all
  rw [hparse]
  simp only [Parse.program, Parse.bind_eq_ok_iff, Parse.pure_eq_ok_iff, Parse.items_exactly _ _ _]
  constructor
  · rintro ⟨rest, items, _, ⟨pre, rfl, hstar, hend⟩, rfl, rfl⟩
    obtain rfl := List.isEmpty_iff.mp hend
    rw [List.append_nil]
    exact .intro hstar
  · rintro ⟨hstar⟩
    exact ⟨[], _, [], ⟨tokens, by simp, hstar, rfl⟩, rfl, rfl⟩

/-! ### Limits that exclude nothing -/

namespace Grammar

variable {E E' : List Token → Node → Prop} {bound : Nat}

theorem Let.mono (hE : ∀ us e, us.length ≤ bound → E us e → E' us e) {ts : List Token} {n : Node}
    (h : Let E ts n) (hts : ts.length ≤ bound) : Let E' ts n := by
  cases h with
  | intro he =>
    simp only [List.length_cons, List.length_append] at hts
    exact .intro (hE _ _ (by omega) he)

theorem Star.mono {G G' : List Token → Node → Prop}
    (hG : ∀ us n, us.length ≤ bound → G us n → G' us n) {ts : List Token} {ns : List Node}
    (h : Star G ts ns) (hts : ts.length ≤ bound) : Star G' ts ns := by
  induction h with
  | nil => exact .nil
  | cons h hs ih =>
    rw [List.length_append] at hts
    exact .cons (hG _ _ (by omega) h) (ih (by omega))

theorem Function.mono (hE : ∀ us e, us.length ≤ bound → E us e → E' us e) {ts : List Token}
    {n : Node} (h : Function E ts n) (hts : ts.length ≤ bound) : Function E' ts n := by
  cases h with
  | intro hps hty hbody =>
    simp only [List.length_cons, List.length_append] at hts
    exact .intro hps hty (hbody.mono (fun _ _ hus hlet => hlet.mono hE hus) (by omega))

/-- Only the expressions of a program depend on the notion of expression, and they are no longer
    than the program. -/
theorem Program.mono (hE : ∀ us e, us.length ≤ bound → E us e → E' us e) {ts : List Token}
    {root : Node} (h : Program E ts root) (hts : ts.length ≤ bound) : Program E' ts root := by
  cases h with
  | intro hitems =>
    refine .intro (hitems.mono ?_ hts)
    rintro us n hus (hlet | hfn)
    · exact .inl (hlet.mono hE hus)
    · exact .inr (hfn.mono hE hus)

end Grammar

theorem Parse.Fitting.expression {s : Surroundings} {ts : List Token} {e : Node}
    (h : Fitting s ts e) : Grammar.Expression 0 ts e := by
  obtain ⟨f, rfl, hfits, -, -, rfl⟩ := h
  exact f.expression_of_fits 0 (by omega) hfits

theorem Parse.Fitting.of_expression {s : Surroundings} {ts : List Token} {e : Node}
    (h : Grammar.Expression 0 ts e) (hdepth : ts.length ≤ s.limit - s.depth) :
    Fitting s ts e := by
  obtain ⟨f, hfits, rfl, rfl⟩ := h.exists_form
  have hneed := f.need_le_length
  have hheight := f.height_le_length
  exact ⟨f, rfl, hfits, by omega, by omega, rfl⟩

theorem parse_of_sentence {limit : Nat} {tokens : List Token.Placed} {root : Node}
    (hlimit : tokens.length ≤ limit)
    (h : Grammar.Sentence (tokens.map Token.Placed.token) root) :
    parse limit tokens = .ok root := by
  refine parse_eq_ok_iff.mpr (Grammar.Program.mono ?_ h (Nat.le_of_eq (List.length_map _)))
  intro us e hus he
  exact .of_expression he (by simp only; omega)

theorem sentence_of_parse {limit : Nat} {tokens : List Token.Placed} {root : Node}
    (h : parse limit tokens = .ok root) :
    Grammar.Sentence (tokens.map Token.Placed.token) root :=
  (parse_eq_ok_iff.mp h).mono (fun _ _ _ he => he.expression) (Nat.le_refl _)

/-- **The reader accepts the language and builds its trees.**  Under a limit above the number of
    tokens a list of tokens is accepted exactly if it is a sentence of the grammar, the result is
    the tree that the grammar assigns to it, and the grammar assigns no other. -/
theorem parse_eq_ok_iff_sentence (limit : Nat) (tokens : List Token.Placed)
    (hlimit : tokens.length + 1 ≤ limit) :
    (∀ root, parse limit tokens = .ok root ↔
      Grammar.Sentence (tokens.map Token.Placed.token) root) ∧
    ∀ root other, Grammar.Sentence (tokens.map Token.Placed.token) root →
      Grammar.Sentence (tokens.map Token.Placed.token) other → root = other := by
  refine ⟨fun root => ⟨sentence_of_parse, parse_of_sentence (by omega)⟩, ?_⟩
  intro root other hroot hother
  have hone : parse limit tokens = .ok root := parse_of_sentence (by omega) hroot
  have htwo : parse limit tokens = .ok other := parse_of_sentence (by omega) hother
  exact Except.ok.inj (hone.symm.trans htwo)

/-- `let x: int = 2 ^^ 3 ^^ 2 - -1;`: powers group to the right, before the difference, and the
    second minus sign belongs to the literal. -/
theorem sentence_powers_and_signs :
    Grammar.Sentence
      [.letWord, .identifier "x", .colon, .type .int, .equals, .integer 2, .operator "^^",
        .integer 3, .operator "^^", .integer 2, .operator "-", .operator "-", .integer 1,
        .semicolon]
      (.statements [.binding ⟨.int, "x"⟩ (.binary .sub
        (.binary .power (.value (.int 2)) (.binary .power (.value (.int 3)) (.value (.int 2))))
        (.value (.int (-1))))]) := by
  refine ((parse_eq_ok_iff_sentence 15
    [⟨.letWord, ⟨0, 3⟩⟩, ⟨.identifier "x", ⟨4, 5⟩⟩, ⟨.colon, ⟨5, 6⟩⟩, ⟨.type .int, ⟨7, 10⟩⟩,
      ⟨.equals, ⟨11, 12⟩⟩, ⟨.integer 2, ⟨13, 14⟩⟩, ⟨.operator "^^", ⟨15, 17⟩⟩,
      ⟨.integer 3, ⟨18, 19⟩⟩, ⟨.operator "^^", ⟨20, 22⟩⟩, ⟨.integer 2, ⟨23, 24⟩⟩,
      ⟨.operator "-", ⟨25, 26⟩⟩, ⟨.operator "-", ⟨27, 28⟩⟩, ⟨.integer 1, ⟨28, 29⟩⟩,
      ⟨.semicolon, ⟨29, 30⟩⟩] (by decide)).1 _).mp ?_
  with_unfolding_all rfl

end LetTree

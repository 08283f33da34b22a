import LetTree.Proofs.Grammar.Acceptance
import LetTree.Proofs.Grammar.Round

/-!
# Open levels

A step that stops inside an expression leaves the levels open that it has opened there, and a step
that stops anywhere else leaves none open. `Enters` says where a part of a program comes to read an
expression, in terms of the grammar alone: after the tokens of a binding up to the equals sign, and
in a function after its head and any number of bindings. The levels left open by a part that stops
are then exactly those of an expression at such a place (`part_raises_iff`).
-/

namespace LetTree

namespace Session

/-- The parts of a program that a session can be asked for. -/
inductive Call where
  | binding
  | function
  | expression
  deriving DecidableEq, Repr

def Call.part : Call → Parse Node
  | .binding => Parse.binding
  | .function => Parse.function
  | .expression => Parse.expression

end Session

namespace Parse

open Grammar

variable {α β : Type} {s : Surroundings} {ts rest : List Token.Placed} {stop : Stop}

theorem bind_eq_error_iff {p : Parse α} {f : α → Parse β} :
    (p >>= f) s ts = .error stop ↔
      p s ts = .error stop ∨ ∃ a mid, p s ts = .ok (a, mid) ∧ f a s mid = .error stop := by
  rcases hp : p s ts with stop' | ⟨a, mid⟩
  · rw [bind_of_error hp]
    simp
  · rw [bind_of_ok hp]
    simp only [reduceCtorEq, false_or, Except.ok.injEq, Prod.mk.injEq]
    constructor
    · intro h
      exact ⟨a, mid, ⟨rfl, rfl⟩, h⟩
    · rintro ⟨_, _, ⟨rfl, rfl⟩, h⟩
      exact h

/-! ### Steps outside of expressions -/

/-- No level is open after an outcome. -/
def Flat : Except Stop (α × List Token.Placed) → Prop
  | .ok _ => True
  | .error stop => stop.opened = 0

theorem Flat.not_error {o : Except Stop (α × List Token.Placed)} (h : Flat o)
    (hopen : 0 < stop.opened) : o ≠ .error stop := by
  rintro rfl
  exact Nat.ne_of_gt hopen h

theorem Flat.bind {p : Parse α} {f : α → Parse β} (h : Flat (p s ts))
    (hf : ∀ a rest, Flat (f a s rest)) : Flat ((p >>= f) s ts) := by
  rcases hp : p s ts with stop | ⟨a, mid⟩
  · rw [hp] at h
    rw [bind_of_error hp]
    exact h
  · rw [bind_of_ok hp]
    exact hf a mid

theorem Flat.ite {c : Prop} [Decidable c] {p q : Parse α} (hp : Flat (p s ts))
    (hq : Flat (q s ts)) : Flat ((if c then p else q) s ts) := by
  by_cases hc : c
  · rw [if_pos hc]
    exact hp
  · rw [if_neg hc]
    exact hq

theorem unexpected_flat (expected : Expected) : Flat ((unexpected expected : Parse α) s ts) := rfl

theorem take_flat (expected : Expected) (value? : Token → Option α) :
    Flat (take expected value? s ts) := by
  cases ts with
  | nil => exact unexpected_flat expected
  | cons t rest =>
    simp only [take]
    cases value? t.token with
    | none => exact unexpected_flat expected
    | some a => trivial

theorem expect_flat (token : Token) : Flat (expect token s ts) :=
  (take_flat _ _).bind fun _ _ => trivial

theorem identifier_flat : Flat (identifier s ts) := take_flat _ _

theorem type_flat : Flat (type s ts) := (take_flat _ _).bind fun _ _ => trivial

theorem parameter_flat (taken : List String) : Flat (parameter taken s ts) := by
  refine identifier_flat.bind ?_
  rintro ⟨name, span⟩ rest
  refine (expect_flat _).bind fun _ rest => ?_
  refine type_flat.bind fun ty rest => ?_
  exact Flat.ite rfl trivial

theorem parametersFrom_flat (taken : List String) : Flat (parametersFrom taken s ts) := by
  induction hn : ts.length using Nat.strongRecOn generalizing ts taken with
  | _ n ih =>
    subst hn
    rw [parametersFrom_round]
    refine (parameter_flat taken).bind fun p rest => ?_
    split
    · next span rest' =>
      split
      · next hlt => exact (ih rest'.length hlt (p.name :: taken) rfl).bind fun _ _ => trivial
      · exact trivial
    · exact trivial

theorem parameters_flat : Flat (parameters s ts) := by
  unfold parameters
  split
  · exact trivial
  · exact parametersFrom_flat []

theorem returns_flat : Flat (returns s ts) := by
  refine Flat.bind trivial fun arrow rest => ?_
  exact Flat.ite type_flat trivial

/-- A stop with open levels after a step that opens none comes from what follows the step. -/
theorem bind_raises_after {p : Parse α} {f : α → Parse β} (hp : Flat (p s ts))
    (hopen : 0 < stop.opened) :
    (p >>= f) s ts = .error stop ↔ ∃ a mid, p s ts = .ok (a, mid) ∧ f a s mid = .error stop := by
  rw [bind_eq_error_iff, or_iff_right (hp.not_error hopen)]

/-- A stop with open levels before steps that open none comes from the step before them. -/
theorem bind_raises_before {p : Parse α} {f : α → Parse β} (hf : ∀ a rest, Flat (f a s rest))
    (hopen : 0 < stop.opened) : (p >>= f) s ts = .error stop ↔ p s ts = .error stop := by
  rw [bind_eq_error_iff, or_iff_left]
  rintro ⟨a, mid, -, h⟩
  exact (hf a mid).not_error hopen h

/-! ### Repetition -/

section Many

variable {done : List Token.Placed → Bool} {item : Parse Node} {G : List Token → Node → Prop}

/-- A repetition stops where its step does, after sentences of the rule of that step. -/
theorem many_eq_error_iff (hitem : Exactly item s G fun _ => True)
    (hstart : ∀ pre us n, G (pre.map Token.Placed.token) n → pre ≠ [] ∧ done (pre ++ us) = false) :
    many done item s ts = .error stop ↔
      ∃ pre rest as, ts = pre ++ rest ∧ Star G (pre.map Token.Placed.token) as ∧
        done rest = false ∧ item s rest = .error stop := by
  constructor
  · intro h
    induction hn : ts.length using Nat.strongRecOn generalizing ts with
    | _ n ih =>
      subst hn
      cases hdone : done ts with
      | true =>
        rw [many, if_pos hdone] at h
        cases h
      | false =>
        have hshort : ∀ a mid, item s ts = .ok (a, mid) → mid.length < ts.length := by
          intro a mid hone
          obtain ⟨pre, rfl, hG, -⟩ := (hitem _ _ _).mp hone
          simpa using List.length_pos_iff.mpr (hstart pre mid a hG).1
        rw [many_bind hdone hshort, bind_eq_error_iff] at h
        rcases h with hone | ⟨a, mid, hone, hmore⟩
        · exact ⟨[], ts, [], rfl, .nil, hdone, hone⟩
        · rcases bind_eq_error_iff.mp hmore with hmore | ⟨_, _, -, hpure⟩
          · obtain ⟨us, rest, as, rfl, hstar, hrest⟩ := ih mid.length (hshort a mid hone) hmore rfl
            obtain ⟨pre, rfl, hG, -⟩ := (hitem _ _ _).mp hone
            refine ⟨pre ++ us, rest, a :: as, by simp, ?_, hrest⟩
            rw [List.map_append]
            exact .cons hG hstar
          · cases hpure
  · rintro ⟨pre, rest, as, rfl, hstar, hdone, hone⟩
    have hrest : many done item s rest = .error stop := by
      rw [many_round hdone]
      exact bind_of_error hone
    rw [many_append hitem hstart hstar, hrest]
    rfl

end Many

theorem bindings_eq_error_iff :
    many (nextIs .rightBrace) binding s ts = .error stop ↔
      ∃ pre rest body, ts = pre ++ rest ∧
        Star (Let (Fitting s)) (pre.map Token.Placed.token) body ∧
        nextIs .rightBrace rest = false ∧ binding s rest = .error stop := by
  refine many_eq_error_iff binding_exactly ?_
  intro pre us n h
  obtain ⟨span, vs, hpre, hne⟩ := let_start h us
  exact ⟨hne, by rw [hpre]; rfl⟩

/-! ### Where expressions are read -/

/-- A part at some tokens comes to read an expression at some of the tokens after them. -/
inductive Enters (s : Surroundings) :
    Session.Call → List Token.Placed → List Token.Placed → Prop where
  | expression {us : List Token.Placed} : Enters s .expression us us
  | binding {name : String} {ty : Ty} {a b c d e : Span} {us : List Token.Placed} :
      Enters s .binding (⟨.letWord, a⟩ :: ⟨.identifier name, b⟩ :: ⟨.colon, c⟩ :: ⟨.type ty, d⟩ ::
        ⟨.equals, e⟩ :: us) us
  | function {name : String} {ty : Ty} {ps : List Declaration} {body : List Node}
      {a b c d e : Span} {pre mid post rest us : List Token.Placed}
      (hps : Signature (pre.map Token.Placed.token) ps)
      (hty : Returns (mid.map Token.Placed.token) ty)
      (hbody : Star (Let (Fitting s)) (post.map Token.Placed.token) body)
      (hrest : Enters s .binding rest us) :
      Enters s .function (⟨.fnWord, a⟩ :: ⟨.identifier name, b⟩ :: ⟨.leftParen, c⟩ ::
        (pre ++ ⟨.rightParen, d⟩ :: (mid ++ ⟨.leftBrace, e⟩ :: (post ++ rest)))) us

theorem opened_pos_of_expression (h : expression s ts = .error stop) : 0 < stop.opened := by
  have hroom : expressionIn (s.limit - s.depth) 0 s ts = .error stop := by
    rcases bind_eq_error_iff.mp h with h | ⟨_, _, -, h⟩
    · exact h
    · cases h
  cases hn : s.limit - s.depth with
  | zero =>
    rw [hn] at hroom
    cases hroom
    exact Nat.one_pos
  | succ room =>
    rw [hn] at hroom
    simp only [expressionIn, nested] at hroom
    split at hroom
    · cases hroom
    · cases hroom
      exact Nat.succ_pos _

theorem binding_raises_iff (hopen : 0 < stop.opened) :
    binding s ts = .error stop ↔
      ∃ us, Enters s .binding ts us ∧ expression s us = .error stop := by
  have hend : ∀ (name : String) (ty : Ty) (us : List Token.Placed),
      (expression >>= fun init => expect .semicolon >>= fun _ =>
        pure (.binding ⟨ty, name⟩ init) : Parse Node) s us = .error stop ↔
      expression s us = .error stop :=
    fun _ _ _ => bind_raises_before (fun _ _ => (expect_flat _).bind fun _ _ => trivial) hopen
  simp only [binding, bind_raises_after (expect_flat _) hopen,
    bind_raises_after identifier_flat hopen, bind_raises_after type_flat hopen, hend,
    expect_eq_ok_iff, identifier_eq_ok_iff, type_eq_ok_iff, Prod.exists]
  constructor
  · rintro ⟨-, _, ⟨a, rfl⟩, name, b, _, rfl, -, _, ⟨c, rfl⟩, ty, _, ⟨d, rfl⟩, -, us, ⟨e, rfl⟩, h⟩
    exact ⟨us, .binding, h⟩
  · rintro ⟨us, ⟨⟩, h⟩
    exact ⟨(), _, ⟨_, rfl⟩, _, _, _, rfl, (), _, ⟨_, rfl⟩, _, _, ⟨_, rfl⟩, (), us, ⟨_, rfl⟩, h⟩

theorem function_raises_iff (hopen : 0 < stop.opened) :
    function s ts = .error stop ↔
      ∃ us, Enters s .function ts us ∧ expression s us = .error stop := by
  have hreturns : ∀ (k : Ty → Parse Node) (us : List Token.Placed),
      (optional .arrow >>= fun arrow => (if arrow = true then type else pure .void) >>= k) s us =
        (returns >>= k) s us := by
    intro k us
    simp only [returns, bind]
    split <;> rfl
  have hend : ∀ (k : List Node → Node) (us : List Token.Placed),
      (many (nextIs .rightBrace) binding >>= fun body => expect .rightBrace >>= fun _ =>
        pure (k body) : Parse Node) s us = .error stop ↔
      many (nextIs .rightBrace) binding s us = .error stop :=
    fun _ _ => bind_raises_before (fun _ _ => (expect_flat _).bind fun _ _ => trivial) hopen
  simp only [function, ite_bind, hreturns, bind_raises_after (expect_flat _) hopen,
    bind_raises_after identifier_flat hopen, bind_raises_after parameters_flat hopen,
    bind_raises_after returns_flat hopen, hend, expect_eq_ok_iff, identifier_eq_ok_iff,
    Prod.exists]
  constructor
  · rintro ⟨-, _, ⟨a, rfl⟩, name, b, _, rfl, -, _, ⟨c, rfl⟩, ps, _, hps, -, _, ⟨d, rfl⟩, ty, _, hty,
      -, _, ⟨e, rfl⟩, hbody⟩
    obtain ⟨pre, rfl, hpre⟩ := parameters_eq_ok_iff.mp hps
    obtain ⟨mid, rfl, hmid⟩ := returns_eq_ok_iff.mp hty
    obtain ⟨post, rest, body, rfl, hpost, -, hone⟩ := bindings_eq_error_iff.mp hbody
    obtain ⟨us, henters, h⟩ := (binding_raises_iff hopen).mp hone
    exact ⟨us, .function hpre hmid hpost henters, h⟩
  · rintro ⟨us, henters, h⟩
    cases henters with
    | @function name ty ps body a b c d e pre mid post rest us hpre hmid hpost hrest =>
      have hnext : nextIs .rightBrace rest = false := by
        cases hrest
        rfl
      exact ⟨(), _, ⟨a, rfl⟩, name, b, _, rfl, (), _, ⟨c, rfl⟩, ps, _,
        parameters_eq_ok_iff.mpr ⟨pre, rfl, hpre⟩, (), _, ⟨d, rfl⟩, ty, _,
        returns_eq_ok_iff.mpr ⟨mid, rfl, hmid⟩, (), _, ⟨e, rfl⟩,
        bindings_eq_error_iff.mpr
          ⟨post, rest, body, rfl, hpost, hnext, (binding_raises_iff hopen).mpr ⟨us, hrest, h⟩⟩⟩

theorem part_raises_iff (call : Session.Call) (hopen : 0 < stop.opened) :
    call.part s ts = .error stop ↔
      ∃ us, Enters s call ts us ∧ expression s us = .error stop := by
  cases call with
  | binding => exact binding_raises_iff hopen
  | function => exact function_raises_iff hopen
  | expression =>
    constructor
    · intro h
      exact ⟨ts, .expression, h⟩
    · rintro ⟨us, ⟨⟩, h⟩
      exact h

end Parse

end LetTree

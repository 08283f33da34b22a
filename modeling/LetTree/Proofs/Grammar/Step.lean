import LetTree.Grammar.Parse
import LetTree.Proofs.Grammar.Sentence

/-!
# What single steps take

For each step of the grammar reader, the exact condition under which it succeeds, as an equivalence.
`Exactly` is the form these conditions have for larger parts: a step succeeds where, and only where,
the tokens of a rule stand in front of tokens that may follow them. Places of tokens have no
influence on success, so a rule is about tokens alone.
-/

namespace LetTree

namespace Parse

variable {α β : Type} {s : Surroundings} {ts rest : List Token.Placed}

/-! ### Sequences -/

theorem bind_of_ok {p : Parse α} {f : α → Parse β} {a : α} {mid : List Token.Placed}
    (h : p s ts = .ok (a, mid)) : (p >>= f) s ts = f a s mid := by
  simp only [bind, h]

theorem bind_of_error {p : Parse α} {f : α → Parse β} {stop : Stop} (h : p s ts = .error stop) :
    (p >>= f) s ts = .error stop := by
  simp only [bind, h]

theorem bind_eq_ok_iff {p : Parse α} {f : α → Parse β} {b : β} :
    (p >>= f) s ts = .ok (b, rest) ↔
      ∃ a mid, p s ts = .ok (a, mid) ∧ f a s mid = .ok (b, rest) := by
  cases hp : p s ts with
  | error stop =>
    rw [bind_of_error hp]
    simp
  | ok r =>
    obtain ⟨a, mid⟩ := r
    rw [bind_of_ok hp]
    simp only [Except.ok.injEq, Prod.mk.injEq]
    constructor
    · intro h
      exact ⟨a, mid, ⟨rfl, rfl⟩, h⟩
    · rintro ⟨_, _, ⟨rfl, rfl⟩, h⟩
      exact h

theorem pure_eq_ok_iff {a b : α} :
    (pure a : Parse α) s ts = .ok (b, rest) ↔ a = b ∧ ts = rest := by
  change Except.ok (a, ts) = Except.ok (b, rest) ↔ _
  simp

theorem ite_eq_ok_iff {c : Prop} [Decidable c] {p q : Parse α} {a : α} :
    (if c then p else q) s ts = .ok (a, rest) ↔
      c ∧ p s ts = .ok (a, rest) ∨ ¬ c ∧ q s ts = .ok (a, rest) := by
  by_cases hc : c <;> simp [hc]

/-- What comes after a choice comes after both of its branches. -/
theorem ite_bind {b : Bool} {p q : Parse α} {f : α → Parse β} :
    (if b = true then p >>= f else q >>= f) = ((if b = true then p else q) >>= f) := by
  cases b <;> rfl

/-! ### Single tokens -/

theorem unexpected_ne_ok {expected : Expected} {r : α × List Token.Placed} :
    (unexpected expected : Parse α) s ts ≠ .ok r := by
  simp [unexpected]

theorem take_eq_ok_iff {expected : Expected} {value? : Token → Option α} {a : α} {span : Span} :
    take expected value? s ts = .ok ((a, span), rest) ↔
      ∃ token, value? token = some a ∧ ts = ⟨token, span⟩ :: rest := by
  cases ts with
  | nil => simp [take, unexpected]
  | cons t us =>
    obtain ⟨token, place⟩ := t
    cases hv : value? token with
    | none =>
      simp only [take, hv, List.cons.injEq, Token.Placed.mk.injEq]
      constructor
      · intro h
        exact absurd h unexpected_ne_ok
      · rintro ⟨token', hsome, ⟨rfl, -⟩, -⟩
        simp [hv] at hsome
    | some b =>
      simp only [take, hv, Except.ok.injEq, Prod.mk.injEq, List.cons.injEq, Token.Placed.mk.injEq]
      constructor
      · rintro ⟨⟨rfl, rfl⟩, rfl⟩
        exact ⟨token, hv, ⟨rfl, rfl⟩, rfl⟩
      · rintro ⟨token', hsome, ⟨rfl, rfl⟩, rfl⟩
        exact ⟨⟨Option.some.inj (hv.symm.trans hsome), rfl⟩, rfl⟩

theorem expect_eq_ok_iff {token : Token} {u : Unit} :
    expect token s ts = .ok (u, rest) ↔ ∃ span, ts = ⟨token, span⟩ :: rest := by
  simp only [expect, bind_eq_ok_iff, pure_eq_ok_iff, Prod.exists, take_eq_ok_iff]
  constructor
  · rintro ⟨_, span, mid, ⟨found, hfound, rfl⟩, -, rfl⟩
    split at hfound
    · next heq => exact ⟨span, by rw [heq]⟩
    · cases hfound
  · rintro ⟨span, rfl⟩
    exact ⟨(), span, rest, ⟨token, if_pos rfl, rfl⟩, trivial, rfl⟩

theorem expect_cons (token : Token) (span : Span) (us : List Token.Placed) :
    expect token s (⟨token, span⟩ :: us) = .ok ((), us) :=
  expect_eq_ok_iff.mpr ⟨span, rfl⟩

theorem identifier_eq_ok_iff {name : String} {span : Span} :
    identifier s ts = .ok ((name, span), rest) ↔ ts = ⟨.identifier name, span⟩ :: rest := by
  rw [identifier, take_eq_ok_iff]
  constructor
  · rintro ⟨token, hname, rfl⟩
    cases token <;> simp_all
  · rintro rfl
    exact ⟨_, rfl, rfl⟩

theorem type_eq_ok_iff {ty : Ty} :
    type s ts = .ok (ty, rest) ↔ ∃ span, ts = ⟨.type ty, span⟩ :: rest := by
  simp only [type, bind_eq_ok_iff, pure_eq_ok_iff, Prod.exists, take_eq_ok_iff]
  constructor
  · rintro ⟨found, span, mid, ⟨token, htoken, rfl⟩, rfl, rfl⟩
    cases token <;> simp_all
  · rintro ⟨span, rfl⟩
    exact ⟨ty, span, rest, ⟨_, rfl, rfl⟩, rfl, rfl⟩

@[simp] theorem nextIs_nil (token : Token) : nextIs token [] = false := rfl

@[simp] theorem nextIs_cons (token : Token) (t : Token.Placed) (ts : List Token.Placed) :
    nextIs token (t :: ts) = decide (t.token = token) := rfl

theorem nextIs_iff {token : Token} :
    nextIs token ts = true ↔ ∃ span us, ts = ⟨token, span⟩ :: us := by
  cases ts with
  | nil => simp
  | cons t us =>
    obtain ⟨found, span⟩ := t
    simp

theorem optional_eq_ok_iff {token : Token} {b : Bool} :
    optional token s ts = .ok (b, rest) ↔
      (b = true ∧ ∃ span, ts = ⟨token, span⟩ :: rest) ∨
        (b = false ∧ nextIs token ts = false ∧ ts = rest) := by
  cases hnext : nextIs token ts with
  | false =>
    have hno : ∀ span, ts ≠ ⟨token, span⟩ :: rest := by
      rintro span rfl
      simp at hnext
    simp [optional, hnext, hno, eq_comm]
  | true =>
    obtain ⟨span, us, rfl⟩ := nextIs_iff.mp hnext
    simp [optional, eq_comm]

/-! ### Rules -/

/-- A step takes exactly the sentences of a rule, and leaves tokens that may follow them. -/
def Exactly (p : Parse α) (s : Surroundings) (G : List Token → α → Prop)
    (follow : List Token.Placed → Prop) : Prop :=
  ∀ ts a rest, p s ts = .ok (a, rest) ↔
    ∃ pre, ts = pre ++ rest ∧ G (pre.map Token.Placed.token) a ∧ follow rest

section Many

variable {done : List Token.Placed → Bool} {item : Parse Node} {G : List Token → Node → Prop}

/-- Every repetition takes a sentence of the rule, until the test holds. -/
theorem many_sound (hitem : Exactly item s G fun _ => True)
    (hstart : ∀ pre us n, G (pre.map Token.Placed.token) n → pre ≠ [] ∧ done (pre ++ us) = false)
    {as : List Node} (h : many done item s ts = .ok (as, rest)) :
    ∃ pre, ts = pre ++ rest ∧ Grammar.Star G (pre.map Token.Placed.token) as ∧
      done rest = true := by
  induction hn : ts.length using Nat.strongRecOn generalizing ts as with
  | _ n ih =>
    subst hn
    rw [many] at h
    split at h
    · next hdone =>
      cases h
      exact ⟨[], rfl, .nil, hdone⟩
    · cases hone : item s ts with
      | error stop => simp [hone] at h
      | ok r =>
        obtain ⟨a, mid⟩ := r
        obtain ⟨pre, rfl, hG, -⟩ := (hitem ts a mid).mp hone
        have hlt : mid.length < (pre ++ mid).length := by
          simpa using List.length_pos_iff.mpr (hstart pre mid a hG).1
        simp only [hone, if_pos hlt] at h
        cases hmore : many done item s mid with
        | error stop => simp [hmore] at h
        | ok r =>
          obtain ⟨others, last⟩ := r
          simp only [hmore] at h
          cases h
          obtain ⟨us, rfl, hstar, hdone⟩ := ih mid.length hlt hmore rfl
          refine ⟨pre ++ us, by simp, ?_, hdone⟩
          rw [List.map_append]
          exact .cons hG hstar

/-- Sentences of the rule are taken whatever follows them, and the repetition goes on after them,
    to success or failure. -/
theorem many_append (hitem : Exactly item s G fun _ => True)
    (hstart : ∀ pre us n, G (pre.map Token.Placed.token) n → pre ≠ [] ∧ done (pre ++ us) = false)
    {pre : List Token.Placed} {as : List Node}
    (h : Grammar.Star G (pre.map Token.Placed.token) as) :
    many done item s (pre ++ rest) =
      (many done item s rest).map fun r => (as ++ r.1, r.2) := by
  generalize hword : pre.map Token.Placed.token = words at h
  induction h generalizing pre with
  | nil =>
    obtain rfl : pre = [] := by simpa using hword
    cases hrest : many done item s rest <;> simp [hrest, Except.map]
  | @cons us vs n ns hG hs ih =>
    obtain ⟨pre, post, rfl, rfl, rfl⟩ := List.map_eq_append_iff.mp hword
    have hone : item s (pre ++ (post ++ rest)) = .ok (n, post ++ rest) :=
      (hitem _ _ _).mpr ⟨pre, rfl, hG, trivial⟩
    have hpre := hstart pre (post ++ rest) n hG
    have hlt : (post ++ rest).length < (pre ++ (post ++ rest)).length := by
      simpa using List.length_pos_iff.mpr hpre.1
    rw [List.append_assoc, many]
    simp only [hpre.2, hone, if_pos hlt, ih rfl, Bool.false_eq_true, if_false]
    cases hrest : many done item s rest <;> simp [Except.map]

/-- Repeating a step takes the sentences of its rule one after the other. The test that ends the
    repetition must not hold where such a sentence begins. -/
theorem many_exactly (hitem : Exactly item s G fun _ => True)
    (hstart : ∀ pre us n, G (pre.map Token.Placed.token) n →
      pre ≠ [] ∧ done (pre ++ us) = false) :
    Exactly (many done item) s (Grammar.Star G) fun us => done us = true := by
  intro ts as rest
  constructor
  · exact many_sound hitem hstart
  · rintro ⟨pre, rfl, hstar, hdone⟩
    have hrest : many done item s rest = .ok ([], rest) := by
      rw [many, if_pos hdone]
    rw [many_append hitem hstart hstar, hrest]
    simp [Except.map]

end Many

end Parse

end LetTree

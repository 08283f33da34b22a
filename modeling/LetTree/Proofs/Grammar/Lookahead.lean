import LetTree.Proofs.Grammar.Round

/-!
# One token of lookahead

When the reader meets a token that it does not expect, what it has taken so far can still be
completed, and it has looked no further than that token. `Predicts` says both of a step at some
tokens, with respect to a rule of the grammar: it is shown of the steps that look at single tokens,
and passed on by sequences and repetitions. A step may be replaced by another one that does the same
wherever the next token is the same, which is how choices are dealt with (`Predicts.congr`).
-/

namespace LetTree

/-- The tokens of one rule and after them those of another, which may depend on the first result. -/
def Grammar.Then {α β : Type} (G : List Token → α → Prop) (H : α → List Token → β → Prop)
    (ts : List Token) (b : β) : Prop :=
  ∃ us a vs, ts = us ++ vs ∧ G us a ∧ H a vs b

namespace Parse

open Grammar

variable {α β : Type} {s : Surroundings} {ts us : List Token.Placed} {p : Parse α}
  {G : List Token → α → Prop}

/-! ### Steps and rules -/

theorem place_of_head? (h : us.head? = ts.head?) : place s us = place s ts := by
  cases us <;> cases ts <;> simp_all [place]

theorem nextIs_of_head? (h : us.head? = ts.head?) (token : Token) :
    nextIs token us = nextIs token ts := by
  cases us <;> cases ts <;> simp_all

theorem isEmpty_of_head? (h : us.head? = ts.head?) : us.isEmpty = ts.isEmpty := by
  cases us <;> cases ts <;> simp_all

theorem head?_append_of_head? (pre : List Token.Placed) (h : us.head? = ts.head?) :
    (pre ++ us).head? = (pre ++ ts).head? := by
  rw [List.head?_append, List.head?_append, h]

/-- The stop is at a token that was not expected: it names the next token and its place, or the end
    of the tokens. -/
def Surprised (s : Surroundings) (stop : Stop) : Prop :=
  ∃ expected, stop.error =
    ⟨place s stop.rest, .unexpected expected (stop.rest.head?.map (·.token))⟩

/-- What a step does at some tokens is in line with a rule: the tokens it takes are a sentence of
    the rule, and the tokens before one that was not expected are the beginning of a sentence. In
    both cases the step has seen no more than the first of the tokens that are left. -/
structure Predicts (p : Parse α) (s : Surroundings) (G : List Token → α → Prop)
    (ts : List Token.Placed) : Prop where
  taken : ∀ a rest, p s ts = .ok (a, rest) →
    ∃ pre, ts = pre ++ rest ∧ G (pre.map Token.Placed.token) a ∧
      ∀ us, us.head? = rest.head? → p s (pre ++ us) = .ok (a, us)
  refused : ∀ stop expected found, p s ts = .error stop →
    stop.error.cause = .unexpected expected found →
    Surprised s stop ∧ ∃ pre, ts = pre ++ stop.rest ∧
      (∃ more a, G (pre.map Token.Placed.token ++ more) a) ∧
      ∀ us, us.head? = stop.rest.head? → p s (pre ++ us) = .error ⟨stop.error, us, stop.opened⟩

/-- A step is in line with a rule at all tokens, and there is a sentence of the rule. -/
structure Predictive (p : Parse α) (s : Surroundings) (G : List Token → α → Prop) : Prop where
  complete : ∃ ts a, G ts a
  predicts : ∀ ts, Predicts p s G ts

namespace Predicts

theorem mono {H : List Token → α → Prop} (h : Predicts p s G ts)
    (hGH : ∀ us a, G us a → H us a) : Predicts p s H ts where
  taken := by
    intro a rest ha
    obtain ⟨pre, hts, hG, hlocal⟩ := h.taken a rest ha
    exact ⟨pre, hts, hGH _ _ hG, hlocal⟩
  refused := by
    intro stop expected found hstop hcause
    obtain ⟨hsurprised, pre, hts, ⟨more, a, hG⟩, hlocal⟩ :=
      h.refused stop expected found hstop hcause
    exact ⟨hsurprised, pre, hts, ⟨more, a, hGH _ _ hG⟩, hlocal⟩

/-- A step may be replaced by one that does the same wherever the next token is the same. -/
theorem congr {q : Parse α} (h : Predicts q s G ts)
    (hpq : ∀ us, us.head? = ts.head? → p s us = q s us) : Predicts p s G ts where
  taken := by
    intro a rest ha
    rw [hpq ts rfl] at ha
    obtain ⟨pre, rfl, hG, hlocal⟩ := h.taken a rest ha
    refine ⟨pre, rfl, hG, ?_⟩
    intro us hus
    rw [hpq _ (head?_append_of_head? pre hus), hlocal us hus]
  refused := by
    intro stop expected found hstop hcause
    rw [hpq ts rfl] at hstop
    obtain ⟨hsurprised, pre, rfl, hmore, hlocal⟩ := h.refused stop expected found hstop hcause
    refine ⟨hsurprised, pre, rfl, hmore, ?_⟩
    intro us hus
    rw [hpq _ (head?_append_of_head? pre hus), hlocal us hus]

theorem congr_nil {q : Parse α} (h : Predicts q s G []) (hpq : p s [] = q s []) :
    Predicts p s G [] := by
  apply h.congr
  intro us hus
  rw [List.head?_eq_none_iff.mp hus, hpq]

theorem congr_cons {q : Parse α} {t : Token.Placed} {rest : List Token.Placed}
    (h : Predicts q s G (t :: rest)) (hpq : ∀ us, p s (t :: us) = q s (t :: us)) :
    Predicts p s G (t :: rest) := by
  apply h.congr
  intro us hus
  obtain ⟨vs, rfl⟩ := List.head?_eq_some_iff.mp hus
  exact hpq vs

/-- A step that takes tokens whatever comes after the next one. -/
theorem of_ok (pre rest : List Token.Placed) (a : α) (hG : G (pre.map Token.Placed.token) a)
    (hrun : ∀ us, us.head? = rest.head? → p s (pre ++ us) = .ok (a, us)) :
    Predicts p s G (pre ++ rest) where
  taken := by
    intro a' rest' h
    rw [hrun rest rfl] at h
    cases h
    exact ⟨pre, rfl, hG, hrun⟩
  refused := by
    intro stop expected found h
    rw [hrun rest rfl] at h
    cases h

/-- A step that stops for a reason other than an unexpected token. -/
theorem of_error {stop : Stop} (h : p s ts = .error stop)
    (hcause : ∀ expected found, stop.error.cause ≠ .unexpected expected found) :
    Predicts p s G ts where
  taken := by
    intro a rest ha
    rw [h] at ha
    cases ha
  refused := by
    intro stop' expected found hstop
    rw [h] at hstop
    cases hstop
    exact fun hunexpected => absurd hunexpected (hcause expected found)

theorem unexpected (hcomplete : ∃ us a, G us a) (expected : Expected) :
    Predicts (Parse.unexpected expected : Parse α) s G ts where
  taken := fun _ _ h => absurd h unexpected_ne_ok
  refused := by
    rintro stop _ _ ⟨⟩ _
    refine ⟨⟨expected, rfl⟩, [], rfl, hcomplete, ?_⟩
    intro us hus
    simp only [List.nil_append, Parse.unexpected]
    rw [place_of_head? hus, hus]

/-- One step after another. What the second one adds to the tokens of the first has to be in line
    with the rule of both. -/
theorem bind {f : α → Parse β} {K : List Token → β → Prop} (h : Predicts p s G ts)
    (hcomplete : ∀ us a, G us a → ∃ vs b, K (us ++ vs) b)
    (hf : ∀ a pre rest, ts = pre ++ rest → p s ts = .ok (a, rest) →
      G (pre.map Token.Placed.token) a →
      Predicts (f a) s (fun vs b => K (pre.map Token.Placed.token ++ vs) b) rest) :
    Predicts (p >>= f) s K ts where
  taken := by
    intro b rest hb
    obtain ⟨a, mid, ha, hb⟩ := bind_eq_ok_iff.mp hb
    obtain ⟨pre, hts, hG, hlocal⟩ := h.taken a mid ha
    obtain ⟨post, rfl, hK, hlocal'⟩ := (hf a pre mid hts ha hG).taken b rest hb
    refine ⟨pre ++ post, by rw [hts, List.append_assoc], by rwa [List.map_append], ?_⟩
    intro us hus
    rw [List.append_assoc, bind_of_ok (hlocal _ (head?_append_of_head? post hus)), hlocal' us hus]
  refused := by
    intro stop expected found hstop hcause
    rcases ha : p s ts with stop' | ⟨a, mid⟩
    · rw [bind_of_error ha] at hstop
      cases hstop
      obtain ⟨hsurprised, pre, hts, ⟨more, a, hG⟩, hlocal⟩ :=
        h.refused stop expected found ha hcause
      obtain ⟨vs, b, hK⟩ := hcomplete _ a hG
      refine ⟨hsurprised, pre, hts, ⟨more ++ vs, b, by rwa [← List.append_assoc]⟩, ?_⟩
      exact fun us hus => bind_of_error (hlocal us hus)
    · rw [bind_of_ok ha] at hstop
      obtain ⟨pre, hts, hG, hlocal⟩ := h.taken a mid ha
      obtain ⟨hsurprised, post, rfl, ⟨more, b, hK⟩, hlocal'⟩ :=
        (hf a pre mid hts ha hG).refused stop expected found hstop hcause
      refine ⟨hsurprised, pre ++ post, by rw [hts, List.append_assoc], ⟨more, b, ?_⟩, ?_⟩
      · rwa [List.map_append, List.append_assoc]
      · intro us hus
        rw [List.append_assoc, bind_of_ok (hlocal _ (head?_append_of_head? post hus)),
          hlocal' us hus]

/-- A step whose result is turned into another one. -/
theorem map {f : α → β} {K : List Token → β → Prop} (h : Predicts p s G ts)
    (hK : ∀ us a, G us a → K us (f a)) : Predicts (p >>= fun a => pure (f a)) s K ts := by
  have hnil : ∀ us a, G us a → K (us ++ []) (f a) := by
    intro us a hG
    rw [List.append_nil]
    exact hK us a hG
  apply h.bind
  · exact fun us a hG => ⟨[], f a, hnil us a hG⟩
  · exact fun a pre rest _ _ hG => .of_ok [] rest (f a) (hnil _ a hG) fun _ _ => rfl

theorem nested (h : Predicts p s G ts) : Predicts (nested p) s G ts where
  taken := by
    intro a rest ha
    rcases hp : p s ts with stop | ⟨a', rest'⟩
    · simp [Parse.nested, hp] at ha
    · simp only [Parse.nested, hp, Except.ok.injEq, Prod.mk.injEq] at ha
      obtain ⟨rfl, rfl⟩ := ha
      obtain ⟨pre, hts, hG, hlocal⟩ := h.taken a' rest' hp
      refine ⟨pre, hts, hG, ?_⟩
      intro us hus
      simp only [Parse.nested, hlocal us hus]
  refused := by
    intro stop expected found hstop hcause
    rcases hp : p s ts with stop' | ⟨a, rest⟩
    · simp only [Parse.nested, hp, Except.error.injEq] at hstop
      subst hstop
      obtain ⟨hsurprised, pre, hts, hmore, hlocal⟩ := h.refused stop' expected found hp hcause
      refine ⟨hsurprised, pre, hts, hmore, ?_⟩
      intro us hus
      simp only [Parse.nested, hlocal us hus]
    · simp [Parse.nested, hp] at hstop

end Predicts

namespace Predictive

theorem mono {H : List Token → α → Prop} (h : Predictive p s G)
    (hGH : ∀ us a, G us a → H us a) : Predictive p s H where
  complete := by
    obtain ⟨us, a, hG⟩ := h.complete
    exact ⟨us, a, hGH us a hG⟩
  predicts := fun ts => (h.predicts ts).mono hGH

theorem bind {f : α → Parse β} {H : α → List Token → β → Prop} (h : Predictive p s G)
    (hf : ∀ a, Predictive (f a) s (H a)) : Predictive (p >>= f) s (Then G H) where
  complete := by
    obtain ⟨us, a, hG⟩ := h.complete
    obtain ⟨vs, b, hH⟩ := (hf a).complete
    exact ⟨us ++ vs, b, us, a, vs, rfl, hG, hH⟩
  predicts := by
    intro ts
    apply (h.predicts ts).bind
    · intro us a hG
      obtain ⟨vs, b, hH⟩ := (hf a).complete
      exact ⟨vs, b, us, a, vs, rfl, hG, hH⟩
    · intro a pre rest _ _ hG
      exact ((hf a).predicts rest).mono fun vs b hH => ⟨_, a, vs, rfl, hG, hH⟩

theorem map {f : α → β} {K : List Token → β → Prop} (h : Predictive p s G)
    (hK : ∀ us a, G us a → K us (f a)) : Predictive (p >>= fun a => pure (f a)) s K where
  complete := by
    obtain ⟨us, a, hG⟩ := h.complete
    exact ⟨us, f a, hK us a hG⟩
  predicts := fun ts => (h.predicts ts).map hK

theorem ite {c : Prop} [Decidable c] {q : Parse α} (hp : Predictive p s G)
    (hq : Predictive q s G) : Predictive (if c then p else q) s G := by
  by_cases hc : c
  · rw [if_pos hc]
    exact hp
  · rw [if_neg hc]
    exact hq

end Predictive

/-! ### Single tokens -/

theorem pure_predictive (a : α) : Predictive (pure a) s fun us b => us = [] ∧ b = a where
  complete := ⟨[], a, rfl, rfl⟩
  predicts := fun ts => .of_ok [] ts a ⟨rfl, rfl⟩ fun _ _ => rfl

theorem take_predictive {value? : Token → Option α} (t : Token) {a : α} (ha : value? t = some a)
    (expected : Expected) :
    Predictive (take expected value?) s fun us r => ∃ t, value? t = some r.1 ∧ us = [t] := by
  have hcomplete : ∃ us, ∃ r : α × Span, ∃ t, value? t = some r.1 ∧ us = [t] :=
    ⟨[t], (a, ⟨0, 0⟩), t, ha, rfl⟩
  refine ⟨hcomplete, ?_⟩
  intro ts
  cases ts with
  | nil => exact (Predicts.unexpected hcomplete expected).congr_nil rfl
  | cons t rest =>
    cases hv : value? t.token with
    | none =>
      apply (Predicts.unexpected hcomplete expected).congr_cons
      intro us
      simp only [take, hv]
    | some b =>
      refine .of_ok [t] rest (b, t.span) ⟨t.token, hv, rfl⟩ ?_
      intro us _
      simp only [List.singleton_append, take, hv]

theorem expect_predictive (token : Token) :
    Predictive (expect token) s fun us _ => us = [token] := by
  refine Predictive.map (take_predictive token (if_pos rfl) _) ?_
  rintro _ _ ⟨found, hfound, rfl⟩
  split at hfound
  · next heq => rw [heq]
  · cases hfound

/-- A particular token and then the rest of a step. -/
theorem expect_then_predictive (token : Token) {q : Parse β} {H : List Token → β → Prop}
    (h : Predictive q s H) :
    Predictive (expect token >>= fun _ => q) s fun ts b => ∃ vs, ts = token :: vs ∧ H vs b := by
  refine ((expect_predictive token).bind fun _ => h).mono ?_
  rintro _ b ⟨_, -, vs, rfl, rfl, hH⟩
  exact ⟨vs, rfl, hH⟩

theorem identifier_predictive :
    Predictive identifier s fun us r => us = [.identifier r.1] := by
  refine Predictive.mono (take_predictive (.identifier "") (by rfl) _) ?_
  rintro _ _ ⟨found, hfound, rfl⟩
  cases found <;> simp_all

theorem type_predictive : Predictive type s fun us ty => us = [.type ty] := by
  refine Predictive.map (take_predictive (.type .void) (by rfl) _) ?_
  rintro _ _ ⟨found, hfound, rfl⟩
  cases found <;> simp_all

theorem optional_predictive (token : Token) :
    Predictive (optional token) s fun us b => us = if b then [token] else [] where
  complete := ⟨[], false, rfl⟩
  predicts := by
    intro ts
    cases hnext : nextIs token ts with
    | true =>
      obtain ⟨span, rest, rfl⟩ := nextIs_iff.mp hnext
      refine .of_ok [⟨token, span⟩] rest true rfl ?_
      intro us _
      simp [optional]
    | false =>
      refine .of_ok [] ts false rfl ?_
      intro us hus
      simp [optional, nextIs_of_head? hus, hnext]

/-! ### Repetition -/

theorem many_predictive {done : List Token.Placed → Bool} {item : Parse Node}
    {G : List Token → Node → Prop} (hitem : Predictive item s G)
    (hne : ∀ us n, G us n → us ≠ [])
    (hdone : ∀ us ts, us.head? = ts.head? → done us = done ts) :
    Predictive (many done item) s (Star G) := by
  refine ⟨⟨[], [], .nil⟩, ?_⟩
  have hshort : ∀ ts a rest, item s ts = .ok (a, rest) → rest.length < ts.length := by
    intro ts a rest ha
    obtain ⟨pre, rfl, hG, -⟩ := (hitem.predicts ts).taken a rest ha
    have hpre : pre ≠ [] := fun hnil => hne _ _ hG (by rw [hnil]; rfl)
    simpa using List.length_pos_iff.mpr hpre
  intro ts
  induction hn : ts.length using Nat.strongRecOn generalizing ts with
  | _ k ih =>
    subst hn
    cases hend : done ts with
    | true =>
      refine .of_ok [] ts [] .nil ?_
      intro us hus
      rw [List.nil_append, many, if_pos (by rw [hdone us ts hus, hend])]
    | false =>
      have hround := fun us hus => many_bind ((hdone us ts hus).trans hend) (hshort us)
      refine Predicts.congr ?_ hround
      apply (hitem.predicts ts).bind
      · intro us a hG
        exact ⟨[], [a], .cons hG .nil⟩
      · intro a pre rest _ ha hG
        have hmore := ih rest.length (hshort ts a rest ha) rest rfl
        exact hmore.map fun us as hstar => .cons hG hstar

end Parse

end LetTree

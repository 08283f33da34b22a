/-!
# Patterns of text

Regular patterns over characters and the texts that they match. A pattern says nothing about where a
match starts or ends in a longer text; that is for whoever uses it. The lemmas give the texts of the
derived patterns in terms of lists.
-/

namespace LetTree

/-- A regular pattern. -/
inductive Pattern where
  /-- One character that passes a test. -/
  | one (test : Char → Bool)
  /-- A fixed text. -/
  | exactly (cs : List Char)
  /-- One pattern after the other. -/
  | seq (p q : Pattern)
  /-- One of two patterns. -/
  | either (p q : Pattern)
  /-- Any number of times, also none. -/
  | star (p : Pattern)

namespace Pattern

/-- At least once. -/
def plus (p : Pattern) : Pattern := seq p (star p)

/-- A pattern matches a text as a whole. -/
inductive Matches : Pattern → List Char → Prop where
  | one {test : Char → Bool} {c : Char} (h : test c = true) : Matches (one test) [c]
  | exactly {cs : List Char} : Matches (exactly cs) cs
  | seq {p q : Pattern} {as bs : List Char} (hp : Matches p as) (hq : Matches q bs) :
      Matches (seq p q) (as ++ bs)
  | left {p q : Pattern} {as : List Char} (h : Matches p as) : Matches (either p q) as
  | right {p q : Pattern} {as : List Char} (h : Matches q as) : Matches (either p q) as
  | stop {p : Pattern} : Matches (star p) []
  | more {p : Pattern} {as bs : List Char} (hp : Matches p as) (hs : Matches (star p) bs) :
      Matches (star p) (as ++ bs)

theorem matches_one_iff {test : Char → Bool} {cs : List Char} :
    (one test).Matches cs ↔ ∃ c, test c = true ∧ cs = [c] := by
  constructor
  · rintro ⟨h⟩
    exact ⟨_, h, rfl⟩
  · rintro ⟨c, h, rfl⟩
    exact .one h

theorem matches_exactly_iff {word cs : List Char} : (exactly word).Matches cs ↔ cs = word := by
  constructor
  · rintro ⟨⟩
    rfl
  · rintro rfl
    exact .exactly

theorem matches_seq_iff {p q : Pattern} {cs : List Char} :
    (seq p q).Matches cs ↔ ∃ as bs, p.Matches as ∧ q.Matches bs ∧ cs = as ++ bs := by
  constructor
  · intro h
    cases h with
    | seq hp hq => exact ⟨_, _, hp, hq, rfl⟩
  · rintro ⟨as, bs, hp, hq, rfl⟩
    exact .seq hp hq

theorem matches_either_iff {p q : Pattern} {cs : List Char} :
    (either p q).Matches cs ↔ p.Matches cs ∨ q.Matches cs := by
  constructor
  · intro h
    cases h with
    | left h => exact .inl h
    | right h => exact .inr h
  · rintro (h | h)
    · exact .left h
    · exact .right h

/-- Induction over the repetitions of a pattern. -/
theorem star_induction {p : Pattern} {motive : List Char → Prop} (hnil : motive [])
    (hcons : ∀ as bs, p.Matches as → motive bs → motive (as ++ bs)) {cs : List Char}
    (h : (star p).Matches cs) : motive cs := by
  generalize hq : star p = q at h
  induction h with
  | stop => exact hnil
  | more hp _ _ ih =>
    cases hq
    exact hcons _ _ hp (ih rfl)
  | one => cases hq
  | exactly => cases hq
  | seq => cases hq
  | left => cases hq
  | right => cases hq

theorem matches_star_one_iff {test : Char → Bool} {cs : List Char} :
    (star (one test)).Matches cs ↔ ∀ c ∈ cs, test c = true := by
  constructor
  · intro h
    refine star_induction (motive := fun cs => ∀ c ∈ cs, test c = true) ?_ ?_ h
    · intro c hc
      cases hc
    · intro as bs hone hall c hc
      obtain ⟨d, hd, rfl⟩ := matches_one_iff.mp hone
      rcases List.mem_cons.mp hc with rfl | hc
      · exact hd
      · exact hall c hc
  · intro h
    induction cs with
    | nil => exact .stop
    | cons c cs ih =>
      have hrest := ih fun d hd => h d (List.mem_cons_of_mem _ hd)
      have hmore := Matches.more (Matches.one (h c List.mem_cons_self)) hrest
      exact hmore

theorem matches_plus_one_iff {test : Char → Bool} {cs : List Char} :
    (plus (one test)).Matches cs ↔ cs ≠ [] ∧ ∀ c ∈ cs, test c = true := by
  rw [plus, matches_seq_iff]
  constructor
  · rintro ⟨as, bs, hone, hmany, rfl⟩
    obtain ⟨c, hc, rfl⟩ := matches_one_iff.mp hone
    refine ⟨by simp, ?_⟩
    intro d hd
    rcases List.mem_cons.mp hd with rfl | hd
    · exact hc
    · exact matches_star_one_iff.mp hmany d hd
  · rintro ⟨hne, hall⟩
    cases cs with
    | nil => exact absurd rfl hne
    | cons c cs =>
      refine ⟨[c], cs, .one (hall c List.mem_cons_self), ?_, rfl⟩
      exact matches_star_one_iff.mpr fun d hd => hall d (List.mem_cons_of_mem _ hd)

end Pattern

end LetTree

import LetTree.Proofs.Token.Rules

/-!
# Longest texts of single classes

`IsLongest` says that a length is that of the longest text of a kind at the beginning of what is
left, or that there is no such text. Most classes are runs of characters, after a fixed beginning or
alone; strings and block comments end at the first place that closes them, which is shown by
induction along the functions that look for it.
-/

namespace LetTree

/-- A length is that of the longest text of a kind at the beginning of `cs`. -/
def IsLongest (P : List Char → Prop) (cs : List Char) : Option Nat → Prop
  | some n => n ≤ cs.length ∧ P (cs.take n) ∧ ∀ t, t <+: cs → P t → t.length ≤ n
  | none => ∀ t, t <+: cs → ¬ P t

theorem IsLongest.congr {P Q : List Char → Prop} (h : ∀ t, P t ↔ Q t) {cs : List Char}
    {n : Option Nat} (hn : IsLongest P cs n) : IsLongest Q cs n := by
  have hPQ : P = Q := funext fun t => propext (h t)
  exact hPQ ▸ hn

/-- After a fixed beginning, the longest text is what follows at its longest. -/
theorem IsLongest.after {P : List Char → Prop} {cs : List Char} {n : Option Nat}
    (h : IsLongest P cs n) (mark : List Char) :
    IsLongest (fun t => ∃ u, P u ∧ t = mark ++ u) (mark ++ cs) (n.map (· + mark.length)) := by
  have hcut : ∀ u, mark ++ u <+: mark ++ cs → u <+: cs := by
    intro u hu
    exact (List.prefix_append_right_inj mark).mp hu
  cases n with
  | none =>
    rintro t ht ⟨u, hu, rfl⟩
    exact h u (hcut u ht) hu
  | some n =>
    obtain ⟨hle, htake, hmax⟩ := h
    refine ⟨by simp; omega, ⟨cs.take n, htake, ?_⟩, ?_⟩
    · change List.take (n + mark.length) (mark ++ cs) = _
      rw [Nat.add_comm, List.take_length_add_append]
    · rintro t ht ⟨u, hu, rfl⟩
      have := hmax u (hcut u ht) hu
      simp only [List.length_append]
      omega

theorem isLongest_none_of_not_prefix {P : List Char → Prop} {mark cs : List Char}
    (h : ¬ mark <+: cs) : IsLongest (fun t => ∃ u, P u ∧ t = mark ++ u) cs none := by
  rintro t ht ⟨u, -, rfl⟩
  exact h ((List.prefix_append mark u).trans ht)

/-! ### Runs -/

section Run

variable {test : Char → Bool}

theorem length_le_takeWhile {t cs : List Char} (ht : t <+: cs) (hall : ∀ c ∈ t, test c = true) :
    t.length ≤ (cs.takeWhile test).length := by
  obtain ⟨u, rfl⟩ := ht
  rw [List.takeWhile_append_of_pos hall]
  simp

theorem take_length_takeWhile (cs : List Char) :
    cs.take (cs.takeWhile test).length = cs.takeWhile test :=
  (List.prefix_iff_eq_take.mp (List.takeWhile_prefix test)).symm

theorem isLongest_takeWhile (cs : List Char) :
    IsLongest (fun t => ∀ c ∈ t, test c = true) cs (some (cs.takeWhile test).length) := by
  refine ⟨(List.takeWhile_prefix test).length_le, ?_, fun t => length_le_takeWhile⟩
  rw [take_length_takeWhile]
  exact List.all_eq_true.mp List.all_takeWhile

theorem isLongest_run? (cs : List Char) :
    IsLongest (fun t => t ≠ [] ∧ ∀ c ∈ t, test c = true) cs (Lexeme.run? test cs) := by
  rw [Lexeme.run?]
  split
  · next hnil =>
    rintro t ht ⟨hne, hall⟩
    have hlen := length_le_takeWhile ht hall
    rw [hnil] at hlen
    exact hne (List.length_eq_zero_iff.mp (Nat.le_zero.mp hlen))
  · next hne =>
    have hrun : IsLongest (fun t => ∀ c ∈ t, test c = true) cs _ := isLongest_takeWhile cs
    obtain ⟨hle, htake, hmax⟩ := hrun
    refine ⟨hle, ⟨?_, htake⟩, fun t ht h => hmax t ht h.2⟩
    rw [take_length_takeWhile]
    exact hne

end Run

/-- A function that finds every text of a kind, whatever follows it, and finds nothing else, finds
    the longest. Such texts have no other one as their beginning. -/
theorem isLongest_of_found {P : List Char → Prop} {find : List Char → Option Nat}
    (hfound : ∀ t v, P t → find (t ++ v) = some t.length)
    (honly : ∀ u n, find u = some n → ∃ t v, u = t ++ v ∧ t.length = n ∧ P t) (u : List Char) :
    IsLongest P u (find u) := by
  cases hfind : find u with
  | none =>
    rintro t ⟨v, rfl⟩ ht
    rw [hfound t v ht] at hfind
    cases hfind
  | some n =>
    obtain ⟨t, v, rfl, rfl, ht⟩ := honly u n hfind
    refine ⟨by simp, by simpa using ht, ?_⟩
    rintro t' ⟨v', heq⟩ ht'
    have hsame := hfound t' v' ht'
    rw [heq, hfind] at hsame
    exact Nat.le_of_eq (Option.some.inj hsame).symm

/-! ### Strings -/

theorem stringExtent_pair {c : Char} (hc : c ≠ '\n') (cs : List Char) :
    stringExtent ('\\' :: c :: cs) = ((stringExtent cs).1 + 2, (stringExtent cs).2) := by
  rw [stringExtent.eq_4 _ _ (by simpa using hc)]

theorem stringExtent_plain {c : Char} (hquote : c ≠ '"') (hslash : c ≠ '\\') (cs : List Char) :
    stringExtent (c :: cs) = ((stringExtent cs).1 + 1, (stringExtent cs).2) := by
  rw [stringExtent.eq_5 _ _ (by simpa using hquote) (by simp [hslash]) (by simp [hslash])]

/-- The ways in which the inside of a string can go on. -/
theorem string_induction {motive : List Char → Prop} (nil : motive [])
    (quote : ∀ cs, motive ('"' :: cs)) (broken : ∀ cs, motive ('\\' :: '\n' :: cs))
    (lone : motive ['\\'])
    (pair : ∀ c cs, c ≠ '\n' → motive cs → motive ('\\' :: c :: cs))
    (plain : ∀ c cs, c ≠ '"' → c ≠ '\\' → motive cs → motive (c :: cs)) (cs : List Char) :
    motive cs := by
  induction cs using stringExtent.induct with
  | case1 => exact nil
  | case2 cs => exact quote cs
  | case3 cs => exact broken cs
  | case4 c cs hc _ _ _ ih => exact pair c cs hc ih
  | case5 c cs hquote _ hpair _ _ _ ih =>
    by_cases hslash : c = '\\'
    · subst hslash
      cases cs with
      | nil => exact lone
      | cons d ds => exact (hpair d ds rfl rfl).elim
    · exact plain c cs hquote hslash ih

/-- What follows the opening quote of a string. -/
def Lexical.stringTail : Pattern :=
  .seq (.star (.either (.one fun c => c != '"' && c != '\\')
    (.seq (.exactly ['\\']) (.one (· != '\n'))))) (.exactly ['"'])

/-- The length up to the closing quote, if there is one. -/
def closedExtent (cs : List Char) : Option Nat :=
  match stringExtent cs with
  | (n, true) => some n
  | (_, false) => none

theorem closedExtent_eq_some_iff {cs : List Char} {n : Nat} :
    closedExtent cs = some n ↔ stringExtent cs = (n, true) := by
  rw [closedExtent]
  split <;> simp_all

theorem stringExtent_of_stringTail {t : List Char} (h : Lexical.stringTail.Matches t)
    (v : List Char) : stringExtent (t ++ v) = (t.length, true) := by
  obtain ⟨body, quote, hbody, hquote, rfl⟩ := Pattern.matches_seq_iff.mp h
  obtain rfl := Pattern.matches_exactly_iff.mp hquote
  refine Pattern.star_induction
    (motive := fun body => stringExtent (body ++ ['"'] ++ v) = ((body ++ ['"']).length, true))
    rfl ?_ hbody
  intro item more hitem ih
  rcases Pattern.matches_either_iff.mp hitem with hplain | hpair
  · obtain ⟨c, hc, rfl⟩ := Pattern.matches_one_iff.mp hplain
    simp only [Bool.and_eq_true, bne_iff_ne] at hc
    simp only [List.cons_append, List.nil_append]
    rw [stringExtent_plain hc.1 hc.2, ih]
    rfl
  · obtain ⟨as, bs, has, hbs, rfl⟩ := Pattern.matches_seq_iff.mp hpair
    obtain rfl := Pattern.matches_exactly_iff.mp has
    obtain ⟨c, hc, rfl⟩ := Pattern.matches_one_iff.mp hbs
    simp only [bne_iff_ne] at hc
    simp only [List.cons_append, List.nil_append]
    rw [stringExtent_pair hc, ih]
    rfl

/-- One more plain character or pair in front of the inside of a string. -/
theorem stringTail_append {item t : List Char}
    (hitem : (Pattern.either (.one fun c => c != '"' && c != '\\')
      (.seq (.exactly ['\\']) (.one (· != '\n')))).Matches item)
    (h : Lexical.stringTail.Matches t) : Lexical.stringTail.Matches (item ++ t) := by
  obtain ⟨body, quote, hbody, hquote, rfl⟩ := Pattern.matches_seq_iff.mp h
  rw [← List.append_assoc]
  exact .seq (.more hitem hbody) hquote

theorem stringTail_plain {c : Char} {t : List Char} (hquote : c ≠ '"') (hslash : c ≠ '\\')
    (h : Lexical.stringTail.Matches t) : Lexical.stringTail.Matches (c :: t) :=
  stringTail_append (.left (.one (by simp [hquote, hslash]))) h

theorem stringTail_pair {c : Char} {t : List Char} (hc : c ≠ '\n')
    (h : Lexical.stringTail.Matches t) : Lexical.stringTail.Matches ('\\' :: c :: t) := by
  have hitem : (Pattern.seq (.exactly ['\\']) (.one (· != '\n'))).Matches (['\\'] ++ [c]) :=
    .seq .exactly (.one (by simpa using hc))
  exact stringTail_append (.right hitem) h

theorem stringTail_of_stringExtent (u : List Char) :
    ∀ n, stringExtent u = (n, true) →
      ∃ t v, u = t ++ v ∧ t.length = n ∧ Lexical.stringTail.Matches t := by
  induction u using string_induction with
  | nil =>
    intro n h
    cases h
  | quote cs =>
    intro n h
    cases h
    exact ⟨['"'], cs, rfl, rfl, .seq .stop .exactly⟩
  | broken cs =>
    intro n h
    cases h
  | lone =>
    intro n h
    cases h
  | pair c cs hc ih =>
    intro n h
    rw [stringExtent_pair hc, Prod.mk.injEq] at h
    obtain ⟨rfl, hclosed⟩ := h
    obtain ⟨t, v, rfl, hlen, ht⟩ := ih _ (Prod.ext rfl hclosed)
    exact ⟨'\\' :: c :: t, v, rfl, by simp [hlen], stringTail_pair hc ht⟩
  | plain c cs hquote hslash ih =>
    intro n h
    rw [stringExtent_plain hquote hslash, Prod.mk.injEq] at h
    obtain ⟨rfl, hclosed⟩ := h
    obtain ⟨t, v, rfl, hlen, ht⟩ := ih _ (Prod.ext rfl hclosed)
    exact ⟨c :: t, v, rfl, by simp [hlen], stringTail_plain hquote hslash ht⟩

theorem isLongest_closedExtent (cs : List Char) :
    IsLongest Lexical.stringTail.Matches cs (closedExtent cs) := by
  refine isLongest_of_found ?_ ?_ cs
  · intro t v ht
    exact closedExtent_eq_some_iff.mpr (stringExtent_of_stringTail ht v)
  · intro u n h
    exact stringTail_of_stringExtent u n (closedExtent_eq_some_iff.mp h)

/-! ### Block comments -/

namespace Lexical

/-- A run of characters other than a star. -/
def starless : Pattern := .star (.one (· != '*'))

/-- A run of stars that the comment goes on after. -/
def reopened : Pattern :=
  .seq (.one fun c => c != '/' && c != '*') (.seq starless (.plus (.one (· == '*'))))

/-- What follows the opening of a block comment. -/
def commentTail : Pattern :=
  .seq starless (.seq (.plus (.one (· == '*'))) (.seq (.star reopened) (.exactly ['/'])))

/-- What follows a star inside a block comment. -/
def starredTail : Pattern :=
  .seq (.star (.one (· == '*'))) (.seq (.star reopened) (.exactly ['/']))

end Lexical

theorem commentExtent?_cons {c : Char} {cs : List Char} (h : c = '*' → cs.head? ≠ some '/') :
    commentExtent? (c :: cs) = (commentExtent? cs).map (· + 1) := by
  refine commentExtent?.eq_3 c cs ?_
  rintro tail rfl rfl
  exact h rfl rfl

theorem commentExtent?_starless {as : List Char} (has : ∀ c ∈ as, c ≠ '*') (v : List Char) :
    commentExtent? (as ++ v) = (commentExtent? v).map (· + as.length) := by
  induction as with
  | nil => simp
  | cons c cs ih =>
    have hc : c ≠ '*' := has c List.mem_cons_self
    rw [List.cons_append, commentExtent?_cons (fun h => absurd h hc),
      ih fun d hd => has d (List.mem_cons_of_mem _ hd), Option.map_map]
    congr 1

/-- Stars before a character that does not close the comment. -/
theorem commentExtent?_stars {as : List Char} (has : ∀ c ∈ as, c = '*') {d : Char} (hd : d ≠ '/')
    (v : List Char) :
    commentExtent? (as ++ d :: v) = (commentExtent? (d :: v)).map (· + as.length) := by
  induction as with
  | nil => simp
  | cons c cs ih =>
    have hall : ∀ c ∈ cs, c = '*' := fun e he => has e (List.mem_cons_of_mem _ he)
    have hhead : (cs ++ d :: v).head? ≠ some '/' := by
      cases cs with
      | nil => simpa using hd
      | cons e es => simp [hall e List.mem_cons_self]
    rw [List.cons_append, commentExtent?_cons (fun _ => hhead), ih hall, Option.map_map]
    congr 1

theorem commentExtent?_stars_close {as : List Char} (hne : as ≠ []) (has : ∀ c ∈ as, c = '*')
    (v : List Char) : commentExtent? (as ++ '/' :: v) = some (as.length + 1) := by
  induction as with
  | nil => exact absurd rfl hne
  | cons c cs ih =>
    obtain rfl : c = '*' := has c List.mem_cons_self
    cases cs with
    | nil => rfl
    | cons d ds =>
      have hall : ∀ c ∈ d :: ds, c = '*' := fun e he => has e (List.mem_cons_of_mem _ he)
      have hhead : (d :: ds ++ '/' :: v).head? ≠ some '/' := by
        simp [hall d List.mem_cons_self]
      rw [List.cons_append, commentExtent?_cons (fun _ => hhead), ih (by simp) hall]
      rfl

/-- After stars, a comment goes on through any number of reopenings up to its close. -/
theorem commentExtent?_reopened {gs : List Char} (hgs : (Pattern.star Lexical.reopened).Matches gs)
    (v : List Char) :
    ∀ as : List Char, as ≠ [] → (∀ c ∈ as, c = '*') →
      commentExtent? (as ++ (gs ++ '/' :: v)) = some (as.length + gs.length + 1) := by
  refine Pattern.star_induction (motive := fun gs => ∀ as : List Char, as ≠ [] →
    (∀ c ∈ as, c = '*') →
      commentExtent? (as ++ (gs ++ '/' :: v)) = some (as.length + gs.length + 1)) ?_ ?_ hgs
  · intro as hne has
    exact commentExtent?_stars_close hne has v
  · intro group more hgroup ih as hne has
    obtain ⟨first, rest, hfirst, hrest, rfl⟩ := Pattern.matches_seq_iff.mp hgroup
    obtain ⟨d, hd, rfl⟩ := Pattern.matches_one_iff.mp hfirst
    obtain ⟨inner, stars, hinner, hstars, rfl⟩ := Pattern.matches_seq_iff.mp hrest
    have hplain := Pattern.matches_star_one_iff.mp hinner
    obtain ⟨hsne, hsall⟩ := Pattern.matches_plus_one_iff.mp hstars
    simp only [Bool.and_eq_true, bne_iff_ne] at hd
    have hfree : ∀ c ∈ d :: inner, c ≠ '*' := by
      intro c hc
      rcases List.mem_cons.mp hc with rfl | hc
      · exact hd.2
      · simpa using hplain c hc
    have hmore := ih stars hsne (fun c hc => by simpa using hsall c hc)
    have hinside := commentExtent?_starless hfree (stars ++ (more ++ '/' :: v))
    have hbefore := commentExtent?_stars has hd.1 (inner ++ (stars ++ (more ++ '/' :: v)))
    rw [hmore, List.cons_append] at hinside
    simp only [List.append_assoc, List.cons_append, List.nil_append]
    rw [hbefore, hinside]
    simp only [Option.map_some, List.length_append, List.length_cons]
    congr 1
    omega

theorem commentExtent?_of_commentTail {t : List Char} (h : Lexical.commentTail.Matches t)
    (v : List Char) : commentExtent? (t ++ v) = some t.length := by
  obtain ⟨as, rest, has, hrest, rfl⟩ := Pattern.matches_seq_iff.mp h
  obtain ⟨stars, last, hstars, hlast, rfl⟩ := Pattern.matches_seq_iff.mp hrest
  obtain ⟨gs, slash, hgs, hslash, rfl⟩ := Pattern.matches_seq_iff.mp hlast
  obtain rfl := Pattern.matches_exactly_iff.mp hslash
  have hfree : ∀ c ∈ as, c ≠ '*' := by
    intro c hc
    simpa using Pattern.matches_star_one_iff.mp has c hc
  obtain ⟨hne, hall⟩ := Pattern.matches_plus_one_iff.mp hstars
  have hclose := commentExtent?_reopened hgs v stars hne (fun c hc => by simpa using hall c hc)
  simp only [List.append_assoc, List.cons_append, List.nil_append]
  rw [commentExtent?_starless hfree, hclose]
  simp only [Option.map_some, List.length_append, List.length_cons, List.length_nil]
  congr 1
  omega

theorem commentTail_plain {c : Char} {t : List Char} (hc : c ≠ '*')
    (h : Lexical.commentTail.Matches t) : Lexical.commentTail.Matches (c :: t) := by
  obtain ⟨as, rest, has, hrest, rfl⟩ := Pattern.matches_seq_iff.mp h
  have hmore : Lexical.starless.Matches ([c] ++ as) := .more (.one (by simpa using hc)) has
  exact Pattern.matches_seq_iff.mpr ⟨_, rest, hmore, hrest, rfl⟩

theorem commentTail_star {t : List Char} (h : Lexical.starredTail.Matches t) :
    Lexical.commentTail.Matches ('*' :: t) := by
  obtain ⟨stars, rest, hstars, hrest, rfl⟩ := Pattern.matches_seq_iff.mp h
  have hplus : (Pattern.plus (.one (· == '*'))).Matches (['*'] ++ stars) :=
    .seq (.one rfl) hstars
  have hclosed := Pattern.Matches.seq hplus hrest
  exact Pattern.matches_seq_iff.mpr ⟨[], _, .stop, hclosed, rfl⟩

theorem starredTail_close : Lexical.starredTail.Matches ['/'] :=
  Pattern.matches_seq_iff.mpr ⟨[], ['/'], .stop, .seq .stop .exactly, rfl⟩

theorem starredTail_star {t : List Char} (h : Lexical.starredTail.Matches t) :
    Lexical.starredTail.Matches ('*' :: t) := by
  obtain ⟨stars, rest, hstars, hrest, rfl⟩ := Pattern.matches_seq_iff.mp h
  have hmore : (Pattern.star (.one (· == '*'))).Matches (['*'] ++ stars) :=
    .more (.one rfl) hstars
  exact Pattern.matches_seq_iff.mpr ⟨_, rest, hmore, hrest, rfl⟩

theorem starredTail_plain {c : Char} {t : List Char} (hslash : c ≠ '/') (hstar : c ≠ '*')
    (h : Lexical.commentTail.Matches t) : Lexical.starredTail.Matches (c :: t) := by
  obtain ⟨as, rest, has, hrest, rfl⟩ := Pattern.matches_seq_iff.mp h
  obtain ⟨stars, last, hstars, hlast, rfl⟩ := Pattern.matches_seq_iff.mp hrest
  obtain ⟨gs, slash, hgs, hend, rfl⟩ := Pattern.matches_seq_iff.mp hlast
  have hgroup : Lexical.reopened.Matches ([c] ++ (as ++ stars)) :=
    .seq (.one (by simp [hslash, hstar])) (.seq has hstars)
  have hclosed := Pattern.Matches.seq (Pattern.Matches.more hgroup hgs) hend
  refine Pattern.matches_seq_iff.mpr ⟨[], _, .stop, hclosed, ?_⟩
  simp

/-- Both kinds of tail at once: the one after the opening, and the one after a star. -/
theorem commentTail_of_commentExtent? (u : List Char) :
    (∀ n, commentExtent? u = some n →
      ∃ t v, u = t ++ v ∧ t.length = n ∧ Lexical.commentTail.Matches t) ∧
    ∀ n, commentExtent? ('*' :: u) = some n →
      ∃ t v, u = t ++ v ∧ t.length + 1 = n ∧ Lexical.starredTail.Matches t := by
  induction u with
  | nil =>
    constructor
    · intro n h
      cases h
    · intro n h
      cases h
  | cons c cs ih =>
    obtain ⟨ihplain, ihstar⟩ := ih
    have hplain : c ≠ '*' → ∀ n, commentExtent? (c :: cs) = some n →
        ∃ t v, cs = t ++ v ∧ t.length + 1 = n ∧ Lexical.commentTail.Matches t := by
      intro hc n h
      rw [commentExtent?_cons (fun h => absurd h hc)] at h
      obtain ⟨m, hm, rfl⟩ := Option.map_eq_some_iff.mp h
      obtain ⟨t, v, rfl, rfl, ht⟩ := ihplain m hm
      exact ⟨t, v, rfl, rfl, ht⟩
    constructor
    · intro n h
      by_cases hc : c = '*'
      · subst hc
        obtain ⟨t, v, rfl, rfl, ht⟩ := ihstar n h
        exact ⟨'*' :: t, v, rfl, rfl, commentTail_star ht⟩
      · obtain ⟨t, v, rfl, rfl, ht⟩ := hplain hc n h
        exact ⟨c :: t, v, rfl, rfl, commentTail_plain hc ht⟩
    · intro n h
      by_cases hslash : c = '/'
      · subst hslash
        cases h
        exact ⟨['/'], cs, rfl, rfl, starredTail_close⟩
      · rw [commentExtent?_cons (by simpa using hslash)] at h
        obtain ⟨m, hm, rfl⟩ := Option.map_eq_some_iff.mp h
        by_cases hc : c = '*'
        · subst hc
          obtain ⟨t, v, rfl, rfl, ht⟩ := ihstar m hm
          exact ⟨'*' :: t, v, rfl, rfl, starredTail_star ht⟩
        · obtain ⟨t, v, rfl, rfl, ht⟩ := hplain hc m hm
          exact ⟨c :: t, v, rfl, rfl, starredTail_plain hslash hc ht⟩

theorem isLongest_commentExtent? (cs : List Char) :
    IsLongest Lexical.commentTail.Matches cs (commentExtent? cs) := by
  refine isLongest_of_found ?_ ?_ cs
  · intro t v ht
    exact commentExtent?_of_commentTail ht v
  · intro u n h
    exact (commentTail_of_commentExtent? u).1 n h

end LetTree

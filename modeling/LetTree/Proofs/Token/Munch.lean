import LetTree.Proofs.Token.Lexemes

/-!
# Maximal munch

Reading tokens cuts a source as the lexical rules say: at every place the longest text of any
pattern is taken, and the first place where none can be taken gives the error. The choice among the
classes is followed along the list of classes; since no text belongs to two classes, it does not
depend on their order.
-/

namespace LetTree

open Lexical

namespace Lexeme

/-! ### The choice among classes -/

/-- The best match among some classes at the beginning of `cs`. -/
def Best (classes : List Lexeme) (cs : List Char) : Option (Lexeme × Nat) → Prop
  | none => ∀ l ∈ classes, l.length? cs = none
  | some (l, n) => l ∈ classes ∧ l.length? cs = some n ∧
      ∀ m ∈ classes, ∀ k, m.length? cs = some k → k ≤ n

theorem Best.longer {classes : List Lexeme} {cs : List Char} {best : Option (Lexeme × Nat)}
    (h : Best classes cs best) (lexeme : Lexeme) :
    Best (classes ++ [lexeme]) cs (longer best lexeme (lexeme.length? cs)) := by
  cases hlength : lexeme.length? cs with
  | none =>
    cases best with
    | none =>
      intro m hm
      rcases List.mem_append.mp hm with hm | hm
      · exact h m hm
      · rw [List.mem_singleton.mp hm, hlength]
    | some found =>
      obtain ⟨hmem, hfound, hmax⟩ := h
      refine ⟨List.mem_append_left _ hmem, hfound, ?_⟩
      intro m hm k hk
      rcases List.mem_append.mp hm with hm | hm
      · exact hmax m hm k hk
      · rw [List.mem_singleton.mp hm, hlength] at hk
        cases hk
  | some n =>
    have hlast : lexeme ∈ classes ++ [lexeme] := by simp
    cases best with
    | none =>
      refine ⟨hlast, hlength, ?_⟩
      intro m hm k hk
      rcases List.mem_append.mp hm with hm | hm
      · rw [h m hm] at hk
        cases hk
      · rw [List.mem_singleton.mp hm, hlength] at hk
        exact Nat.le_of_eq (Option.some.inj hk).symm
    | some found =>
      obtain ⟨l, best⟩ := found
      obtain ⟨hmem, hfound, hmax⟩ := h
      -- Whichever of the two is kept is at least as long as the other.
      have hother : ∀ m ∈ classes ++ [lexeme], ∀ k, m.length? cs = some k → k ≤ best ∨ k ≤ n := by
        intro m hm k hk
        rcases List.mem_append.mp hm with hm | hm
        · exact .inl (hmax m hm k hk)
        · rw [List.mem_singleton.mp hm, hlength] at hk
          exact .inr (Nat.le_of_eq (Option.some.inj hk).symm)
      simp only [Lexeme.longer]
      split
      · next hlt =>
        refine ⟨hlast, hlength, fun m hm k hk => ?_⟩
        have := hother m hm k hk
        omega
      · next hlt =>
        refine ⟨List.mem_append_left _ hmem, hfound, fun m hm k hk => ?_⟩
        have := hother m hm k hk
        omega

theorem Best.foldl {cs : List Char} (classes : List Lexeme) :
    ∀ {before : List Lexeme} {best : Option (Lexeme × Nat)}, Best before cs best →
      Best (before ++ classes) cs (classes.foldl
        (fun best lexeme => Lexeme.longer best lexeme (lexeme.length? cs)) best) := by
  induction classes with
  | nil =>
    intro before best h
    simpa using h
  | cons lexeme classes ih =>
    intro before best h
    have hmore := ih (h.longer lexeme)
    simpa using hmore

theorem longest_best (cs : List Char) : Best all cs (longest cs) := by
  have hnone : Best [] cs none := fun l hl => by cases hl
  exact hnone.foldl all

/-! ### Declared texts -/

theorem declared_iff {t : List Char} : Declared t ↔ ∃ l ∈ all, l.pattern.Matches t := by
  constructor
  · rintro ⟨r, h⟩
    obtain ⟨l, hl, hmatch, -⟩ := reads_iff.mp h
    exact ⟨l, hl, hmatch⟩
  · rintro ⟨l, hl, hmatch⟩
    exact ⟨_, reads_of_matches hl hmatch⟩

theorem ne_nil_of_declared {t : List Char} (h : Declared t) : t ≠ [] := by
  obtain ⟨l, hl, hmatch⟩ := declared_iff.mp h
  rintro rfl
  cases classOf_of_matches hl hmatch

/-- The chosen class has the longest text of all patterns. -/
theorem munch_of_longest {cs : List Char} {lexeme : Lexeme} {n : Nat}
    (h : longest cs = some (lexeme, n)) :
    Munch cs (cs.take n) (cs.drop n) ∧ Reads (cs.take n) (lexeme.read (cs.take n)) := by
  have hbest := longest_best cs
  rw [h] at hbest
  obtain ⟨hall, hlength, hmax⟩ := hbest
  have hlongest := length?_isLongest lexeme cs
  rw [hlength] at hlongest
  obtain ⟨hle, hmatch, -⟩ := hlongest
  have hdeclared : Declared (cs.take n) := declared_iff.mpr ⟨lexeme, hall, hmatch⟩
  refine ⟨⟨(List.take_append_drop n cs).symm, ne_nil_of_declared hdeclared, hdeclared, ?_⟩,
    reads_of_matches hall hmatch⟩
  intro other hother hdecl
  obtain ⟨m, hm, hmatches⟩ := declared_iff.mp hdecl
  have hm' := length?_isLongest m cs
  rw [List.length_take_of_le hle]
  cases hk : m.length? cs with
  | none =>
    rw [hk] at hm'
    exact absurd hmatches (hm' other hother)
  | some k =>
    rw [hk] at hm'
    exact (hm'.2.2 other hother hmatches).trans (hmax m hm k hk)

theorem stuck_of_longest {cs : List Char} (hne : cs ≠ []) (h : longest cs = none) : Stuck cs := by
  have hbest := longest_best cs
  rw [h] at hbest
  refine ⟨hne, ?_⟩
  intro other hother _ hdecl
  obtain ⟨m, hm, hmatches⟩ := declared_iff.mp hdecl
  have hm' := length?_isLongest m cs
  rw [hbest m hm] at hm'
  exact hm' other hother hmatches

end Lexeme

/-! ### Determinism -/

namespace Lexical

theorem Reads.unique {t : List Char} {r r' : Reading} (h : Reads t r) (h' : Reads t r') :
    r = r' := by
  obtain ⟨l, hl, hmatch, rfl⟩ := Lexeme.reads_iff.mp h
  obtain ⟨l', hl', hmatch', rfl⟩ := Lexeme.reads_iff.mp h'
  rw [Lexeme.eq_of_matches hl hl' hmatch hmatch']

theorem Munch.begins {cs text rest : List Char} (h : Munch cs text rest) : text <+: cs :=
  ⟨rest, h.split.symm⟩

theorem Munch.unique {cs text rest text' rest' : List Char} (h : Munch cs text rest)
    (h' : Munch cs text' rest') : text = text' ∧ rest = rest' := by
  have hle := h.longest text' h'.begins h'.declared
  have hge := h'.longest text h.begins h.declared
  have hsplit : text ++ rest = text' ++ rest' := h.split.symm.trans h'.split
  exact List.append_inj hsplit (Nat.le_antisymm hge hle)

theorem Munch.not_stuck {cs text rest : List Char} (h : Munch cs text rest) : ¬ Stuck cs :=
  fun hstuck => hstuck.2 text h.begins h.nonempty h.declared

theorem Munch.ne_nil {cs text rest : List Char} (h : Munch cs text rest) : cs ≠ [] := by
  rintro rfl
  exact h.nonempty (List.prefix_nil.mp h.begins)

/-- A class with the longest text of all is the one that is chosen. -/
theorem longest_of_munch {cs text rest : List Char} {lexeme : Lexeme} (h : Munch cs text rest)
    (hall : lexeme ∈ Lexeme.all) (hmatch : lexeme.pattern.Matches text) :
    Lexeme.longest cs = some (lexeme, text.length) := by
  have hbest := Lexeme.longest_best cs
  cases hlongest : Lexeme.longest cs with
  | none => exact absurd (Lexeme.stuck_of_longest h.ne_nil hlongest) h.not_stuck
  | some found =>
    obtain ⟨chosen, n⟩ := found
    obtain ⟨htext, -⟩ := h.unique (Lexeme.munch_of_longest hlongest).1
    rw [hlongest] at hbest
    obtain ⟨hchosen, hlength, -⟩ := hbest
    have hpattern := Lexeme.length?_isLongest chosen cs
    rw [hlength] at hpattern
    obtain ⟨hle, hmatches, -⟩ := hpattern
    rw [← htext] at hmatches
    rw [Lexeme.eq_of_matches hchosen hall hmatches hmatch, htext, List.length_take_of_le hle]

theorem AtFault.length_le {cs text text' : List Char} (h : AtFault cs text)
    (h' : AtFault cs text') : text.length ≤ text'.length := by
  rcases h.viable with hviable | hone
  · exact h'.longest text h.begins hviable
  · have := List.length_pos_iff.mpr h'.nonempty
    omega

theorem AtFault.unique {cs text text' : List Char} (h : AtFault cs text) (h' : AtFault cs text') :
    text = text' := by
  have hlength := Nat.le_antisymm (h.length_le h') (h'.length_le h)
  exact List.prefix_of_prefix_length_le h.begins h'.begins hlength.le |>.eq_of_length hlength

end Lexical

/-! ### Stray text -/

theorem stringTail_iff {t : List Char} :
    stringTail.Matches t ↔ stringExtent t = (t.length, true) := by
  constructor
  · intro h
    simpa using stringExtent_of_stringTail h []
  · intro h
    obtain ⟨u, v, rfl, hlength, hu⟩ := stringTail_of_stringExtent t _ h
    have hv : v = [] := by simpa using hlength
    rw [hv, List.append_nil]
    exact hu

/-- The characters counted after the quote of an open string can still be closed. -/
theorem stringTail_of_open (cs : List Char) :
    ∀ n, stringExtent cs = (n, false) →
      n ≤ cs.length ∧ ∃ more, stringTail.Matches (cs.take n ++ more) := by
  have hslash : stringTail.Matches ['\\', 'n', '"'] := stringTail_iff.mpr rfl
  induction cs using string_induction with
  | nil =>
    intro n h
    cases h
    exact ⟨Nat.le_refl _, ['"'], stringTail_iff.mpr rfl⟩
  | quote cs =>
    intro n h
    cases h
  | broken cs =>
    intro n h
    cases h
    exact ⟨by simp, ['n', '"'], hslash⟩
  | lone =>
    intro n h
    cases h
    exact ⟨by simp, ['n', '"'], hslash⟩
  | pair c cs hc ih =>
    intro n h
    rw [stringExtent_pair hc, Prod.mk.injEq] at h
    obtain ⟨rfl, hopen⟩ := h
    obtain ⟨hle, more, hmore⟩ := ih _ (Prod.ext rfl hopen)
    exact ⟨by simpa using hle, more, stringTail_pair hc hmore⟩
  | plain c cs hquote hslash' ih =>
    intro n h
    rw [stringExtent_plain hquote hslash', Prod.mk.injEq] at h
    obtain ⟨rfl, hopen⟩ := h
    obtain ⟨hle, more, hmore⟩ := ih _ (Prod.ext rfl hopen)
    exact ⟨by simpa using hle, more, stringTail_plain hquote hslash' hmore⟩

/-- No more characters after the quote of an open string can be closed than are counted. -/
theorem length_le_of_open (cs : List Char) :
    ∀ n, stringExtent cs = (n, false) → ∀ t more, t <+: cs → stringTail.Matches (t ++ more) →
      t.length ≤ n := by
  induction cs using string_induction with
  | nil =>
    intro n h t more ht _
    rw [List.prefix_nil.mp ht]
    exact Nat.zero_le n
  | quote cs =>
    intro n h
    cases h
  | broken cs =>
    intro n h t more ht hmore
    cases h
    rcases t with - | ⟨c, - | ⟨d, t⟩⟩
    · exact Nat.zero_le 1
    · exact Nat.le_refl 1
    · obtain ⟨rfl, htail⟩ := List.cons_prefix_cons.mp ht
      obtain ⟨rfl, -⟩ := List.cons_prefix_cons.mp htail
      cases stringTail_iff.mp hmore
  | lone =>
    intro n h t more ht _
    cases h
    exact ht.length_le
  | pair c cs hc ih =>
    intro n h t more ht hmore
    rw [stringExtent_pair hc, Prod.mk.injEq] at h
    obtain ⟨rfl, hopen⟩ := h
    rcases t with - | ⟨b, - | ⟨d, t⟩⟩
    · exact Nat.zero_le _
    · exact Nat.le_add_left 1 _
    · obtain ⟨rfl, htail⟩ := List.cons_prefix_cons.mp ht
      obtain ⟨rfl, hinside⟩ := List.cons_prefix_cons.mp htail
      have hextent := stringTail_iff.mp hmore
      simp only [List.cons_append, stringExtent_pair hc, Prod.mk.injEq, List.length_cons,
        Nat.add_right_cancel_iff] at hextent
      have htail := stringTail_iff.mpr (Prod.ext hextent.1 hextent.2)
      have := ih _ (Prod.ext rfl hopen) t more hinside htail
      simpa using this
  | plain c cs hquote hslash ih =>
    intro n h t more ht hmore
    rw [stringExtent_plain hquote hslash, Prod.mk.injEq] at h
    obtain ⟨rfl, hopen⟩ := h
    rcases t with - | ⟨b, t⟩
    · exact Nat.zero_le _
    · obtain ⟨rfl, hinside⟩ := List.cons_prefix_cons.mp ht
      have hextent := stringTail_iff.mp hmore
      simp only [List.cons_append, stringExtent_plain hquote hslash, Prod.mk.injEq,
        List.length_cons, Nat.add_right_cancel_iff] at hextent
      have htail := stringTail_iff.mpr (Prod.ext hextent.1 hextent.2)
      have := ih _ (Prod.ext rfl hopen) t more hinside htail
      simpa using this

theorem declared_quote_iff {t : List Char} : Declared ('"' :: t) ↔ stringTail.Matches t := by
  rw [Lexeme.declared_iff]
  constructor
  · rintro ⟨l, hl, hmatch⟩
    cases Lexeme.classOf_of_matches hl hmatch
    obtain ⟨u, hu, heq⟩ := Lexeme.matches_exactly_seq_iff.mp hmatch
    cases heq
    exact hu
  · intro h
    exact ⟨.string, by decide, Lexeme.matches_exactly_seq_iff.mpr ⟨t, h, rfl⟩⟩

theorem stuck_quote {rest : List Char} (h : Stuck ('"' :: rest)) :
    ∃ n, stringExtent rest = (n, false) := by
  cases hextent : stringExtent rest with
  | mk n closed =>
    cases closed with
    | false => exact ⟨n, rfl⟩
    | true =>
      obtain ⟨t, v, rfl, -, ht⟩ := stringTail_of_stringExtent rest n hextent
      have hprefix : '"' :: t <+: '"' :: (t ++ v) := List.prefix_append ('"' :: t) v
      exact absurd (declared_quote_iff.mpr ht) (h.2 _ hprefix (List.cons_ne_nil _ _))

theorem atFault_quote {rest : List Char} {n : Nat} (h : stringExtent rest = (n, false)) :
    AtFault ('"' :: rest) ('"' :: rest.take n) := by
  obtain ⟨hle, more, hmore⟩ := stringTail_of_open rest n h
  refine ⟨List.cons_prefix_cons.mpr ⟨rfl, List.take_prefix n rest⟩, List.cons_ne_nil _ _,
    .inl ⟨more, declared_quote_iff.mpr hmore⟩, ?_⟩
  rintro other hother ⟨more', hdecl⟩
  rw [List.length_cons, List.length_take_of_le hle]
  cases other with
  | nil => exact Nat.zero_le _
  | cons c t =>
    obtain ⟨rfl, ht⟩ := List.cons_prefix_cons.mp hother
    have := length_le_of_open rest n h t more' ht (declared_quote_iff.mp hdecl)
    exact Nat.succ_le_succ this

/-- A single digit is a numeral. -/
theorem declared_of_isDecimal {c : Char} (h : isDecimal c = true) : Declared [c] := by
  have hone : (numeral .decimal).Matches [c] :=
    Lexeme.matches_numeral_iff.mpr ⟨[c], ⟨by simp, by simpa [isDigit] using h⟩, rfl⟩
  exact ⟨_, Lexeme.reads_of_numeral hone⟩

/-- Outside strings, the first character of a text is a text itself, unless the text is a symbol of
    at most two characters. -/
theorem declared_head {c : Char} {u : List Char} (h : Declared (c :: u)) (hc : c ≠ '"') :
    Declared [c] ∨ u.length ≤ 1 := by
  obtain ⟨l, hl, hmatch⟩ := Lexeme.declared_iff.mp h
  have hslash : Declared ['/'] :=
    ⟨_, .operator (Lexeme.matches_operator_iff.mpr ⟨.div, by decide, rfl⟩)⟩
  cases l with
  | blanks =>
    have hall := (Lexeme.matches_blanks_iff.mp hmatch).2
    have hone : blanks.Matches [c] :=
      Lexeme.matches_blanks_iff.mpr ⟨by simp, by simpa using hall c List.mem_cons_self⟩
    exact .inl ⟨_, .blanks hone⟩
  | lineComment =>
    obtain ⟨v, -, heq⟩ := Lexeme.matches_exactly_seq_iff.mp hmatch
    cases heq
    exact .inl hslash
  | blockComment =>
    obtain ⟨v, -, heq⟩ := Lexeme.matches_exactly_seq_iff.mp hmatch
    cases heq
    exact .inl hslash
  | numeral base =>
    obtain ⟨d, v, heq, hdecimal⟩ := Lexeme.head_of_numeral hmatch
    cases heq
    exact .inl (declared_of_isDecimal hdecimal)
  | string =>
    obtain ⟨v, -, heq⟩ := Lexeme.matches_exactly_seq_iff.mp hmatch
    cases heq
    exact absurd rfl hc
  | word =>
    obtain ⟨d, v, hd, -, heq⟩ := Lexeme.matches_identifier_iff.mp hmatch
    cases heq
    have hone : identifier.Matches [c] :=
      Lexeme.matches_identifier_iff.mpr ⟨c, [], hd, by simp, rfl⟩
    exact .inl ⟨_, Lexeme.reads_of_identifier hone⟩
  | symbol spelling token =>
    have hshort : ∀ s ∈ symbols, s.1.toList.length ≤ 2 := by decide +kernel
    have hlength := hshort _ (Lexeme.symbol_mem_all_iff.mp hl)
    rw [← Pattern.matches_exactly_iff.mp hmatch] at hlength
    exact .inr (Nat.le_of_succ_le_succ hlength)

theorem atFault_single {c : Char} {rest : List Char} (h : Stuck (c :: rest)) (hc : c ≠ '"') :
    AtFault (c :: rest) [c] := by
  have hbegins : [c] <+: c :: rest := List.prefix_append [c] rest
  refine ⟨hbegins, List.cons_ne_nil _ _, .inr rfl, ?_⟩
  rintro other hother ⟨more, hdecl⟩
  rcases other with - | ⟨d, - | ⟨e, t⟩⟩
  · exact Nat.zero_le 1
  · exact Nat.le_refl 1
  · obtain ⟨rfl, -⟩ := List.cons_prefix_cons.mp hother
    rcases declared_head hdecl hc with hone | hlength
    · exact absurd hone (h.2 [d] hbegins (List.cons_ne_nil _ _))
    · -- Such a text is complete, so it would not have been stray.
      have hnil : t = [] ∧ more = [] := by simpa using hlength
      obtain ⟨rfl, rfl⟩ := hnil
      exact absurd hdecl (h.2 _ hother (List.cons_ne_nil _ _))

theorem atFault_stray {cs : List Char} (h : Stuck cs) :
    AtFault cs (cs.take (Token.strayLength cs)) := by
  cases cs with
  | nil => exact absurd rfl h.1
  | cons c rest =>
    by_cases hc : c = '"'
    · subst hc
      obtain ⟨n, hn⟩ := stuck_quote h
      rw [Token.strayLength, hn, List.take_succ_cons]
      exact atFault_quote hn
    · have hone : Token.strayLength (c :: rest) = 1 :=
        Token.strayLength.eq_2 _ (by simpa using hc)
      rw [hone]
      exact atFault_single h hc

/-! ### Reading along the rules -/

namespace Token

@[simp] theorem lexFrom_nil (offset : Nat) : lexFrom offset [] = .ok [] := by
  rw [lexFrom.eq_def]

/-- The result for a text with a given meaning at the byte `offset`, followed by what has the result
    `others`. -/
def onto (offset : Nat) (text : List Char) (others : Except LexError (List Placed)) :
    Reading → Except LexError (List Placed)
  | .skip => others
  | .token t => others.map (⟨t, ⟨offset, offset + Text.bytes text⟩⟩ :: ·)
  | .outOfRange => .error ⟨⟨offset, offset + Text.bytes text⟩, .outOfRange (String.ofList text)⟩

theorem lexFrom_munch {cs text rest : List Char} (h : Munch cs text rest) {r : Reading}
    (hr : Reads text r) (offset : Nat) :
    lexFrom offset cs = onto offset text (lexFrom (offset + Text.bytes text) rest) r := by
  cases cs with
  | nil => exact absurd rfl h.ne_nil
  | cons c others =>
    rw [lexFrom.eq_def]
    cases hlongest : Lexeme.longest (c :: others) with
    | none =>
      exact absurd (Lexeme.stuck_of_longest (List.cons_ne_nil _ _) hlongest) h.not_stuck
    | some found =>
      obtain ⟨lexeme, n⟩ := found
      obtain ⟨hmunch, hread⟩ := Lexeme.munch_of_longest hlongest
      obtain ⟨rfl, rfl⟩ := h.unique hmunch
      obtain rfl := hr.unique hread
      have hdrop : others.drop (n - 1) = (c :: others).drop n := by
        cases n with
        | zero => exact absurd rfl h.nonempty
        | succ n => rfl
      rw [← hdrop]
      simp only [hlongest]
      cases lexeme.read ((c :: others).take n) with
      | skip => rfl
      | token t => rfl
      | outOfRange => rfl

theorem lexFrom_stuck {cs text : List Char} (h : Stuck cs) (hfault : AtFault cs text)
    (offset : Nat) :
    lexFrom offset cs =
      .error ⟨⟨offset, offset + Text.bytes text⟩, .unexpected (String.ofList text)⟩ := by
  cases cs with
  | nil => exact absurd rfl h.1
  | cons c others =>
    rw [lexFrom.eq_def]
    cases hlongest : Lexeme.longest (c :: others) with
    | none =>
      rw [hfault.unique (atFault_stray h)]
      simp only [hlongest]
    | some found =>
      obtain ⟨hmunch, -⟩ := Lexeme.munch_of_longest hlongest
      exact absurd h hmunch.not_stuck

end Token

/-- At every place before the end, a text can be taken or the source is stuck. -/
theorem munch_or_stuck {cs : List Char} (hne : cs ≠ []) :
    (∃ text rest r, Munch cs text rest ∧ Reads text r) ∨
      (Stuck cs ∧ ∃ text, AtFault cs text) := by
  cases hlongest : Lexeme.longest cs with
  | none =>
    have hstuck := Lexeme.stuck_of_longest hne hlongest
    exact .inr ⟨hstuck, _, atFault_stray hstuck⟩
  | some found =>
    obtain ⟨hmunch, hread⟩ := Lexeme.munch_of_longest hlongest
    exact .inl ⟨_, _, _, hmunch, hread⟩

theorem Lexical.Munch.length_lt {cs text rest : List Char} (h : Munch cs text rest) :
    rest.length < cs.length := by
  have := List.length_pos_iff.mpr h.nonempty
  rw [h.split, List.length_append]
  omega

/-- Induction along the places where a source is cut. -/
theorem munch_induction {motive : List Char → Prop} (nil : motive [])
    (munch : ∀ cs text rest r, Munch cs text rest → Reads text r → motive rest → motive cs)
    (stuck : ∀ cs text, Stuck cs → AtFault cs text → motive cs) (cs : List Char) : motive cs := by
  induction hlength : cs.length using Nat.strongRecOn generalizing cs with
  | ind n ih =>
    subst hlength
    by_cases hne : cs = []
    · rw [hne]
      exact nil
    · rcases munch_or_stuck hne with ⟨text, rest, r, hmunch, hread⟩ | ⟨hstuck, text, hfault⟩
      · exact munch cs text rest r hmunch hread (ih _ hmunch.length_lt rest rfl)
      · exact stuck cs text hstuck hfault

theorem tokenizes_lexFrom (cs : List Char) :
    ∀ offset, Tokenizes offset cs (Token.lexFrom offset cs) := by
  induction cs using munch_induction with
  | nil =>
    intro offset
    rw [Token.lexFrom_nil]
    exact .done
  | munch cs text rest r hmunch hread ih =>
    intro offset
    rw [Token.lexFrom_munch hmunch hread]
    cases r with
    | skip => exact .skip hmunch hread (ih _)
    | token t => exact .token hmunch hread (ih _)
    | outOfRange => exact .outOfRange hmunch hread
  | stuck cs text hstuck hfault =>
    intro offset
    rw [Token.lexFrom_stuck hstuck hfault]
    exact .stuck hstuck hfault

theorem lexFrom_of_tokenizes {offset : Nat} {cs : List Char}
    {r : Except LexError (List Token.Placed)} (h : Tokenizes offset cs r) :
    Token.lexFrom offset cs = r := by
  induction h with
  | done => exact Token.lexFrom_nil _
  | skip hmunch hread _ ih =>
    rw [Token.lexFrom_munch hmunch hread, ih]
    rfl
  | token hmunch hread _ ih =>
    rw [Token.lexFrom_munch hmunch hread, ih]
    rfl
  | outOfRange hmunch hread => exact Token.lexFrom_munch hmunch hread _
  | stuck hstuck hfault => exact Token.lexFrom_stuck hstuck hfault _

/-! ### Failure -/

theorem reaches_of_lexFrom_error (cs : List Char) :
    ∀ offset e, Token.lexFrom offset cs = .error e → ∃ last, Reaches cs last ∧ Fails last := by
  induction cs using munch_induction with
  | nil =>
    intro offset e h
    rw [Token.lexFrom_nil] at h
    cases h
  | munch cs text rest r hmunch hread ih =>
    intro offset e h
    rw [Token.lexFrom_munch hmunch hread] at h
    have hnext : ∀ e, Token.lexFrom (offset + Text.bytes text) rest = .error e →
        ∃ last, Reaches cs last ∧ Fails last := by
      intro e h
      obtain ⟨last, hlast, hfails⟩ := ih _ e h
      exact ⟨last, .next hmunch hlast, hfails⟩
    cases r with
    | skip => exact hnext e h
    | token t =>
      cases hrest : Token.lexFrom (offset + Text.bytes text) rest with
      | error e => exact hnext e hrest
      | ok tokens =>
        rw [hrest] at h
        cases h
    | outOfRange => exact ⟨cs, .here, .inr ⟨text, rest, hmunch, hread⟩⟩
  | stuck cs text hstuck hfault =>
    intro offset e _
    exact ⟨cs, .here, .inl hstuck⟩

theorem lexFrom_error_of_fails {cs : List Char} (h : Fails cs) (offset : Nat) :
    ∃ e, Token.lexFrom offset cs = .error e := by
  rcases h with hstuck | ⟨text, rest, hmunch, hread⟩
  · exact ⟨_, Token.lexFrom_stuck hstuck (atFault_stray hstuck) offset⟩
  · exact ⟨_, Token.lexFrom_munch hmunch hread offset⟩

theorem lexFrom_error_of_reaches {cs last : List Char} (h : Reaches cs last) (hfails : Fails last) :
    ∀ offset, ∃ e, Token.lexFrom offset cs = .error e := by
  induction h with
  | here => exact lexFrom_error_of_fails hfails
  | next hmunch _ ih =>
    intro offset
    obtain ⟨r, hread⟩ := hmunch.declared
    obtain ⟨e, he⟩ := ih hfails (offset + Text.bytes _)
    rw [Token.lexFrom_munch hmunch hread, he]
    cases r with
    | skip => exact ⟨e, rfl⟩
    | token t => exact ⟨e, rfl⟩
    | outOfRange => exact ⟨_, rfl⟩

/-- Reading tokens is cutting into longest texts, and it fails exactly where that reaches a place at
    which no text can be taken or a numeral is too large. -/
theorem lex_maximal_munch (source : String) :
    (∀ r, Token.lex source = r ↔ Tokenizes 0 source.toList r) ∧
      ((∃ e, Token.lex source = .error e) ↔ ∃ last, Reaches source.toList last ∧ Fails last) := by
  refine ⟨fun r => ⟨?_, lexFrom_of_tokenizes⟩, ?_, ?_⟩
  · rintro rfl
    exact tokenizes_lexFrom source.toList 0
  · rintro ⟨e, he⟩
    exact reaches_of_lexFrom_error source.toList 0 e he
  · rintro ⟨last, hlast, hfails⟩
    exact lexFrom_error_of_reaches hlast hfails 0

end LetTree

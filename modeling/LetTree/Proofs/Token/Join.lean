import LetTree.Proofs.Source.Relocation
import LetTree.Proofs.Token.Munch

/-!
# Tokens of joined sources

A source followed by a line feed and another source has the tokens of the first one, followed by
those of the second one further on. A line feed ends every text except blanks, strings and block
comments; a string that is open at the end of the first source is an error there, and a block
comment that is open there has been read as the operators `/` and `*`. So nothing is pending at the
line feed of a source that can be read and in which these two operators do not meet.
-/

namespace LetTree

open Lexical

namespace Token

/-! ### Offsets -/

/-- The result of reading a text at another place. -/
def relocated (φ : Span → Span) :
    Except LexError (List Placed) → Except LexError (List Placed)
  | .ok ts => .ok (ts.map (·.relocate φ))
  | .error e => .error (e.relocate φ)

theorem onto_relocated (k offset : Nat) (text : List Char) (r : Reading)
    (others : Except LexError (List Placed)) :
    onto (offset + k) text (relocated (Span.shift k) others) r =
      relocated (Span.shift k) (onto offset text others r) := by
  have hstop : offset + k + Text.bytes text = offset + Text.bytes text + k := by omega
  cases r with
  | skip => rfl
  | token t =>
    rw [onto, onto, hstop]
    cases others with
    | ok ts => rfl
    | error e => rfl
  | outOfRange =>
    rw [onto, onto, hstop]
    rfl

/-- Where a text begins has no influence on how it is read. -/
theorem lexFrom_shift (k : Nat) (cs : List Char) :
    ∀ offset, lexFrom (offset + k) cs = relocated (Span.shift k) (lexFrom offset cs) := by
  induction cs using munch_induction with
  | nil =>
    intro offset
    rw [lexFrom_nil, lexFrom_nil]
    rfl
  | munch cs text rest r hmunch hread ih =>
    intro offset
    have hstop : offset + k + Text.bytes text = offset + Text.bytes text + k := by omega
    rw [lexFrom_munch hmunch hread, lexFrom_munch hmunch hread, hstop, ih, onto_relocated]
  | stuck cs text hstuck hfault =>
    intro offset
    have hstop : offset + k + Text.bytes text = offset + Text.bytes text + k := by omega
    rw [lexFrom_stuck hstuck hfault, lexFrom_stuck hstuck hfault, hstop]
    rfl

/-! ### Blanks -/

/-- A text that begins with a blank consists of blanks. -/
theorem blanks_of_declared {c : Char} {t : List Char} (hc : isBlank c = true)
    (h : Declared (c :: t)) : blanks.Matches (c :: t) := by
  obtain ⟨l, hl, hmatch⟩ := Lexeme.declared_iff.mp h
  have hclass := Lexeme.classOf_of_matches hl hmatch
  rw [Lexeme.classOf, if_pos hc] at hclass
  cases hclass
  exact hmatch

theorem lexFrom_run {run rest : List Char} (hrun : ∀ c ∈ run, isBlank c = true)
    (hrest : ∀ c, rest.head? = some c → isBlank c = false) (offset : Nat) :
    lexFrom offset (run ++ rest) = lexFrom (offset + Text.bytes run) rest := by
  cases run with
  | nil => rfl
  | cons c run =>
    have hblanks : blanks.Matches (c :: run) :=
      Lexeme.matches_blanks_iff.mpr ⟨List.cons_ne_nil _ _, hrun⟩
    have hread : Reads (c :: run) .skip := .blanks hblanks
    have hmunch : Munch (c :: run ++ rest) (c :: run) rest := by
      refine ⟨rfl, List.cons_ne_nil _ _, ⟨_, hread⟩, ?_⟩
      intro other hother hdecl
      cases other with
      | nil => exact Nat.zero_le _
      | cons d other =>
        obtain ⟨rfl, -⟩ := List.cons_prefix_cons.mp hother
        have hblank := blanks_of_declared (hrun d List.mem_cons_self) hdecl
        have hle := length_le_takeWhile hother (Lexeme.matches_blanks_iff.mp hblank).2
        have hstop : rest.takeWhile isBlank = [] := by
          cases rest with
          | nil => rfl
          | cons e es => simp [hrest e rfl]
        rwa [List.takeWhile_append_of_pos hrun, hstop, List.append_nil] at hle
    exact lexFrom_munch hmunch hread offset

/-- Blanks are passed over, whether or not more of them follow. -/
theorem lexFrom_blanks {run : List Char} (hrun : ∀ c ∈ run, isBlank c = true) (t : List Char)
    (offset : Nat) : lexFrom offset (run ++ t) = lexFrom (offset + Text.bytes run) t := by
  have hmore : ∀ c ∈ t.takeWhile isBlank, isBlank c = true :=
    List.all_eq_true.mp List.all_takeWhile
  have hstop : ∀ c, (t.dropWhile isBlank).head? = some c → isBlank c = false := by
    intro c hc
    have := List.head?_dropWhile_not isBlank t
    rw [hc] at this
    simpa using this
  have hsplit : t = t.takeWhile isBlank ++ t.dropWhile isBlank :=
    List.takeWhile_append_dropWhile.symm
  have hall : ∀ c ∈ run ++ t.takeWhile isBlank, isBlank c = true := by
    intro c hc
    rcases List.mem_append.mp hc with hc | hc
    · exact hrun c hc
    · exact hmore c hc
  have hlong := lexFrom_run hall hstop offset
  have hshort := lexFrom_run hmore hstop (offset + Text.bytes run)
  rw [List.append_assoc, ← hsplit, Text.bytes_append] at hlong
  rw [← hsplit] at hshort
  rw [hlong, hshort, Nat.add_assoc]

/-! ### Texts across a line feed -/

/-- A character that is no part of names, and so of no numeral either, stands in blanks, strings,
    comments and symbols only. -/
theorem declared_of_not_namePart {t : List Char} (h : Declared t) {c : Char}
    (hc : isNamePart c = false) (hmem : c ∈ t) :
    blanks.Matches t ∨ Lexical.string.Matches t ∨ blockComment.Matches t ∨
      lineComment.Matches t ∨ ∃ s ∈ symbols, s.1.toList = t := by
  have hfree : ∀ d, isNamePart d = true → d ≠ c := by
    rintro d hd rfl
    rw [hd] at hc
    cases hc
  obtain ⟨l, hl, hmatch⟩ := Lexeme.declared_iff.mp h
  cases l with
  | blanks => exact .inl hmatch
  | string => exact .inr (.inl hmatch)
  | blockComment => exact .inr (.inr (.inl hmatch))
  | lineComment => exact .inr (.inr (.inr (.inl hmatch)))
  | numeral base =>
    obtain ⟨u, ⟨-, hu⟩, rfl⟩ := Lexeme.matches_numeral_iff.mp hmatch
    rcases List.mem_append.mp hmem with hmem | hmem
    · have hmark : base.mark.all isNamePart = true := by cases base <;> rfl
      exact absurd rfl (hfree c (List.all_eq_true.mp hmark c hmem))
    · have hdigit := isHexadecimal_iff.mp (isHexadecimal_of_isDigit (hu c hmem))
      refine absurd rfl (hfree c ?_)
      rw [isNamePart, Bool.or_eq_true, Lexeme.isNameStart_iff]
      exact or_iff_not_imp_left.mpr fun _ => isDecimal_iff.mpr (by omega)
  | word =>
    obtain ⟨d, u, hd, hu, rfl⟩ := Lexeme.matches_identifier_iff.mp hmatch
    rcases List.mem_cons.mp hmem with rfl | hmem
    · refine absurd rfl (hfree c ?_)
      rw [isNamePart, hd, Bool.true_or]
    · exact absurd rfl (hfree c (hu c hmem))
  | symbol spelling token =>
    refine .inr (.inr (.inr (.inr ⟨_, Lexeme.symbol_mem_all_iff.mp hl, ?_⟩)))
    exact (Pattern.matches_exactly_iff.mp hmatch).symm

theorem not_namePart_of_isBlank {c : Char} (hc : isBlank c = true) : isNamePart c = false := by
  have hcode := Lexeme.isBlank_iff.mp hc
  rw [Bool.eq_false_iff, ne_eq, isNamePart, Bool.or_eq_true, Lexeme.isNameStart_iff]
  rintro (hname | hdigit)
  · omega
  · have hrange := isDecimal_iff.mp hdigit
    omega

/-- Only blanks, strings and comments can hold a blank. -/
theorem declared_blank {t : List Char} (h : Declared t) {c : Char} (hc : isBlank c = true)
    (hmem : c ∈ t) :
    blanks.Matches t ∨ Lexical.string.Matches t ∨ blockComment.Matches t ∨
      lineComment.Matches t := by
  have hfree : symbols.all (fun s => s.1.toList.all (!isBlank ·)) = true := by decide +kernel
  rcases declared_of_not_namePart h (not_namePart_of_isBlank hc) hmem with
    hmatch | hmatch | hmatch | hmatch | ⟨s, hs, rfl⟩
  · exact .inl hmatch
  · exact .inr (.inl hmatch)
  · exact .inr (.inr (.inl hmatch))
  · exact .inr (.inr (.inr hmatch))
  · have hno := List.all_eq_true.mp (List.all_eq_true.mp hfree s hs) c hmem
    rw [hc] at hno
    cases hno

/-- Only blanks, strings and block comments can hold a line feed. -/
theorem declared_newline {t : List Char} (h : Declared t) (hmem : '\n' ∈ t) :
    blanks.Matches t ∨ Lexical.string.Matches t ∨ blockComment.Matches t := by
  rcases declared_blank h rfl hmem with hmatch | hmatch | hmatch | hmatch
  · exact .inl hmatch
  · exact .inr (.inl hmatch)
  · exact .inr (.inr hmatch)
  · obtain ⟨u, hu, rfl⟩ := Lexeme.matches_exactly_seq_iff.mp hmatch
    have hall := Pattern.matches_star_one_iff.mp hu
    rcases List.mem_append.mp hmem with hmem | hmem
    · exact absurd hmem (by decide)
    · exact absurd (hall _ hmem) (by decide)

/-- A string has no other text as its beginning. -/
theorem string_eq_of_begins {text other : List Char} (hother : Lexical.string.Matches other)
    (hbegins : text <+: other) (hne : text ≠ []) (hdecl : Declared text) : text = other := by
  obtain ⟨u, hu, rfl⟩ := Lexeme.matches_exactly_seq_iff.mp hother
  cases text with
  | nil => exact absurd rfl hne
  | cons c v =>
    obtain ⟨rfl, w, rfl⟩ := List.cons_prefix_cons.mp hbegins
    have hshort := stringExtent_of_stringTail (declared_quote_iff.mp hdecl) w
    have hlong : stringExtent (v ++ w) = ((v ++ w).length, true) := stringTail_iff.mp hu
    rw [hshort] at hlong
    have hw : w = [] := by simpa using hlong
    rw [hw, List.append_nil]
    rfl

/-- The only other text that a block comment begins with is its first character. -/
theorem comment_eq_of_begins {text other : List Char} (hother : blockComment.Matches other)
    (hbegins : text <+: other) (hne : text ≠ []) (hdecl : Declared text) :
    text = ['/'] ∨ text = other := by
  obtain ⟨u, hu, rfl⟩ := Lexeme.matches_exactly_seq_iff.mp hother
  rcases text with - | ⟨c, - | ⟨d, v⟩⟩
  · exact absurd rfl hne
  · obtain ⟨rfl, -⟩ := List.cons_prefix_cons.mp hbegins
    exact .inl rfl
  · obtain ⟨rfl, htail⟩ := List.cons_prefix_cons.mp hbegins
    obtain ⟨rfl, w, rfl⟩ := List.cons_prefix_cons.mp htail
    obtain ⟨l, hl, hmatch⟩ := Lexeme.declared_iff.mp hdecl
    cases Lexeme.classOf_of_matches hl hmatch
    obtain ⟨v', hv, heq⟩ := Lexeme.matches_exactly_seq_iff.mp hmatch
    obtain rfl : v = v' := by simpa using heq
    have hshort : commentExtent? (v ++ w) = some v.length := commentExtent?_of_commentTail hv w
    have hlong : commentExtent? (v ++ w ++ []) = some (v ++ w).length :=
      commentExtent?_of_commentTail hu []
    rw [List.append_nil, hshort] at hlong
    have hw : w = [] := by simpa using hlong
    rw [hw, List.append_nil]
    exact .inr rfl

/-- A text stays the longest when a line feed and other text are put after the source, unless it is
    the last run of blanks or opens a block comment. -/
theorem munch_join {cs text rest : List Char} (h : Munch cs text rest) (t : List Char)
    (hblanks : rest = [] → ¬ blanks.Matches text)
    (hcomment : text = ['/'] → rest.head? ≠ some '*') :
    Munch (cs ++ '\n' :: t) text (rest ++ '\n' :: t) := by
  refine ⟨by rw [h.split, List.append_assoc], h.nonempty, h.declared, ?_⟩
  intro other hother hdecl
  by_cases hlength : other.length ≤ cs.length
  · exact h.longest other (List.prefix_of_prefix_length_le hother (List.prefix_append _ _) hlength)
      hdecl
  -- Such a text goes on over the line feed.
  have hover : cs ++ ['\n'] <+: other := by
    have hfeed : cs ++ ['\n'] <+: cs ++ '\n' :: t := ⟨t, by simp⟩
    refine List.prefix_of_prefix_length_le hfeed hother ?_
    simp only [List.length_append, List.length_singleton]
    omega
  have hinside : cs <+: other := (List.prefix_append cs ['\n']).trans hover
  have hbegins : text <+: other := h.begins.trans hinside
  rcases declared_newline hdecl (hover.subset (by simp)) with hmatch | hmatch | hmatch
  · have hall := (Lexeme.matches_blanks_iff.mp hmatch).2
    have hcs : blanks.Matches cs :=
      Lexeme.matches_blanks_iff.mpr ⟨h.ne_nil, fun c hc => hall c (hinside.subset hc)⟩
    have hwhole : text = cs :=
      h.begins.eq_of_length_le (h.longest cs (List.prefix_refl cs) ⟨_, .blanks hcs⟩)
    have hend : rest = [] := by
      have hsplit := h.split
      rw [hwhole] at hsplit
      simpa using hsplit
    exact absurd (hwhole ▸ hcs) (hblanks hend)
  · rw [string_eq_of_begins hmatch hbegins h.nonempty h.declared]
  · rcases comment_eq_of_begins hmatch hbegins h.nonempty h.declared with hslash | heq
    · refine absurd ?_ (hcomment hslash)
      obtain ⟨u, -, rfl⟩ := Lexeme.matches_exactly_seq_iff.mp hmatch
      rw [h.split, hslash] at hover
      have htail := (List.cons_prefix_cons.mp hover).2
      cases rest with
      | nil =>
        have hnewline := (List.cons_prefix_cons.mp htail).1
        cases hnewline
      | cons c rest => rw [List.head?_cons, (List.cons_prefix_cons.mp htail).1]
    · rw [heq]

/-! ### Joined sources -/

/-- Where only the list of symbols decides on a text, the text is a symbol. -/
theorem symbol_of_declared {t : List Char} (h : Declared t)
    (hclass : Lexeme.classOf t =
      (symbols.find? fun s => s.1.toList == t).map fun s => Lexeme.symbol s.1 s.2) :
    ∃ s ∈ symbols, s.1.toList = t := by
  obtain ⟨l, hl, hmatch⟩ := Lexeme.declared_iff.mp h
  rw [Lexeme.classOf_of_matches hl hmatch, eq_comm] at hclass
  obtain ⟨s, hs, -⟩ := Option.map_eq_some_iff.mp hclass
  exact ⟨s, List.mem_of_find?_eq_some hs, by simpa using List.find?_some hs⟩

/-- No text but the operator begins with a star. -/
theorem munch_star (rest : List Char) : Munch ('*' :: rest) ['*'] rest := by
  refine ⟨rfl, List.cons_ne_nil _ _,
    ⟨_, .operator (Lexeme.matches_operator_iff.mpr ⟨.mul, by decide, rfl⟩)⟩, ?_⟩
  intro other hother hdecl
  cases other with
  | nil => exact Nat.zero_le _
  | cons c u =>
    obtain ⟨rfl, -⟩ := List.cons_prefix_cons.mp hother
    obtain ⟨s, hs, hspelled⟩ := symbol_of_declared hdecl rfl
    have hstars : ∀ s ∈ symbols, s.1.toList.head? = some '*' → s.1.toList.length ≤ 1 := by
      decide +kernel
    have hlength := hstars s hs (by rw [hspelled]; rfl)
    rwa [hspelled] at hlength

/-- Where the operators of an open block comment stand, they are read one after the other. -/
theorem slash_star_meet {rest : List Char} {offset : Nat} {r : Reading} {ts : List Placed}
    (hhead : rest.head? = some '*') (hread : Reads ['/'] r)
    (h : onto offset ['/'] (lexFrom (offset + Text.bytes ['/']) rest) r = .ok ts) :
    [.operator "/", .operator "*"] <:+: ts.map Placed.token := by
  have hslash : Reads ['/'] (.token (.operator "/")) :=
    .operator (Lexeme.matches_operator_iff.mpr ⟨.div, by decide, rfl⟩)
  have hstar : Reads ['*'] (.token (.operator "*")) :=
    .operator (Lexeme.matches_operator_iff.mpr ⟨.mul, by decide, rfl⟩)
  obtain rfl := hread.unique hslash
  obtain ⟨others, rfl⟩ : ∃ others, rest = '*' :: others := List.head?_eq_some_iff.mp hhead
  rw [lexFrom_munch (munch_star others) hstar] at h
  simp only [onto] at h
  cases hothers : lexFrom (offset + Text.bytes ['/'] + Text.bytes ['*']) others with
  | error e =>
    rw [hothers] at h
    cases h
  | ok us =>
    rw [hothers] at h
    cases h
    exact ⟨[], us.map Placed.token, rfl⟩

theorem onto_map {offset : Nat} {text : List Char} {r : Reading} {ts us : List Placed}
    {others : Except LexError (List Placed)} (h : onto offset text (.ok us) r = .ok ts) :
    onto offset text (others.map (us ++ ·)) r = others.map (ts ++ ·) := by
  cases r with
  | skip =>
    cases h
    rfl
  | token t =>
    cases h
    cases others with
    | ok vs => rfl
    | error e => rfl
  | outOfRange => cases h

/-- If what stands before a text can be read with it, the text can be read alone. -/
theorem onto_eq_ok {offset : Nat} {text : List Char} {r : Reading} {ts : List Placed}
    {others : Except LexError (List Placed)} (h : onto offset text others r = .ok ts) :
    ∃ us, others = .ok us ∧ us <:+ ts := by
  cases others with
  | ok us =>
    refine ⟨us, rfl, ?_⟩
    cases r with
    | skip =>
      obtain rfl : us = ts := Except.ok.inj h
      exact List.suffix_refl us
    | token t =>
      cases h
      exact List.suffix_cons _ us
    | outOfRange => cases h
  | error e => cases r <;> cases h

/-- The tokens of joined sources, after any offset. -/
theorem lexFrom_join (t cs : List Char) :
    ∀ offset ts, lexFrom offset cs = .ok ts →
      ¬ [.operator "/", .operator "*"] <:+: ts.map Placed.token →
      lexFrom offset (cs ++ '\n' :: t) =
        (lexFrom (offset + (Text.bytes cs + 1)) t).map (ts ++ ·) := by
  have hnewline : Text.bytes ['\n'] = 1 := rfl
  have hnil : ∀ r : Except LexError (List Placed), r.map ([] ++ ·) = r := by
    intro r
    cases r <;> rfl
  induction cs using munch_induction with
  | nil =>
    intro offset ts h _
    rw [lexFrom_nil] at h
    cases h
    have hrun : ∀ c ∈ ['\n'], isBlank c = true := List.all_eq_true.mp rfl
    rw [hnil]
    exact lexFrom_blanks hrun t offset
  | munch cs text rest r hmunch hread ih =>
    intro offset ts h hops
    rw [lexFrom_munch hmunch hread] at h
    by_cases hlast : rest = [] ∧ blanks.Matches text
    · -- The blanks at the end and the line feed are one run.
      obtain ⟨rfl, hblanks⟩ := hlast
      obtain rfl : r = .skip := hread.unique (.blanks hblanks)
      obtain rfl : cs = text := by simpa using hmunch.split
      rw [onto, lexFrom_nil] at h
      cases h
      have hrun : ∀ c ∈ cs ++ ['\n'], isBlank c = true := by
        intro c hc
        rcases List.mem_append.mp hc with hc | hc
        · exact (Lexeme.matches_blanks_iff.mp hblanks).2 c hc
        · rw [List.mem_singleton.mp hc]
          rfl
      have hskip := lexFrom_blanks hrun t offset
      rw [Text.bytes_append, hnewline, List.append_assoc] at hskip
      rw [hnil]
      exact hskip
    · obtain ⟨us, hus, hsuffix⟩ := onto_eq_ok h
      have hcomment : text = ['/'] → rest.head? ≠ some '*' := by
        rintro rfl hhead
        exact hops (slash_star_meet hhead hread h)
      have hjoin := munch_join hmunch t (fun hrest hblanks => hlast ⟨hrest, hblanks⟩) hcomment
      have hrest := ih _ us hus fun hmeet => hops (hmeet.trans (hsuffix.map _).isInfix)
      have hoffset : offset + Text.bytes text + (Text.bytes rest + 1) =
          offset + (Text.bytes cs + 1) := by
        rw [hmunch.split, Text.bytes_append]
        omega
      rw [hus] at h
      rw [lexFrom_munch hjoin hread, hrest, hoffset]
      exact onto_map h
  | stuck cs text hstuck hfault =>
    intro offset ts h
    rw [lexFrom_stuck hstuck hfault] at h
    cases h

/-- **Sources compose for the reader of tokens.** -/
theorem lex_join {first : String} {ts : List Placed} (h : lex first = .ok ts)
    (hops : ¬ [.operator "/", .operator "*"] <:+: ts.map Placed.token) (second : String) :
    lex (first ++ "\n" ++ second) =
      (relocated (Span.shift (Text.bytes first.toList + 1)) (lex second)).map (ts ++ ·) := by
  have htext : (first ++ "\n" ++ second).toList = first.toList ++ '\n' :: second.toList := by
    simp
  rw [lex, htext, lexFrom_join second.toList first.toList 0 ts h hops, lexFrom_shift]
  rfl

end Token

end LetTree

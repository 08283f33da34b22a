import LetTree.Proofs.Token.Join

/-!
# Layouts

A layout writes a list of tokens down as text: each token by one of its spellings, with a separator
between neighbours. A separator begins with a blank, and no text of a token goes on over a blank (or
over a single mark, `munch_token`), so that each spelling is read as the token it was written for
(`lexFrom_layout`). What else stands in a separator is passed over.
-/

namespace LetTree

namespace Lexical

/-! ### Spellings -/

/-- The inside of the literal of a string: a backslash before every backslash and every quote. -/
def escape : List Char → List Char
  | [] => []
  | c :: cs => if c = '\\' ∨ c = '"' then '\\' :: c :: escape cs else c :: escape cs

/-- The texts by which a token is written. -/
inductive Spells : List Char → Token → Prop where
  | operator {op : Operator} (hop : op.known = true) : Spells op.text.toList (.operator op.text)
  | integer {base : Base} {text : List Char} {n : UInt64} (h : (numeral base).Matches text)
      (hn : numeralValue base text = n.toNat) : Spells text (.integer n)
  | identifier {text : List Char} (h : identifier.Matches text)
      (hword : ∀ t, (text, t) ∉ words) : Spells text (.identifier (String.ofList text))
  | string (s : String) : Spells ('"' :: escape s.toList ++ ['"']) (.string s)
  | word {text : List Char} {t : Token} (h : (text, t) ∈ words) : Spells text t
  | punctuation {text : List Char} {t : Token} (h : (text, t) ∈ punctuation) : Spells text t

theorem denotes_escape (value : List Char) : Denotes (escape value) value := by
  induction value with
  | nil => exact .nil
  | cons c cs ih =>
    unfold escape
    split
    · next hc =>
      rcases hc with rfl | rfl
      · exact .escape (by decide) ih
      · exact .escape (by decide) ih
    · next hc => exact .plain (fun h => hc (.inl h)) ih

theorem stringTail_escape (value : List Char) : stringTail.Matches (escape value ++ ['"']) := by
  induction value with
  | nil => exact .seq .stop .exactly
  | cons c cs ih =>
    unfold escape
    split
    · next hc =>
      refine stringTail_pair ?_ ih
      rcases hc with rfl | rfl <;> decide
    · next hc =>
      obtain ⟨hslash, hquote⟩ := not_or.mp hc
      exact stringTail_plain hquote hslash ih

/-- A spelling means the token that it spells. -/
theorem Spells.reads {text : List Char} {t : Token} (h : Spells text t) :
    Reads text (.token t) := by
  cases h with
  | @operator op hop =>
    have hmem : op ∈ Operator.table := by
      cases op <;> first | decide | cases hop
    have hread := Reads.operator (Lexeme.matches_operator_iff.mpr ⟨op, hmem, rfl⟩)
    rwa [String.ofList_toList] at hread
  | integer h hn => exact .integer h hn.symm
  | identifier h hword => exact .identifier h hword
  | string s =>
    have hmatch : Lexical.string.Matches ('"' :: escape s.toList ++ ['"']) :=
      Lexeme.matches_exactly_seq_iff.mpr ⟨_, stringTail_escape s.toList, rfl⟩
    have hread := Reads.string hmatch (denotes_escape s.toList)
    rwa [String.ofList_toList] at hread
  | word h => exact .word h
  | punctuation h => exact .punctuation h

/-! ### Separators -/

/-- A mix of blanks, closed block comments and line comments with the line feed that ends them. -/
def filler : Pattern :=
  .star (.either blanks (.either blockComment (.seq lineComment (.exactly ['\n']))))

/-- What stands between neighbouring tokens. -/
def separator : Pattern := .seq blanks filler

/-- The texts of a list of tokens. -/
inductive Layout : List Token → List Char → Prop where
  | empty : Layout [] []
  | last {t : Token} {text : List Char} (h : Spells text t) : Layout [t] text
  | next {t u : Token} {ts : List Token} {text gap rest : List Char} (h : Spells text t)
      (hgap : separator.Matches gap) (hrest : Layout (u :: ts) rest) :
      Layout (t :: u :: ts) (text ++ gap ++ rest)

/-! ### Longest texts -/

/-- A text that ends the source is the longest there. -/
theorem munch_whole {text : List Char} {r : Reading} (h : Reads text r) : Munch text text [] := by
  refine ⟨(List.append_nil text).symm, Lexeme.ne_nil_of_declared ⟨r, h⟩, ⟨r, h⟩, ?_⟩
  intro other hother _
  exact hother.length_le

/-- A longer text than `text` begins with it and goes on with the character after it. -/
theorem begins_of_longer {text other rest : List Char} {c : Char}
    (hother : other <+: text ++ c :: rest) (hlength : text.length < other.length) :
    text ++ [c] <+: other := by
  refine List.prefix_of_prefix_length_le ⟨rest, by simp⟩ hother ?_
  rw [List.length_append, List.length_singleton]
  exact hlength

/-- Line comments and nothing else begin with two slashes. -/
theorem lineComment_of_declared {t : List Char} (h : Declared ('/' :: '/' :: t)) :
    lineComment.Matches ('/' :: '/' :: t) := by
  obtain ⟨l, hl, hmatch⟩ := Lexeme.declared_iff.mp h
  cases Lexeme.classOf_of_matches hl hmatch
  exact hmatch

theorem blockComment_of_declared {t : List Char} (h : Declared ('/' :: '*' :: t)) :
    blockComment.Matches ('/' :: '*' :: t) := by
  obtain ⟨l, hl, hmatch⟩ := Lexeme.declared_iff.mp h
  cases Lexeme.classOf_of_matches hl hmatch
  exact hmatch

/-- The characters over which no text of a token goes on: blanks and single marks. -/
def Parting (c : Char) : Prop := isBlank c = true ∨ [c] ∈ punctuation.map Prod.fst

instance (c : Char) : Decidable (Parting c) :=
  inferInstanceAs (Decidable (isBlank c = true ∨ [c] ∈ punctuation.map Prod.fst))

theorem declared_parting {t : List Char} (h : Declared t) {c : Char} (hc : Parting c)
    (hmem : c ∈ t) :
    t = [c] ∨ blanks.Matches t ∨ Lexical.string.Matches t ∨ blockComment.Matches t ∨
      lineComment.Matches t := by
  rcases hc with hblank | hmark
  · exact .inr (Token.declared_blank h hblank hmem)
  · have hparts : (punctuation.map Prod.fst).all (·.all (!isNamePart ·)) = true := by
      decide +kernel
    have hmarks : symbols.all (fun s => s.1.toList.all fun d =>
        !(punctuation.map Prod.fst).contains [d] || s.1.toList == [d]) = true := by
      decide +kernel
    have hpart := List.all_eq_true.mp (List.all_eq_true.mp hparts [c] hmark) c List.mem_cons_self
    rcases Token.declared_of_not_namePart h ((Bool.not_eq_true' _).mp hpart) hmem with
      hmatch | hmatch | hmatch | hmatch | ⟨s, hs, rfl⟩
    · exact .inr (.inl hmatch)
    · exact .inr (.inr (.inl hmatch))
    · exact .inr (.inr (.inr (.inl hmatch)))
    · exact .inr (.inr (.inr (.inr hmatch)))
    · have halone := List.all_eq_true.mp (List.all_eq_true.mp hmarks s hs) c hmem
      rw [List.contains_iff_mem.mpr hmark, Bool.not_true, Bool.false_or] at halone
      exact .inl (eq_of_beq halone)

/-- The text of a token ends before a blank and before a mark. -/
theorem munch_token {text rest : List Char} {t : Token} {c : Char} (h : Reads text (.token t))
    (hc : Parting c) : Munch (text ++ c :: rest) text (c :: rest) := by
  have hne := Lexeme.ne_nil_of_declared ⟨_, h⟩
  have hnoskip : ¬ Reads text .skip := by
    intro hskip
    cases h.unique hskip
  refine ⟨rfl, hne, ⟨_, h⟩, ?_⟩
  intro other hother hdecl
  by_contra hlength
  have hover := begins_of_longer hother (Nat.lt_of_not_le hlength)
  have hbegins : text <+: other := (List.prefix_append text [c]).trans hover
  have hmem : c ∈ other := hover.subset (by simp)
  rcases declared_parting hdecl hc hmem with rfl | hmatch | hmatch | hmatch | hmatch
  · have hlong := hover.length_le
    have hpos := List.length_pos_iff.mpr hne
    rw [List.length_append, List.length_singleton] at hlong
    omega
  · have hall := (Lexeme.matches_blanks_iff.mp hmatch).2
    have hblanks : blanks.Matches text :=
      Lexeme.matches_blanks_iff.mpr ⟨hne, fun d hd => hall d (hbegins.subset hd)⟩
    exact hnoskip (.blanks hblanks)
  · exact hlength (Token.string_eq_of_begins hmatch hbegins hne ⟨_, h⟩ ▸ Nat.le_refl _)
  · rcases Token.comment_eq_of_begins hmatch hbegins hne ⟨_, h⟩ with rfl | rfl
    · obtain ⟨u, -, rfl⟩ := Lexeme.matches_exactly_seq_iff.mp hmatch
      obtain ⟨-, htail⟩ := List.cons_prefix_cons.mp hover
      obtain ⟨rfl, -⟩ := List.cons_prefix_cons.mp htail
      exact absurd hc (by decide)
    · exact hlength (Nat.le_refl _)
  · obtain ⟨u, hu, rfl⟩ := Lexeme.matches_exactly_seq_iff.mp hmatch
    rcases text with - | ⟨d, - | ⟨e, v⟩⟩
    · exact hne rfl
    · obtain ⟨-, htail⟩ := List.cons_prefix_cons.mp hover
      obtain ⟨rfl, -⟩ := List.cons_prefix_cons.mp htail
      exact absurd hc (by decide)
    · obtain ⟨rfl, htail⟩ := List.cons_prefix_cons.mp hbegins
      obtain ⟨rfl, -⟩ := List.cons_prefix_cons.mp htail
      exact hnoskip (.lineComment (lineComment_of_declared ⟨_, h⟩))

theorem munch_blockComment {text : List Char} (h : blockComment.Matches text) (rest : List Char) :
    Munch (text ++ rest) text rest := by
  obtain ⟨u, -, htext⟩ := Lexeme.matches_exactly_seq_iff.mp h
  have hdecl : Declared text := ⟨_, .blockComment h⟩
  refine ⟨rfl, Lexeme.ne_nil_of_declared hdecl, hdecl, ?_⟩
  intro other hother hother'
  by_contra hlength
  have hbegins : text <+: other :=
    List.prefix_of_prefix_length_le (List.prefix_append text rest) hother (by omega)
  have hcomment : blockComment.Matches other := by
    obtain ⟨v, rfl⟩ := hbegins
    rw [htext] at hother' ⊢
    exact blockComment_of_declared hother'
  rcases Token.comment_eq_of_begins hcomment hbegins (Lexeme.ne_nil_of_declared hdecl) hdecl with
    hslash | heq
  · rw [hslash] at htext
    cases htext
  · exact hlength (heq ▸ Nat.le_refl _)

theorem munch_lineComment {text : List Char} (h : lineComment.Matches text) (rest : List Char) :
    Munch (text ++ '\n' :: rest) text ('\n' :: rest) := by
  obtain ⟨u, -, htext⟩ := Lexeme.matches_exactly_seq_iff.mp h
  have hdecl : Declared text := ⟨_, .lineComment h⟩
  refine ⟨rfl, Lexeme.ne_nil_of_declared hdecl, hdecl, ?_⟩
  intro other hother hother'
  by_contra hlength
  have hover := begins_of_longer hother (Nat.lt_of_not_le hlength)
  have hcomment : lineComment.Matches other := by
    obtain ⟨v, rfl⟩ := hover
    rw [htext] at hother' ⊢
    exact lineComment_of_declared hother'
  obtain ⟨v, hv, rfl⟩ := Lexeme.matches_exactly_seq_iff.mp hcomment
  have hfeed : '\n' ∈ ['/', '/'] ++ v := hover.subset (by simp)
  rcases List.mem_append.mp hfeed with hmem | hmem
  · exact absurd hmem (by decide)
  · exact absurd (Pattern.matches_star_one_iff.mp hv _ hmem) (by decide)

end Lexical

/-! ### Reading a layout -/

namespace Token

open Lexical

theorem lexFrom_filler {gap : List Char} (h : filler.Matches gap) (rest : List Char) :
    ∀ offset, lexFrom offset (gap ++ rest) = lexFrom (offset + Text.bytes gap) rest := by
  refine Pattern.star_induction (motive := fun gap => ∀ offset,
    lexFrom offset (gap ++ rest) = lexFrom (offset + Text.bytes gap) rest) ?_ ?_ h
  · intro offset
    rfl
  · intro piece more hpiece ih offset
    rw [List.append_assoc, Text.bytes_append, ← Nat.add_assoc, ← ih]
    rcases Pattern.matches_either_iff.mp hpiece with hblanks | hcomment
    · exact lexFrom_blanks (Lexeme.matches_blanks_iff.mp hblanks).2 _ offset
    · rcases Pattern.matches_either_iff.mp hcomment with hblock | hline
      · exact lexFrom_munch (munch_blockComment hblock _) (.blockComment hblock) offset
      · obtain ⟨line, feed, hmatch, hfeed, rfl⟩ := Pattern.matches_seq_iff.mp hline
        obtain rfl := Pattern.matches_exactly_iff.mp hfeed
        have hrun : ∀ c ∈ ['\n'], isBlank c = true := List.all_eq_true.mp rfl
        have hskip := lexFrom_blanks hrun (more ++ rest) (offset + Text.bytes line)
        rw [List.append_assoc, Text.bytes_append, ← Nat.add_assoc, ← hskip]
        exact lexFrom_munch (munch_lineComment hmatch _) (.lineComment hmatch) offset

theorem lexFrom_separator {gap : List Char} (h : separator.Matches gap) (rest : List Char)
    (offset : Nat) : lexFrom offset (gap ++ rest) = lexFrom (offset + Text.bytes gap) rest := by
  obtain ⟨run, more, hrun, hmore, rfl⟩ := Pattern.matches_seq_iff.mp h
  have hblanks := (Lexeme.matches_blanks_iff.mp hrun).2
  rw [List.append_assoc, lexFrom_blanks hblanks, lexFrom_filler hmore, Text.bytes_append,
    Nat.add_assoc]

/-- A separator begins with a blank. -/
theorem separator_start {gap : List Char} (h : separator.Matches gap) :
    ∃ c more, gap = c :: more ∧ isBlank c = true := by
  obtain ⟨run, more, hrun, -, rfl⟩ := Pattern.matches_seq_iff.mp h
  obtain ⟨hne, hall⟩ := Lexeme.matches_blanks_iff.mp hrun
  cases run with
  | nil => exact absurd rfl hne
  | cons c run => exact ⟨c, run ++ more, rfl, hall c List.mem_cons_self⟩

/-- A layout is read as the tokens that were written. -/
theorem lexFrom_layout {ts : List Token} {cs : List Char} (h : Layout ts cs) :
    ∀ offset, ∃ placed, lexFrom offset cs = .ok placed ∧ placed.map Placed.token = ts := by
  induction h with
  | empty =>
    intro offset
    exact ⟨[], lexFrom_nil offset, rfl⟩
  | @last t text hspells =>
    intro offset
    have hlex := lexFrom_munch (munch_whole hspells.reads) hspells.reads offset
    rw [lexFrom_nil] at hlex
    exact ⟨_, hlex, rfl⟩
  | @next t u ts text gap rest hspells hgap _ ih =>
    intro offset
    obtain ⟨c, more, rfl, hc⟩ := separator_start hgap
    obtain ⟨placed, hplaced, htokens⟩ := ih (offset + Text.bytes text + Text.bytes (c :: more))
    have hmunch : Munch (text ++ (c :: more) ++ rest) text (c :: more ++ rest) := by
      rw [List.append_assoc]
      exact munch_token hspells.reads (.inl hc)
    rw [lexFrom_munch hmunch hspells.reads, lexFrom_separator hgap, hplaced]
    exact ⟨_, rfl, congrArg (t :: ·) htokens⟩

end Token

end LetTree

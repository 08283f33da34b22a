import LetTree.Proofs.Token.Longest

/-!
# Classes of text and lexical rules

The classes from which tokens are read are those of the lexical rules: each class has the texts of a
pattern and finds the longest of them, no text belongs to two classes, and reading a text of a class
gives what the rules say it means (`reads_iff`).
-/

namespace LetTree

/-! ### Digits -/

theorem char_le_iff {a b : Char} : a ≤ b ↔ a.toNat ≤ b.toNat := Iff.rfl

theorem char_eq_iff {a b : Char} : a = b ↔ a.toNat = b.toNat := Char.toNat_inj.symm

theorem isDigit_iff {radix : Nat} {c : Char} :
    Text.isDigit radix c = true ↔
      (48 ≤ c.toNat ∧ c.toNat ≤ 57 ∧ c.toNat - 48 < radix) ∨
        (97 ≤ c.toNat ∧ c.toNat ≤ 102 ∧ c.toNat - 87 < radix) ∨
        (65 ≤ c.toNat ∧ c.toNat ≤ 70 ∧ c.toNat - 55 < radix) := by
  have h0 : '0'.toNat = 48 := rfl
  have h9 : '9'.toNat = 57 := rfl
  have ha : 'a'.toNat = 97 := rfl
  have hf : 'f'.toNat = 102 := rfl
  have hA : 'A'.toNat = 65 := rfl
  have hF : 'F'.toNat = 70 := rfl
  simp only [Text.isDigit, Text.digit?, char_le_iff, h0, h9, ha, hf, hA, hF, Bool.and_eq_true,
    decide_eq_true_eq]
  grind

theorem isDecimal_iff {c : Char} :
    Lexical.isDecimal c = true ↔ 48 ≤ c.toNat ∧ c.toNat ≤ 57 := by
  simp only [Lexical.isDecimal, Bool.and_eq_true, decide_eq_true_eq, char_le_iff]
  rfl

theorem isHexadecimal_iff {c : Char} :
    Lexical.isHexadecimal c = true ↔
      (48 ≤ c.toNat ∧ c.toNat ≤ 57) ∨ (97 ≤ c.toNat ∧ c.toNat ≤ 102) ∨
        (65 ≤ c.toNat ∧ c.toNat ≤ 70) := by
  simp only [Lexical.isHexadecimal, Bool.or_eq_true, isDecimal_iff, Bool.and_eq_true,
    decide_eq_true_eq, char_le_iff, or_assoc]
  rfl

theorem isLetter_iff {c : Char} :
    Lexical.isLetter c = true ↔
      (97 ≤ c.toNat ∧ c.toNat ≤ 122) ∨ (65 ≤ c.toNat ∧ c.toNat ≤ 90) ∨ c.toNat = 95 := by
  simp only [Lexical.isLetter, Bool.or_eq_true, Bool.and_eq_true, decide_eq_true_eq, char_le_iff,
    char_eq_iff, or_assoc]
  rfl

/-- The digits of a numeral, as its pattern has them. -/
def Lexical.isDigit : Base → Char → Bool
  | .binary => fun c => c = '0' || c = '1'
  | .decimal => isDecimal
  | .hexadecimal => isHexadecimal

theorem isDigit_eq (base : Base) : Text.isDigit base.radix = Lexical.isDigit base := by
  funext c
  rw [Bool.eq_iff_iff, isDigit_iff]
  cases base with
  | binary =>
    have h0 : '0'.toNat = 48 := rfl
    have h1 : '1'.toNat = 49 := rfl
    simp only [Lexical.isDigit, Base.radix, Bool.or_eq_true, decide_eq_true_eq, char_eq_iff, h0, h1]
    omega
  | decimal =>
    simp only [Lexical.isDigit, Base.radix, isDecimal_iff]
    omega
  | hexadecimal =>
    simp only [Lexical.isDigit, Base.radix, isHexadecimal_iff]
    omega

theorem isHexadecimal_of_isDigit {base : Base} {c : Char} (h : Lexical.isDigit base c = true) :
    Lexical.isHexadecimal c = true := by
  rw [← isDigit_eq, isDigit_iff] at h
  rw [isHexadecimal_iff]
  omega

theorem digit?_eq_digitValue {c : Char} (h : Lexical.isHexadecimal c = true) :
    Text.digit? c = some (Lexical.digitValue c) := by
  -- Digits are among the first 128 characters, and those are checked one by one.
  have hlow : ∀ n < 128, Lexical.isHexadecimal (Char.ofNat n) = true →
      Text.digit? (Char.ofNat n) = some (Lexical.digitValue (Char.ofNat n)) := by
    decide +kernel
  have hn : c.toNat < 128 := by
    rw [isHexadecimal_iff] at h
    omega
  have hc := hlow c.toNat hn
  rw [Char.ofNat_toNat] at hc
  exact hc h

theorem digitsValue_eq_ofDigits {radix : Nat} {ds : List Char}
    (h : ∀ c ∈ ds, Lexical.isHexadecimal c = true) :
    Text.digitsValue radix ds = Nat.ofDigits radix (ds.reverse.map Lexical.digitValue) := by
  have hfold : ∀ n, ds.foldl (fun n c => n * radix + (Text.digit? c).getD 0) n =
      ds.foldl (fun n c => Lexical.digitValue c + radix * n) n := by
    induction ds with
    | nil => exact fun n => rfl
    | cons c cs ih =>
      intro n
      simp only [List.foldl_cons, digit?_eq_digitValue (h c List.mem_cons_self), Option.getD_some]
      rw [ih fun d hd => h d (List.mem_cons_of_mem _ hd), Nat.mul_comm n radix, Nat.add_comm]
  rw [Text.digitsValue, hfold, Nat.ofDigits_eq_foldr, List.foldr_map, List.foldr_reverse]
  rfl

/-! ### Patterns of classes -/

namespace Lexeme

/-- The pattern whose texts a class has. Reserved words belong to the class of identifiers. -/
def pattern : Lexeme → Pattern
  | blanks => Lexical.blanks
  | lineComment => Lexical.lineComment
  | blockComment => Lexical.blockComment
  | numeral base => Lexical.numeral base
  | string => Lexical.string
  | word => Lexical.identifier
  | symbol spelling _ => .exactly spelling.toList

theorem matches_exactly_seq_iff {mark t : List Char} {p : Pattern} :
    (Pattern.seq (.exactly mark) p).Matches t ↔ ∃ u, p.Matches u ∧ t = mark ++ u := by
  simp only [Pattern.matches_seq_iff, Pattern.matches_exactly_iff]
  constructor
  · rintro ⟨as, u, rfl, hu, rfl⟩
    exact ⟨u, hu, rfl⟩
  · rintro ⟨u, hu, rfl⟩
    exact ⟨mark, u, rfl, hu, rfl⟩

theorem matches_blanks_iff {t : List Char} :
    Lexical.blanks.Matches t ↔ t ≠ [] ∧ ∀ c ∈ t, isBlank c = true := by
  rw [Lexical.blanks, Pattern.matches_plus_one_iff]
  simp [isBlank, or_assoc]

theorem matches_numeral_iff {base : Base} {t : List Char} :
    (Lexical.numeral base).Matches t ↔
      ∃ u, (u ≠ [] ∧ ∀ c ∈ u, Lexical.isDigit base c = true) ∧ t = base.mark ++ u := by
  cases base with
  | decimal => simp [Lexical.numeral, Pattern.matches_plus_one_iff, Base.mark, Lexical.isDigit]
  | binary =>
    rw [Lexical.numeral, matches_exactly_seq_iff]
    simp only [Pattern.matches_plus_one_iff]
    rfl
  | hexadecimal =>
    rw [Lexical.numeral, matches_exactly_seq_iff]
    simp only [Pattern.matches_plus_one_iff]
    rfl

/-- A numeral of any base begins with a decimal digit. -/
theorem head_of_numeral {base : Base} {t : List Char} (h : (Lexical.numeral base).Matches t) :
    ∃ c u, t = c :: u ∧ Lexical.isDecimal c = true := by
  obtain ⟨u, ⟨hne, hu⟩, rfl⟩ := matches_numeral_iff.mp h
  cases base with
  | binary => exact ⟨'0', _, rfl, rfl⟩
  | hexadecimal => exact ⟨'0', _, rfl, rfl⟩
  | decimal =>
    obtain ⟨c, cs, rfl⟩ := List.exists_cons_of_ne_nil hne
    exact ⟨c, cs, rfl, hu c List.mem_cons_self⟩

theorem matches_identifier_iff {t : List Char} :
    Lexical.identifier.Matches t ↔
      ∃ c u, isNameStart c = true ∧ (∀ d ∈ u, isNamePart d = true) ∧ t = c :: u := by
  simp only [Lexical.identifier, Pattern.matches_seq_iff, Pattern.matches_one_iff,
    Pattern.matches_star_one_iff]
  constructor
  · rintro ⟨_, u, ⟨c, hc, rfl⟩, hu, rfl⟩
    exact ⟨c, u, hc, hu, rfl⟩
  · rintro ⟨c, u, hc, hu, rfl⟩
    exact ⟨[c], u, ⟨c, hc, rfl⟩, hu, rfl⟩

/-! ### Lengths of classes -/

theorem isLongest_blanks (cs : List Char) :
    IsLongest Lexical.blanks.Matches cs (length? blanks cs) :=
  IsLongest.congr (fun _ => matches_blanks_iff.symm) (isLongest_run? cs)

/-- A class whose texts begin with two fixed characters has none where these are missing. -/
theorem not_prefix_of_ne {a b : Char} {cs : List Char} (h : ∀ rest, cs ≠ a :: b :: rest) :
    ¬ [a, b] <+: cs := by
  rintro ⟨rest, rfl⟩
  exact h rest rfl

theorem isLongest_lineComment (cs : List Char) :
    IsLongest Lexical.lineComment.Matches cs (length? lineComment cs) := by
  refine IsLongest.congr (fun t => matches_exactly_seq_iff.symm) ?_
  simp only [length?]
  split
  · next rest =>
    have hrun : IsLongest (Pattern.star (.one (· != '\n'))).Matches rest _ :=
      IsLongest.congr (fun t => Pattern.matches_star_one_iff.symm) (isLongest_takeWhile rest)
    have htest : (fun c : Char => decide (c ≠ '\n')) = (· != '\n') := by
      funext c
      by_cases hc : c = '\n' <;> simp [hc]
    rw [htest]
    exact hrun.after ['/', '/']
  · next hno => exact isLongest_none_of_not_prefix (not_prefix_of_ne hno)

theorem isLongest_blockComment (cs : List Char) :
    IsLongest Lexical.blockComment.Matches cs (length? blockComment cs) := by
  refine IsLongest.congr (fun t => matches_exactly_seq_iff.symm) ?_
  simp only [length?]
  split
  · next rest => exact (isLongest_commentExtent? rest).after ['/', '*']
  · next hno => exact isLongest_none_of_not_prefix (not_prefix_of_ne hno)

theorem isLongest_numeral (base : Base) (cs : List Char) :
    IsLongest (Lexical.numeral base).Matches cs (length? (numeral base) cs) := by
  refine IsLongest.congr (fun t => matches_numeral_iff.symm) ?_
  simp only [length?]
  split
  · next hmark =>
    obtain ⟨rest, rfl⟩ := List.isPrefixOf_iff_prefix.mp hmark
    rw [List.drop_left, isDigit_eq]
    exact (isLongest_run? rest).after base.mark
  · next hmark =>
    exact isLongest_none_of_not_prefix fun h => hmark (List.isPrefixOf_iff_prefix.mpr h)

theorem isLongest_string (cs : List Char) :
    IsLongest Lexical.string.Matches cs (length? string cs) := by
  refine IsLongest.congr (fun t => matches_exactly_seq_iff.symm) ?_
  simp only [length?]
  split
  · next rest =>
    have hclosed := (isLongest_closedExtent rest).after ['"']
    rw [closedExtent] at hclosed
    split <;> simp_all [Lexical.stringTail]
  · next hno =>
    refine isLongest_none_of_not_prefix ?_
    rintro ⟨rest, rfl⟩
    exact hno rest rfl

theorem isLongest_word (cs : List Char) :
    IsLongest Lexical.identifier.Matches cs (length? word cs) := by
  cases cs with
  | nil =>
    intro t ht h
    obtain ⟨c, u, -, -, rfl⟩ := matches_identifier_iff.mp h
    simp at ht
  | cons c rest =>
    simp only [length?]
    split
    · next hc =>
      have hrun : IsLongest (fun t => ∀ d ∈ t, isNamePart d = true) rest _ :=
        isLongest_takeWhile rest
      obtain ⟨hle, htake, hmax⟩ := hrun
      refine ⟨by simpa using hle, ?_, ?_⟩
      · exact matches_identifier_iff.mpr ⟨c, _, hc, htake, List.take_succ_cons⟩
      · intro t ht h
        obtain ⟨d, u, -, hu, rfl⟩ := matches_identifier_iff.mp h
        have := hmax u (List.cons_prefix_cons.mp ht).2 hu
        simpa using this
    · next hc =>
      intro t ht h
      obtain ⟨d, u, hd, -, rfl⟩ := matches_identifier_iff.mp h
      rw [(List.cons_prefix_cons.mp ht).1] at hd
      exact hc hd

theorem isLongest_symbol (spelling : String) (token : Token) (cs : List Char) :
    IsLongest (Pattern.exactly spelling.toList).Matches cs
      (length? (symbol spelling token) cs) := by
  simp only [length?]
  split
  · next h =>
    have hle := List.isPrefixOf_iff_prefix.mp h
    rw [← String.length_toList]
    refine ⟨hle.length_le, ?_, ?_⟩
    · rw [← List.prefix_iff_eq_take.mp hle]
      exact .exactly
    · intro t _ ht
      rw [Pattern.matches_exactly_iff.mp ht]
  · next h =>
    intro t ht hmatch
    rw [Pattern.matches_exactly_iff.mp hmatch] at ht
    exact h (List.isPrefixOf_iff_prefix.mpr ht)

/-- Every class finds the longest text of its pattern. -/
theorem length?_isLongest (lexeme : Lexeme) (cs : List Char) :
    IsLongest lexeme.pattern.Matches cs (lexeme.length? cs) := by
  cases lexeme with
  | blanks => exact isLongest_blanks cs
  | lineComment => exact isLongest_lineComment cs
  | blockComment => exact isLongest_blockComment cs
  | numeral base => exact isLongest_numeral base cs
  | string => exact isLongest_string cs
  | word => exact isLongest_word cs
  | symbol spelling token => exact isLongest_symbol spelling token cs

/-! ### A text has one class -/

theorem isBlank_iff {c : Char} :
    isBlank c = true ↔
      c.toNat = 32 ∨ c.toNat = 9 ∨ c.toNat = 13 ∨ c.toNat = 10 ∨ c.toNat = 12 := by
  simp only [isBlank, Bool.or_eq_true, decide_eq_true_eq, char_eq_iff, or_assoc]
  rfl

theorem isNameStart_iff {c : Char} :
    isNameStart c = true ↔
      (97 ≤ c.toNat ∧ c.toNat ≤ 122) ∨ (65 ≤ c.toNat ∧ c.toNat ≤ 90) ∨ c.toNat = 95 :=
  isLetter_iff

/-- The class of a text, told by its first two characters except for symbols. -/
def classOf : List Char → Option Lexeme
  | [] => none
  | c :: cs =>
    if isBlank c then some blanks
    else if isNameStart c then some word
    else if Lexical.isDecimal c then
      if c = '0' && cs.head? = some 'x' then some (numeral .hexadecimal)
      else if c = '0' && cs.head? = some 'b' then some (numeral .binary)
      else some (numeral .decimal)
    else if c = '"' then some string
    else if c = '/' && cs.head? = some '/' then some lineComment
    else if c = '/' && cs.head? = some '*' then some blockComment
    else (symbols.find? fun s => s.1.toList == c :: cs).map fun s => symbol s.1 s.2

theorem classOf_decimal {ds : List Char} (hne : ds ≠ [])
    (hds : ∀ c ∈ ds, Lexical.isDecimal c = true) : classOf ds = some (numeral .decimal) := by
  cases ds with
  | nil => exact absurd rfl hne
  | cons c cs =>
    have hc := hds c List.mem_cons_self
    have hcode := isDecimal_iff.mp hc
    have hblank : isBlank c = false := by
      rw [Bool.eq_false_iff, ne_eq, isBlank_iff]
      omega
    have hname : isNameStart c = false := by
      rw [Bool.eq_false_iff, ne_eq, isNameStart_iff]
      omega
    have hhead : ∀ d, Lexical.isDecimal d = false → cs.head? ≠ some d := by
      intro d hd heq
      cases cs with
      | nil => cases heq
      | cons e es =>
        rw [List.head?_cons, Option.some.injEq] at heq
        rw [← heq, hds e (by simp)] at hd
        cases hd
    simp [classOf, hc, hblank, hname, hhead 'x' (by decide), hhead 'b' (by decide)]

theorem symbol_mem_all_iff {spelling : String} {token : Token} :
    symbol spelling token ∈ all ↔ (spelling, token) ∈ symbols := by
  simp [all]

theorem classOf_symbols : ∀ s ∈ symbols, classOf s.1.toList = some (symbol s.1 s.2) := by
  decide +kernel

theorem classOf_of_matches {lexeme : Lexeme} (hall : lexeme ∈ all) {t : List Char}
    (h : lexeme.pattern.Matches t) : classOf t = some lexeme := by
  cases lexeme with
  | blanks =>
    obtain ⟨hne, ht⟩ := matches_blanks_iff.mp h
    cases t with
    | nil => exact absurd rfl hne
    | cons c cs => simp [classOf, ht c List.mem_cons_self]
  | lineComment =>
    obtain ⟨u, -, rfl⟩ := matches_exactly_seq_iff.mp h
    rfl
  | blockComment =>
    obtain ⟨u, -, rfl⟩ := matches_exactly_seq_iff.mp h
    rfl
  | numeral base =>
    obtain ⟨u, ⟨hne, hu⟩, rfl⟩ := matches_numeral_iff.mp h
    cases base with
    | binary => rfl
    | decimal => exact classOf_decimal hne hu
    | hexadecimal => rfl
  | string =>
    obtain ⟨u, -, rfl⟩ := matches_exactly_seq_iff.mp h
    rfl
  | word =>
    obtain ⟨c, u, hc, -, rfl⟩ := matches_identifier_iff.mp h
    have hblank : isBlank c = false := by
      rw [Bool.eq_false_iff, ne_eq, isBlank_iff]
      rw [isNameStart_iff] at hc
      omega
    simp [classOf, hc, hblank]
  | symbol spelling token =>
    obtain rfl := Pattern.matches_exactly_iff.mp h
    exact classOf_symbols _ (symbol_mem_all_iff.mp hall)

/-- No text belongs to two classes. -/
theorem eq_of_matches {l m : Lexeme} (hl : l ∈ all) (hm : m ∈ all) {t : List Char}
    (hlt : l.pattern.Matches t) (hmt : m.pattern.Matches t) : l = m :=
  Option.some.inj ((classOf_of_matches hl hlt).symm.trans (classOf_of_matches hm hmt))

/-! ### Meanings -/

theorem digitsValue_eq_numeralValue {base : Base} {t : List Char}
    (h : (Lexical.numeral base).Matches t) :
    Text.digitsValue base.radix (t.drop base.mark.length) = Lexical.numeralValue base t := by
  obtain ⟨u, ⟨-, hu⟩, rfl⟩ := matches_numeral_iff.mp h
  rw [Lexical.numeralValue, List.drop_left]
  exact digitsValue_eq_ofDigits fun c hc => isHexadecimal_of_isDigit (hu c hc)

theorem reads_of_numeral {base : Base} {t : List Char} (h : (Lexical.numeral base).Matches t) :
    Lexical.Reads t ((numeral base).read t) := by
  simp only [read, digitsValue_eq_numeralValue h]
  split
  · next hlt => exact .integer h (UInt64.toNat_ofNat_of_lt' hlt)
  · next hlt => exact .outOfRange h (Nat.not_lt.mp hlt)

theorem escaped_of_mem : ∀ e ∈ Lexical.escapes, escaped e.1 = [e.2] := by
  decide +kernel

theorem escaped_of_not_mem {c : Char} (h : ∀ d, (c, d) ∉ Lexical.escapes) :
    escaped c = ['\\', c] := by
  have hne : ∀ e ∈ Lexical.escapes, c ≠ e.1 := by
    rintro e he rfl
    exact h e.2 he
  simp only [Lexical.escapes, List.forall_mem_cons] at hne
  obtain ⟨hn, hr, ht, hslash, hquote, hzero, -⟩ := hne
  exact escaped.eq_7 c hn hr ht hslash hquote hzero

theorem unescape_plain {c : Char} (hc : c ≠ '\\') (cs : List Char) :
    unescape (c :: cs) = c :: unescape cs :=
  unescape.eq_3 c cs fun _ _ h _ => hc h

theorem unescape_of_denotes {body value : List Char} (h : Lexical.Denotes body value) :
    unescape body = value := by
  induction h with
  | nil => rfl
  | plain hc _ ih => rw [unescape_plain hc, ih]
  | escape hc _ ih =>
    rw [unescape, escaped_of_mem _ hc, ih]
    rfl
  | kept hc _ ih =>
    rw [unescape, escaped_of_not_mem hc, ih]
    rfl

theorem denotes_pair (c : Char) {body : List Char} (h : Lexical.Denotes body (unescape body)) :
    Lexical.Denotes ('\\' :: c :: body) (unescape ('\\' :: c :: body)) := by
  rw [unescape]
  by_cases hc : ∃ d, (c, d) ∈ Lexical.escapes
  · obtain ⟨d, hd⟩ := hc
    rw [escaped_of_mem _ hd]
    exact .escape hd h
  · have hfree : ∀ d, (c, d) ∉ Lexical.escapes := not_exists.mp hc
    rw [escaped_of_not_mem hfree]
    exact .kept hfree h

/-- The inside of a string consists of plain characters and pairs, each of which has a meaning. -/
theorem exists_body {t : List Char} (h : Lexical.string.Matches t) :
    ∃ body, t = '"' :: body ++ ['"'] ∧ Lexical.Denotes body (unescape body) := by
  obtain ⟨u, hu, rfl⟩ := matches_exactly_seq_iff.mp h
  obtain ⟨body, quote, hbody, hquote, rfl⟩ := Pattern.matches_seq_iff.mp hu
  obtain rfl := Pattern.matches_exactly_iff.mp hquote
  refine ⟨body, rfl, ?_⟩
  refine Pattern.star_induction (motive := fun body => Lexical.Denotes body (unescape body))
    .nil ?_ hbody
  intro item more hitem ih
  rcases Pattern.matches_either_iff.mp hitem with hplain | hpair
  · obtain ⟨c, hc, rfl⟩ := Pattern.matches_one_iff.mp hplain
    simp only [Bool.and_eq_true, bne_iff_ne] at hc
    rw [List.cons_append, List.nil_append, unescape_plain hc.2]
    exact .plain hc.2 ih
  · obtain ⟨v, hv, rfl⟩ := matches_exactly_seq_iff.mp hpair
    obtain ⟨c, -, rfl⟩ := Pattern.matches_one_iff.mp hv
    exact denotes_pair c ih

theorem reads_of_string {t : List Char} (h : Lexical.string.Matches t) :
    Lexical.Reads t (string.read t) := by
  obtain ⟨body, rfl, hvalue⟩ := exists_body h
  have hinside : ((('"' :: body ++ ['"']).drop 1).dropLast) = body := by simp
  rw [read, hinside]
  exact .string h hvalue

theorem words_spelled : ∀ w ∈ Lexical.words, Token.ofWord (String.ofList w.1) = w.2 := by
  decide +kernel

theorem matches_identifier_of_words : ∀ w ∈ Lexical.words, Lexical.identifier.Matches w.1 := by
  have hspelled : ∀ w ∈ Lexical.words, w.1.head?.any isNameStart = true ∧
      w.1.tail.all isNamePart = true := by decide +kernel
  rintro ⟨t, token⟩ hw
  obtain ⟨hhead, htail⟩ := hspelled _ hw
  cases t with
  | nil => cases hhead
  | cons c u => exact matches_identifier_iff.mpr ⟨c, u, hhead, List.all_eq_true.mp htail, rfl⟩

theorem ofWord_of_not_reserved {t : List Char} (h : ∀ token, (t, token) ∉ Lexical.words) :
    Token.ofWord (String.ofList t) = .identifier (String.ofList t) := by
  have hkeywords : keywords.map (fun w => (w.1.toList, w.2)) = Lexical.words := rfl
  have hnone : keywords.lookup (String.ofList t) = none := by
    rw [List.lookup_eq_none_iff]
    rintro ⟨spelling, token⟩ hmem
    rw [bne_iff_ne]
    intro heq
    refine h token ?_
    rw [← hkeywords]
    exact List.mem_map.mpr ⟨_, hmem, by rw [← heq, String.toList_ofList]⟩
  rw [Token.ofWord, hnone, Option.getD_none]

theorem reads_of_identifier {t : List Char} (h : Lexical.identifier.Matches t) :
    Lexical.Reads t (.token (.ofWord (String.ofList t))) := by
  by_cases hword : ∃ token, (t, token) ∈ Lexical.words
  · obtain ⟨token, hmem⟩ := hword
    rw [words_spelled _ hmem]
    exact .word hmem
  · have hfree : ∀ token, (t, token) ∉ Lexical.words := not_exists.mp hword
    rw [ofWord_of_not_reserved hfree]
    exact .identifier h hfree

theorem matches_operator_iff {t : List Char} :
    Lexical.operator.Matches t ↔ ∃ op ∈ Operator.table, op.text.toList = t := by
  simp only [Lexical.operator, Pattern.matches_either_iff, Pattern.matches_exactly_iff,
    Pattern.matches_one_iff]
  constructor
  · rintro (rfl | rfl | rfl | rfl | rfl | ⟨c, hc, rfl⟩)
    · exact ⟨.power, by decide, rfl⟩
    · exact ⟨.logicalAnd, by decide, rfl⟩
    · exact ⟨.logicalOr, by decide, rfl⟩
    · exact ⟨.shl, by decide, rfl⟩
    · exact ⟨.shr, by decide, rfl⟩
    · have hall : ['-', '+', '*', '/', '%', '|', '&', '^'].all (fun c =>
          Operator.table.any fun op => op.text.toList == [c]) = true := by decide +kernel
      have hop := List.all_eq_true.mp hall c (List.contains_iff_mem.mp hc)
      simpa using hop
  · rintro ⟨op, hop, rfl⟩
    cases op with
    | unknown => exact absurd hop (by decide)
    | _ => simp [Operator.text]

theorem symbols_eq : symbols.map (fun s => (s.1.toList, s.2)) =
    Operator.table.map (fun op => (op.text.toList, .operator op.text)) ++ Lexical.punctuation :=
  rfl

theorem mem_symbols_iff {t : List Char} {token : Token} :
    (∃ spelling, (spelling, token) ∈ symbols ∧ t = spelling.toList) ↔
      (Lexical.operator.Matches t ∧ token = .operator (String.ofList t)) ∨
        (t, token) ∈ Lexical.punctuation := by
  have hleft : (∃ spelling, (spelling, token) ∈ symbols ∧ t = spelling.toList) ↔
      (t, token) ∈ symbols.map fun s => (s.1.toList, s.2) := by
    rw [List.mem_map]
    constructor
    · rintro ⟨spelling, hmem, rfl⟩
      exact ⟨_, hmem, rfl⟩
    · rintro ⟨⟨spelling, token'⟩, hmem, heq⟩
      obtain ⟨rfl, rfl⟩ := Prod.mk.inj heq
      exact ⟨spelling, hmem, rfl⟩
  rw [hleft, symbols_eq, List.mem_append, List.mem_map, matches_operator_iff]
  refine or_congr_left ?_
  constructor
  · rintro ⟨op, hop, heq⟩
    obtain ⟨rfl, rfl⟩ := Prod.mk.inj heq
    exact ⟨⟨op, hop, rfl⟩, by rw [String.ofList_toList]⟩
  · rintro ⟨⟨op, hop, rfl⟩, rfl⟩
    exact ⟨op, hop, by rw [String.ofList_toList]⟩

theorem reads_of_matches {lexeme : Lexeme} (hall : lexeme ∈ all) {t : List Char}
    (h : lexeme.pattern.Matches t) : Lexical.Reads t (lexeme.read t) := by
  cases lexeme with
  | blanks => exact .blanks h
  | lineComment => exact .lineComment h
  | blockComment => exact .blockComment h
  | numeral base => exact reads_of_numeral h
  | string => exact reads_of_string h
  | word => exact reads_of_identifier h
  | symbol spelling token =>
    have hspelled := mem_symbols_iff.mp
      ⟨spelling, symbol_mem_all_iff.mp hall, Pattern.matches_exactly_iff.mp h⟩
    rcases hspelled with ⟨hop, rfl⟩ | hpunct
    · exact .operator hop
    · exact .punctuation hpunct

/-- A text of a fixed spelling has its class. -/
theorem exists_symbol {t : List Char} {token : Token}
    (h : (Lexical.operator.Matches t ∧ token = .operator (String.ofList t)) ∨
      (t, token) ∈ Lexical.punctuation) :
    ∃ lexeme ∈ all, lexeme.pattern.Matches t ∧ lexeme.read t = .token token := by
  obtain ⟨spelling, hmem, rfl⟩ := mem_symbols_iff.mpr h
  exact ⟨symbol spelling token, symbol_mem_all_iff.mpr hmem, .exactly, rfl⟩

/-- The rules give a text the meaning that its class reads from it. -/
theorem reads_iff {t : List Char} {r : Reading} :
    Lexical.Reads t r ↔ ∃ lexeme ∈ all, lexeme.pattern.Matches t ∧ lexeme.read t = r := by
  constructor
  · intro h
    cases h with
    | blanks h => exact ⟨blanks, by decide, h, rfl⟩
    | lineComment h => exact ⟨lineComment, by decide, h, rfl⟩
    | blockComment h => exact ⟨blockComment, by decide, h, rfl⟩
    | @integer base _ n h hn =>
      refine ⟨numeral base, by cases base <;> decide, h, ?_⟩
      have hlt : Lexical.numeralValue base t < UInt64.size := hn ▸ n.toNat_lt
      simp only [read, digitsValue_eq_numeralValue h]
      rw [if_pos hlt, ← hn, UInt64.ofNat_toNat]
    | @outOfRange base _ h hn =>
      refine ⟨numeral base, by cases base <;> decide, h, ?_⟩
      simp only [read, digitsValue_eq_numeralValue h]
      exact if_neg (Nat.not_lt.mpr hn)
    | string h hvalue =>
      refine ⟨string, by decide, h, ?_⟩
      rw [read, ← unescape_of_denotes hvalue]
      simp
    | @word _ token h =>
      refine ⟨word, by decide, matches_identifier_of_words _ h, ?_⟩
      rw [read, words_spelled _ h]
    | identifier h hword =>
      refine ⟨word, by decide, h, ?_⟩
      rw [read, ofWord_of_not_reserved hword]
    | operator h => exact exists_symbol (.inl ⟨h, rfl⟩)
    | punctuation h => exact exists_symbol (.inr h)
  · rintro ⟨lexeme, hall, hmatch, rfl⟩
    exact reads_of_matches hall hmatch

end Lexeme

end LetTree

import Mathlib.Data.List.TakeWhile
import LetTree.Proofs.Token.Layout

/-!
# String literals

The inside of a string is made of units: every backslash makes a pair with the character after it,
and every other character stands alone. A string ends at the first quote that is a unit by itself,
and its value has the meaning of each unit in the place of the unit. No pair is made with a line
feed: there, or at the end of the source, a string that has not ended is an error.
-/

namespace LetTree

namespace Lexical

/-! ### Units -/

/-- A text cut into units from the left. A backslash at the end is a unit alone. -/
def units : List Char → List (List Char)
  | [] => []
  | '\\' :: c :: cs => ['\\', c] :: units cs
  | c :: cs => [c] :: units cs

/-- The units before the first quote that stands alone. -/
def inside (cs : List Char) : List (List Char) := (units cs).takeWhile (· ≠ ['"'])

/-- A string whose quote is followed by `cs` ends: there is a quote that stands alone, and no pair
    with a line feed before it. -/
def Closes (cs : List Char) : Prop := ['"'] ∈ units cs ∧ ['\\', '\n'] ∉ inside cs

instance (cs : List Char) : Decidable (Closes cs) := inferInstanceAs (Decidable (_ ∧ _))

/-- What belongs to a string that does not end: the text up to the line feed of the first pair with
    one, or all of it. -/
def openText (cs : List Char) : List Char :=
  if ['\\', '\n'] ∈ inside cs then
    ((inside cs).takeWhile (· ≠ ['\\', '\n'])).flatten ++ ['\\']
  else cs

/-- What a unit stands for: a pair with a meaning for that character, all other units for
    themselves. -/
def unitValue : List Char → List Char
  | ['\\', c] =>
    match escapes.lookup c with
    | some d => [d]
    | none => ['\\', c]
  | u => u

theorem flatten_units (cs : List Char) : (units cs).flatten = cs := by
  fun_induction units cs with
  | case1 => rfl
  | case2 c cs ih =>
    rw [List.flatten_cons, ih]
    rfl
  | case3 c cs _ ih =>
    rw [List.flatten_cons, ih]
    rfl

/-- The units with which the inside of a string goes on. -/
inductive Ongoing : List Char → Prop where
  | plain {c : Char} (hquote : c ≠ '"') (hslash : c ≠ '\\') : Ongoing [c]
  | pair {c : Char} (hc : c ≠ '\n') : Ongoing ['\\', c]

namespace Ongoing

variable {u : List Char}

theorem ne_quote (h : Ongoing u) : u ≠ ['"'] := by
  cases h with
  | plain hquote _ => simpa using hquote
  | pair _ => simp

theorem ne_broken (h : Ongoing u) : u ≠ ['\\', '\n'] := by
  cases h with
  | plain _ _ => simp
  | pair hc => simpa using hc

theorem units_append (h : Ongoing u) (cs : List Char) : units (u ++ cs) = u :: units cs := by
  cases h with
  | plain _ hslash => exact units.eq_3 _ cs fun _ _ heq _ => hslash heq
  | pair _ => rfl

theorem inside_append (h : Ongoing u) (cs : List Char) : inside (u ++ cs) = u :: inside cs := by
  rw [inside, h.units_append, List.takeWhile_cons_of_pos (by simpa using h.ne_quote), inside]

theorem closes_append_iff (h : Ongoing u) (cs : List Char) : Closes (u ++ cs) ↔ Closes cs := by
  simp [Closes, h.units_append, h.inside_append, h.ne_quote.symm, h.ne_broken.symm]

theorem openText_append (h : Ongoing u) (cs : List Char) :
    openText (u ++ cs) = u ++ openText cs := by
  have hmem : ['\\', '\n'] ∈ inside (u ++ cs) ↔ ['\\', '\n'] ∈ inside cs := by
    simp [h.inside_append, h.ne_broken.symm]
  simp only [openText, hmem]
  split
  · rw [h.inside_append, List.takeWhile_cons_of_pos (by simpa using h.ne_broken),
      List.flatten_cons, List.append_assoc]
  · rfl

theorem stringExtent_append (h : Ongoing u) (cs : List Char) :
    stringExtent (u ++ cs) = ((stringExtent cs).1 + u.length, (stringExtent cs).2) := by
  cases h with
  | plain hquote hslash => exact stringExtent_plain hquote hslash cs
  | pair hc => exact stringExtent_pair hc cs

end Ongoing

theorem unitValue_pair (c : Char) : unitValue ['\\', c] = escaped c := by
  simp only [unitValue]
  cases hlookup : escapes.lookup c with
  | none =>
    refine (Lexeme.escaped_of_not_mem fun d hd => ?_).symm
    have hne := List.lookup_eq_none_iff.mp hlookup _ hd
    simp at hne
  | some d =>
    obtain ⟨before, after, hsplit, -⟩ := List.lookup_eq_some_iff.mp hlookup
    have hmem : (c, d) ∈ escapes := hsplit ▸ List.mem_append_right before List.mem_cons_self
    exact (Lexeme.escaped_of_mem _ hmem).symm

theorem Ongoing.unescape_append {u : List Char} (h : Ongoing u) (cs : List Char) :
    unescape (u ++ cs) = unitValue u ++ unescape cs := by
  cases h with
  | @plain c _ hslash =>
    have hself : unitValue [c] = [c] := unitValue.eq_2 [c] nofun
    rw [hself]
    exact Lexeme.unescape_plain hslash cs
  | pair _ =>
    rw [unitValue_pair]
    rfl

/-- How the text after the quote of a string can begin. -/
theorem inside_induction {motive : List Char → Prop} (nil : motive [])
    (quote : ∀ cs, motive ('"' :: cs)) (broken : ∀ cs, motive ('\\' :: '\n' :: cs))
    (lone : motive ['\\']) (ongoing : ∀ u cs, Ongoing u → motive cs → motive (u ++ cs))
    (cs : List Char) : motive cs := by
  induction cs using string_induction with
  | nil => exact nil
  | quote cs => exact quote cs
  | broken cs => exact broken cs
  | lone => exact lone
  | pair c cs hc ih => exact ongoing ['\\', c] cs (.pair hc) ih
  | plain c cs hquote hslash ih => exact ongoing [c] cs (.plain hquote hslash) ih

/-! ### Where a string ends -/

theorem stringExtent_of_closes (cs : List Char) :
    Closes cs → stringExtent cs = ((inside cs).flatten.length + 1, true) := by
  induction cs using inside_induction with
  | nil => simp [Closes, units]
  | quote cs => simp [inside, units, stringExtent]
  | broken cs => simp [Closes, inside, units]
  | lone => simp [Closes, units]
  | ongoing u cs hu ih =>
    intro h
    rw [hu.stringExtent_append, ih ((hu.closes_append_iff cs).mp h), hu.inside_append]
    simp only [List.flatten_cons, List.length_append, Prod.mk.injEq, and_true]
    omega

theorem stringExtent_of_not_closes (cs : List Char) :
    ¬ Closes cs → stringExtent cs = ((openText cs).length, false) ∧ openText cs <+: cs := by
  induction cs using inside_induction with
  | nil => simp [openText, inside, units, stringExtent]
  | quote cs => simp [Closes, inside, units]
  | broken cs => simp [openText, inside, units, stringExtent]
  | lone => simp [openText, inside, units, stringExtent]
  | ongoing u cs hu ih =>
    intro h
    obtain ⟨hextent, hprefix⟩ := ih (mt (hu.closes_append_iff cs).mpr h)
    rw [hu.stringExtent_append, hu.openText_append, hextent]
    refine ⟨by simp [Nat.add_comm], (List.prefix_append_right_inj u).mpr hprefix⟩

/-- After the inside of a string that ends comes a quote. -/
theorem Closes.exists_rest {cs : List Char} (h : Closes cs) :
    ∃ rest, cs = (inside cs).flatten ++ '"' :: rest := by
  have hsplit : inside cs ++ (units cs).dropWhile (· ≠ ['"']) = units cs :=
    List.takeWhile_append_dropWhile
  have hstop := List.head?_dropWhile_not (· ≠ ['"']) (units cs)
  cases hdrop : (units cs).dropWhile (· ≠ ['"']) with
  | nil =>
    rw [hdrop, List.append_nil] at hsplit
    have hquote := h.1
    rw [← hsplit] at hquote
    simpa using List.mem_takeWhile_imp hquote
  | cons u more =>
    rw [hdrop] at hsplit hstop
    obtain rfl : u = ['"'] := by simpa using hstop
    have hcut := flatten_units cs
    rw [← hsplit, List.flatten_append, List.flatten_cons] at hcut
    exact ⟨more.flatten, hcut.symm⟩

theorem unescape_inside (cs : List Char) :
    Closes cs → unescape (inside cs).flatten = (inside cs).flatMap unitValue := by
  induction cs using inside_induction with
  | nil => simp [Closes, units]
  | quote cs => simp [inside, units, unescape]
  | broken cs => simp [Closes, inside, units]
  | lone => simp [Closes, units]
  | ongoing u cs hu ih =>
    intro h
    rw [hu.inside_append, List.flatten_cons, List.flatMap_cons, hu.unescape_append,
      ih ((hu.closes_append_iff cs).mp h)]

/-! ### Reading a string -/

/-- A string is the longest text at its quote, whatever follows it. -/
theorem munch_string {t : List Char} (h : stringTail.Matches t) (rest : List Char) :
    Munch ('"' :: t ++ rest) ('"' :: t) rest := by
  refine ⟨rfl, List.cons_ne_nil _ _, declared_quote_iff.mpr h, ?_⟩
  intro other hother hdecl
  cases other with
  | nil => exact Nat.zero_le _
  | cons c u =>
    obtain ⟨rfl, v, hv⟩ := List.cons_prefix_cons.mp hother
    have hextent := stringExtent_of_stringTail (declared_quote_iff.mp hdecl) v
    rw [hv, List.append_eq, stringExtent_of_stringTail h rest] at hextent
    exact Nat.le_of_eq (congrArg (·.1 + 1) hextent.symm)

theorem stuck_of_not_closes {cs : List Char} (h : ¬ Closes cs) : Stuck ('"' :: cs) := by
  refine ⟨List.cons_ne_nil _ _, ?_⟩
  intro other hother hne hdecl
  obtain ⟨c, u, rfl⟩ := List.exists_cons_of_ne_nil hne
  obtain ⟨rfl, v, rfl⟩ := List.cons_prefix_cons.mp hother
  have hopen := (stringExtent_of_not_closes _ h).1
  rw [stringExtent_of_stringTail (declared_quote_iff.mp hdecl) v] at hopen
  simp at hopen

/-- The whole text of a string that ends. -/
def literal (cs : List Char) : List Char := '"' :: (inside cs).flatten ++ ['"']

theorem Closes.stringTail {cs : List Char} (h : Closes cs) :
    stringTail.Matches ((inside cs).flatten ++ ['"']) := by
  obtain ⟨rest, hrest⟩ := h.exists_rest
  obtain ⟨t, v, hsplit, hlength, ht⟩ :=
    stringTail_of_stringExtent cs _ (stringExtent_of_closes cs h)
  have hsame : (inside cs).flatten ++ ['"'] ++ rest = t ++ v := by
    rw [List.append_assoc, ← hsplit]
    exact hrest.symm
  rwa [List.append_inj_left hsame (by simp [hlength])]

theorem Closes.reads {cs : List Char} (h : Closes cs) :
    Reads (literal cs) (.token (.string (String.ofList ((inside cs).flatMap unitValue)))) := by
  have hmatch : string.Matches (literal cs) :=
    Lexeme.matches_exactly_seq_iff.mpr ⟨_, h.stringTail, rfl⟩
  have hread := Lexeme.reads_of_string hmatch
  have hinside : ((literal cs).drop 1).dropLast = (inside cs).flatten := by simp [literal]
  rwa [Lexeme.read, hinside, unescape_inside cs h] at hread

theorem Closes.munch {cs rest : List Char} (h : Closes cs)
    (hrest : cs = (inside cs).flatten ++ '"' :: rest) : Munch ('"' :: cs) (literal cs) rest := by
  have hstring := munch_string h.stringTail rest
  rwa [List.cons_append, List.append_assoc, List.singleton_append, ← hrest] at hstring

/-! ### Writing a string -/

/-- The insides by which a value is written: a backslash and a quote as their pairs, the other
    characters that have a pair as that pair or as themselves, and all others as themselves. -/
inductive Encodes : List Char → List Char → Prop where
  | nil : Encodes [] []
  | raw {c : Char} {value body : List Char} (hslash : c ≠ '\\') (hquote : c ≠ '"')
      (h : Encodes value body) : Encodes (c :: value) (c :: body)
  | pair {c d : Char} {value body : List Char} (hc : (c, d) ∈ escapes) (h : Encodes value body) :
      Encodes (d :: value) ('\\' :: c :: body)

theorem Encodes.denotes {value body : List Char} (h : Encodes value body) : Denotes body value := by
  induction h with
  | nil => exact .nil
  | raw hslash _ _ ih => exact .plain hslash ih
  | pair hc _ ih => exact .escape hc ih

theorem Encodes.stringTail {value body : List Char} (h : Encodes value body) :
    stringTail.Matches (body ++ ['"']) := by
  have hfeed : ∀ e ∈ escapes, e.1 ≠ '\n' := by decide
  induction h with
  | nil => exact .seq .stop .exactly
  | raw hslash hquote _ ih => exact stringTail_plain hquote hslash ih
  | pair hc _ ih => exact stringTail_pair (hfeed _ hc) ih

end Lexical

open Lexical

namespace Token

theorem lexFrom_literal {cs rest : List Char} (h : Closes cs)
    (hrest : cs = (inside cs).flatten ++ '"' :: rest) (offset : Nat) :
    lexFrom offset ('"' :: cs) =
      (lexFrom (offset + Text.bytes (literal cs)) rest).map
        (⟨.string (String.ofList ((inside cs).flatMap unitValue)),
          ⟨offset, offset + Text.bytes (literal cs)⟩⟩ :: ·) := by
  rw [lexFrom_munch (h.munch hrest) h.reads]
  rfl

theorem lexFrom_open {cs : List Char} (h : ¬ Closes cs) (offset : Nat) :
    lexFrom offset ('"' :: cs) =
      .error ⟨⟨offset, offset + Text.bytes ('"' :: openText cs)⟩,
        .unexpected (String.ofList ('"' :: openText cs))⟩ := by
  obtain ⟨hextent, hprefix⟩ := stringExtent_of_not_closes cs h
  have hfault := atFault_quote hextent
  rw [← List.prefix_iff_eq_take.mp hprefix] at hfault
  exact lexFrom_stuck (stuck_of_not_closes h) hfault offset

theorem lexFrom_encoded {value body : List Char} (h : Encodes value body) (offset : Nat) :
    lexFrom offset ('"' :: body ++ ['"']) =
      .ok [⟨.string (String.ofList value),
        ⟨offset, offset + Text.bytes ('"' :: body ++ ['"'])⟩⟩] := by
  have hmatch : Lexical.string.Matches ('"' :: body ++ ['"']) :=
    Lexeme.matches_exactly_seq_iff.mpr ⟨_, h.stringTail, rfl⟩
  have hread := Reads.string hmatch h.denotes
  rw [lexFrom_munch (munch_whole hread) hread, lexFrom_nil]
  rfl

end Token

/-- How a source is read that begins with a quote followed by `cs`. -/
structure StringExact (cs : List Char) : Prop where
  /-- The units are the text, cut into pieces. -/
  cut : (units cs).flatten = cs
  /-- A string that ends is read up to its quote, with the value of its units. -/
  closed : Closes cs → ∃ rest, cs = (inside cs).flatten ++ '"' :: rest ∧
    Lexeme.longest ('"' :: cs) = some (.string, (literal cs).length) ∧
    Lexeme.string.read (literal cs) =
      .token (.string (String.ofList ((inside cs).flatMap unitValue))) ∧
    Token.lex (String.ofList ('"' :: cs)) =
      (Token.lexFrom (Text.bytes (literal cs)) rest).map
        (⟨.string (String.ofList ((inside cs).flatMap unitValue)),
          ⟨0, Text.bytes (literal cs)⟩⟩ :: ·)
  /-- One that does not end is refused from its quote on. -/
  opened : ¬ Closes cs → Token.lex (String.ofList ('"' :: cs)) =
    .error ⟨⟨0, Text.bytes ('"' :: openText cs)⟩, .unexpected (String.ofList ('"' :: openText cs))⟩

theorem stringExact (cs : List Char) : StringExact cs where
  cut := flatten_units cs
  closed h := by
    obtain ⟨rest, hrest⟩ := h.exists_rest
    have hmatch : Lexeme.string.pattern.Matches (literal cs) :=
      Lexeme.matches_exactly_seq_iff.mpr ⟨_, h.stringTail, rfl⟩
    refine ⟨rest, hrest, ?_, ?_, ?_⟩
    · exact longest_of_munch (h.munch hrest) (by decide) hmatch
    · exact (Lexeme.reads_of_matches (by decide) hmatch).unique h.reads
    · rw [Token.lex, String.toList_ofList, Token.lexFrom_literal h hrest, Nat.zero_add]
  opened h := by rw [Token.lex, String.toList_ofList, Token.lexFrom_open h, Nat.zero_add]

/-- **String literals are exact.**  A source that begins with a quote is read as a string up to the
    first quote that no backslash before it makes a pair with, and its value replaces the pairs with
    a meaning and keeps all others. If there is no such quote, or a backslash stands before a line
    feed ahead of it, the source is refused from its quote to the end or to that line feed. Whatever
    way a text is written, with pairs for backslashes and quotes and with or without them for the
    other characters that have one, it is read back. -/
theorem string_literals_exact :
    (∀ cs, StringExact cs) ∧
    ∀ (s : String) (body : List Char), Encodes s.toList body →
      Token.lex (String.ofList ('"' :: body ++ ['"'])) =
        .ok [⟨.string s, ⟨0, Text.bytes ('"' :: body ++ ['"'])⟩⟩] := by
  refine ⟨stringExact, ?_⟩
  intro s body h
  rw [Token.lex, String.toList_ofList, Token.lexFrom_encoded h, String.ofList_toList, Nat.zero_add]

/-- A quote after three backslashes does not end a string, a pair without a meaning is kept, a
    backslash before a line feed is refused up to the line feed although a quote follows, and a line
    feed may be written in both ways. -/
theorem string_literals_exact_backslashes :
    Token.lex "\"\\\\\\\"\\q\"" = .ok [⟨.string "\\\"\\q", ⟨0, 8⟩⟩] ∧
      Token.lex "\"é\\\n\"" = .error ⟨⟨0, 4⟩, .unexpected "\"é\\"⟩ ∧
      Token.lex "\"\n\\n\"" = .ok [⟨.string "\n\n", ⟨0, 5⟩⟩] := by
  obtain ⟨hread, hwrite⟩ := string_literals_exact
  refine ⟨?_, ?_, ?_⟩
  · obtain ⟨rest, hrest, -, -, hlex⟩ := (hread "\\\\\\\"\\q\"".toList).closed (by decide)
    obtain rfl : rest = [] := by simpa [inside, units] using hrest
    rw [Token.lexFrom_nil] at hlex
    exact hlex
  · exact (hread "é\\\n\"".toList).opened (by decide)
  · exact hwrite "\n\n" ['\n', '\\', 'n']
      (.raw (by decide) (by decide) (.pair (by decide) .nil))

end LetTree

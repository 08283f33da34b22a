import Mathlib.Data.List.Basic
import LetTree.Proofs.Source.Positions

/-!
# Excerpts

The block that shows a span in its source: the line on which the span starts, and below it a marker
with the message. `Text.lineAround` says what the line of a place is, with no word about how lines
are counted, and the line that is shown is that one. The two lines have the same margin, whatever
the number of the line, so the marker stands below the character at which the span starts. Only a
place between a carriage return and its line feed has no character in the line.
-/

namespace LetTree

namespace Text

/-! ### The line of a place -/

/-- A line without the carriage return at its end. -/
def withoutReturn (line : List Char) : List Char :=
  if line.getLast? = some '\r' then line.dropLast else line

/-- The line around the place between two parts of a text: what stands between the line feeds
    before and after it, and without a carriage return right before the second one. -/
def lineAround (before after : List Char) : List Char :=
  let line := before.rtakeWhile (· ≠ '\n') ++ after.takeWhile (· ≠ '\n')
  if '\n' ∈ after then withoutReturn line else line

/-- The place between a carriage return and its line feed. -/
def BetweenReturnAndFeed (before after : List Char) : Prop :=
  before.getLast? = some '\r' ∧ after.head? = some '\n'

/-- A text that begins where a line is over: at its end, or at what ends it. -/
def LineOver (after : List Char) : Prop :=
  after = [] ∨ ['\n'] <+: after ∨ ['\r', '\n'] <+: after

theorem reverse_dropReturn (line : List Char) :
    (dropReturn line).reverse = withoutReturn line.reverse := by
  unfold dropReturn
  split
  · simp [withoutReturn]
  · next hno =>
    have hlast : line.reverse.getLast? ≠ some '\r' := by
      rw [List.getLast?_reverse]
      rintro hhead
      obtain ⟨rest, rfl⟩ := List.head?_eq_some_iff.mp hhead
      exact hno rest rfl
    rw [withoutReturn, if_neg hlast]

theorem withoutReturn_append {as bs : List Char} (h : bs ≠ []) :
    withoutReturn (as ++ bs) = as ++ withoutReturn bs := by
  unfold withoutReturn
  rw [List.getLast?_append_of_ne_nil as h, List.dropLast_append_of_ne_nil h]
  split <;> rfl

theorem withoutReturn_begins (line : List Char) : withoutReturn line <+: line := by
  unfold withoutReturn
  split
  · exact List.dropLast_prefix line
  · exact List.prefix_refl line

theorem rtakeWhile_eq_self {line : List Char} (h : '\n' ∉ line) :
    line.rtakeWhile (· ≠ '\n') = line := by
  rw [List.rtakeWhile_eq_self_iff]
  intro c hc
  have hne : c ≠ '\n' := fun heq => h (heq ▸ hc)
  simpa using hne

/-- What is before a line feed has no part in the line after it. -/
theorem rtakeWhile_append_feed (as bs : List Char) :
    (as ++ '\n' :: bs).rtakeWhile (· ≠ '\n') = bs.rtakeWhile (· ≠ '\n') := by
  induction bs using List.reverseRecOn with
  | nil => simp
  | append_singleton bs b ih =>
    have hassoc : as ++ '\n' :: (bs ++ [b]) = as ++ '\n' :: bs ++ [b] := by simp
    rw [hassoc, List.rtakeWhile_concat, List.rtakeWhile_concat, ih]

theorem lineAround_append_feed (as bs after : List Char) :
    lineAround (as ++ '\n' :: bs) after = lineAround bs after := by
  simp only [lineAround, rtakeWhile_append_feed]

/-- All places of a line have the same line. -/
theorem lineAround_concat (before : List Char) {c : Char} (hc : c ≠ '\n') (after : List Char) :
    lineAround (before ++ [c]) after = lineAround before (c :: after) := by
  simp [lineAround, hc, hc.symm]

theorem feed_not_mem_lineAround (before after : List Char) : '\n' ∉ lineAround before after := by
  have hfree : '\n' ∉ before.rtakeWhile (· ≠ '\n') ++ after.takeWhile (· ≠ '\n') := by
    intro hmem
    rcases List.mem_append.mp hmem with hmem | hmem
    · simpa using List.mem_rtakeWhile_imp hmem
    · simpa using List.mem_takeWhile_imp hmem
  simp only [lineAround]
  split
  · exact fun hmem => hfree ((withoutReturn_begins _).subset hmem)
  · exact hfree

/-! ### Lines in order -/

theorem linesFrom_plain {c : Char} (hc : c ≠ '\n') (begun cs : List Char) :
    linesFrom begun (c :: cs) = linesFrom (c :: begun) cs :=
  linesFrom.eq_3 begun c cs hc

theorem linesFrom_first (after : List Char) :
    ∀ begun, '\n' ∉ begun →
      (linesFrom begun after)[0]?.getD [] = lineAround begun.reverse after := by
  induction after with
  | nil =>
    intro begun hbegun
    rw [lineAround, rtakeWhile_eq_self (by simpa using hbegun)]
    cases begun <;> simp [linesFrom]
  | cons c cs ih =>
    intro begun hbegun
    by_cases hc : c = '\n'
    · subst hc
      rw [lineAround, rtakeWhile_eq_self (by simpa using hbegun)]
      simp [linesFrom, reverse_dropReturn]
    · have hmore : '\n' ∉ c :: begun := by simp [hbegun, Ne.symm hc]
      rw [linesFrom_plain hc, ih _ hmore, List.reverse_cons, lineAround_concat _ hc]

/-- As many lines are before a line as line feeds. -/
theorem linesFrom_count (after before : List Char) :
    ∀ begun, '\n' ∉ begun →
      (linesFrom begun (before ++ after))[before.count '\n']?.getD [] =
        lineAround (begun.reverse ++ before) after := by
  induction before with
  | nil =>
    intro begun hbegun
    rw [List.append_nil]
    exact linesFrom_first after begun hbegun
  | cons c cs ih =>
    intro begun hbegun
    by_cases hc : c = '\n'
    · subst hc
      have hnext := ih [] List.not_mem_nil
      rw [List.cons_append, linesFrom, List.count_cons_self, List.getElem?_cons_succ, hnext,
        lineAround_append_feed]
      rfl
    · have hmore : '\n' ∉ c :: begun := by simp [hbegun, Ne.symm hc]
      rw [List.cons_append, linesFrom_plain hc, List.count_cons_of_ne hc, ih _ hmore,
        List.reverse_cons, List.append_assoc, List.singleton_append]

theorem lines_count (before after : List Char) :
    (lines (before ++ after))[before.count '\n']?.getD [] = lineAround before after :=
  linesFrom_count after before [] List.not_mem_nil

/-! ### The part of a line after a place -/

/-- Up to a place that is not between a carriage return and its line feed, a line is as it is in
    the text. -/
theorem lineAround_eq_append {before after : List Char} (h : ¬ BetweenReturnAndFeed before after) :
    lineAround before after = before.rtakeWhile (· ≠ '\n') ++ lineAround [] after := by
  simp only [lineAround, List.rtakeWhile_nil, List.nil_append]
  split
  · next hfeed =>
    by_cases htrail : after.takeWhile (· ≠ '\n') = []
    · -- The line feed is next, and what is before it is no carriage return.
      have hhead : after.head? = some '\n' := by
        cases after with
        | nil => cases hfeed
        | cons c cs => simpa [List.takeWhile_cons] using htrail
      have hlast : (before.rtakeWhile (· ≠ '\n')).getLast? ≠ some '\r' := by
        intro hreturn
        obtain ⟨more, hmore⟩ := List.rtakeWhile_suffix (· ≠ '\n') before
        refine h ⟨?_, hhead⟩
        rw [← hmore, List.getLast?_append, hreturn, Option.some_or]
      rw [htrail, List.append_nil, withoutReturn, if_neg hlast]
      simp [withoutReturn]
    · exact withoutReturn_append htrail
  · rfl

theorem lineAround_of_lineOver {after : List Char} (h : LineOver after) :
    lineAround [] after = [] := by
  rcases h with rfl | ⟨rest, rfl⟩ | ⟨rest, rfl⟩
  · rfl
  · simp [lineAround, withoutReturn]
  · simp [lineAround, withoutReturn]

/-- Where a line goes on, it goes on with the next character. -/
theorem head?_lineAround {after : List Char} (h : ¬ LineOver after) :
    (lineAround [] after).head? = after.head? := by
  obtain ⟨hne, hfeed, hreturn⟩ : after ≠ [] ∧ ¬ ['\n'] <+: after ∧ ¬ ['\r', '\n'] <+: after := by
    simpa only [LineOver, not_or] using h
  obtain ⟨c, cs, rfl⟩ := List.exists_cons_of_ne_nil hne
  have hc : c ≠ '\n' := by
    rintro rfl
    exact hfeed (List.prefix_append ['\n'] cs)
  have hline := lineAround_concat [] hc cs
  have hbetween : ¬ BetweenReturnAndFeed ([] ++ [c]) cs := by
    rintro ⟨hlast, hhead⟩
    obtain ⟨rest, rfl⟩ := List.head?_eq_some_iff.mp hhead
    obtain rfl : c = '\r' := by simpa using hlast
    exact hreturn (List.prefix_append ['\r', '\n'] rest)
  rw [← hline, lineAround_eq_append hbetween, List.nil_append,
    rtakeWhile_eq_self (by simpa using hc.symm)]
  rfl

/-! ### Slices -/

theorem dropBytes?_eq_some {cs rest : List Char} {n : Nat} (h : dropBytes? n cs = some rest) :
    ∃ before, cs = before ++ rest ∧ n = bytes before := by
  induction cs generalizing n with
  | nil =>
    cases n with
    | zero => exact ⟨[], by simpa [dropBytes?] using h, rfl⟩
    | succ n => cases h
  | cons c cs ih =>
    cases n with
    | zero => exact ⟨[], by simpa [dropBytes?] using h, rfl⟩
    | succ n =>
      rw [dropBytes?] at h
      split at h
      · next hle =>
        obtain ⟨before, rfl, hbytes⟩ := ih h
        exact ⟨c :: before, rfl, by rw [bytes]; omega⟩
      · cases h

theorem takeBytes?_eq_some {cs text : List Char} {n : Nat} (h : takeBytes? n cs = some text) :
    ∃ after, cs = text ++ after ∧ n = bytes text := by
  induction cs generalizing n text with
  | nil =>
    cases n with
    | zero =>
      cases h
      exact ⟨[], rfl, rfl⟩
    | succ n => cases h
  | cons c cs ih =>
    cases n with
    | zero =>
      cases h
      exact ⟨c :: cs, rfl, rfl⟩
    | succ n =>
      rw [takeBytes?] at h
      split at h
      · next hle =>
        obtain ⟨text, htext, rfl⟩ := Option.map_eq_some_iff.mp h
        obtain ⟨after, rfl, hbytes⟩ := ih htext
        exact ⟨after, rfl, by rw [bytes]; omega⟩
      · cases h

end Text

namespace Span

open Text

variable {s : Span} {source : List Char}

theorem covers_of_slice {text : List Char} (h : slice? s.start s.stop source = some text) :
    s.Covers source text := by
  rw [slice?] at h
  split at h
  · next hle =>
    obtain ⟨rest, hdrop, htake⟩ := Option.bind_eq_some_iff.mp h
    obtain ⟨before, rfl, hstart⟩ := dropBytes?_eq_some hdrop
    obtain ⟨after, rfl, hlength⟩ := takeBytes?_eq_some htake
    refine ⟨before, after, (List.append_assoc _ _ _).symm, ?_⟩
    obtain ⟨start, stop⟩ := s
    simp only [mk.injEq] at *
    omega
  · cases h

/-- A span that lies in a source and splits no character covers a text of it. -/
theorem Sound.exists_covers (h : s.Sound source) : ∃ text, s.Covers source text := by
  obtain ⟨before, after, hsource, hstart⟩ := h.start
  obtain ⟨before', after', hsource', hstop⟩ := h.stop
  have hle := h.ordered
  rw [hstart, hstop] at hle
  obtain ⟨text, rfl⟩ := prefix_of_bytes_le (hsource.symm.trans hsource') hle
  refine ⟨text, before, after', hsource', ?_⟩
  obtain ⟨start, stop⟩ := s
  rw [mk.injEq, ← bytes_append]
  exact ⟨hstart, hstop⟩

/-! ### The line and the column of a start -/

theorem position_eq (s : Span) (source : List Char) :
    s.position source = .ofText (begun s.start source) :=
  Position.ofOffset_eq_ofText source s.start

theorem position_pos (s : Span) (source : List Char) :
    0 < (s.position source).line ∧ 0 < (s.position source).column := by
  rw [position_eq, Position.ofText]
  exact ⟨by simp, by simp⟩

/-- Whatever the start is, the line is that of the place after the characters that begin before
    it. -/
theorem lineText_of_begun {after : List Char} (h : begun s.start source ++ after = source) :
    s.lineText source = lineAround (begun s.start source) after := by
  have hline := lines_count (begun s.start source) after
  rw [h] at hline
  rw [lineText, position_eq, Position.ofText, Nat.add_sub_cancel_left, hline]

theorem feed_not_mem_lineText (s : Span) (source : List Char) : '\n' ∉ s.lineText source := by
  obtain ⟨after, hsplit⟩ := begun_prefix source s.start
  rw [lineText_of_begun hsplit]
  exact feed_not_mem_lineAround _ after

/-- Where a span starts between two parts of a source, the text before its start is the first. -/
theorem begun_start {before after : List Char} (hsource : source = before ++ after)
    (hstart : s.start = bytes before) : begun s.start source = before := by
  rw [hsource, hstart, begun_bytes]

theorem lineText_eq {before after : List Char} (hsource : source = before ++ after)
    (hstart : s.start = bytes before) : s.lineText source = lineAround before after := by
  have hbegun := begun_start hsource hstart
  rw [lineText_of_begun (by rw [hbegun, hsource]), hbegun]

theorem column_eq {before after : List Char} (hsource : source = before ++ after)
    (hstart : s.start = bytes before) :
    (s.position source).column - 1 = (before.rtakeWhile (· ≠ '\n')).length := by
  rw [position_eq, begun_start hsource hstart, Position.ofText, Nat.add_sub_cancel_left]

/-! ### The marker -/

theorem markWidth_of_covers {text : List Char} (h : s.Covers source text) :
    s.markWidth source = max 1 (lineAround [] text).length := by
  have hfirst := lines_count [] text
  rw [List.nil_append, List.count_nil, ← List.head?_eq_getElem?] at hfirst
  simp only [markWidth, h.slice, hfirst]

theorem markWidth_of_not_sound (h : ¬ s.Sound source) : s.markWidth source = 1 := by
  cases hslice : slice? s.start s.stop source with
  | none => simp only [markWidth, hslice]
  | some text => exact absurd (covers_of_slice hslice).sound h

theorem markWidth_pos (s : Span) (source : List Char) : 0 < s.markWidth source := by
  by_cases h : s.Sound source
  · obtain ⟨text, htext⟩ := h.exists_covers
    rw [markWidth_of_covers htext]
    exact Nat.lt_of_lt_of_le Nat.one_pos (Nat.le_max_left _ _)
  · rw [markWidth_of_not_sound h]
    exact Nat.one_pos

/-- The line of a block that shows the source. -/
def shownLine (s : Span) (source : List Char) : List Char :=
  (toString (s.position source).line).toList ++ [' ', '|', ' '] ++ s.lineText source

/-- The line of a block that holds the marker, up to the message. -/
def markedLine (s : Span) (source : List Char) : List Char :=
  List.replicate (toString (s.position source).line).length ' ' ++ [' ', '|', ' '] ++
    List.replicate ((s.position source).column - 1) ' ' ++
    List.replicate (s.markWidth source) '^'

theorem excerpt_eq (s : Span) (source : String) (file : Option String) (message : String) :
    ∃ heading, (s.excerpt source file message).toList =
      heading ++ '\n' :: s.shownLine source.toList ++ '\n' :: s.markedLine source.toList ++
        ' ' :: message.toList := by
  let p := s.position source.toList
  let margin := List.replicate (toString p.line).length ' '
  let place := file.elim p.text (· ++ ":" ++ p.text)
  refine ⟨margin ++ "--> ".toList ++ place.toList ++ '\n' :: margin ++ " |".toList, ?_⟩
  have hfeed : "\n".toList = ['\n'] := rfl
  have hbar : " |\n".toList = " |".toList ++ ['\n'] := rfl
  have hrule : " | ".toList = [' ', '|', ' '] := rfl
  have hblank : " ".toList = [' '] := rfl
  unfold excerpt
  simp only [shownLine, markedLine, String.toList_append, String.toList_ofList, hfeed, hbar, hrule,
    hblank, List.append_assoc, List.cons_append, List.nil_append]
  cases file <;> rfl

theorem feed_not_mem_shownLine (s : Span) (source : List Char) : '\n' ∉ s.shownLine source := by
  have hnumber : '\n' ∉ (toString (s.position source).line).toList := by
    intro hmem
    rw [Nat.toString_eq_repr, Nat.toList_repr] at hmem
    exact absurd (Nat.isDigit_of_mem_toDigits (by decide) (by decide) hmem) (by decide)
  simp only [shownLine, List.mem_append, not_or]
  exact ⟨⟨hnumber, by decide⟩, s.feed_not_mem_lineText source⟩

theorem feed_not_mem_markedLine (s : Span) (source : List Char) : '\n' ∉ s.markedLine source := by
  simp [markedLine]

theorem count_markedLine (s : Span) (source : List Char) :
    (s.markedLine source).count '^' = s.markWidth source := by
  simp [markedLine, List.count_replicate]

/-- The marker begins below the text before the start, after a margin as wide as that of the line
    above. -/
theorem idxOf_markedLine (s : Span) (source : List Char) :
    (s.markedLine source).idxOf '^' =
      ((toString (s.position source).line).toList ++ [' ', '|', ' ']).length +
        ((s.position source).column - 1) := by
  have hmark : (List.replicate (s.markWidth source) '^').idxOf '^' = 0 := by
    obtain ⟨n, hn⟩ := Nat.exists_eq_succ_of_ne_zero (s.markWidth_pos source).ne'
    rw [hn, List.replicate_succ, List.idxOf_cons_self]
  rw [markedLine, List.idxOf_append_of_notMem (by simp), hmark]
  simp only [List.length_append, List.length_replicate, String.length_toList, Nat.add_zero]

/-- What a block shows of a span that starts between two parts of a source, in a line with the text
    above a line with the marker. -/
structure Points (s : Span) (source before after above below : List Char) : Prop where
  line : s.lineText source = lineAround before after
  empty_at_end : after = [] → before.getLast? = some '\n' → s.lineText source = []
  /-- The column counts the characters of the line before the start. -/
  lead : ¬ BetweenReturnAndFeed before after →
    before.rtakeWhile (· ≠ '\n') = (s.lineText source).take ((s.position source).column - 1)
  /-- Where the line goes on, the first mark is below the character at the start. -/
  below_start : ¬ BetweenReturnAndFeed before after → ¬ LineOver after →
    above[below.idxOf '^']? = after.head?
  /-- Where the line is over, the first mark is right behind it. -/
  past_line : ¬ BetweenReturnAndFeed before after → LineOver after →
    below.idxOf '^' = above.length

/-- From the first mark on, the line above shows what follows the start in its line. -/
theorem shownLine_eq {before after : List Char} (hsource : source = before ++ after)
    (hstart : s.start = bytes before) (h : ¬ BetweenReturnAndFeed before after) :
    ∃ lead, s.shownLine source = lead ++ lineAround [] after ∧
      (s.markedLine source).idxOf '^' = lead.length := by
  refine ⟨(toString (s.position source).line).toList ++ [' ', '|', ' '] ++
    before.rtakeWhile (· ≠ '\n'), ?_, ?_⟩
  · rw [shownLine, lineText_eq hsource hstart, lineAround_eq_append h, ← List.append_assoc]
  · rw [idxOf_markedLine, column_eq hsource hstart, ← List.length_append]

theorem points {before after : List Char} (hsource : source = before ++ after)
    (hstart : s.start = bytes before) :
    s.Points source before after (s.shownLine source) (s.markedLine source) := by
  have hline := lineText_eq hsource hstart
  refine ⟨hline, ?_, ?_, ?_, ?_⟩
  · rintro rfl hlast
    obtain ⟨earlier, rfl⟩ := List.getLast?_eq_some_iff.mp hlast
    rw [hline, lineAround_append_feed]
    rfl
  · intro hbetween
    rw [hline, column_eq hsource hstart, lineAround_eq_append hbetween, List.take_left]
  · intro hbetween hover
    obtain ⟨lead, hshown, hmark⟩ := shownLine_eq hsource hstart hbetween
    rw [hmark, hshown, List.getElem?_append_right (Nat.le_refl _), Nat.sub_self,
      ← List.head?_eq_getElem?, head?_lineAround hover]
  · intro hbetween hover
    obtain ⟨lead, hshown, hmark⟩ := shownLine_eq hsource hstart hbetween
    rw [hmark, hshown, lineAround_of_lineOver hover, List.append_nil]

end Span

/-- **The marker points at the start.**  In the block for any span, whatever the file and the
    message are, the two lines before the message are one of the source and one with the marker.
    Lines and columns count from one, so that nothing is subtracted from zero. Where the span starts
    between two characters, the line shown is the one of that place, and the first mark stands below
    the character at the start, or past the line where the line is over; only a start between a
    carriage return and its line feed has no place in the line. There are as many marks as the first
    line of the span has characters, and one where there are none or the span is not sound. -/
theorem excerpt_marks_start (s : Span) (source : String) (file : Option String)
    (message : String) :
    (0 < (s.position source.toList).line ∧ 0 < (s.position source.toList).column) ∧
    ∃ heading above below : List Char,
      (s.excerpt source file message).toList =
        heading ++ '\n' :: above ++ '\n' :: below ++ ' ' :: message.toList ∧
      above = (toString (s.position source.toList).line).toList ++ [' ', '|', ' '] ++
        s.lineText source.toList ∧
      '\n' ∉ above ∧ '\n' ∉ below ∧
      (∀ before after, source.toList = before ++ after → s.start = Text.bytes before →
        s.Points source.toList before after above below) ∧
      (s.Sound source.toList → ∃ text, s.Covers source.toList text ∧
        below.count '^' = max 1 (Text.lineAround [] text).length) ∧
      (¬ s.Sound source.toList → below.count '^' = 1) := by
  obtain ⟨heading, hblock⟩ := s.excerpt_eq source file message
  refine ⟨s.position_pos source.toList, heading, _, _, hblock, rfl, s.feed_not_mem_shownLine _,
    s.feed_not_mem_markedLine _, fun before after => Span.points, ?_, ?_⟩
  · intro hsound
    obtain ⟨text, htext⟩ := hsound.exists_covers
    exact ⟨text, htext, by rw [Span.count_markedLine, Span.markWidth_of_covers htext]⟩
  · intro hsound
    rw [Span.count_markedLine, Span.markWidth_of_not_sound hsound]

/-- Characters of two bytes and a carriage return before the start move no mark, and a span that
    ends before it starts has one. -/
theorem excerpt_marks_start_two_bytes :
    (∃ heading above below : List Char,
      (Span.excerpt ⟨6, 8⟩ "é\r\nb\tç;" none "?").toList =
        heading ++ '\n' :: above ++ '\n' :: below ++ [' ', '?'] ∧
      above = "2 | b\tç;".toList ∧ above[below.idxOf '^']? = some 'ç') ∧
    ∃ heading above below : List Char,
      (Span.excerpt ⟨8, 6⟩ "é\r\nb\tç;" none "?").toList =
        heading ++ '\n' :: above ++ '\n' :: below ++ [' ', '?'] ∧
      above[below.idxOf '^']? = some ';' ∧ below.count '^' = 1 := by
  constructor
  · obtain ⟨-, heading, above, below, hblock, habove, -, -, hpoints, -⟩ :=
      excerpt_marks_start ⟨6, 8⟩ "é\r\nb\tç;" none "?"
    have hstart := hpoints ['é', '\r', '\n', 'b', '\t'] ['ç', ';'] rfl rfl
    refine ⟨heading, above, below, hblock, habove.trans (by decide), ?_⟩
    exact hstart.below_start (by simp [Text.BetweenReturnAndFeed]) (by simp [Text.LineOver])
  · obtain ⟨-, heading, above, below, hblock, -, -, -, hpoints, -, hunsound⟩ :=
      excerpt_marks_start ⟨8, 6⟩ "é\r\nb\tç;" none "?"
    have hstart := hpoints ['é', '\r', '\n', 'b', '\t', 'ç'] [';'] rfl rfl
    refine ⟨heading, above, below, hblock, ?_, hunsound fun h => absurd h.ordered (by decide)⟩
    exact hstart.below_start (by simp [Text.BetweenReturnAndFeed]) (by simp [Text.LineOver])

end LetTree

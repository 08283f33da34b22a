import Mathlib.Data.List.DropRight
import Mathlib.Data.Prod.Lex
import Mathlib.Order.Monotone.Basic
import LetTree.Proofs.Token.Spans

/-!
# Lines and columns

The place of an offset is that of the text before it: the number of its line feeds gives the line,
and the number of characters after the last of them the column. The text before an offset grows
with the offset, by whole characters, and every character moves the place forward in lexicographic
order. So lines and columns are coordinates: they keep the order of offsets, and no two offsets
between characters have the same ones.
-/

namespace LetTree

namespace Text

/-! ### The text before an offset -/

/-- The characters of a text that begins at the byte `offset`, each with its first byte. -/
def indexed (offset : Nat) : List Char → List (Nat × Char)
  | [] => []
  | c :: cs => (offset, c) :: indexed (offset + c.utf8Size) cs

/-- The characters whose first byte is before `offset`. -/
def begun (offset : Nat) (cs : List Char) : List Char :=
  ((indexed 0 cs).filter (·.1 < offset)).map (·.2)

theorem indexed_add (k offset : Nat) (cs : List Char) :
    indexed (offset + k) cs = (indexed offset cs).map fun i => (i.1 + k, i.2) := by
  induction cs generalizing offset with
  | nil => rfl
  | cons c cs ih =>
    have hnext : offset + k + c.utf8Size = offset + c.utf8Size + k := by omega
    rw [indexed, indexed, List.map_cons, hnext, ih]

@[simp] theorem begun_nil (offset : Nat) : begun offset [] = [] := rfl

theorem begun_cons (offset : Nat) (c : Char) (cs : List Char) :
    begun offset (c :: cs) = if offset = 0 then [] else c :: begun (offset - c.utf8Size) cs := by
  have hlater : ((indexed c.utf8Size cs).filter (·.1 < offset)).map (·.2) =
      begun (offset - c.utf8Size) cs := by
    have hmoved := indexed_add c.utf8Size 0 cs
    rw [Nat.zero_add] at hmoved
    rw [hmoved, List.filter_map, List.map_map, begun]
    congr 1
    refine List.filter_congr fun i _ => ?_
    simp only [Function.comp_apply, decide_eq_decide]
    omega
  by_cases hzero : offset = 0
  · rw [if_pos hzero, begun, hzero]
    simp
  · rw [if_neg hzero, begun, indexed, Nat.zero_add,
      List.filter_cons_of_pos (by simpa using Nat.pos_of_ne_zero hzero), List.map_cons, hlater]

@[simp] theorem begun_zero (cs : List Char) : begun 0 cs = [] := by
  cases cs with
  | nil => rfl
  | cons c cs => rw [begun_cons, if_pos rfl]

theorem begun_prefix (cs : List Char) : ∀ offset, begun offset cs <+: cs := by
  induction cs with
  | nil => exact fun offset => List.nil_prefix
  | cons c cs ih =>
    intro offset
    rw [begun_cons]
    split
    · exact List.nil_prefix
    · exact List.cons_prefix_cons.mpr ⟨rfl, ih _⟩

/-- The text before an offset grows with the offset. -/
theorem begun_mono (cs : List Char) :
    ∀ {offset later : Nat}, offset ≤ later → begun offset cs <+: begun later cs := by
  induction cs with
  | nil => exact fun _ => List.nil_prefix
  | cons c cs ih =>
    intro offset later hle
    rw [begun_cons, begun_cons]
    by_cases hzero : offset = 0
    · rw [if_pos hzero]
      exact List.nil_prefix
    · rw [if_neg hzero, if_neg (by omega)]
      exact List.cons_prefix_cons.mpr ⟨rfl, ih (Nat.sub_le_sub_right hle _)⟩

theorem begun_append {as : List Char} {offset : Nat} (h : bytes as ≤ offset) (bs : List Char) :
    begun offset (as ++ bs) = as ++ begun (offset - bytes as) bs := by
  induction as generalizing offset with
  | nil => rfl
  | cons c cs ih =>
    have hpos := c.utf8Size_pos
    rw [bytes] at h
    rw [List.cons_append, begun_cons, if_neg (by omega), ih (by omega), bytes, Nat.sub_sub]
    rfl

/-- Between two characters, the text before an offset is all that is before it. -/
theorem begun_bytes (before after : List Char) :
    begun (bytes before) (before ++ after) = before := by
  rw [begun_append (Nat.le_refl _), Nat.sub_self, begun_zero, List.append_nil]

/-- Of two parts before a place, the one with fewer bytes is the beginning of the other. -/
theorem prefix_of_bytes_le {before after before' after' : List Char}
    (hsplit : before ++ after = before' ++ after') (hle : bytes before ≤ bytes before') :
    before <+: before' := by
  have hgrows := begun_mono (before ++ after) hle
  rwa [begun_bytes, hsplit, begun_bytes] at hgrows

theorem begun_of_bytes_le {cs : List Char} {offset : Nat} (h : bytes cs ≤ offset) :
    begun offset cs = cs := by
  have hall := begun_append h []
  rwa [List.append_nil, begun_nil, List.append_nil] at hall

/-- The text before an offset inside a character holds that character. -/
theorem begun_inside {before after : List Char} {c : Char} {offset : Nat}
    (hlt : bytes before < offset) (hle : offset ≤ bytes (before ++ [c])) :
    begun offset (before ++ c :: after) = before ++ [c] := by
  have hend : offset - bytes before - c.utf8Size = 0 := by
    simp only [bytes_append, bytes] at hle
    omega
  rw [begun_append hlt.le, begun_cons, if_neg (by omega), hend, begun_zero]

end Text

namespace Position

/-! ### The place after a text -/

/-- The place after a text that begins at the first place. -/
def ofText (cs : List Char) : Position :=
  ⟨1 + cs.count '\n', 1 + (cs.rtakeWhile (· ≠ '\n')).length⟩

theorem ofText_concat (cs : List Char) (c : Char) : ofText (cs ++ [c]) = (ofText cs).after c := by
  by_cases hc : c = '\n'
  · subst hc
    simp [ofText, after, List.count_append, Nat.add_assoc]
  · simp [ofText, after, hc, List.count_append, Nat.add_assoc]

theorem foldl_after_first (cs : List Char) : cs.foldl after first = ofText cs := by
  induction cs using List.reverseRecOn with
  | nil => rfl
  | append_singleton cs c ih =>
    rw [List.foldl_append, ih, ofText_concat]
    rfl

/-- A walk goes over the characters that begin before its end. -/
theorem walk_eq_foldl (cs : List Char) :
    ∀ p offset, walk p offset cs = (Text.begun offset cs).foldl after p := by
  induction cs with
  | nil => exact fun _ _ => rfl
  | cons c cs ih =>
    intro p offset
    rw [walk, Text.begun_cons]
    split
    · rfl
    · rw [ih, List.foldl_cons]

theorem ofOffset_eq_ofText (source : List Char) (offset : Nat) :
    ofOffset source offset = ofText (Text.begun offset source) := by
  rw [ofOffset, walk_eq_foldl, foldl_after_first]

/-! ### The order of places -/

/-- Places in order: by lines first, and by columns in a line. -/
def key (p : Position) : ℕ ×ₗ ℕ := toLex (p.line, p.column)

theorem key_lt_after (p : Position) (c : Char) : p.key < (p.after c).key := by
  refine Prod.Lex.toLex_lt_toLex.mpr ?_
  unfold after
  split
  · exact .inl (Nat.lt_succ_self _)
  · exact .inr ⟨rfl, Nat.lt_succ_self _⟩

/-- More text has a later place. -/
theorem key_ofText_le_append (as bs : List Char) : (ofText as).key ≤ (ofText (as ++ bs)).key := by
  induction bs using List.reverseRecOn with
  | nil => rw [List.append_nil]
  | append_singleton bs b ih =>
    rw [← List.append_assoc, ofText_concat]
    exact ih.trans (key_lt_after _ b).le

theorem key_ofText_lt {as bs : List Char} (h : as <+: bs) (hne : as ≠ bs) :
    (ofText as).key < (ofText bs).key := by
  obtain ⟨more, rfl⟩ := h
  cases more with
  | nil => exact absurd (List.append_nil as).symm hne
  | cons c more =>
    have hmore := key_ofText_le_append (as ++ [c]) more
    rw [List.append_assoc, List.singleton_append] at hmore
    refine lt_of_lt_of_le ?_ hmore
    rw [ofText_concat]
    exact key_lt_after _ c

/-- What makes places coordinates of a source: they count the lines and the columns of the text
    before an offset, keep the order of offsets, and tell apart all offsets between characters. -/
structure Faithful (source : List Char) (place : Nat → Position) : Prop where
  begun_prefix : ∀ offset, Text.begun offset source <+: source
  line : ∀ offset, (place offset).line = 1 + (Text.begun offset source).count '\n'
  column : ∀ offset, (place offset).column =
    1 + ((Text.begun offset source).rtakeWhile (· ≠ '\n')).length
  monotone : Monotone fun offset => (place offset).key
  strictMonoOn : StrictMonoOn (fun offset => (place offset).key) {o | Text.Boundary source o}
  injOn : Set.InjOn place {o | Text.Boundary source o}
  past_end : ∀ offset, Text.bytes source ≤ offset → place offset = place (Text.bytes source)
  inside : ∀ before c after offset, source = before ++ c :: after → Text.bytes before < offset →
    offset ≤ Text.bytes (before ++ [c]) → place offset = place (Text.bytes (before ++ [c]))

variable {source : List Char}

theorem monotone_ofOffset : Monotone fun offset => (ofOffset source offset).key := by
  intro offset later hle
  simp only [ofOffset_eq_ofText]
  obtain ⟨more, hmore⟩ := Text.begun_mono source hle
  rw [← hmore]
  exact key_ofText_le_append _ more

theorem strictMonoOn_ofOffset :
    StrictMonoOn (fun offset => (ofOffset source offset).key) {o | Text.Boundary source o} := by
  rintro offset ⟨before, after, rfl, rfl⟩ later ⟨before', after', hsplit, rfl⟩ hlt
  have hbegun := Text.begun_bytes before' after'
  rw [← hsplit] at hbegun
  simp only [ofOffset_eq_ofText, Text.begun_bytes, hbegun]
  refine key_ofText_lt (Text.prefix_of_bytes_le hsplit hlt.le) ?_
  rintro rfl
  exact absurd hlt (Nat.lt_irrefl _)

theorem ofOffset_inside {before after : List Char} {c : Char} {offset : Nat}
    (hlt : Text.bytes before < offset) (hle : offset ≤ Text.bytes (before ++ [c])) :
    ofOffset (before ++ c :: after) offset =
      ofOffset (before ++ c :: after) (Text.bytes (before ++ [c])) := by
  have hbegun := Text.begun_bytes (before ++ [c]) after
  rw [List.append_assoc, List.singleton_append] at hbegun
  rw [ofOffset_eq_ofText, ofOffset_eq_ofText, Text.begun_inside hlt hle, hbegun]

end Position

/-- **Lines and columns are coordinates.**  The place of a span is counted on the text before its
    start: the characters whose first byte is before it. Places never go back when offsets go on,
    are different for different offsets between characters, stay the same past the end, and an
    offset inside a character has the place after that character. -/
theorem span_positions_faithful (source : List Char) (stop : Nat) :
    Position.Faithful source fun start => Span.position ⟨start, stop⟩ source where
  begun_prefix := Text.begun_prefix source
  line offset := by rw [Span.position, Position.ofOffset_eq_ofText, Position.ofText]
  column offset := by rw [Span.position, Position.ofOffset_eq_ofText, Position.ofText]
  monotone := Position.monotone_ofOffset
  strictMonoOn := Position.strictMonoOn_ofOffset
  injOn := by
    intro offset hoffset later hlater heq
    exact Position.strictMonoOn_ofOffset.injOn hoffset hlater (congrArg Position.key heq)
  past_end offset hpast := by
    simp only [Span.position, Position.ofOffset_eq_ofText, Text.begun_of_bytes_le hpast,
      Text.begun_of_bytes_le (Nat.le_refl _)]
  inside before c after offset hsource hlt hle := by
    subst hsource
    exact Position.ofOffset_inside hlt hle

example : [0, 1, 2, 3, 4, 9].map (Position.ofOffset ['é', '\n', 'b']) =
    [⟨1, 1⟩, ⟨1, 2⟩, ⟨1, 2⟩, ⟨2, 1⟩, ⟨2, 2⟩, ⟨2, 2⟩] := by
  decide

end LetTree

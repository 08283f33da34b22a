import Mathlib.Data.List.Infix
import LetTree.Node.Outline

/-!
# Drawings lose nothing

A tree can be told from its drawing. Each of the three stages of drawing is undone on its own: a
line gives back its row, because a guide ends in a blank and an arrow does not; rows give back their
outline, because the number of guides tells which entries lie below which; and an outline gives back
its tree, because its first text begins with the kind of the tree. Free text in names and strings
has no influence, since it always stands after all of this, or before a type that ends it.

The text of a whole drawing gives back its lines as long as no name or string breaks a line.
-/

namespace LetTree

/-! ### Rows from lines -/

namespace Row

/-- The characters of a line: two for each guide, two for the arrow, and the text. -/
theorem toList_line (guides : List Bool) (last : Bool) (text : String) :
    (⟨guides, last, text⟩ : Row).line.toList =
      guides.flatMap (fun goesOn => [if goesOn then '|' else ' ', ' ']) ++
        (if last then '`' else '|') :: '-' :: text.toList := by
  have hguides : (String.join (guides.map guide)).toList =
      guides.flatMap (fun goesOn => [if goesOn then '|' else ' ', ' ']) := by
    rw [String.toList_join, List.flatMap_map]
    congr 1
    funext goesOn
    cases goesOn <;> rfl
  rw [line, String.toList_append, String.toList_append, hguides]
  cases last <;> simp [arrow]

theorem line_injective {r r' : Row} (h : r.line = r'.line) : r = r' := by
  obtain ⟨guides, last, text⟩ := r
  obtain ⟨guides', last', text'⟩ := r'
  rw [← String.toList_inj, toList_line, toList_line] at h
  induction guides generalizing guides' with
  | nil =>
    cases guides' with
    | nil =>
      simp only [List.flatMap_nil, List.nil_append, List.cons.injEq, String.toList_inj] at h
      obtain ⟨hlast, -, rfl⟩ := h
      cases last <;> cases last' <;> simp_all
    | cons g gs =>
      -- An arrow ends in a dash and a guide in a blank.
      simp only [List.flatMap_cons, List.flatMap_nil, List.nil_append, List.cons_append,
        List.cons.injEq] at h
      exact absurd h.2.1 (by decide)
  | cons g gs ih =>
    cases guides' with
    | nil =>
      simp only [List.flatMap_cons, List.flatMap_nil, List.nil_append, List.cons_append,
        List.cons.injEq] at h
      exact absurd h.2.1 (by decide)
    | cons g' gs' =>
      simp only [List.flatMap_cons, List.nil_append, List.cons_append, List.cons.injEq] at h
      obtain ⟨hguide, -, hrest⟩ := h
      cases ih gs' hrest
      cases g <;> cases g' <;> simp_all

end Row

/-! ### Outlines from rows -/

namespace Outline

/-- Rows that do not begin below a depth: there are none, or the first has fewer guides. -/
def Above (depth : Nat) (rows : List Row) : Prop :=
  ∀ r ∈ rows.head?, r.guides.length < depth

theorem head_rows (guides : List Bool) (last : Bool) (o : Outline) :
    ∃ text below, o.rows guides last = ⟨guides, last, text⟩ :: below := by
  cases o with
  | entry text below => exact ⟨text, _, by rw [rows]⟩

/-- After an entry come the entries beside it and what is above them. -/
theorem above_rowsAll {guides : List Bool} {us : List Row} (os : List Outline)
    (h : Above guides.length us) : Above (guides.length + 1) (rowsAll guides os ++ us) := by
  cases os with
  | nil =>
    intro r hr
    rw [rowsAll, List.nil_append] at hr
    exact Nat.lt_succ_of_lt (h r hr)
  | cons o os =>
    intro r hr
    obtain ⟨text, below, hrows⟩ := o.head_rows guides os.isEmpty
    rw [rowsAll, hrows] at hr
    obtain rfl := Option.mem_some.mp hr
    exact Nat.lt_succ_self _

/-- Rows that are not above a depth cannot begin with a row of that depth. -/
theorem not_above_rows {guides : List Bool} {last : Bool} (o : Outline) (us : List Row) :
    ¬ Above guides.length (o.rows guides last ++ us) := by
  intro h
  obtain ⟨text, below, hrows⟩ := o.head_rows guides last
  rw [hrows] at h
  exact Nat.lt_irrefl _ (h _ rfl)

mutual

/-- The rows of an outline end where a row is no longer below its first one, so that an outline can
    be told from its rows whatever comes after them. -/
theorem rows_append_injective : (o o' : Outline) → {guides : List Bool} → {last last' : Bool} →
    {us vs : List Row} → Above (guides.length + 1) us → Above (guides.length + 1) vs →
    o.rows guides last ++ us = o'.rows guides last' ++ vs → o = o' ∧ us = vs
  | entry text below, entry text' below', guides, last, last', us, vs, hus, hvs, h => by
    simp only [rows, List.cons_append, List.cons.injEq, Row.mk.injEq, true_and] at h
    obtain ⟨⟨rfl, rfl⟩, hbelow⟩ := h
    have hdepth : (guides ++ [!last]).length = guides.length + 1 := by simp
    obtain ⟨rfl, rfl⟩ := rowsAll_append_injective below below'
      (by rwa [hdepth]) (by rwa [hdepth]) hbelow
    exact ⟨rfl, rfl⟩

theorem rowsAll_append_injective : (os os' : List Outline) → {guides : List Bool} →
    {us vs : List Row} → Above guides.length us → Above guides.length vs →
    rowsAll guides os ++ us = rowsAll guides os' ++ vs → os = os' ∧ us = vs
  | [], [], _, _, _, _, _, h => ⟨rfl, h⟩
  | [], o' :: os', _, us, vs, hus, _, h => by
    rw [rowsAll, rowsAll, List.nil_append, List.append_assoc] at h
    exact absurd (h ▸ hus) (o'.not_above_rows _)
  | o :: os, [], _, us, vs, _, hvs, h => by
    rw [rowsAll, rowsAll, List.nil_append, List.append_assoc] at h
    exact absurd (h ▸ hvs) (o.not_above_rows _)
  | o :: os, o' :: os', _, us, vs, hus, hvs, h => by
    rw [rowsAll, rowsAll, List.append_assoc, List.append_assoc] at h
    obtain ⟨rfl, hothers⟩ := rows_append_injective o o' (above_rowsAll os hus)
      (above_rowsAll os' hvs) h
    obtain ⟨rfl, rfl⟩ := rowsAll_append_injective os os' hus hvs hothers
    exact ⟨rfl, rfl⟩

end

theorem rows_injective {o o' : Outline} {guides : List Bool} {last : Bool}
    (h : o.rows guides last = o'.rows guides last) : o = o' := by
  have hnil : Above (guides.length + 1) [] := by
    intro r hr
    cases hr
  exact (rows_append_injective o o' hnil hnil (by rw [h])).1

end Outline

/-! ### Texts -/

theorem Operator.text_injective {op op' : Operator} (h : op.text = op'.text) : op = op' := by
  rw [← ofToken_text op, h, ofToken_text]

/-- The last letter of its text tells a type. -/
theorem Ty.eq_of_last {ty ty' : Ty}
    (h : ty.text.toList.getLast? = ty'.text.toList.getLast?) : ty = ty' := by
  cases ty <;> cases ty' <;> simp_all [Ty.text]

theorem Ty.text_injective {ty ty' : Ty} (h : ty.text = ty'.text) : ty = ty' :=
  eq_of_last (by rw [h])

/-- A name may hold anything, also what looks like a type: the type is what comes last. -/
theorem Declaration.text_injective {d d' : Declaration} (h : d.text = d'.text) : d = d' := by
  obtain ⟨ty, name⟩ := d
  obtain ⟨ty', name'⟩ := d'
  have hlast : ∀ (ty : Ty) (name : String), (⟨ty, name⟩ : Declaration).text.toList.getLast? =
      ty.text.toList.getLast? := by
    intro ty name
    rw [Declaration.text, String.toList_append, List.getLast?_append]
    cases ty <;> simp [Ty.text]
  have hty : ty = ty' := Ty.eq_of_last (by rw [← hlast ty name, h, hlast])
  subst hty
  simpa [Declaration.text] using h

/-- The text of an integer holds digits and a sign. -/
theorem isDigit_or_sign_of_mem (i : Int) {c : Char} (h : c ∈ i.repr.toList) :
    c.isDigit = true ∨ c = '-' := by
  have hdigits : ∀ n : Nat, c ∈ n.repr.toList → c.isDigit = true := by
    intro n hc
    rw [Nat.toList_repr] at hc
    exact Nat.isDigit_of_mem_toDigits (by decide) (by decide) hc
  cases i with
  | ofNat n => exact .inl (hdigits n h)
  | negSucc n =>
    rw [Int.repr, String.toList_append, List.mem_append] at h
    rcases h with h | h
    · exact .inr (List.mem_singleton.mp h)
    · exact .inl (hdigits _ h)

/-- An integer can be told from its text. -/
theorem int_eq_of_repr {i j : Int} (h : i.repr = j.repr) : i = j := by
  have hnat : ∀ m n : Nat, m.repr = n.repr → m = n := by
    intro m n h
    have hdigits : Nat.toDigits 10 m = Nat.toDigits 10 n := by
      rw [← Nat.toList_repr, h, Nat.toList_repr]
    rw [← Nat.ofDigitChars_ten_toDigits (n := m), hdigits, Nat.ofDigitChars_ten_toDigits]
  have hsign : ∀ m n : Nat, m.repr ≠ "-" ++ n.repr := by
    intro m n h
    have hmem : '-' ∈ m.repr.toList := by simp [h]
    rw [Nat.toList_repr] at hmem
    exact absurd (Nat.isDigit_of_mem_toDigits (by decide) (by decide) hmem) (by decide)
  cases i with
  | ofNat m =>
    cases j with
    | ofNat n => rw [hnat m n h]
    | negSucc n => exact absurd h (hsign m _)
  | negSucc m =>
    cases j with
    | ofNat n => exact absurd h.symm (hsign n _)
    | negSucc n => rw [Nat.succ.inj (hnat _ _ (String.append_right_inj _ |>.mp h))]

theorem Value.text_ne_int {v : Value} (hv : ∀ n, v ≠ .int n) (n : Int64) :
    v.text ≠ (Value.int n).text := by
  intro h
  have hchars : ∀ c ∈ v.text.toList, c.isDigit = true ∨ c = '-' := by
    intro c hc
    rw [h] at hc
    exact isDigit_or_sign_of_mem n.toInt hc
  cases v with
  | int m => exact hv m rfl
  | string s => exact absurd (hchars '"' (by simp [text])) (by decide)
  | void => exact absurd (hchars 'v' (by decide)) (by decide)
  | auto => exact absurd (hchars 'u' (by decide)) (by decide)

theorem Value.text_injective {v v' : Value} (h : v.text = v'.text) : v = v' := by
  by_cases hv : ∃ n, v = .int n
  · obtain ⟨n, rfl⟩ := hv
    by_cases hv' : ∃ n, v' = .int n
    · obtain ⟨n', rfl⟩ := hv'
      rw [Int64.toInt_inj.mp (int_eq_of_repr h)]
    · exact absurd h.symm (text_ne_int (not_exists.mp hv') n)
  · by_cases hv' : ∃ n, v' = .int n
    · obtain ⟨n', rfl⟩ := hv'
      exact absurd h (text_ne_int (not_exists.mp hv) n')
    · rw [← String.toList_inj] at h
      cases v <;> cases v' <;> simp_all [text, String.toList_inj]

/-! ### Trees from outlines -/

/-- The text of the topmost entry. -/
def Outline.title : Outline → String
  | entry text _ => text

namespace Node

theorem Kind.text_injective {k k' : Kind} (h : k.text = k'.text) : k = k' := by
  have hfound : ∀ k : Kind, ofText? k.text = some k := by
    intro k
    cases k with
    | reserved what => cases what <;> decide
    | _ => decide
  exact Option.some.inj (by rw [← hfound k, h, hfound])

/-- The topmost text of an outline has the kind of the tree up to its first colon. -/
theorem takeWhile_title (n : Node) :
    n.outline.title.toList.takeWhile (· ≠ ':') = n.kind.text.toList := by
  cases n with
  | value v =>
    rw [outline, Outline.leaf, Outline.title, String.toList_append]
    simp [kind, Kind.text]
  | reserved what => cases what <;> decide
  | _ => simp [outline, Outline.title, kind, Kind.text]

theorem kind_eq_of_outline {a b : Node} (h : a.outline = b.outline) : a.kind = b.kind := by
  apply Kind.text_injective
  rw [← String.toList_inj, ← takeWhile_title, h, takeWhile_title]

/-- Entries without anything below them, one for each declaration. -/
theorem map_leaf_injective {ds ds' : List Declaration}
    (h : ds.map (fun d => Outline.leaf d.text) = ds'.map fun d => Outline.leaf d.text) :
    ds = ds' := by
  refine List.map_injective_iff.mpr ?_ h
  intro d d' hleaf
  injection hleaf with htext
  exact Declaration.text_injective htext

mutual

theorem outline_injective : (a b : Node) → a.outline = b.outline → a = b
  | binary op l r, b, h => by
    have hkind := kind_eq_of_outline h
    cases b with
    | binary op' l' r' =>
      simp only [outline, Outline.leaf, Outline.entry.injEq, List.cons.injEq, and_true, true_and,
        String.append_right_inj] at h
      obtain ⟨hop, hl, hr⟩ := h
      rw [Operator.text_injective hop, outline_injective l l' hl, outline_injective r r' hr]
    | _ => cases hkind
  | binding decl init, b, h => by
    have hkind := kind_eq_of_outline h
    cases b with
    | binding decl' init' =>
      obtain ⟨ty, name⟩ := decl
      obtain ⟨ty', name'⟩ := decl'
      simp only [outline, Outline.leaf, Outline.entry.injEq, List.cons.injEq, and_true, true_and,
        String.append_right_inj] at h
      obtain ⟨hty, rfl, hinit⟩ := h
      rw [Ty.text_injective hty, outline_injective init init' hinit]
    | _ => cases hkind
  | value v, b, h => by
    have hkind := kind_eq_of_outline h
    cases b with
    | value v' =>
      simp only [outline, Outline.leaf, Outline.entry.injEq, and_true, String.append_right_inj] at h
      rw [Value.text_injective h]
    | _ => cases hkind
  | reserved what, b, h => by
    have hkind := kind_eq_of_outline h
    cases b with
    | reserved what' =>
      injection hkind with hwhat
      rw [hwhat]
    | _ => cases hkind
  | function name returns params body, b, h => by
    have hkind := kind_eq_of_outline h
    cases b with
    | function name' returns' params' body' =>
      simp only [outline, Outline.leaf, Outline.entry.injEq, List.cons.injEq, and_true, true_and,
        String.append_right_inj] at h
      obtain ⟨rfl, hreturns, hparams, hbody⟩ := h
      rw [Ty.text_injective hreturns, map_leaf_injective hparams,
        outlineAll_injective body body' hbody]
    | _ => cases hkind
  | declaration decl, b, h => by
    have hkind := kind_eq_of_outline h
    cases b with
    | declaration decl' =>
      obtain ⟨ty, name⟩ := decl
      obtain ⟨ty', name'⟩ := decl'
      simp only [outline, Outline.leaf, Outline.entry.injEq, List.cons.injEq, and_true, true_and,
        String.append_right_inj] at h
      obtain ⟨hty, rfl⟩ := h
      rw [Ty.text_injective hty]
    | _ => cases hkind
  | declarations decls, b, h => by
    have hkind := kind_eq_of_outline h
    cases b with
    | declarations decls' =>
      simp only [outline, Outline.entry.injEq, true_and] at h
      rw [map_leaf_injective h]
    | _ => cases hkind
  | statements items, b, h => by
    have hkind := kind_eq_of_outline h
    cases b with
    | statements items' =>
      simp only [outline, Outline.entry.injEq, true_and] at h
      rw [outlineAll_injective items items' h]
    | _ => cases hkind

theorem outlineAll_injective : (as bs : List Node) → outlineAll as = outlineAll bs → as = bs
  | [], [], _ => rfl
  | [], _ :: _, h => by
    rw [outlineAll, outlineAll] at h
    cases h
  | _ :: _, [], h => by
    rw [outlineAll, outlineAll] at h
    cases h
  | a :: as, b :: bs, h => by
    rw [outlineAll, outlineAll, List.cons.injEq] at h
    rw [outline_injective a b h.1, outlineAll_injective as bs h.2]

end

theorem lines_injective {a b : Node} (h : a.lines = b.lines) : a = b := by
  have hrows : a.rows = b.rows := List.map_injective_iff.mpr (fun _ _ => Row.line_injective) h
  exact outline_injective a b (Outline.rows_injective hrows)

/-! ### Unbroken lines -/

mutual

/-- The names and strings in a tree. -/
def texts : Node → List String
  | binary _ left right => left.texts ++ right.texts
  | binding decl init => decl.name :: init.texts
  | value (.string s) => [s]
  | value _ => []
  | reserved _ => []
  | function name _ params body => name :: (params.map (·.name) ++ textsAll body)
  | declaration decl => [decl.name]
  | declarations decls => decls.map (·.name)
  | statements items => textsAll items

def textsAll : List Node → List String
  | [] => []
  | n :: ns => n.texts ++ textsAll ns

end

end Node

/-- A text that stays on its line. -/
def Unbroken (text : String) : Prop := '\n' ∉ text.toList

instance (text : String) : Decidable (Unbroken text) :=
  inferInstanceAs (Decidable ('\n' ∉ text.toList))

theorem Unbroken.append {s t : String} (hs : Unbroken s) (ht : Unbroken t) :
    Unbroken (s ++ t) := by
  rw [Unbroken, String.toList_append, List.mem_append, not_or]
  exact ⟨hs, ht⟩

/-- Unbroken texts are told apart after they have been put together, each with a line feed. -/
theorem join_unbroken_injective {ls ls' : List String} (hls : ∀ l ∈ ls, Unbroken l)
    (hls' : ∀ l ∈ ls', Unbroken l)
    (h : String.join (ls.map (· ++ "\n")) = String.join (ls'.map (· ++ "\n"))) : ls = ls' := by
  have htoList : ∀ (l : String) (ls : List String),
      (String.join ((l :: ls).map (· ++ "\n"))).toList =
        l.toList ++ '\n' :: (String.join (ls.map (· ++ "\n"))).toList := by
    intro l ls
    simp
  have hfirst : ∀ (l : String) (rest : List Char), Unbroken l →
      (l.toList ++ '\n' :: rest).takeWhile (· ≠ '\n') = l.toList := by
    intro l rest hl
    rw [List.takeWhile_append_of_pos]
    · simp
    · intro c hc
      simpa using ne_of_mem_of_not_mem hc hl
  induction ls generalizing ls' with
  | nil =>
    cases ls' with
    | nil => rfl
    | cons l' ls' =>
      rw [← String.toList_inj, htoList] at h
      simp at h
  | cons l ls ih =>
    cases ls' with
    | nil =>
      rw [← String.toList_inj, htoList] at h
      simp at h
    | cons l' ls' =>
      rw [List.forall_mem_cons] at hls hls'
      rw [← String.toList_inj, htoList, htoList] at h
      have hhead := congrArg (List.takeWhile (· ≠ '\n')) h
      rw [hfirst l _ hls.1, hfirst l' _ hls'.1, String.toList_inj] at hhead
      subst hhead
      have htail := (List.cons.inj (List.append_cancel_left h)).2
      rw [ih hls.2 hls'.2 (String.toList_inj.mp htail)]

theorem Operator.unbroken_text (op : Operator) : Unbroken op.text := by
  cases op <;> decide

theorem Ty.unbroken_text (ty : Ty) : Unbroken ty.text := by
  cases ty <;> decide

theorem Declaration.unbroken_text {d : Declaration} (h : Unbroken d.name) : Unbroken d.text :=
  (h.append (by decide)).append d.ty.unbroken_text

theorem Value.unbroken_text {v : Value} (h : ∀ s, v = .string s → Unbroken s) :
    Unbroken v.text := by
  cases v with
  | int n =>
    intro hmem
    exact absurd (isDigit_or_sign_of_mem n.toInt hmem) (by decide)
  | string s => exact ((by decide : Unbroken "\"").append (h s rfl)).append (by decide)
  | void => exact (by decide : Unbroken "void")
  | auto => exact (by decide : Unbroken "auto")

namespace Outline

mutual

/-- Every text of an outline. -/
def Each (P : String → Prop) : Outline → Prop
  | entry text below => P text ∧ EachOf P below

def EachOf (P : String → Prop) : List Outline → Prop
  | [] => True
  | o :: os => o.Each P ∧ EachOf P os

end

theorem eachOf_map_leaf {α : Type} {P : String → Prop} {f : α → String} {as : List α}
    (h : ∀ a ∈ as, P (f a)) : EachOf P (as.map fun a => leaf (f a)) := by
  induction as with
  | nil => exact trivial
  | cons a as ih =>
    obtain ⟨hone, hothers⟩ := List.forall_mem_cons.mp h
    exact ⟨⟨hone, trivial⟩, ih hothers⟩

mutual

theorem each_rows {P : String → Prop} : (o : Outline) → o.Each P → ∀ guides last,
    ∀ r ∈ o.rows guides last, P r.text
  | entry text below, h, guides, last, r, hr => by
    rw [rows] at hr
    rcases List.mem_cons.mp hr with rfl | hr
    · exact h.1
    · exact each_rowsAll below h.2 _ r hr

theorem each_rowsAll {P : String → Prop} : (os : List Outline) → EachOf P os → ∀ guides,
    ∀ r ∈ rowsAll guides os, P r.text
  | [], _, _, r, hr => by
    rw [rowsAll] at hr
    cases hr
  | o :: os, h, guides, r, hr => by
    rw [rowsAll] at hr
    rcases List.mem_append.mp hr with hr | hr
    · exact each_rows o h.1 _ _ r hr
    · exact each_rowsAll os h.2 _ r hr

end

end Outline

namespace Node

mutual

theorem unbroken_outline : (n : Node) → (∀ t ∈ n.texts, Unbroken t) → n.outline.Each Unbroken
  | binary op l r, h => by
    rw [texts, List.forall_mem_append] at h
    rw [outline]
    exact ⟨by decide, ⟨(by decide : Unbroken "Operator: ").append op.unbroken_text, trivial⟩,
      ⟨by decide, unbroken_outline l h.1, trivial⟩, ⟨by decide, unbroken_outline r h.2, trivial⟩,
      trivial⟩
  | binding decl init, h => by
    rw [texts, List.forall_mem_cons] at h
    rw [outline]
    exact ⟨by decide, ⟨(by decide : Unbroken "typeinfo: ").append decl.ty.unbroken_text, trivial⟩,
      ⟨(by decide : Unbroken "identifier: ").append h.1, trivial⟩,
      ⟨by decide, unbroken_outline init h.2, trivial⟩, trivial⟩
  | value v, h => by
    have hv : ∀ s, v = .string s → Unbroken s := by
      rintro s rfl
      rw [texts] at h
      exact h s List.mem_cons_self
    rw [outline]
    exact ⟨(by decide : Unbroken "Value: ").append (Value.unbroken_text hv), trivial⟩
  | reserved what, _ => by
    have hwhat : Unbroken ((Kind.reserved what).text ++ ": <not lowered>") := by
      cases what <;> decide
    rw [outline]
    exact ⟨hwhat, trivial⟩
  | function name returns params body, h => by
    rw [texts, List.forall_mem_cons, List.forall_mem_append, List.forall_mem_map] at h
    rw [outline]
    exact ⟨by decide, ⟨(by decide : Unbroken "identifier: ").append h.1, trivial⟩,
      ⟨(by decide : Unbroken "return type: ").append returns.unbroken_text, trivial⟩,
      ⟨by decide, Outline.eachOf_map_leaf fun d hd => Declaration.unbroken_text (h.2.1 d hd)⟩,
      ⟨by decide, unbroken_outlineAll body h.2.2⟩, trivial⟩
  | declaration decl, h => by
    rw [texts, List.forall_mem_singleton] at h
    rw [outline]
    exact ⟨by decide, ⟨(by decide : Unbroken "typeinfo: ").append decl.ty.unbroken_text, trivial⟩,
      ⟨(by decide : Unbroken "identifier: ").append h, trivial⟩, trivial⟩
  | declarations decls, h => by
    rw [texts, List.forall_mem_map] at h
    rw [outline]
    exact ⟨by decide, Outline.eachOf_map_leaf fun d hd => Declaration.unbroken_text (h d hd)⟩
  | statements items, h => by
    rw [texts] at h
    rw [outline]
    exact ⟨by decide, unbroken_outlineAll items h⟩

theorem unbroken_outlineAll : (ns : List Node) → (∀ t ∈ textsAll ns, Unbroken t) →
    Outline.EachOf Unbroken (outlineAll ns)
  | [], _ => trivial
  | n :: ns, h => by
    rw [textsAll, List.forall_mem_append] at h
    rw [outlineAll]
    exact ⟨unbroken_outline n h.1, unbroken_outlineAll ns h.2⟩

end

theorem unbroken_lines {n : Node} (h : ∀ t ∈ n.texts, Unbroken t) : ∀ l ∈ n.lines, Unbroken l := by
  intro l hl
  obtain ⟨r, hr, rfl⟩ := List.mem_map.mp hl
  have htext := Outline.each_rows n.outline (unbroken_outline n h) [] true r hr
  obtain ⟨guides, last, text⟩ := r
  rw [Unbroken, Row.toList_line]
  simp only [List.mem_append, List.mem_flatMap, List.mem_cons, not_or]
  refine ⟨?_, ?_, by decide, htext⟩
  · rintro ⟨goesOn, -, hguide⟩
    cases goesOn <;> simp at hguide
  · cases last <;> decide

theorem render_injective {a b : Node} (ha : ∀ t ∈ a.texts, Unbroken t)
    (hb : ∀ t ∈ b.texts, Unbroken t) (h : a.render = b.render) : a = b :=
  lines_injective (join_unbroken_injective (unbroken_lines ha) (unbroken_lines hb) h)

end Node

/-- **A drawing tells its tree.**  Two trees with the same lines are the same, whatever their names
    and strings are; and if none of these holds a line feed, so are two trees whose drawings are the
    same text. -/
theorem drawing_injective (a b : Node) :
    (a.lines = b.lines → a = b) ∧
      ((∀ text ∈ a.texts ++ b.texts, '\n' ∉ text.toList) → a.render = b.render → a = b) := by
  refine ⟨Node.lines_injective, ?_⟩
  intro h
  rw [List.forall_mem_append] at h
  exact Node.render_injective h.1 h.2

/-- A string that draws the line of a second entry makes two drawings equal as texts, but not as
    lines. -/
theorem drawing_injective_forged_entry :
    let forged := Node.statements [.value (.string "x\"\n  |-Value: \"y"), .value (.int 1)]
    let plain := Node.statements [.value (.string "x"), .value (.string "y"), .value (.int 1)]
    forged.render = plain.render ∧ forged.lines ≠ plain.lines := by
  intro forged plain
  refine ⟨by decide, ?_⟩
  intro h
  exact absurd ((drawing_injective forged plain).1 h) (by decide)

end LetTree

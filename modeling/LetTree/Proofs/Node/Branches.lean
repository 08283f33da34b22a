import Mathlib.Data.List.Chain
import LetTree.Proofs.Node.Drawing

/-!
# Branches of a drawing

Every line of a drawing begins with cells of two characters, one for each column, and the branch
that leaves an entry runs down its column to the entry that closes it. Whether a column runs on
below a row is told by the row alone (`Row.stem`). A row is followed by an entry below it, which
takes over all its columns, or by one beside the entry of its innermost column that runs on; then
the columns further in have been closed (`Follows`). At the end of a drawing all columns are closed.
-/

namespace LetTree

/-! ### Cells -/

/-- What stands in one column of a line. -/
inductive Cell where
  | bar
  | blank
  | branch
  | close
  deriving DecidableEq, Repr

namespace Cell

def text : Cell → String
  | bar => "| "
  | blank => "  "
  | branch => "|-"
  | close => "`-"

/-- The cells from which a branch runs on into the line below. -/
def runsOn : Cell → Bool
  | bar | branch => true
  | blank | close => false

/-- The cell of a guide. -/
def guide (goesOn : Bool) : Cell := if goesOn then bar else blank

def arrow (last : Bool) : Cell := if last then close else branch

theorem runsOn_guide (goesOn : Bool) : (guide goesOn).runsOn = goesOn := by
  cases goesOn <;> rfl

theorem runsOn_arrow (last : Bool) : (arrow last).runsOn = !last := by
  cases last <;> rfl

/-- The cells at the beginning of a line, up to the first arrow. -/
def read : List Char → List Cell
  | '|' :: ' ' :: cs => bar :: read cs
  | ' ' :: ' ' :: cs => blank :: read cs
  | '|' :: '-' :: _ => [branch]
  | '`' :: '-' :: _ => [close]
  | _ => []

def ofLine (line : String) : List Cell := read line.toList

end Cell

/-- A line is made of bars and blanks, an arrow, and a text. -/
def Drawn (line : String) : Prop :=
  ∃ (guides : List Cell) (arrow : Cell) (text : String),
    (∀ g ∈ guides, g = .bar ∨ g = .blank) ∧ (arrow = .branch ∨ arrow = .close) ∧
      Cell.ofLine line = guides ++ [arrow] ∧
      line = String.join ((guides ++ [arrow]).map Cell.text) ++ text

/-- How the cells of a line go on in the line below. -/
structure Continues (upper lower : List Cell) : Prop where
  /-- A branch that runs on is met by a bar or an arrow. -/
  kept : ∀ (k : Nat) (c : Cell), upper[k]? = some c → c.runsOn = true →
    ∃ d, lower[k]? = some d ∧ d ≠ .blank
  /-- Below a closed column there is nothing. -/
  ended : ∀ (k : Nat) (c d : Cell), upper[k]? = some c → c.runsOn = false →
    lower[k]? = some d → d = .blank
  /-- Columns are opened one at a time. -/
  deeper : lower.length ≤ upper.length + 1

/-- The cell of column `k` in line `i`. -/
def cellAt (lines : List (List Cell)) (i k : Nat) : Option Cell := lines[i]?.bind (·[k]?)

/-- Branches that are met in each line by a bar or an arrow, and of which none is left over at the
    end, run to a closing arrow in their own column. -/
theorem exists_close_of_runsOn {lines : List (List Cell)} (hchain : lines.IsChain Continues)
    (hlast : ∀ cs ∈ lines.getLast?, ∀ c ∈ cs, c.runsOn = false) :
    ∀ i k c, cellAt lines i k = some c → c.runsOn = true → ∃ j, i < j ∧
      cellAt lines j k = some .close ∧
      ∀ m, i < m → m < j → ∃ d, cellAt lines m k = some d ∧ d.runsOn = true := by
  induction lines with
  | nil =>
    intro i k c hc
    cases hc
  | cons upper lines ih =>
    intro i k c hc hrun
    cases lines with
    | nil =>
      cases i with
      | zero =>
        have hclosed := hlast upper rfl c (List.mem_of_getElem? hc)
        rw [hrun] at hclosed
        cases hclosed
      | succ i => cases hc
    | cons lower lines =>
      obtain ⟨hnext, hchain⟩ := List.isChain_cons_cons.mp hchain
      rw [List.getLast?_cons_cons] at hlast
      -- The branch ends in the next line, or the argument goes on from there.
      have hbelow := ih hchain hlast
      have hlater : ∀ i c, cellAt (lower :: lines) i k = some c → c.runsOn = true →
          ∃ j, i + 1 < j ∧ cellAt (upper :: lower :: lines) j k = some .close ∧
            ∀ m, i + 1 < m → m < j →
              ∃ d, cellAt (upper :: lower :: lines) m k = some d ∧ d.runsOn = true := by
        intro i c hc hrun
        obtain ⟨j, hij, hclose, hbetween⟩ := hbelow i k c hc hrun
        refine ⟨j + 1, by omega, hclose, ?_⟩
        intro m him hmj
        obtain ⟨m, rfl⟩ : ∃ m', m = m' + 1 := ⟨m - 1, by omega⟩
        exact hbetween m (by omega) (by omega)
      cases i with
      | succ i => exact hlater i c hc hrun
      | zero =>
        obtain ⟨d, hd, hblank⟩ := hnext.kept k c hc hrun
        cases hcell : d with
        | blank => exact absurd hcell hblank
        | close =>
          refine ⟨1, Nat.one_pos, hcell ▸ hd, ?_⟩
          intro m hzero hone
          omega
        | bar | branch =>
          have hgoes : d.runsOn = true := by rw [hcell]; rfl
          obtain ⟨j, hj, hclose, hbetween⟩ := hlater 0 d hd hgoes
          refine ⟨j, by omega, hclose, ?_⟩
          intro m hzero hmj
          rcases Nat.eq_or_lt_of_le (Nat.succ_le_of_lt hzero) with rfl | hone
          · exact ⟨d, hd, hgoes⟩
          · exact hbetween m hone hmj

/-! ### Rows -/

namespace Row

def cells (r : Row) : List Cell := r.guides.map Cell.guide ++ [Cell.arrow r.last]

/-- For each column of a row whether its branch runs on below. -/
def stem (r : Row) : List Bool := r.guides ++ [!r.last]

theorem map_runsOn_cells (r : Row) : r.cells.map Cell.runsOn = r.stem := by
  simp [cells, stem, Function.comp_def, Cell.runsOn_guide, Cell.runsOn_arrow]

theorem length_cells (r : Row) : r.cells.length = r.guides.length + 1 := by
  simp [cells]

theorem getElem?_stem {r : Row} {k : Nat} {c : Cell} (h : r.cells[k]? = some c) :
    r.stem[k]? = some c.runsOn := by
  rw [← map_runsOn_cells, List.getElem?_map, h]
  rfl

theorem getElem?_cells_guide {r : Row} {k : Nat} {goesOn : Bool} (h : r.guides[k]? = some goesOn) :
    r.cells[k]? = some (.guide goesOn) := by
  have hk : k < r.guides.length := (List.getElem?_eq_some_iff.mp h).1
  rw [cells, List.getElem?_append_left (by simpa using hk), List.getElem?_map, h]
  rfl

theorem getElem?_cells_arrow (r : Row) : r.cells[r.guides.length]? = some (.arrow r.last) := by
  simp [cells]

/-- The cells of a line are those of its row, whatever its text is. -/
theorem ofLine_line (r : Row) : Cell.ofLine r.line = r.cells := by
  obtain ⟨guides, last, text⟩ := r
  rw [Cell.ofLine, toList_line, cells]
  induction guides with
  | nil => cases last <;> rfl
  | cons goesOn guides ih =>
    cases goesOn
    · exact congrArg (Cell.blank :: ·) ih
    · exact congrArg (Cell.bar :: ·) ih

theorem line_eq (r : Row) : r.line = String.join (r.cells.map Cell.text) ++ r.text := by
  have hguide : ∀ goesOn, (Cell.guide goesOn).text = guide goesOn := by
    intro goesOn
    cases goesOn <;> rfl
  have harrow : (Cell.arrow r.last).text = arrow r.last := by
    cases r.last <;> rfl
  simp [line, cells, Function.comp_def, hguide, harrow]

theorem drawn_line (r : Row) : Drawn r.line := by
  refine ⟨r.guides.map .guide, .arrow r.last, r.text, ?_, ?_, r.ofLine_line, r.line_eq⟩
  · intro g hg
    obtain ⟨goesOn, -, rfl⟩ := List.mem_map.mp hg
    cases goesOn
    · exact .inr rfl
    · exact .inl rfl
  · cases r.last
    · exact .inl rfl
    · exact .inr rfl

end Row

/-- What comes after a row: an entry below it, or one beside the entry of the innermost column that
    runs on. -/
def Follows (upper lower : Row) : Prop :=
  upper.stem = lower.guides ∨
    ∃ closed, upper.stem = lower.guides ++ true :: List.replicate closed false

theorem Follows.continues {upper lower : Row} (h : Follows upper lower) :
    Continues upper.cells lower.cells where
  kept k c hc hrun := by
    have hstem := Row.getElem?_stem hc
    rw [hrun] at hstem
    rcases h with h | ⟨closed, h⟩
    · rw [h] at hstem
      exact ⟨.bar, Row.getElem?_cells_guide hstem, nofun⟩
    · rw [h, List.getElem?_append] at hstem
      split at hstem
      · exact ⟨.bar, Row.getElem?_cells_guide hstem, nofun⟩
      · next hk =>
        have hcolumn : k = lower.guides.length := by
          by_contra hne
          obtain ⟨i, hi⟩ : ∃ i, k - lower.guides.length = i + 1 :=
            ⟨k - lower.guides.length - 1, by omega⟩
          rw [hi, List.getElem?_cons_succ, List.getElem?_replicate] at hstem
          split at hstem <;> simp at hstem
        refine ⟨_, hcolumn ▸ lower.getElem?_cells_arrow, ?_⟩
        cases lower.last <;> nofun
  ended k c d hc hrun hd := by
    have hstem := Row.getElem?_stem hc
    rw [hrun] at hstem
    have hk : k < lower.guides.length + 1 := by
      rw [← lower.length_cells]
      exact (List.getElem?_eq_some_iff.mp hd).1
    have hguide : lower.guides[k]? = some false := by
      rcases h with h | ⟨closed, h⟩
      · rwa [h] at hstem
      · rw [h, List.getElem?_append] at hstem
        split at hstem
        · exact hstem
        · next hle =>
          -- The column of the entry itself runs on.
          rw [show k - lower.guides.length = 0 by omega] at hstem
          cases hstem
    rw [Row.getElem?_cells_guide hguide] at hd
    exact (Option.some.inj hd).symm
  deeper := by
    have hlength : upper.cells.length = upper.stem.length := by
      rw [← upper.map_runsOn_cells, List.length_map]
    rw [lower.length_cells, hlength]
    rcases h with h | ⟨closed, h⟩
    · rw [h]
    · rw [h, List.length_append]
      omega

namespace Outline

theorem guides_head_rowsAll (guides : List Bool) (os : List Outline) :
    ∀ r ∈ (rowsAll guides os).head?, r.guides = guides := by
  intro r hr
  cases os with
  | nil =>
    rw [rowsAll] at hr
    cases hr
  | cons o os =>
    obtain ⟨text, below, hrows⟩ := o.head_rows guides os.isEmpty
    rw [rowsAll, hrows] at hr
    obtain rfl := Option.mem_some.mp hr
    rfl

mutual

/-- The rows of an entry follow each other, and at the end every column further in than that of the
    entry is closed. -/
theorem rows_follow : (o : Outline) → (guides : List Bool) → (last : Bool) →
    (o.rows guides last).IsChain Follows ∧ ∀ r ∈ (o.rows guides last).getLast?,
      ∃ closed, r.stem = guides ++ (!last) :: List.replicate closed false
  | entry text below, guides, last => by
    obtain ⟨hchain, hend⟩ := rowsAll_follow below (guides ++ [!last])
    rw [rows]
    refine ⟨List.isChain_cons.mpr ⟨?_, hchain⟩, ?_⟩
    · intro r hr
      exact .inl (guides_head_rowsAll _ _ r hr).symm
    · intro r hr
      rw [List.getLast?_cons, Option.mem_some] at hr
      cases hbelow : (rowsAll (guides ++ [!last]) below).getLast? with
      | none =>
        rw [hbelow] at hr
        exact ⟨0, by rw [← hr]; rfl⟩
      | some r' =>
        rw [hbelow] at hr
        obtain rfl : r' = r := hr
        obtain ⟨closed, hstem⟩ := hend r' hbelow
        refine ⟨closed + 1, ?_⟩
        rw [hstem, List.append_assoc, List.singleton_append, List.replicate_succ]

theorem rowsAll_follow : (os : List Outline) → (guides : List Bool) →
    (rowsAll guides os).IsChain Follows ∧ ∀ r ∈ (rowsAll guides os).getLast?,
      ∃ closed, r.stem = guides ++ false :: List.replicate closed false
  | [], guides => by
    rw [rowsAll]
    exact ⟨.nil, nofun⟩
  | [o], guides => by
    rw [rowsAll, rowsAll, List.append_nil]
    exact rows_follow o guides true
  | o :: o' :: os, guides => by
    obtain ⟨hfirst, hfirstEnd⟩ := rows_follow o guides false
    obtain ⟨hothers, hend⟩ := rowsAll_follow (o' :: os) guides
    have hne : rowsAll guides (o' :: os) ≠ [] := by
      obtain ⟨text, below, hrows⟩ := o'.head_rows guides os.isEmpty
      rw [rowsAll, hrows]
      exact List.cons_ne_nil _ _
    rw [rowsAll, List.isEmpty_cons]
    refine ⟨List.isChain_append.mpr ⟨hfirst, hothers, ?_⟩, ?_⟩
    · intro r hr r' hr'
      obtain ⟨closed, hstem⟩ := hfirstEnd r hr
      rw [← guides_head_rowsAll guides (o' :: os) r' hr'] at hstem
      exact .inr ⟨closed, hstem⟩
    · rw [List.getLast?_append_of_ne_nil _ hne]
      exact hend

end

end Outline

namespace Node

theorem map_ofLine_lines (n : Node) : n.lines.map Cell.ofLine = n.rows.map Row.cells := by
  rw [lines, List.map_map]
  exact List.map_congr_left fun r _ => r.ofLine_line

theorem closed_of_last (n : Node) :
    ∀ cs ∈ (n.rows.map Row.cells).getLast?, ∀ c ∈ cs, c.runsOn = false := by
  intro cs hcs c hc
  rw [List.getLast?_map] at hcs
  obtain ⟨r, hr, rfl⟩ := Option.map_eq_some_iff.mp hcs
  obtain ⟨closed, hstem⟩ := (n.outline.rows_follow [] true).2 r hr
  have hmem : c.runsOn ∈ r.stem := r.map_runsOn_cells ▸ List.mem_map_of_mem hc
  rw [hstem, List.nil_append, Bool.not_true, ← List.replicate_succ] at hmem
  exact List.eq_of_mem_replicate hmem

end Node

/-- **Branches run unbroken.**  Every line of a drawing is a row of bars and blanks, an arrow and a
    text, and the first line has no more than a closing arrow before its text. From line to line a
    branch that runs on is met by a bar or an arrow in its column, below a closed column there is
    nothing, and at most one column is opened; in the last line every column is closed. So each bar
    and each branch runs down its own column to a closing arrow. -/
theorem branches_run_unbroken (n : Node) :
    (∀ line ∈ n.lines, Drawn line) ∧
    (n.lines.map Cell.ofLine).head? = some [.close] ∧
    (n.lines.map Cell.ofLine).IsChain Continues ∧
    (∀ cs ∈ (n.lines.map Cell.ofLine).getLast?, ∀ c ∈ cs, c.runsOn = false) ∧
    ∀ i k c, cellAt (n.lines.map Cell.ofLine) i k = some c → c.runsOn = true → ∃ j, i < j ∧
      cellAt (n.lines.map Cell.ofLine) j k = some .close ∧
      ∀ m, i < m → m < j →
        ∃ d, cellAt (n.lines.map Cell.ofLine) m k = some d ∧ d.runsOn = true := by
  have hchain : (n.rows.map Row.cells).IsChain Continues := by
    rw [List.isChain_map]
    exact (n.outline.rows_follow [] true).1.imp fun _ _ => Follows.continues
  rw [n.map_ofLine_lines]
  refine ⟨?_, ?_, hchain, n.closed_of_last, exists_close_of_runsOn hchain n.closed_of_last⟩
  · intro line hline
    obtain ⟨r, -, rfl⟩ := List.mem_map.mp hline
    exact r.drawn_line
  · obtain ⟨text, below, hrows⟩ := n.outline.head_rows [] true
    rw [Node.rows, hrows]
    rfl

end LetTree

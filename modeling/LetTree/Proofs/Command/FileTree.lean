import Mathlib.Data.List.Infix
import LetTree.Command.FileTree

/-!
# Writing into a file tree

A write gives one file its content and touches nothing else: the other files keep theirs, and no
directory comes or goes, since the file stands in a directory that was there before. So whatever
path was followed to the file still leads to it, and reading it gives what was written.
-/

namespace LetTree

namespace FileTree

variable {tree after : FileTree} {content : Content}

/-! ### Contents -/

theorem lookup_putIn (place : List String) (content : Content)
    (files : List (List String × Content)) (p : List String) :
    (putIn place content files).lookup p = if p = place then some content else files.lookup p := by
  induction files with
  | nil =>
    rw [putIn, List.lookup_cons, List.lookup_nil]
    by_cases hp : p = place
    · simp [hp]
    · simp [hp, beq_eq_false_iff_ne.mpr hp]
  | cons file files ih =>
    obtain ⟨other, old⟩ := file
    by_cases hother : other = place
    · rw [putIn, if_pos hother, List.lookup_cons, List.lookup_cons, hother]
      by_cases hp : p = place
      · simp [hp]
      · simp [hp, beq_eq_false_iff_ne.mpr hp]
    · rw [putIn, if_neg hother, List.lookup_cons, List.lookup_cons, ih]
      by_cases hp : p = other
      · simp [hp, hother]
      · simp [beq_eq_false_iff_ne.mpr hp]

theorem putIn_putIn (place : List String) (old content : Content)
    (files : List (List String × Content)) :
    putIn place content (putIn place old files) = putIn place content files := by
  induction files with
  | nil => simp [putIn]
  | cons file files ih =>
    obtain ⟨other, before⟩ := file
    by_cases hother : other = place
    · simp [putIn, hother]
    · simp [putIn, hother, ih]

theorem content?_put (tree : FileTree) (place : List String) (content : Content)
    (p : List String) :
    (tree.put place content).content? p = if p = place then some content else tree.content? p :=
  lookup_putIn place content tree.files p

/-- Only the last content of a file counts. -/
theorem put_put (tree : FileTree) (place : List String) (old content : Content) :
    (tree.put place old).put place content = tree.put place content := by
  simp [put, putIn_putIn]

/-! ### Directories -/

theorem isDirectory_iff {p : List String} :
    tree.isDirectory p = true ↔ (∃ d ∈ tree.working :: tree.directories, p <+: d) ∨
      ∃ f ∈ tree.files.map Prod.fst, p <+: f ∧ p.length < f.length := by
  simp [isDirectory, or_assoc]

theorem isDirectory_of_prefix {p q : List String} (hq : tree.isDirectory q = true) (hp : p <+: q) :
    tree.isDirectory p = true := by
  rw [isDirectory_iff] at hq ⊢
  rcases hq with ⟨d, hd, hprefix⟩ | ⟨f, hf, hprefix, hlength⟩
  · exact .inl ⟨d, hd, hp.trans hprefix⟩
  · exact .inr ⟨f, hf, hp.trans hprefix, Nat.lt_of_le_of_lt hp.length_le hlength⟩

theorem isDirectory_working (tree : FileTree) : tree.isDirectory tree.working = true :=
  isDirectory_iff.mpr (.inl ⟨_, List.mem_cons_self, List.prefix_rfl⟩)

theorem mem_places_putIn {place p : List String} {files : List (List String × Content)} :
    p ∈ (putIn place content files).map Prod.fst ↔ p = place ∨ p ∈ files.map Prod.fst := by
  induction files with
  | nil => simp [putIn]
  | cons file files ih =>
    obtain ⟨other, old⟩ := file
    by_cases hother : other = place
    · simp [putIn, hother]
    · rw [putIn, if_neg hother, List.map_cons, List.map_cons, List.mem_cons, List.mem_cons, ih]
      exact or_left_comm

/-- A file in a directory makes no directory. -/
theorem isDirectory_put {above : List String} (habove : tree.isDirectory above = true)
    (name : String) (content : Content) (p : List String) :
    (tree.put (above ++ [name]) content).isDirectory p = tree.isDirectory p := by
  rw [Bool.eq_iff_iff]
  constructor
  · intro h
    rcases isDirectory_iff.mp h with hp | ⟨f, hf, hprefix, hlength⟩
    · exact isDirectory_iff.mpr (.inl hp)
    · rcases mem_places_putIn.mp hf with rfl | hf
      · rcases List.prefix_concat_iff.mp hprefix with rfl | hprefix
        · exact absurd hlength (Nat.lt_irrefl _)
        · exact isDirectory_of_prefix habove hprefix
      · exact isDirectory_iff.mpr (.inr ⟨f, hf, hprefix, hlength⟩)
  · intro h
    rw [isDirectory_iff] at h ⊢
    rcases h with hp | ⟨f, hf, hprefix⟩
    · exact .inl hp
    · exact .inr ⟨f, mem_places_putIn.mpr (.inr hf), hprefix⟩

/-! ### Following a path -/

theorem isDirectory_origin (tree : FileTree) (path : List Char) :
    tree.isDirectory (tree.origin path) = true := by
  unfold origin
  split
  · exact isDirectory_of_prefix tree.isDirectory_working List.nil_prefix
  · exact tree.isDirectory_working

theorem isDirectory_of_enter {above next : List String} {component : List Char}
    (h : tree.isDirectory above = true) (henter : tree.enter above component = .ok next) :
    tree.isDirectory next = true := by
  unfold enter at henter
  split at henter
  · cases henter
    exact h
  · split at henter
    · cases henter
      exact isDirectory_of_prefix h (List.dropLast_prefix above)
    · dsimp only at henter
      split at henter
      · next hdirectory =>
        cases henter
        exact hdirectory
      · split at henter <;> cases henter

/-- Where the directories are the same, the same directories are entered. -/
theorem enter_of_isDirectory (h : ∀ p, after.isDirectory p = tree.isDirectory p)
    {above next : List String} {component : List Char}
    (henter : tree.enter above component = .ok next) : after.enter above component = .ok next := by
  unfold enter at henter ⊢
  split at henter
  · next hvoid =>
    rw [if_pos hvoid]
    exact henter
  · next hvoid =>
    rw [if_neg hvoid]
    split at henter
    · next hup =>
      rw [if_pos hup]
      exact henter
    · next hup =>
      rw [if_neg hup]
      dsimp only at henter ⊢
      rw [h]
      split at henter
      · next hdirectory =>
        rw [if_pos hdirectory]
        exact henter
      · split at henter <;> cases henter

theorem foldlM_enter (h : ∀ p, after.isDirectory p = tree.isDirectory p)
    (components : List (List Char)) {above last : List String}
    (habove : tree.isDirectory above = true)
    (hfollow : components.foldlM tree.enter above = .ok last) :
    tree.isDirectory last = true ∧ components.foldlM after.enter above = .ok last := by
  induction components generalizing above with
  | nil =>
    cases hfollow
    exact ⟨habove, rfl⟩
  | cons component components ih =>
    rw [List.foldlM_cons] at hfollow ⊢
    cases henter : tree.enter above component with
    | error e =>
      rw [henter] at hfollow
      cases hfollow
    | ok next =>
      rw [henter] at hfollow
      rw [enter_of_isDirectory h henter]
      exact ih (isDirectory_of_enter habove henter) hfollow

theorem walk_eq_ok_iff {path : List Char} {found : Target} :
    tree.walk path = .ok found ↔
      ∃ above, (Path.components path).dropLast.foldlM tree.enter (tree.origin path) = .ok above ∧
        tree.target above ((Path.components path).getLast?.getD []) = found := by
  unfold walk
  dsimp only
  cases hfollow : (Path.components path).dropLast.foldlM tree.enter (tree.origin path) with
  | error e =>
    constructor
    · intro h
      cases h
    · rintro ⟨above, habove, -⟩
      cases habove
  | ok above =>
    constructor
    · intro h
      cases h
      exact ⟨above, rfl, rfl⟩
    · rintro ⟨above', habove, rfl⟩
      cases habove
      rfl

theorem find_of_ne_nil {path : List Char} (h : path ≠ []) : tree.find path = tree.walk path := by
  rw [find, List.isEmpty_eq_false_iff.mpr h, if_neg Bool.false_ne_true]

theorem find_eq_ok_iff {path : List Char} {found : Target} :
    tree.find path = .ok found ↔ path ≠ [] ∧ tree.walk path = .ok found := by
  cases path with
  | nil => simp [find]
  | cons c cs => simp [find]

/-- A path leads to the place of a file, which need not be there. -/
def Leads (tree : FileTree) (path : List Char) (place : List String) : Prop :=
  ∃ found, tree.find path = .ok found ∧ found.place? = some place

/-- The place of a file is in a directory, and the last component of a path names it there. -/
theorem place?_target {above place : List String} {last : List Char} :
    (tree.target above last).place? = some place ↔
      (Path.isVoid last || decide (last = ['.', '.'])) = false ∧ tree.isDirectory place = false ∧
        place = above ++ [String.ofList last] := by
  unfold target
  split
  · next hname => simp [Target.place?, hname]
  · next hname =>
    rw [Bool.not_eq_true] at hname
    simp only [hname, true_and]
    split
    · next hdirectory =>
      constructor
      · intro h
        cases h
      · rintro ⟨hplace, rfl⟩
        rw [hdirectory] at hplace
        cases hplace
    · next hdirectory =>
      rw [Bool.not_eq_true] at hdirectory
      have hplace : above ++ [String.ofList last] = place ↔
          tree.isDirectory place = false ∧ place = above ++ [String.ofList last] := by
        constructor
        · rintro rfl
          exact ⟨hdirectory, rfl⟩
        · rintro ⟨-, rfl⟩
          rfl
      rw [← hplace]
      split <;> simp [Target.place?]

/-- A file stands in a directory, which its path leads through last. -/
theorem Leads.above {path : List Char} {place : List String} (h : tree.Leads path place) :
    ∃ above, (Path.components path).dropLast.foldlM tree.enter (tree.origin path) = .ok above ∧
      tree.isDirectory above = true ∧
      (tree.target above ((Path.components path).getLast?.getD [])).place? = some place := by
  obtain ⟨found, hfind, hplace⟩ := h
  obtain ⟨above, hfollow, rfl⟩ := walk_eq_ok_iff.mp (find_eq_ok_iff.mp hfind).2
  have habove := (foldlM_enter (fun _ => rfl) _ (tree.isDirectory_origin path) hfollow).1
  exact ⟨above, hfollow, habove, hplace⟩

/-- The directories stay as they are when a file is put at the end of a path, and the path then
    leads to that file. -/
theorem Leads.put {path : List Char} {place : List String} (h : tree.Leads path place)
    (content : Content) :
    (∀ p, (tree.put place content).isDirectory p = tree.isDirectory p) ∧
      (tree.put place content).find path = .ok (.file place content) := by
  obtain ⟨above, hfollow, habove, hplace⟩ := h.above
  obtain ⟨hname, hfile, rfl⟩ := place?_target.mp hplace
  have hsame := isDirectory_put habove
    (String.ofList ((Path.components path).getLast?.getD [])) content
  refine ⟨hsame, find_eq_ok_iff.mpr ⟨?_, walk_eq_ok_iff.mpr ⟨above, ?_, ?_⟩⟩⟩
  · obtain ⟨found, hfind, -⟩ := h
    exact (find_eq_ok_iff.mp hfind).1
  · exact (foldlM_enter hsame _ (tree.isDirectory_origin path) hfollow).2
  · unfold target
    dsimp only
    rw [hname, if_neg Bool.false_ne_true, hsame, hfile, if_neg Bool.false_ne_true, content?_put,
      if_pos rfl]

/-! ### Reading -/

theorem isFile_of_find {path : String} {found : Target} (h : tree.find path.toList = .ok found) :
    tree.isFile path = true ↔ ∃ place content, found = .file place content := by
  rw [isFile, h]
  cases found <;> simp

theorem read_eq_ok_iff {path text : String} :
    tree.read path = .ok text ↔ ∃ place content, tree.find path.toList = .ok (.file place content) ∧
      content.text? = some text := by
  unfold read
  cases tree.find path.toList with
  | error e => simp [bind, Except.bind]
  | ok found =>
    dsimp only [bind, Except.bind]
    cases found with
    | directory => simp
    | vacant place => simp
    | file place content => cases htext : content.text? <;> simp [htext]

/-! ### Writing -/

/-- A file that has been opened is empty, and stands where the path leads. -/
theorem create_eq_ok {path : String} {place : List String}
    (h : tree.create path = .ok (place, after)) :
    tree.Leads path.toList place ∧ after = tree.put place (.text "") := by
  have hbare : (path.toList.reverse.dropWhile (· = '/')).reverse <+: path.toList := by
    rw [← List.reverse_suffix, List.reverse_reverse]
    exact List.dropWhile_suffix _
  unfold create at h
  dsimp only at h
  generalize (path.toList.reverse.dropWhile (· = '/')).reverse = bare at h hbare
  split at h
  · cases h
  · next hpath =>
    cases hwalk : tree.walk bare with
    | error e =>
      rw [hwalk] at h
      cases h
    | ok found =>
      rw [hwalk] at h
      dsimp only [bind, Except.bind] at h
      split at h
      · next hplace =>
        split at h
        · cases h
        · next hlength =>
          cases h
          -- Nothing was left out at the end, so the path is the one that was followed.
          rw [hbare.eq_of_length_le (Nat.le_of_not_lt hlength)] at hwalk
          refine ⟨⟨found, find_eq_ok_iff.mpr ⟨?_, hwalk⟩, hplace⟩, rfl⟩
          exact List.isEmpty_eq_false_iff.mp (eq_false_of_ne_true hpath)
      · cases h

/-- A write changes the content of one file, and leaves no trace of how it came about. -/
theorem write_eq_ok {path text : String} (h : tree.write path text = .ok after) :
    ∃ place, tree.Leads path.toList place ∧ after = tree.put place (.text text) := by
  unfold write at h
  cases hcreate : tree.create path with
  | error e =>
    rw [hcreate] at h
    cases h
  | ok created =>
    obtain ⟨place, opened⟩ := created
    obtain ⟨hleads, rfl⟩ := create_eq_ok hcreate
    rw [hcreate] at h
    cases h
    exact ⟨place, hleads, put_put ..⟩

/-- What was written is read back. -/
theorem read_of_write {path text : String} (h : tree.write path text = .ok after) :
    after.read path = .ok text := by
  obtain ⟨place, hleads, rfl⟩ := write_eq_ok h
  rw [read, (hleads.put (.text text)).2]
  rfl

/-- A write changes the content of one file at most: the one that its path leads to. -/
theorem content?_of_write {path text : String} (h : tree.write path text = .ok after)
    {place : List String} (hplace : after.content? place ≠ tree.content? place) :
    tree.Leads path.toList place ∧ after.content? place = some (.text text) := by
  obtain ⟨written, hleads, rfl⟩ := write_eq_ok h
  rw [content?_put] at hplace ⊢
  by_cases hwritten : place = written
  · rw [if_pos hwritten, hwritten]
    exact ⟨hleads, rfl⟩
  · rw [if_neg hwritten] at hplace
    exact absurd rfl hplace

theorem isDirectory_of_write {path text : String} (h : tree.write path text = .ok after)
    (place : List String) : after.isDirectory place = tree.isDirectory place := by
  obtain ⟨written, hleads, rfl⟩ := write_eq_ok h
  exact (hleads.put (.text text)).1 place

/-! ### Actions -/

/-- The result of an action on a tree, and the tree after it. -/
def perform {α : Type} (tree : FileTree) (action : StateM FileTree α) : α × FileTree :=
  (action.run tree).run

variable {α β : Type}

@[simp] theorem perform_pure (tree : FileTree) (a : α) : tree.perform (pure a) = (a, tree) := rfl

@[simp] theorem perform_bind (tree : FileTree) (action : StateM FileTree α)
    (next : α → StateM FileTree β) :
    tree.perform (action >>= next) =
      (tree.perform action).2.perform (next (tree.perform action).1) := rfl

@[simp] theorem perform_read (tree : FileTree) (path : String) :
    tree.perform (host.read path) = (tree.read path, tree) := rfl

@[simp] theorem perform_isFile (tree : FileTree) (path : String) :
    tree.perform (host.isFile path) = (tree.isFile path, tree) := rfl

theorem perform_write_of_ok {path text : String} (h : tree.write path text = .ok after) :
    tree.perform (host.write path text) = (.ok (), after) := by
  simp [perform, host, h]

theorem perform_write_of_error {path text : String} {e : FileError}
    (h : tree.write path text = .error e) :
    tree.perform (host.write path text) = (.error e, tree) := by
  simp [perform, host, h]

end FileTree

end LetTree

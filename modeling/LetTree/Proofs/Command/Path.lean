import LetTree.Proofs.Command.FileTree

/-!
# Where paths lead

Of the components of a path, those that name nothing can be left out, and what is left leads to the
same place (`foldlM_enter_named`). A path put together from a directory and a path within it has the
components of both. So a name put into the parent of a file's path is looked up in the directory
that holds the file, whatever way the path takes to it; and a path through the working directory,
from the root or over any other way, leads where the rest of it leads by itself.
-/

namespace LetTree

namespace Path

/-! ### Components -/

theorem components_ne_nil (cs : List Char) : components cs ≠ [] := by
  fun_induction components cs <;> simp

/-- A character that is no slash goes on with the first component. -/
theorem components_cons {c : Char} (hc : c ≠ '/') (cs : List Char) :
    ∃ first others, components cs = first :: others ∧
      components (c :: cs) = (c :: first) :: others := by
  cases h : components cs with
  | nil => exact absurd h (components_ne_nil cs)
  | cons first others => exact ⟨first, others, rfl, by simp [components, h]⟩

theorem components_eq_splitOn (cs : List Char) : components cs = cs.splitOn '/' := by
  induction cs with
  | nil => rfl
  | cons c cs ih =>
    rw [List.splitOn_cons_eq_if_modifyHead, ← ih]
    by_cases hc : c = '/'
    · simp [components, hc]
    · obtain ⟨first, others, hcs, hcomponents⟩ := components_cons hc cs
      simp [hcomponents, hcs, hc]

theorem join_eq_intercalate (cs : List (List Char)) : join cs = ['/'].intercalate cs := by
  induction cs with
  | nil => rfl
  | cons c cs ih =>
    cases cs with
    | nil => simp [join]
    | cons c' cs => simp [join, ih]

theorem components_append (cs ds : List Char) :
    components (cs ++ '/' :: ds) = components cs ++ components ds := by
  simp only [components_eq_splitOn, List.splitOn_append_cons_self]

theorem slash_notMem_of_mem_components {cs component : List Char}
    (h : component ∈ components cs) : '/' ∉ component := by
  induction cs generalizing component with
  | nil =>
    cases List.mem_singleton.mp h
    exact List.not_mem_nil
  | cons c cs ih =>
    by_cases hc : c = '/'
    · subst hc
      rcases List.mem_cons.mp h with rfl | h
      · exact List.not_mem_nil
      · exact ih h
    · obtain ⟨first, others, hcs, hcomponents⟩ := components_cons hc cs
      rw [hcomponents] at h
      rw [hcs] at ih
      rcases List.mem_cons.mp h with rfl | h
      · simpa [Ne.symm hc] using ih List.mem_cons_self
      · exact ih (List.mem_cons_of_mem _ h)

theorem components_join {cs : List (List Char)} (h : ∀ c ∈ cs, '/' ∉ c) (hne : cs ≠ []) :
    components (join cs) = cs := by
  rw [components_eq_splitOn, join_eq_intercalate, List.splitOn_intercalate _ h hne]

/-- A path begins with a slash if its first component is empty and not its only one. -/
theorem head?_eq_slash_iff {cs : List Char} :
    cs.head? = some '/' ↔ ∃ rest, rest ≠ [] ∧ components cs = [] :: rest := by
  cases cs with
  | nil => simp [components]
  | cons c cs =>
    by_cases hc : c = '/'
    · simp [hc, components, components_ne_nil]
    · obtain ⟨first, others, -, hcomponents⟩ := components_cons hc cs
      simp [hcomponents, hc]

/-! ### Components that name something -/

def named (components : List (List Char)) : List (List Char) :=
  components.filter fun c => !isVoid c

theorem named_append (cs ds : List (List Char)) : named (cs ++ ds) = named cs ++ named ds :=
  List.filter_append ..

theorem named_cons_of_isVoid {c : List Char} (h : isVoid c = true) (cs : List (List Char)) :
    named (c :: cs) = named cs := by
  simp [named, h]

theorem named_dropVoid (dotFirst : Bool) (cs : List (List Char)) :
    named (dropVoid dotFirst cs) = named cs := by
  fun_induction dropVoid dotFirst cs with
  | case1 => rfl
  | case2 c h =>
    have hvoid : isVoid c = true := by
      simp only [isVoid, Bool.or_eq_true, Bool.and_eq_true] at h ⊢
      exact h.imp_right And.left
    rw [named_cons_of_isVoid hvoid]
  | case3 => rfl
  | case4 c cs _ hvoid ih => rw [ih, named_cons_of_isVoid hvoid]
  | case5 => rfl

theorem dropVoid_suffix (dotFirst : Bool) (cs : List (List Char)) :
    dropVoid dotFirst cs <:+ cs := by
  fun_induction dropVoid dotFirst cs with
  | case1 => exact List.suffix_rfl
  | case2 => exact List.nil_suffix
  | case3 => exact List.suffix_rfl
  | case4 c cs _ _ ih => exact ih.trans (List.suffix_cons c cs)
  | case5 => exact List.suffix_rfl

theorem dropVoid_cons {c : List Char} (h : isVoid c = false) (dotFirst : Bool)
    (cs : List (List Char)) : dropVoid dotFirst (c :: cs) = c :: cs := by
  cases cs with
  | nil =>
    simp only [isVoid, Bool.or_eq_false_iff] at h
    simp [dropVoid, h.1, h.2]
  | cons d ds => simp [dropVoid, h]

theorem named_components_join {cs : List (List Char)} (h : ∀ c ∈ cs, '/' ∉ c) :
    named (components (join cs)) = named cs := by
  by_cases hne : cs = []
  · subst hne
    rfl
  · rw [components_join h hne]

/-! ### Directories and names -/

theorem components_within (directory name : String) :
    ∃ above, components (within directory name).toList = above ++ components name.toList ∧
      named above = named (components directory.toList) := by
  unfold within
  cases hlast : directory.toList.getLast? with
  | none =>
    rw [List.getLast?_eq_none_iff] at hlast
    refine ⟨[], rfl, ?_⟩
    rw [hlast]
    rfl
  | some c =>
    by_cases hc : c = '/'
    · subst hc
      obtain ⟨cs, hcs⟩ := List.getLast?_eq_some_iff.mp hlast
      refine ⟨components cs, ?_, ?_⟩
      · simp only [String.toList_append, hcs, List.append_assoc, List.singleton_append,
          components_append]
      · rw [hcs, components_append, named_append]
        exact (List.append_nil _).symm
    · refine ⟨components directory.toList, ?_, rfl⟩
      simp [String.toList_append, components_append]

theorem within_ne_nil (directory : String) {name : String} (h : name ≠ "") :
    (within directory name).toList ≠ [] := by
  unfold within
  split <;> simp [h]

theorem head?_within {directory : String} (h : directory ≠ "") (name : String) :
    (within directory name).toList.head? = directory.toList.head? := by
  have hne : directory.toList ≠ [] := by simpa using h
  unfold within
  split
  · next hlast => exact absurd (List.getLast?_eq_none_iff.mp hlast) hne
  · rw [String.toList_append, List.head?_append_of_ne_nil _ hne]
  · rw [String.toList_append, String.toList_append, List.append_assoc,
      List.head?_append_of_ne_nil _ hne]

theorem head?_within_iff (directory : String) {name : String} (hname : '/' ∉ name.toList) :
    (within directory name).toList.head? = some '/' ↔ directory.toList.head? = some '/' := by
  by_cases h : directory = ""
  · subst h
    refine iff_of_false (fun hhead => ?_) (fun hhead => by cases hhead)
    exact hname (List.mem_of_mem_head? hhead)
  · rw [head?_within h]

/-- What is left of the components above a name. -/
theorem trimmed_begins (dotFirst : Bool) (above : List (List Char)) :
    (dropVoid dotFirst above.reverse).reverse <+: above := by
  rw [← List.reverse_suffix, List.reverse_reverse]
  exact dropVoid_suffix dotFirst above.reverse

theorem named_components_trimmed (dotFirst : Bool) {above : List (List Char)}
    (h : ∀ c ∈ above, '/' ∉ c) :
    named (components (join (dropVoid dotFirst above.reverse).reverse)) = named above := by
  rw [named_components_join fun c hc => h c ((trimmed_begins dotFirst above).subset hc)]
  rw [named, List.filter_reverse, ← named, named_dropVoid, named, List.filter_reverse,
    List.reverse_reverse]
  rfl

/-- What is left above a name in a path that begins with no slash begins with none either. -/
theorem head?_join_trimmed (dotFirst : Bool) {above : List (List Char)} (h : ∀ c ∈ above, '/' ∉ c)
    (hfirst : above.head? ≠ some []) :
    (join (dropVoid dotFirst above.reverse).reverse).head? ≠ some '/' := by
  obtain ⟨rest, hrest⟩ := trimmed_begins dotFirst above
  generalize (dropVoid dotFirst above.reverse).reverse = left at hrest
  intro hslash
  have hleft : left ≠ [] := by
    rintro rfl
    cases hslash
  obtain ⟨others, -, hcomponents⟩ := head?_eq_slash_iff.mp hslash
  rw [components_join _ hleft] at hcomponents
  · rw [← hrest, hcomponents] at hfirst
    exact hfirst rfl
  · intro c hc
    exact h c (hrest ▸ List.mem_append_left rest hc)

/-- The directory part of a path names what the path names, but for its last component, and begins
    where the path begins. -/
theorem parent?_of_components {path : String} {above : List (List Char)} {last : List Char}
    (h : components path.toList = above ++ [last]) (hlast : isVoid last = false) :
    ∃ directory, parent? path = some directory ∧
      named (components directory.toList) = named above ∧
      (directory.toList.head? = some '/' ↔ path.toList.head? = some '/') := by
  have hslash : ∀ c ∈ above, '/' ∉ c := fun c hc =>
    slash_notMem_of_mem_components (h ▸ List.mem_append_left [last] hc)
  unfold parent?
  split
  next hpath =>
  split at hpath
  · next cs hcs =>
    cases hpath
    rw [hcs, components] at h
    obtain ⟨-, hnil⟩ | ⟨rest, rfl, hrest⟩ := List.cons_eq_append_iff.mp h
    · rw [(List.cons_eq_cons.mp hnil).1] at hlast
      cases hlast
    · rw [hrest, List.reverse_concat, dropVoid_cons hlast]
      refine ⟨_, rfl, ?_, by simp [hcs]⟩
      rw [if_pos rfl, String.toList_ofList, components, named_cons_of_isVoid rfl,
        named_cons_of_isVoid rfl]
      exact named_components_trimmed false fun c hc => hslash c (List.mem_cons_of_mem _ hc)
  · next hcs =>
    cases hpath
    have hpath : path.toList.head? ≠ some '/' := by
      intro hhead
      obtain ⟨cs, hslash⟩ := List.head?_eq_some_iff.mp hhead
      exact hcs cs hslash
    have hfirst : above.head? ≠ some [] := by
      intro hhead
      obtain ⟨rest, rfl⟩ := List.head?_eq_some_iff.mp hhead
      exact hpath (head?_eq_slash_iff.mpr ⟨rest ++ [last], by simp, h⟩)
    rw [h, List.reverse_concat, dropVoid_cons hlast]
    refine ⟨_, rfl, ?_, ?_⟩
    · rw [if_neg Bool.false_ne_true, String.toList_ofList]
      exact named_components_trimmed true hslash
    · rw [if_neg Bool.false_ne_true, String.toList_ofList]
      exact iff_of_false (head?_join_trimmed true hslash hfirst) hpath

end Path

namespace FileTree

open LetTree.Path

variable {tree : FileTree}

/-! ### Going along components -/

theorem foldlM_enter_named (tree : FileTree) (components : List (List Char)) (above : List String) :
    (named components).foldlM tree.enter above = components.foldlM tree.enter above := by
  induction components generalizing above with
  | nil => rfl
  | cons c cs ih =>
    cases hvoid : isVoid c with
    | true =>
      rw [named_cons_of_isVoid hvoid, ih, List.foldlM_cons, enter, if_pos hvoid]
      rfl
    | false =>
      have hnamed : named (c :: cs) = c :: named cs := by simp [named, hvoid]
      rw [hnamed, List.foldlM_cons, List.foldlM_cons]
      simp only [ih]

/-- Names lead to a directory through the directories above it. -/
theorem foldlM_enter_names {components : List (List Char)} {above : List String}
    (hnames : ∀ c ∈ components, isVoid c = false ∧ c ≠ ['.', '.'])
    (h : tree.isDirectory (above ++ components.map String.ofList) = true) :
    components.foldlM tree.enter above = .ok (above ++ components.map String.ofList) := by
  induction components generalizing above with
  | nil => simp [pure, Except.pure]
  | cons c cs ih =>
    obtain ⟨hvoid, hup⟩ := hnames c List.mem_cons_self
    rw [List.map_cons, List.append_cons] at h ⊢
    have hc : tree.isDirectory (above ++ [String.ofList c]) = true :=
      isDirectory_of_prefix h (List.prefix_append _ _)
    have henter : tree.enter above c = .ok (above ++ [String.ofList c]) := by
      simp [enter, hvoid, hup, hc]
    rw [List.foldlM_cons, henter]
    exact ih (fun d hd => hnames d (List.mem_cons_of_mem _ hd)) h

theorem origin_congr {cs ds : List Char} (h : cs.head? = some '/' ↔ ds.head? = some '/') :
    tree.origin cs = tree.origin ds := by
  simp [origin, h]

/-- What a path within a directory leads to, if the directory's own components lead somewhere. -/
theorem walk_of_components {path : List Char} {above rest : List (List Char)}
    (h : components path = above ++ rest) (hrest : rest ≠ []) {place : List String}
    (habove : above.foldlM tree.enter (tree.origin path) = .ok place) :
    tree.walk path = do
      let place ← rest.dropLast.foldlM tree.enter place
      return tree.target place (rest.getLast?.getD []) := by
  rw [walk, h, List.dropLast_append_of_ne_nil hrest, List.foldlM_append, habove,
    List.getLast?_append_of_ne_nil _ hrest]
  rfl

/-! ### A name beside a file -/

/-- A name that is put into the parent of a path is looked up in the directory that holds what the
    path leads to. -/
theorem find_beside {path name : String} {place : List String} (h : tree.Leads path.toList place)
    (hname : '/' ∉ name.toList) (hne : name ≠ "") :
    ∃ above last, place = above ++ [last] ∧
      tree.find (within ((parent? path).getD ".") name).toList =
        .ok (tree.target above name.toList) := by
  obtain ⟨above, hfollow, -, hplace⟩ := h.above
  obtain ⟨hlast, -, rfl⟩ := place?_target.mp hplace
  obtain hnil | ⟨first, last, hcs⟩ := (components path.toList).eq_nil_or_concat'
  · exact absurd hnil (components_ne_nil _)
  rw [hcs, List.dropLast_concat] at hfollow
  rw [hcs, List.getLast?_concat, Option.getD_some, Bool.or_eq_false_iff] at hlast
  obtain ⟨directory, hparent, hnamed, hhead⟩ := parent?_of_components hcs hlast.1
  obtain ⟨before, hwithin, hbefore⟩ := components_within directory name
  have hcomponents : components name.toList = [name.toList] := by
    rw [components_eq_splitOn, List.splitOn_eq_singleton hname]
  rw [hcomponents] at hwithin
  have horigin : tree.origin (within directory name).toList = tree.origin path.toList :=
    origin_congr ((head?_within_iff directory hname).trans hhead)
  have hbefore : before.foldlM tree.enter (tree.origin (within directory name).toList) =
      .ok above := by
    rw [horigin, ← foldlM_enter_named, hbefore, hnamed, foldlM_enter_named, hfollow]
  refine ⟨above, _, rfl, ?_⟩
  rw [hparent, Option.getD_some, find_of_ne_nil (within_ne_nil _ hne),
    walk_of_components hwithin (List.cons_ne_nil _ _) hbefore]
  rfl

/-! ### Paths through the working directory -/

/-- A path through the working directory leads where the rest of it leads. -/
theorem find_within {directory path : String} (hdirectory : directory ≠ "") (hpath : path ≠ "")
    (hrelative : path.toList.head? ≠ some '/')
    (h : (components directory.toList).foldlM tree.enter (tree.origin directory.toList) =
      .ok tree.working) :
    tree.find (within directory path).toList = tree.find path.toList := by
  obtain ⟨above, hwithin, habove⟩ := components_within directory path
  have horigin : tree.origin (within directory path).toList = tree.origin directory.toList :=
    origin_congr (by rw [head?_within hdirectory])
  have hfollow : above.foldlM tree.enter (tree.origin (within directory path).toList) =
      .ok tree.working := by
    rw [horigin, ← foldlM_enter_named, habove, foldlM_enter_named, h]
  have hne : path.toList ≠ [] := by simpa using hpath
  have hworking : tree.origin path.toList = tree.working := if_neg hrelative
  rw [find_of_ne_nil (within_ne_nil _ hpath), find_of_ne_nil hne,
    walk_of_components hwithin (components_ne_nil _) hfollow, walk, hworking]

/-- A path from the root through the working directory leads where the rest of it leads. -/
theorem find_absolute {directory path : String} (hroot : directory.toList.head? = some '/')
    (hnames : names directory = tree.working)
    (hup : ['.', '.'] ∉ components directory.toList) (hpath : path ≠ "")
    (hrelative : path.toList.head? ≠ some '/') :
    tree.find (within directory path).toList = tree.find path.toList := by
  have hdirectory : directory ≠ "" := by
    rintro rfl
    cases hroot
  refine find_within hdirectory hpath hrelative ?_
  rw [origin, if_pos hroot, ← foldlM_enter_named, foldlM_enter_names]
  · rw [List.nil_append, ← hnames]
    rfl
  · intro c hc
    rw [named, List.mem_filter, Bool.not_eq_true'] at hc
    refine ⟨hc.2, ?_⟩
    rintro rfl
    exact hup hc.1
  · rw [List.nil_append]
    change tree.isDirectory (names directory) = true
    rw [hnames]
    exact tree.isDirectory_working

end FileTree

end LetTree

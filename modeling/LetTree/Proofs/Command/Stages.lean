import LetTree.Command.Run
import LetTree.Proofs.Analysis.Events
import LetTree.Proofs.Analysis.Safety
import LetTree.Proofs.Command.Path
import LetTree.Proofs.Result

/-!
# Stages of a run

A run is its stages one after the other: settings, source, tokens, tree, the tree's way out,
bindings. The stages up to the tree only look at the file tree, so that a run is a result computed
from the file tree (`prepared`) and what is done with it. It ends in one of four ways: before there
is a tree, at writing it, at a binding, or with success (`Ends`). What can be said about exit codes,
output and files follows from these.
-/

namespace LetTree

namespace Run

variable {l : Libraries} {env : l.Environment} {tree tree' after : FileTree}
  {args args' : Arguments} {settings settings' : Settings} {root : Node}

/-! ### Ordinary failures -/

section Ordinary

variable {ε ε' α β : Type}

/-- A failure, if there is one, ends the run with code 1. -/
def Ordinary (x : Except Failure α) : Prop := ∀ f, x = .error f → f.code = 1

theorem ordinary_ok (a : α) : Ordinary (.ok a) := by
  intro f hf
  cases hf

theorem ordinary_mapError (x : Except ε α) {g : ε → Failure} (hg : ∀ e, (g e).code = 1) :
    Ordinary (x.mapError g) := by
  intro f hf
  cases x with
  | ok a => cases hf
  | error e =>
    cases hf
    exact hg e

theorem Ordinary.bind {x : Except Failure α} {f : α → Except Failure β} (hx : Ordinary x)
    (hf : ∀ a, Ordinary (f a)) : Ordinary (x >>= f) := by
  cases x with
  | ok a => exact hf a
  | error g =>
    intro g' hg
    cases hg
    exact hx g rfl

theorem Ordinary.map {x : Except Failure α} (hx : Ordinary x) (g : α → β) :
    Ordinary (x.map g) := by
  cases x with
  | ok a => exact ordinary_ok _
  | error f =>
    intro f' hf
    cases hf
    exact hx f rfl

end Ordinary

/-! ### Stages that only look -/

/-- The settings in a document. -/
def loaded (l : Libraries) (tree : FileTree) (path : String) : Except Failure Settings := do
  let text ← (tree.read path).mapError (.settingsUnread path)
  (l.settings text).mapError .settingsRefused

/-- The path of the document beside a source. -/
def besidePath (file : String) : String := Path.within ((Path.parent? file).getD ".") configName

def found (l : Libraries) (tree : FileTree) (args : Arguments) : Except Failure Settings :=
  match args.config with
  | some path => loaded l tree path
  | none =>
    if tree.isFile (besidePath args.file) then loaded l tree (besidePath args.file)
    else .ok Settings.standard

/-- The tree of a source file. -/
def sourced (tree : FileTree) (file : String) (limit : Nat) : Except Failure Node := do
  let source ← (tree.read file).mapError (.sourceUnread file)
  compile limit file source

def prepared (l : Libraries) (tree : FileTree) (args : Arguments) :
    Except Failure (Settings × Node) := do
  let settings ← found l tree args
  (sourced tree args.file settings.limit).map fun root => (settings, root)

theorem perform_loadSettings (l : Libraries) (tree : FileTree) (path : String) :
    tree.perform (loadSettings l FileTree.host path) = (loaded l tree path, tree) := by
  unfold loadSettings loaded
  rw [FileTree.perform_bind, FileTree.perform_read]
  cases tree.read path with
  | error e => rfl
  | ok text => rfl

theorem perform_findSettings (l : Libraries) (tree : FileTree) (args : Arguments) :
    tree.perform (findSettings l FileTree.host args) = (found l tree args, tree) := by
  unfold findSettings found
  cases args.config with
  | some path => exact perform_loadSettings l tree path
  | none =>
    dsimp only
    rw [FileTree.perform_bind, FileTree.perform_isFile, ← besidePath]
    dsimp only
    split
    · exact perform_loadSettings l tree _
    · rfl

theorem perform_prepare (l : Libraries) (tree : FileTree) (args : Arguments) :
    tree.perform (prepare l FileTree.host args) = (prepared l tree args, tree) := by
  unfold prepare prepared
  rw [FileTree.perform_bind, perform_findSettings]
  cases found l tree args with
  | error f => rfl
  | ok settings =>
    dsimp only
    rw [FileTree.perform_bind, FileTree.perform_read]
    unfold sourced
    cases tree.read args.file with
    | error e => rfl
    | ok source => rfl

theorem compile_ordinary (limit : Nat) (file source : String) :
    Ordinary (compile limit file source) :=
  (ordinary_mapError _ fun _ => rfl).bind fun _ => ordinary_mapError _ fun _ => rfl

theorem loaded_ordinary (l : Libraries) (tree : FileTree) (path : String) :
    Ordinary (loaded l tree path) :=
  (ordinary_mapError _ fun _ => rfl).bind fun _ => ordinary_mapError _ fun _ => rfl

theorem found_ordinary (l : Libraries) (tree : FileTree) (args : Arguments) :
    Ordinary (found l tree args) := by
  unfold found
  split
  · exact loaded_ordinary l tree _
  · split
    · exact loaded_ordinary l tree _
    · exact ordinary_ok _

theorem prepared_ordinary (l : Libraries) (tree : FileTree) (args : Arguments) :
    Ordinary (prepared l tree args) := by
  refine (found_ordinary l tree args).bind fun settings => Ordinary.map ?_ _
  exact (ordinary_mapError _ fun _ => rfl).bind fun source => compile_ordinary _ _ source

/-! ### What the stages give -/

/-- The settings in a document that is there and can be read. -/
def Loads (l : Libraries) (tree : FileTree) (path : String) (settings : Settings) : Prop :=
  ∃ text, tree.read path = .ok text ∧ l.settings text = .ok settings

/-- The settings of a run: those of the document that is named; if none is named, those of the
    document beside the source; if there is none either, the standard ones. -/
inductive Configured (l : Libraries) (tree : FileTree) (args : Arguments) : Settings → Prop where
  | named {path : String} {settings : Settings} (h : args.config = some path)
      (hload : Loads l tree path settings) : Configured l tree args settings
  | beside {settings : Settings} (h : args.config = none)
      (hfile : tree.isFile (besidePath args.file) = true)
      (hload : Loads l tree (besidePath args.file) settings) : Configured l tree args settings
  | standard (h : args.config = none) (hfile : tree.isFile (besidePath args.file) = false) :
      Configured l tree args .standard

/-- The tree of a source file that can be read and follows the rules. -/
def Compiles (tree : FileTree) (file : String) (limit : Nat) (root : Node) : Prop :=
  ∃ source tokens, tree.read file = .ok source ∧ Token.lex source = .ok tokens ∧
    parse limit tokens = .ok root

/-- The settings of a run, and the tree of its source. -/
structure Prepared (l : Libraries) (tree : FileTree) (args : Arguments) (settings : Settings)
    (root : Node) : Prop where
  configured : Configured l tree args settings
  compiles : Compiles tree args.file settings.limit root

theorem loaded_eq_ok_iff {path : String} :
    loaded l tree path = .ok settings ↔ Loads l tree path settings := by
  simp only [loaded, Loads, Result.bind_eq_ok_iff, Result.mapError_eq_ok_iff]

theorem found_eq_ok_iff : found l tree args = .ok settings ↔ Configured l tree args settings := by
  constructor
  · intro h
    unfold found at h
    split at h
    · next path hconfig => exact .named hconfig (loaded_eq_ok_iff.mp h)
    · next hconfig =>
      split at h
      · next hfile => exact .beside hconfig hfile (loaded_eq_ok_iff.mp h)
      · next hfile =>
        cases h
        exact .standard hconfig (eq_false_of_ne_true hfile)
  · intro h
    cases h with
    | named hconfig hload =>
      rw [found, hconfig]
      exact loaded_eq_ok_iff.mpr hload
    | beside hconfig hfile hload =>
      rw [found, hconfig, hfile]
      exact loaded_eq_ok_iff.mpr hload
    | standard hconfig hfile =>
      rw [found, hconfig, hfile]
      rfl

theorem configured_of_isFile (hconfig : args.config = none)
    (hfile : tree.isFile (besidePath args.file) = true) :
    Configured l tree args settings ↔ Loads l tree (besidePath args.file) settings := by
  constructor
  · intro h
    cases h with
    | named hnamed =>
      rw [hconfig] at hnamed
      cases hnamed
    | beside _ _ hload => exact hload
    | standard _ hnot =>
      rw [hfile] at hnot
      cases hnot
  · exact .beside hconfig hfile

theorem configured_of_not_isFile (hconfig : args.config = none)
    (hfile : tree.isFile (besidePath args.file) = false) :
    Configured l tree args settings ↔ settings = .standard := by
  constructor
  · intro h
    cases h with
    | named hnamed =>
      rw [hconfig] at hnamed
      cases hnamed
    | beside _ hyes =>
      rw [hfile] at hyes
      cases hyes
    | standard => rfl
  · rintro rfl
    exact .standard hconfig hfile

/-- The settings by what is at the place of a document: those in the file that is there, or else the
    standard ones. -/
def SettledBy (l : Libraries) (settings : Settings) : FileTree.Target → Prop
  | .file _ content => ∃ text, content.text? = some text ∧ l.settings text = .ok settings
  | .directory | .vacant _ => settings = .standard

/-- If no document is named, the one that counts is in the directory of the source, and has a name
    that is always the same. -/
theorem configured_beside (hconfig : args.config = none) {place : List String}
    (h : tree.Leads args.file.toList place) :
    ∃ above name, place = above ++ [name] ∧ ∀ settings, Configured l tree args settings ↔
      SettledBy l settings (tree.target above "arbor.toml".toList) := by
  have hslash : '/' ∉ configName.toList := by decide +kernel
  have hne : configName ≠ "" := by decide +kernel
  obtain ⟨above, name, rfl, hfind⟩ := FileTree.find_beside h hslash hne
  refine ⟨above, name, rfl, fun settings => ?_⟩
  have hfile := FileTree.isFile_of_find hfind
  change tree.find (besidePath args.file).toList = .ok (tree.target above "arbor.toml".toList)
    at hfind
  have hnone (hnot : ∀ document content,
      tree.target above "arbor.toml".toList ≠ .file document content) :
      Configured l tree args settings ↔ settings = .standard := by
    refine configured_of_not_isFile hconfig (eq_false_of_ne_true fun hyes => ?_)
    obtain ⟨document, content, htarget⟩ := hfile.mp hyes
    exact hnot document content htarget
  cases htarget : tree.target above "arbor.toml".toList with
  | file document content =>
    rw [configured_of_isFile hconfig (hfile.mpr ⟨_, _, htarget⟩)]
    rw [htarget] at hfind
    have hread : ∀ text, tree.read (besidePath args.file) = .ok text ↔
        content.text? = some text := by
      intro text
      rw [FileTree.read_eq_ok_iff, hfind]
      simp
    simp only [Loads, SettledBy, hread]
  | directory =>
    rw [htarget] at hnone
    exact hnone nofun
  | vacant document =>
    rw [htarget] at hnone
    exact hnone nofun

theorem sourced_eq_ok_iff {file : String} {limit : Nat} :
    sourced tree file limit = .ok root ↔ Compiles tree file limit root := by
  simp only [sourced, compile, Compiles, Result.bind_eq_ok_iff, Result.mapError_eq_ok_iff,
    exists_and_left]

theorem prepared_eq_ok_iff :
    prepared l tree args = .ok (settings, root) ↔ Prepared l tree args settings root := by
  rw [prepared, Result.bind_eq_ok_iff]
  simp only [Result.map_eq_ok_iff, found_eq_ok_iff, sourced_eq_ok_iff, Prod.mk.injEq]
  constructor
  · rintro ⟨s, hs, r, hr, rfl, rfl⟩
    exact ⟨hs, hr⟩
  · rintro ⟨hs, hr⟩
    exact ⟨settings, hs, root, hr, rfl, rfl⟩

theorem Prepared.unique (h : Prepared l tree args settings root) {root' : Node}
    (h' : Prepared l tree args settings' root') : settings' = settings ∧ root' = root := by
  have hsame := (prepared_eq_ok_iff.mpr h').symm.trans (prepared_eq_ok_iff.mpr h)
  simpa using hsame

/-! ### Ends -/

/-- The files once the tree has been written, if it is to be written. -/
def Writes (tree : FileTree) (args : Arguments) (root : Node) (after : FileTree) : Prop :=
  match args.output with
  | some path => tree.write path root.render = .ok after
  | none => after = tree

/-- What is printed of the tree: nothing if it goes to a file. -/
def drawn (args : Arguments) (settings : Settings) (root : Node) : String :=
  if (args.tree || settings.tree) && args.output.isNone then root.render else ""

theorem drawn_of_output {path : String} (h : args.output = some path) :
    drawn args settings root = "" := by
  simp [drawn, h]

theorem onFile_of_error {f : Failure} (h : prepared l tree args = .error f) :
    tree.perform (onFile l FileTree.host env args) = (f.outcome (l.log env []) "", tree) := by
  rw [onFile, FileTree.perform_bind, perform_prepare, h]
  rfl

theorem onFile_of_unwritten {path : String} {e : FileError}
    (h : prepared l tree args = .ok (settings, root)) (houtput : args.output = some path)
    (hwrite : tree.write path root.render = .error e) :
    tree.perform (onFile l FileTree.host env args) =
      ((Failure.treeUnwritten path e).outcome (l.log env root.parsedEvents) "", tree) := by
  rw [onFile, FileTree.perform_bind, perform_prepare, h]
  simp only [houtput, FileTree.perform_bind, FileTree.perform_write_of_error hwrite,
    FileTree.perform_pure]

theorem onFile_of_writes (h : prepared l tree args = .ok (settings, root))
    (hwrites : Writes tree args root after) :
    tree.perform (onFile l FileTree.host env args) =
      (check l env args settings root (drawn args settings root), after) := by
  rw [onFile, FileTree.perform_bind, perform_prepare, h]
  cases houtput : args.output with
  | none =>
    rw [Writes, houtput] at hwrites
    simp [drawn, houtput, hwrites]
  | some path =>
    rw [Writes, houtput] at hwrites
    rw [drawn_of_output houtput]
    simp only [FileTree.perform_bind, FileTree.perform_write_of_ok hwrites, FileTree.perform_pure]

theorem check_of_ok {bindings : List Binding} (h : root.bindings = .ok bindings)
    (printed : String) : check l env args settings root printed =
      ⟨0, printed ++ if args.bindings || settings.bindings then summary bindings else "",
        l.log env (root.parsedEvents ++ root.analysisEvents ++ root.releaseEvents)⟩ := by
  rw [check, root.finish_analysis, h]

/-- The tree of a source has known operators only, so that a check that fails is about a binding. -/
theorem check_of_error (hprepared : Prepared l tree args settings root) {e : Halt BindingError}
    (h : root.bindings = .error e) (printed : String) :
    ∃ f : Failure, f.code = 1 ∧ check l env args settings root printed =
      f.outcome (l.log env (root.parsedEvents ++ root.analysisEvents)) printed := by
  obtain ⟨source, tokens, -, -, hparse⟩ := hprepared.compiles
  have hsafe := (sentence_of_parse hparse).isProgram.bindings_safe
  rw [h] at hsafe
  cases e with
  | unknownOperator => exact absurd hsafe id
  | error e =>
    refine ⟨.binding args.file e, rfl, ?_⟩
    rw [check, root.finish_analysis, h]

/-- The ways in which a run ends, with what it leaves behind. The log goes as far as the run. -/
inductive Ends (l : Libraries) (env : l.Environment) (tree : FileTree) (args : Arguments) :
    Outcome → FileTree → Prop where
  /-- There is no tree. -/
  | early {f : Failure} (hcode : f.code = 1)
      (h : ∀ settings root, ¬ Prepared l tree args settings root) :
      Ends l env tree args (f.outcome (l.log env []) "") tree
  /-- The tree cannot be written. -/
  | unwritten {settings : Settings} {root : Node} {path : String} {f : Failure} {e : FileError}
      (hcode : f.code = 1) (h : Prepared l tree args settings root)
      (houtput : args.output = some path) (hwrite : tree.write path root.render = .error e) :
      Ends l env tree args (f.outcome (l.log env root.parsedEvents) "") tree
  /-- The tree has left, but a binding is at fault. -/
  | refused {settings : Settings} {root : Node} {after : FileTree} {f : Failure}
      {e : Halt BindingError} (hcode : f.code = 1) (h : Prepared l tree args settings root)
      (hwrites : Writes tree args root after) (hbindings : root.bindings = .error e) :
      Ends l env tree args
        (f.outcome (l.log env (root.parsedEvents ++ root.analysisEvents))
          (drawn args settings root)) after
  | success {settings : Settings} {root : Node} {after : FileTree} {bindings : List Binding}
      (h : Prepared l tree args settings root) (hwrites : Writes tree args root after)
      (hbindings : root.bindings = .ok bindings) :
      Ends l env tree args
        ⟨0, drawn args settings root ++
            if args.bindings || settings.bindings then summary bindings else "",
          l.log env (root.parsedEvents ++ root.analysisEvents ++ root.releaseEvents)⟩ after

theorem ends_of_writes (h : Prepared l tree args settings root)
    (hwrites : Writes tree args root after) :
    Ends l env tree args (check l env args settings root (drawn args settings root)) after := by
  cases hbindings : root.bindings with
  | error e =>
    obtain ⟨f, hcode, hcheck⟩ := check_of_error h hbindings (drawn args settings root)
    rw [hcheck]
    exact .refused hcode h hwrites hbindings
  | ok bindings =>
    rw [check_of_ok hbindings]
    exact .success h hwrites hbindings

theorem onFile_ends (l : Libraries) (env : l.Environment) (tree : FileTree) (args : Arguments) :
    Ends l env tree args (tree.perform (onFile l FileTree.host env args)).1
      (tree.perform (onFile l FileTree.host env args)).2 := by
  cases hprepared : prepared l tree args with
  | error f =>
    rw [onFile_of_error hprepared]
    refine .early (prepared_ordinary l tree args f hprepared) ?_
    intro settings root h
    rw [prepared_eq_ok_iff.mpr h] at hprepared
    cases hprepared
  | ok result =>
    obtain ⟨settings, root⟩ := result
    have h := prepared_eq_ok_iff.mp hprepared
    cases houtput : args.output with
    | none =>
      have hwrites : Writes tree args root tree := by rw [Writes, houtput]
      rw [onFile_of_writes hprepared hwrites]
      exact ends_of_writes h hwrites
    | some path =>
      cases hwrite : tree.write path root.render with
      | error e =>
        rw [onFile_of_unwritten hprepared houtput hwrite]
        exact .unwritten rfl h houtput hwrite
      | ok after =>
        have hwrites : Writes tree args root after := by
          rw [Writes, houtput]
          exact hwrite
        rw [onFile_of_writes hprepared hwrites]
        exact ends_of_writes h hwrites

end Run

end LetTree

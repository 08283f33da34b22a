import LetTree.Proofs.Command.Stages

/-!
# Outcomes of a run

What a run prints, how it exits and which files it leaves, for every file tree, all arguments and
all surroundings. The exit code tells whether every stage succeeded; a run that gets no tree leaves
nothing behind; a run that gets one changes the file of its output and no other. A switch and the
setting of the same name are one: two runs in which either is on have the same result, but for what
their surroundings make of the log.
-/

namespace LetTree

namespace Run

variable {l : Libraries} {env env' : l.Environment} {tree tree' after after' : FileTree}
  {args args' : Arguments} {settings settings' : Settings} {root : Node}
  {outcome outcome' : Outcome}

/-! ### One run -/

/-- Every stage of a run succeeds. -/
def Succeeds (l : Libraries) (tree : FileTree) (args : Arguments) : Prop :=
  ∃ settings root bindings, Prepared l tree args settings root ∧
    (∃ after, Writes tree args root after) ∧ root.bindings = .ok bindings

theorem Writes.write {path : String} (h : Writes tree args root after)
    (houtput : args.output = some path) : tree.write path root.render = .ok after := by
  rw [Writes, houtput] at h
  exact h

theorem Writes.unique (h : Writes tree args root after) (h' : Writes tree args root after') :
    after = after' := by
  cases houtput : args.output with
  | some path => exact Except.ok.inj ((h.write houtput).symm.trans (h'.write houtput))
  | none =>
    rw [Writes, houtput] at h h'
    exact h.trans h'.symm

theorem Writes.tree_or_write (h : Writes tree args root after) :
    after = tree ∨ ∃ path, args.output = some path ∧ tree.write path root.render = .ok after := by
  unfold Writes at h
  split at h
  · next path houtput => exact .inr ⟨path, houtput, h⟩
  · exact .inl h

theorem outcome_reports {f : Failure} (hcode : f.code = 1) (logged printed : String) :
    (f.outcome logged printed).code = 1 ∧ (f.outcome logged printed).stderr ≠ "" := by
  refine ⟨hcode, fun hempty => ?_⟩
  have hlist := congrArg String.toList hempty
  simp [Failure.outcome] at hlist

theorem outcome_code_ne_zero {f : Failure} (hcode : f.code = 1) (logged printed : String) :
    (f.outcome logged printed).code ≠ 0 := by
  rw [(outcome_reports hcode logged printed).1]
  exact Nat.one_ne_zero

namespace Ends

variable (h : Ends l env tree args outcome after)

include h

theorem success_of_code_eq_zero (hzero : outcome.code = 0) :
    ∃ settings root bindings, Prepared l tree args settings root ∧ Writes tree args root after ∧
      root.bindings = .ok bindings ∧
      outcome = ⟨0, drawn args settings root ++
          if args.bindings || settings.bindings then summary bindings else "",
        l.log env (root.parsedEvents ++ root.analysisEvents ++ root.releaseEvents)⟩ := by
  cases h with
  | early hcode => exact absurd hzero (outcome_code_ne_zero hcode _ _)
  | unwritten hcode => exact absurd hzero (outcome_code_ne_zero hcode _ _)
  | refused hcode => exact absurd hzero (outcome_code_ne_zero hcode _ _)
  | success hprepared hwrites hbindings =>
    exact ⟨_, _, _, hprepared, hwrites, hbindings, rfl⟩

theorem code_eq_zero_iff : outcome.code = 0 ↔ Succeeds l tree args := by
  constructor
  · intro hzero
    obtain ⟨settings, root, bindings, hprepared, hwrites, hbindings, -⟩ :=
      h.success_of_code_eq_zero hzero
    exact ⟨settings, root, bindings, hprepared, ⟨after, hwrites⟩, hbindings⟩
  · rintro ⟨settings, root, bindings, hprepared, ⟨written, hwrites⟩, hbindings⟩
    cases h with
    | early _ hnone => exact absurd hprepared (hnone settings root)
    | unwritten _ hprepared' houtput hwrite =>
      obtain ⟨rfl, rfl⟩ := hprepared'.unique hprepared
      rw [hwrites.write houtput] at hwrite
      cases hwrite
    | refused _ hprepared' _ hbindings' =>
      obtain ⟨rfl, rfl⟩ := hprepared'.unique hprepared
      rw [hbindings'] at hbindings
      cases hbindings
    | success => rfl

theorem of_code_ne_zero (hne : outcome.code ≠ 0) : outcome.code = 1 ∧ outcome.stderr ≠ "" := by
  cases h with
  | early hcode => exact outcome_reports hcode _ _
  | unwritten hcode => exact outcome_reports hcode _ _
  | refused hcode => exact outcome_reports hcode _ _
  | success => exact absurd rfl hne

theorem of_not_prepared (hnone : ¬ ∃ settings root, Prepared l tree args settings root) :
    outcome.stdout = "" ∧ after = tree := by
  cases h with
  | early => exact ⟨rfl, rfl⟩
  | unwritten _ hprepared => exact absurd ⟨_, _, hprepared⟩ hnone
  | refused _ hprepared => exact absurd ⟨_, _, hprepared⟩ hnone
  | success hprepared => exact absurd ⟨_, _, hprepared⟩ hnone

/-- The file tree stays as it is, or the tree of the source is written. -/
theorem tree_or_write : after = tree ∨ ∃ path settings root, args.output = some path ∧
    Prepared l tree args settings root ∧ tree.write path root.render = .ok after := by
  have hleft : after = tree ∨ ∃ settings root, Prepared l tree args settings root ∧
      Writes tree args root after := by
    cases h with
    | early => exact .inl rfl
    | unwritten => exact .inl rfl
    | refused _ hprepared hwrites => exact .inr ⟨_, _, hprepared, hwrites⟩
    | success hprepared hwrites => exact .inr ⟨_, _, hprepared, hwrites⟩
  rcases hleft with htree | ⟨settings, root, hprepared, hwrites⟩
  · exact .inl htree
  · rcases hwrites.tree_or_write with htree | ⟨path, houtput, hwrite⟩
    · exact .inl htree
    · exact .inr ⟨path, settings, root, houtput, hprepared, hwrite⟩

theorem of_changed {place : List String} (hplace : after.content? place ≠ tree.content? place) :
    ∃ path settings root, args.output = some path ∧ Prepared l tree args settings root ∧
      tree.Leads path.toList place ∧ after.content? place = some (.text root.render) := by
  rcases h.tree_or_write with htree | ⟨path, settings, root, houtput, hprepared, hwrite⟩
  · rw [htree] at hplace
    exact absurd rfl hplace
  · exact ⟨path, settings, root, houtput, hprepared, FileTree.content?_of_write hwrite hplace⟩

theorem isDirectory_eq (place : List String) :
    after.isDirectory place = tree.isDirectory place := by
  rcases h.tree_or_write with htree | ⟨path, settings, root, -, -, hwrite⟩
  · rw [htree]
  · exact FileTree.isDirectory_of_write hwrite place

theorem of_writes {written : FileTree} (hprepared : Prepared l tree args settings root)
    (hwrites : Writes tree args root written) : after = written := by
  cases h with
  | early _ hnone => exact absurd hprepared (hnone settings root)
  | unwritten _ hprepared' houtput hwrite =>
    obtain ⟨rfl, rfl⟩ := hprepared'.unique hprepared
    rw [hwrites.write houtput] at hwrite
    cases hwrite
  | refused _ hprepared' hwrites' =>
    obtain ⟨rfl, rfl⟩ := hprepared'.unique hprepared
    exact hwrites'.unique hwrites
  | success hprepared' hwrites' =>
    obtain ⟨rfl, rfl⟩ := hprepared'.unique hprepared
    exact hwrites'.unique hwrites

theorem read_output {path : String} {written : FileTree}
    (hprepared : Prepared l tree args settings root) (houtput : args.output = some path)
    (hwrites : Writes tree args root written) : after.read path = .ok root.render := by
  rw [h.of_writes hprepared hwrites]
  exact FileTree.read_of_write (hwrites.write houtput)

theorem of_success (hzero : outcome.code = 0) {bindings : List Binding}
    (hprepared : Prepared l tree args settings root) (hbindings : root.bindings = .ok bindings) :
    outcome.stderr = l.log env (root.parsedEvents ++ root.analysisEvents ++ root.releaseEvents) ∧
      outcome.stdout = drawn args settings root ++
        if args.bindings || settings.bindings then summary bindings else "" := by
  obtain ⟨settings', root', bindings', hprepared', -, hbindings', rfl⟩ :=
    h.success_of_code_eq_zero hzero
  obtain ⟨rfl, rfl⟩ := hprepared'.unique hprepared
  rw [hbindings'] at hbindings
  cases hbindings
  exact ⟨rfl, rfl⟩

/-- Where nothing is said about the log, a success reports nothing. -/
theorem quiet (hl : l.Documented) (henv : l.logVariable env = none) (hzero : outcome.code = 0) :
    outcome.stderr = "" := by
  obtain ⟨settings, root, bindings, -, -, -, rfl⟩ := h.success_of_code_eq_zero hzero
  exact hl.log_eq_empty henv _

/-- The check comes after the tree, so that its failure takes nothing back. -/
theorem of_bindings_error {e : Halt BindingError} (hprepared : Prepared l tree args settings root)
    (hbindings : root.bindings = .error e) :
    outcome.code = 1 ∧ outcome.stdout = drawn args settings root := by
  cases h with
  | early _ hnone => exact absurd hprepared (hnone settings root)
  | unwritten hcode _ houtput =>
    rw [drawn_of_output houtput]
    exact ⟨hcode, rfl⟩
  | refused hcode hprepared' =>
    obtain ⟨rfl, rfl⟩ := hprepared'.unique hprepared
    exact ⟨hcode, rfl⟩
  | success hprepared' _ hbindings' =>
    obtain ⟨rfl, rfl⟩ := hprepared'.unique hprepared
    rw [hbindings'] at hbindings
    cases hbindings

end Ends

/-- What holds of a run with its outcome and the files after it. -/
structure Staged (l : Libraries) (env : l.Environment) (tree : FileTree) (args : Arguments)
    (outcome : Outcome) (after : FileTree) : Prop where
  /-- The code is 0 if every stage succeeds, and only then. -/
  code_eq_zero_iff : outcome.code = 0 ↔ Succeeds l tree args
  /-- Every other run has the code 1 and reports something. -/
  of_code_ne_zero : outcome.code ≠ 0 → outcome.code = 1 ∧ outcome.stderr ≠ ""
  /-- If no document is named, the one that counts is beside the source. -/
  configured_beside : args.config = none → ∀ place, tree.Leads args.file.toList place →
    ∃ above name, place = above ++ [name] ∧ ∀ settings, Configured l tree args settings ↔
      SettledBy l settings (tree.target above "arbor.toml".toList)
  /-- A run that gets no tree leaves nothing behind. -/
  of_not_prepared : (¬ ∃ settings root, Prepared l tree args settings root) →
    outcome.stdout = "" ∧ after = tree
  /-- No file changes but that of the output, which then holds the tree. -/
  of_changed : ∀ place, after.content? place ≠ tree.content? place →
    ∃ path settings root, args.output = some path ∧ Prepared l tree args settings root ∧
      tree.Leads path.toList place ∧ after.content? place = some (.text root.render)
  isDirectory_eq : ∀ place, after.isDirectory place = tree.isDirectory place
  /-- Where the tree can be written, the output holds it. -/
  read_output : ∀ path settings root, args.output = some path →
    Prepared l tree args settings root → (∃ written, Writes tree args root written) →
      after.read path = .ok root.render
  /-- A success prints the tree and then the bindings, each if asked for, and logs what was told. -/
  of_success : outcome.code = 0 → ∀ settings root bindings, Prepared l tree args settings root →
    root.bindings = .ok bindings →
      outcome.stderr =
          l.log env (root.parsedEvents ++ root.analysisEvents ++ root.releaseEvents) ∧
        outcome.stdout = drawn args settings root ++
          if args.bindings || settings.bindings then
            String.join (bindings.map fun b => b.text ++ "\n")
          else ""
  /-- The log of a success is empty where nothing is said about it. -/
  quiet : l.logVariable env = none → outcome.code = 0 → outcome.stderr = ""
  /-- Where a binding is at fault, the tree alone has been printed. -/
  of_bindings_error : ∀ settings root e, Prepared l tree args settings root →
    root.bindings = .error e → outcome.code = 1 ∧ outcome.stdout = drawn args settings root

theorem Ends.staged (h : Ends l env tree args outcome after) (hl : l.Documented) :
    Staged l env tree args outcome after where
  code_eq_zero_iff := h.code_eq_zero_iff
  of_code_ne_zero := h.of_code_ne_zero
  configured_beside hconfig _ := Run.configured_beside hconfig
  of_not_prepared := h.of_not_prepared
  of_changed _ := h.of_changed
  isDirectory_eq := h.isDirectory_eq
  read_output _ _ _ houtput hprepared hwrites := by
    obtain ⟨written, hwrites⟩ := hwrites
    exact h.read_output hprepared houtput hwrites
  of_success hzero _ _ _ := h.of_success hzero
  quiet := h.quiet hl
  of_bindings_error _ _ _ := h.of_bindings_error

/-! ### Two runs -/

/-- Two runs are asked for the same, be it by a switch or by a setting. -/
structure Agree (args : Arguments) (settings : Settings) (args' : Arguments)
    (settings' : Settings) : Prop where
  file : args'.file = args.file
  output : args'.output = args.output
  limit : settings'.limit = settings.limit
  tree : (args'.tree || settings'.tree) = (args.tree || settings.tree)
  bindings : (args'.bindings || settings'.bindings) = (args.bindings || settings.bindings)

theorem Agree.refl (args : Arguments) (settings : Settings) : Agree args settings args settings :=
  ⟨rfl, rfl, rfl, rfl, rfl⟩

/-- Two file trees have the same source, and give the same answer to a write of the output. -/
structure Alike (args : Arguments) (tree tree' : FileTree) : Prop where
  source : tree'.read args.file = tree.read args.file
  answer : ∀ path text, args.output = some path →
    (tree'.write path text).map (fun _ => ()) = (tree.write path text).map (fun _ => ())

/-- Two outcomes are the same but for the log, to which the same was told. -/
structure SameOutcome (l : Libraries) (env env' : l.Environment) (outcome outcome' : Outcome) :
    Prop where
  code : outcome'.code = outcome.code
  stdout : outcome'.stdout = outcome.stdout
  stderr : ∃ events reported, outcome.stderr = l.log env events ++ reported ∧
    outcome'.stderr = l.log env' events ++ reported

/-- In the same surroundings, nothing is left in which they could differ. -/
theorem SameOutcome.eq (h : SameOutcome l env env outcome outcome') : outcome' = outcome := by
  obtain ⟨hcode, hstdout, events, reported, hstderr, hstderr'⟩ := h
  obtain ⟨code, stdout, stderr⟩ := outcome
  obtain ⟨code', stdout', stderr'⟩ := outcome'
  cases hcode
  cases hstdout
  cases hstderr
  cases hstderr'
  rfl

theorem sameOutcome_failure (f : Failure) (events : List Event) (printed : String) :
    SameOutcome l env env' (f.outcome (l.log env events) printed)
      (f.outcome (l.log env' events) printed) :=
  ⟨rfl, rfl, events, f.message ++ "\n", String.append_assoc .., String.append_assoc ..⟩

/-- Two runs have the same outcome but for the log, and write the same text or none. -/
structure SameResult (l : Libraries) (env env' : l.Environment) (args : Arguments)
    (tree tree' : FileTree) (run run' : Outcome × FileTree) : Prop where
  outcome : SameOutcome l env env' run.1 run'.1
  files : (run.2 = tree ∧ run'.2 = tree') ∨
    ∃ path text, args.output = some path ∧ tree.write path text = .ok run.2 ∧
      tree'.write path text = .ok run'.2

theorem Agree.check (h : Agree args settings args' settings') (root : Node) :
    SameOutcome l env env' (check l env args settings root (drawn args settings root))
      (check l env' args' settings' root (drawn args' settings' root)) := by
  have hdrawn : drawn args' settings' root = drawn args settings root := by
    simp only [drawn, h.output, h.tree]
  unfold Run.check
  rw [hdrawn, h.bindings, h.file]
  obtain ⟨result, events⟩ := root.analysis.finish
  cases result with
  | ok bindings =>
    exact ⟨rfl, rfl, _, "", (String.append_empty ..).symm, (String.append_empty ..).symm⟩
  | error e => cases e <;> exact sameOutcome_failure ..

theorem sameResult_of_error {f : Failure} (h : prepared l tree args = .error f)
    (h' : prepared l tree' args' = .error f) :
    SameResult l env env' args tree tree' (tree.perform (onFile l FileTree.host env args))
      (tree'.perform (onFile l FileTree.host env' args')) := by
  rw [onFile_of_error h, onFile_of_error h']
  exact ⟨sameOutcome_failure .., .inl ⟨rfl, rfl⟩⟩

theorem sameResult_of_ok (hagree : Agree args settings args' settings')
    (halike : Alike args tree tree') (h : prepared l tree args = .ok (settings, root))
    (h' : prepared l tree' args' = .ok (settings', root)) :
    SameResult l env env' args tree tree' (tree.perform (onFile l FileTree.host env args))
      (tree'.perform (onFile l FileTree.host env' args')) := by
  cases houtput : args.output with
  | none =>
    have hwrites : Writes tree args root tree := by rw [Writes, houtput]
    have hwrites' : Writes tree' args' root tree' := by rw [Writes, hagree.output, houtput]
    rw [onFile_of_writes h hwrites, onFile_of_writes h' hwrites']
    exact ⟨hagree.check root, .inl ⟨rfl, rfl⟩⟩
  | some path =>
    have houtput' : args'.output = some path := hagree.output.trans houtput
    have hanswer := halike.answer path root.render houtput
    cases hwrite : tree.write path root.render with
    | error e =>
      rw [hwrite] at hanswer
      cases hwrite' : tree'.write path root.render with
      | error e' =>
        rw [hwrite'] at hanswer
        cases hanswer
        rw [onFile_of_unwritten h houtput hwrite, onFile_of_unwritten h' houtput' hwrite']
        exact ⟨sameOutcome_failure .., .inl ⟨rfl, rfl⟩⟩
      | ok after' =>
        rw [hwrite'] at hanswer
        cases hanswer
    | ok after =>
      rw [hwrite] at hanswer
      cases hwrite' : tree'.write path root.render with
      | error e' =>
        rw [hwrite'] at hanswer
        cases hanswer
      | ok after' =>
        have hwrites : Writes tree args root after := by rwa [Writes, houtput]
        have hwrites' : Writes tree' args' root after' := by rwa [Writes, houtput']
        rw [onFile_of_writes h hwrites, onFile_of_writes h' hwrites']
        exact ⟨hagree.check root, .inr ⟨path, root.render, houtput, hwrite, hwrite'⟩⟩

/-- Of its settings, a run only uses what they amount to together with the switches. -/
theorem sameResult_of_agree (h : found l tree args = .ok settings)
    (h' : found l tree' args' = .ok settings') (hagree : Agree args settings args' settings')
    (halike : Alike args tree tree') :
    SameResult l env env' args tree tree' (tree.perform (onFile l FileTree.host env args))
      (tree'.perform (onFile l FileTree.host env' args')) := by
  have hprepared : prepared l tree args =
      (sourced tree args.file settings.limit).map fun root => (settings, root) := by
    rw [prepared, h]
    rfl
  have hprepared' : prepared l tree' args' =
      (sourced tree args.file settings.limit).map fun root => (settings', root) := by
    rw [prepared, h', sourced, ← halike.source, ← hagree.limit, ← hagree.file]
    rfl
  cases hsourced : sourced tree args.file settings.limit with
  | error f =>
    rw [hsourced] at hprepared hprepared'
    exact sameResult_of_error hprepared hprepared'
  | ok root =>
    rw [hsourced] at hprepared hprepared'
    exact sameResult_of_ok hagree halike hprepared hprepared'

/-- A run with a named document looks at no other. -/
theorem sameResult_of_named {path : String} (hconfig : args.config = some path)
    (hread : tree'.read path = tree.read path) (halike : Alike args tree tree') :
    SameResult l env env' args tree tree' (tree.perform (onFile l FileTree.host env args))
      (tree'.perform (onFile l FileTree.host env' args)) := by
  have hsame : found l tree' args = found l tree args := by
    rw [found, found, hconfig]
    simp only [loaded, hread]
  cases hfound : found l tree args with
  | error f =>
    rw [hfound] at hsame
    refine sameResult_of_error (f := f) ?_ ?_
    · rw [prepared, hfound]
      rfl
    · rw [prepared, hsame]
      rfl
  | ok settings =>
    rw [hfound] at hsame
    exact sameResult_of_agree hfound hsame (.refl args settings) halike

theorem program_of_arguments {line : List String} (h : l.arguments line = .ok args)
    (env : l.Environment) (tree : FileTree) :
    tree.perform (program l FileTree.host env line) =
      tree.perform (onFile l FileTree.host env args) := by
  rw [program, h]

end Run

/-- **A run is its stages.**  For every file tree, every command line that names a file to run on
    and all surroundings: the code, what is printed and the files after the run are those of the
    stages. Two runs that are asked for the same, by a switch or by a setting, have the same result
    on file trees that are alike; and if a document is named, it is the only one that matters. -/
theorem run_composes_stages {l : Libraries} (hl : l.Documented) {line : List String}
    {args : Arguments} (h : l.arguments line = .ok args) (env : l.Environment) (tree : FileTree) :
    let run := tree.perform (Run.program l FileTree.host env line)
    Run.Staged l env tree args run.1 run.2 ∧
      (∀ line' args' env' tree' settings settings', l.arguments line' = .ok args' →
        Run.Configured l tree args settings → Run.Configured l tree' args' settings' →
        Run.Agree args settings args' settings' → Run.Alike args tree tree' →
          Run.SameResult l env env' args tree tree' run
            (tree'.perform (Run.program l FileTree.host env' line'))) ∧
      ∀ path env' tree', args.config = some path → tree'.read path = tree.read path →
        Run.Alike args tree tree' →
          Run.SameResult l env env' args tree tree' run
            (tree'.perform (Run.program l FileTree.host env' line)) := by
  simp only [Run.program_of_arguments h]
  refine ⟨(Run.onFile_ends l env tree args).staged hl, ?_, ?_⟩
  · intro line' args' env' tree' settings settings' hline' hsettings hsettings' hagree halike
    rw [Run.program_of_arguments hline']
    exact Run.sameResult_of_agree (Run.found_eq_ok_iff.mpr hsettings)
      (Run.found_eq_ok_iff.mpr hsettings') hagree halike
  · intro path env' tree' hconfig hread halike
    exact Run.sameResult_of_named hconfig hread halike

/-- A document is named that asks for the bindings, and the tree goes to a file; the paths are from
    the root, or leave the working directory and come back. The document beside the source is not
    even well formed, and makes no difference: without any document, and with the switch in its
    place, the outcome is the same. -/
theorem run_composes_stages_named_document :
    let tree : FileTree := ⟨[(["w", "p", "a.arb"], .text "let x: int = 3;"),
      (["w", "p", "arbor.toml"], .text "tree ="),
      (["w", "c.toml"], .text "output.bindings=true")], [], ["w"]⟩
    let bare : FileTree := ⟨[(["w", "p", "a.arb"], .text "let x: int = 3;")], [], ["w"]⟩
    let root : Node := .statements [.binding ⟨.int, "x"⟩ (.value (.int 3))]
    let program := Run.program .own FileTree.host none
    let run := tree.perform (program ["-c", "../w/c.toml", "-o/out", "/w/p/a.arb"])
    run.1.code = 0 ∧ run.1.stdout = "x: int = 3\n" ∧ run.1.stderr = "" ∧
      run.2.read "/out" = .ok root.render ∧
      (bare.perform (program ["-b", "-o/out", "/w/p/a.arb"])).1 = run.1 := by
  intro tree bare root program run
  let args : Arguments := ⟨"/w/p/a.arb", some "/out", false, false, some "../w/c.toml"⟩
  have hline : Libraries.own.arguments ["-c", "../w/c.toml", "-o/out", "/w/p/a.arb"] =
      .ok args := by
    with_unfolding_all rfl
  have hline' : Libraries.own.arguments ["-b", "-o/out", "/w/p/a.arb"] =
      .ok ⟨"/w/p/a.arb", some "/out", false, true, none⟩ := by
    with_unfolding_all rfl
  have hread : tree.read "/w/p/a.arb" = .ok "let x: int = 3;" := by
    with_unfolding_all rfl
  have hread' : bare.read "/w/p/a.arb" = .ok "let x: int = 3;" := by
    with_unfolding_all rfl
  have hlex : Token.lex "let x: int = 3;" =
      .ok [⟨.letWord, ⟨0, 3⟩⟩, ⟨.identifier "x", ⟨4, 5⟩⟩, ⟨.colon, ⟨5, 6⟩⟩,
        ⟨.type .int, ⟨7, 10⟩⟩, ⟨.equals, ⟨11, 12⟩⟩, ⟨.integer 3, ⟨13, 14⟩⟩,
        ⟨.semicolon, ⟨14, 15⟩⟩] := by
    with_unfolding_all rfl
  have hparse : parse 256 [⟨.letWord, ⟨0, 3⟩⟩, ⟨.identifier "x", ⟨4, 5⟩⟩, ⟨.colon, ⟨5, 6⟩⟩,
      ⟨.type .int, ⟨7, 10⟩⟩, ⟨.equals, ⟨11, 12⟩⟩, ⟨.integer 3, ⟨13, 14⟩⟩,
      ⟨.semicolon, ⟨14, 15⟩⟩] = .ok root := by
    with_unfolding_all rfl
  have hbindings : root.bindings = .ok [⟨"x", .int, .int 3⟩] := by
    with_unfolding_all rfl
  have hsettings : Libraries.own.settings "output.bindings=true" = .ok ⟨256, false, true⟩ := by
    have hdocument : Settings.ofDocument "output.bindings=true" = .ok ⟨256, false, true⟩ := by
      decide +kernel
    change (Settings.ofDocument _).mapError _ = _
    rw [hdocument]
    rfl
  have hconfigured : Run.Configured .own tree args ⟨256, false, true⟩ :=
    .named rfl ⟨"output.bindings=true", by with_unfolding_all rfl, hsettings⟩
  have hprepared : Run.Prepared .own tree args ⟨256, false, true⟩ root :=
    ⟨hconfigured, "let x: int = 3;", _, hread, hlex, hparse⟩
  have hwrites : ∃ after, Run.Writes tree args root after := ⟨_, by with_unfolding_all rfl⟩
  obtain ⟨hstaged, hmerged, -⟩ := run_composes_stages Libraries.own_documented hline none tree
  have hzero : run.1.code = 0 :=
    hstaged.code_eq_zero_iff.mpr ⟨_, _, _, hprepared, hwrites, hbindings⟩
  refine ⟨hzero, ?_, hstaged.quiet rfl hzero, ?_, ?_⟩
  · exact (hstaged.of_success hzero _ _ _ hprepared hbindings).2
  · exact hstaged.read_output _ _ _ rfl hprepared hwrites
  · refine Run.SameOutcome.eq
      (hmerged _ _ none bare ⟨256, false, true⟩ .standard hline' hconfigured ?_ ?_ ?_).outcome
    · exact .standard rfl (by with_unfolding_all rfl)
    · exact ⟨rfl, rfl, rfl, rfl, rfl⟩
    · refine ⟨hread'.trans hread.symm, ?_⟩
      intro path text hpath
      cases hpath
      with_unfolding_all rfl

end LetTree

import LetTree.Command.Arguments
import LetTree.Event
import LetTree.Settings

/-!
# Libraries

What a run leaves to others: reading the command line, reading a configuration document, and keeping
the log. The log depends on what surrounds a run, such as its variables and the time; one variable
may say which events go to it. `Libraries.Documented` is what a run relies on. The program is run
with readers of its own, and a log that keeps the events from one severity on.
-/

namespace LetTree

/-- What a run leaves besides files. -/
structure Outcome where
  code : Nat
  stdout : String
  stderr : String
  deriving DecidableEq, Repr

structure Libraries where
  /-- The arguments of a command line, or the outcome if the program ends without a run. -/
  arguments : List String → Except Outcome Arguments
  /-- The settings in a configuration document, or what is wrong with it. -/
  settings : String → Except String Settings
  /-- What surrounds a run. -/
  Environment : Type
  /-- The variable that says which events go to the log, if it is set. -/
  logVariable : Environment → Option String
  Filter : Type
  /-- The filter in the variable, if there is one. -/
  filterOf? : Environment → Option Filter
  /-- The filter that a text describes. -/
  filter : String → Filter
  /-- What the log says of events. -/
  record : Filter → Environment → List Event → String

namespace Libraries

/-- The filter where the variable has none: events of the program, from warnings on. -/
def standardFilter : String := "arbor=warn"

/-- The log of a run. -/
def log (l : Libraries) (env : l.Environment) (events : List Event) : String :=
  l.record ((l.filterOf? env).getD (l.filter standardFilter)) env events

/-- What the documentation of the libraries says, as far as a run relies on it. Nothing is asked of
    the readers: whatever they give is taken. -/
structure Documented (l : Libraries) : Prop where
  /-- A variable that is not set holds no filter. -/
  unset : ∀ env, l.logVariable env = none → l.filterOf? env = none
  /-- A filter for warnings lets nothing pass that matters less. -/
  quiet : ∀ env events, (∀ e ∈ events, e.severity.rank < Severity.warn.rank) →
    l.record (l.filter standardFilter) env events = ""

/-- Nothing that is told of a program is a warning. -/
theorem Documented.log_eq_empty {l : Libraries} (hl : l.Documented) {env : l.Environment}
    (henv : l.logVariable env = none) (events : List Event) : l.log env events = "" := by
  rw [log, hl.unset env henv]
  exact hl.quiet env events fun e _ => e.rank_severity_lt_warn

/-! ### Readers of its own -/

def programName : String := "arbor"

def version : String := "0.1.0"

def usage : String :=
  "Usage: " ++ programName ++ " [-t] [-b] [-o OUTPUT] [-c CONFIG] FILE"

/-- The outcome of a command line that names no file to run on. -/
def ended : Ended → Outcome
  | .version => ⟨0, programName ++ " " ++ version ++ "\n", ""⟩
  | .help => ⟨0, usage ++ "\n", ""⟩
  | .refused e => ⟨2, "", "error: " ++ e.message ++ "\n\n" ++ usage ++ "\n"⟩

/-- The severity that ends a directive, which may begin with the name of a program. -/
def severityOf? (directive : String) : Option Severity :=
  let name := (directive.toList.reverse.takeWhile (· ≠ '=')).reverse
  [Severity.trace, .debug, .info, .warn, .error].find? fun s =>
    s.text.toList = name.map Char.toUpper

def logLine (e : Event) : String :=
  e.severity.text ++ " " ++ programName ++ ": " ++ e.text ++ "\n"

/-- The readers of this library. What surrounds a run is the variable of the log alone, and a filter
    is the severity from which on events are kept. -/
def own : Libraries where
  arguments args := (Arguments.read args).mapError ended
  settings text := (Settings.ofDocument text).mapError SettingsError.message
  Environment := Option String
  logVariable := id
  Filter := Severity
  filterOf? env := env.bind severityOf?
  filter directive := (severityOf? directive).getD .error
  record least _ events :=
    String.join ((events.filter fun e => least.rank ≤ e.severity.rank).map logLine)

theorem own_documented : own.Documented where
  unset env henv := by
    change env = none at henv
    subst henv
    rfl
  quiet env events h := by
    have hfilter : own.filter standardFilter = Severity.warn := by
      change (severityOf? standardFilter).getD .error = .warn
      decide +kernel
    have hnone : events.filter (fun e => Severity.warn.rank ≤ e.severity.rank) = [] := by
      refine List.filter_eq_nil_iff.mpr fun e he hle => ?_
      exact Nat.not_le_of_lt (h e he) (of_decide_eq_true hle)
    rw [hfilter]
    change String.join ((events.filter _).map logLine) = ""
    rw [hnone]
    rfl

end Libraries

end LetTree

import LetTree.Command.FileTree
import LetTree.Command.Libraries
import LetTree.Grammar.Program
import LetTree.Node.Outline
import LetTree.Token.Lexer

/-!
# A run of the program

A run reads its settings and its source, makes the tree, writes or prints the tree if asked to, and
checks the bindings. The tree comes before the check, so that it is there to look at when the check
fails. Nothing is printed or written if settings, source, tokens or grammar are at fault. What is
told of the program on the way goes to the log, which is kept where failures are reported.
-/

namespace LetTree

inductive Failure where
  | settingsUnread (path : String) (e : FileError)
  | settingsRefused (reason : String)
  | sourceUnread (file : String) (e : FileError)
  | lexical (file source : String) (e : LexError)
  | grammatical (file source : String) (e : ParseError)
  | treeUnwritten (path : String) (e : FileError)
  | binding (file : String) (e : BindingError)
  | unknownOperator

namespace Failure

def message : Failure → String
  | settingsUnread path e => "error: could not read " ++ path ++ ": " ++ e.message
  | settingsRefused reason => "error: invalid configuration: " ++ reason
  | sourceUnread file e => "error: " ++ file ++ ": " ++ e.message
  | lexical file source e =>
    "error: lexical analysis failed\n" ++ e.span.excerpt source (some file) e.message
  | grammatical file source e => e.report source (some file)
  | treeUnwritten path e => "error: could not write to " ++ path ++ ": " ++ e.message
  | binding file e => "error: " ++ file ++ ": " ++ e.message
  | unknownOperator => Halt.unknownOperatorMessage

def code : Failure → Nat
  | unknownOperator => 101
  | _ => 1

/-- The outcome of a failure after something has been logged and printed. -/
def outcome (f : Failure) (logged printed : String) : Outcome :=
  ⟨f.code, printed, logged ++ f.message ++ "\n"⟩

end Failure

namespace Run

/-- The name of the configuration document beside a source. -/
def configName : String := "arbor.toml"

variable {m : Type → Type} [Monad m] (l : Libraries) (host : Host m)

def loadSettings (path : String) : m (Except Failure Settings) := do
  match ← host.read path with
  | .error e => return .error (.settingsUnread path e)
  | .ok text => return (l.settings text).mapError .settingsRefused

/-- The settings of a run: from the document that is named, or else from the one beside the source
    if there is one. -/
def findSettings (args : Arguments) : m (Except Failure Settings) := do
  match args.config with
  | some path => loadSettings l host path
  | none =>
    let path := Path.within ((Path.parent? args.file).getD ".") configName
    if ← host.isFile path then loadSettings l host path else return .ok Settings.standard

def compile (limit : Nat) (file source : String) : Except Failure Node := do
  let tokens ← (Token.lex source).mapError (.lexical file source)
  (parse limit tokens).mapError (.grammatical file source)

def prepare (args : Arguments) : m (Except Failure (Settings × Node)) := do
  match ← findSettings l host args with
  | .error f => return .error f
  | .ok settings =>
    match ← host.read args.file with
    | .error e => return .error (.sourceUnread args.file e)
    | .ok source =>
      return (compile settings.limit args.file source).map fun root => (settings, root)

def summary (bindings : List Binding) : String :=
  String.join (bindings.map fun b => b.text ++ "\n")

/-- Checks the bindings of a tree after `printed` has been printed. -/
def check (env : l.Environment) (args : Arguments) (settings : Settings) (root : Node)
    (printed : String) : Outcome :=
  let (result, events) := root.analysis.finish
  let told := root.parsedEvents ++ events
  match result with
  | .ok bindings =>
    ⟨0, printed ++ if args.bindings || settings.bindings then summary bindings else "",
      l.log env (told ++ root.releaseEvents)⟩
  | .error (.error e) => (Failure.binding args.file e).outcome (l.log env told) printed
  | .error .unknownOperator => Failure.unknownOperator.outcome (l.log env told) printed

def onFile (env : l.Environment) (args : Arguments) : m Outcome := do
  match ← prepare l host args with
  | .error f => return f.outcome (l.log env []) ""
  | .ok (settings, root) =>
    match args.output with
    | some path =>
      match ← host.write path root.render with
      | .error e => return (Failure.treeUnwritten path e).outcome (l.log env root.parsedEvents) ""
      | .ok () => return check l env args settings root ""
    | none =>
      return check l env args settings root
        (if args.tree || settings.tree then root.render else "")

/-- A run with the arguments of a command line. -/
def program (env : l.Environment) (line : List String) : m Outcome :=
  match l.arguments line with
  | .ok args => onFile l host env args
  | .error outcome => return outcome

/-- A run with the readers of this library, where nothing is said about the log. -/
def command (line : List String) : m Outcome :=
  program .own host none line

end Run

end LetTree

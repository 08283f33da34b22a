import LetTree.Grammar.Program
import LetTree.Toml.Document

/-!
# Settings

What a configuration document sets: the limit on expressions, and what is printed without being
asked for on the command line. Every key may be left out, and a key that is not known is refused at
every level. A section may also be written as an array of its values in order; values beyond the
last key of the section are then ignored.
-/

namespace LetTree

structure Settings where
  limit : Nat
  tree : Bool
  bindings : Bool
  deriving DecidableEq, Repr

/-- Why a document gives no settings. -/
inductive SettingsError where
  | malformed
  | unknownKey (key : String)
  | wrongValue (key : String)
  deriving DecidableEq, Repr

def SettingsError.message : SettingsError → String
  | .malformed => "the document is not well formed"
  | .unknownKey key => "unknown key '" ++ key ++ "'"
  | .wrongValue key => "the value of '" ++ key ++ "' does not fit"

namespace Settings

/-- The settings of an empty document. -/
def standard : Settings := ⟨defaultLimit, false, false⟩

/-- A key of a section: its name, and how its value changes the settings. -/
structure Key where
  name : String
  set? : Toml.Value → Settings → Option Settings

/-- The limit: a number that fits into 64 bits without a sign. -/
def limitKey : Key where
  name := "max_depth"
  set? v s :=
    match v.int? with
    | some n => if 0 ≤ n && n < UInt64.size then some ⟨n.toNat, s.tree, s.bindings⟩ else none
    | none => none

def treeKey : Key where
  name := "tree"
  set? v s :=
    match v with
    | .boolean b => some ⟨s.limit, b, s.bindings⟩
    | _ => none

def bindingsKey : Key where
  name := "bindings"
  set? v s :=
    match v with
    | .boolean b => some ⟨s.limit, s.tree, b⟩
    | _ => none

def sections : List (String × List Key) :=
  [("parser", [limitKey]), ("output", [treeKey, bindingsKey])]

def setKey (key : Key) (v : Toml.Value) (s : Settings) : Except SettingsError Settings :=
  match key.set? v s with
  | some s => .ok s
  | none => .error (.wrongValue key.name)

def setTable (keys : List Key) (s : Settings) : Toml.Entries → Except SettingsError Settings
  | [] => .ok s
  | (name, v) :: rest => do
    match keys.find? fun key => key.name = name with
    | some key => setTable keys (← setKey key v s) rest
    | none => throw (.unknownKey name)

/-- Sets keys in their order from an array of values. -/
def setArray (s : Settings) : List Key → List Toml.Value → Except SettingsError Settings
  | key :: keys, v :: vs => do setArray (← setKey key v s) keys vs
  | _, _ => .ok s

def setSection (name : String) (keys : List Key) (v : Toml.Value) (s : Settings) :
    Except SettingsError Settings :=
  match v with
  | .table _ entries => setTable keys s entries
  | .array vs => setArray s keys vs
  | .tables elements => setArray s keys (elements.map (.table .header))
  | _ => .error (.wrongValue name)

def setSections (s : Settings) : Toml.Entries → Except SettingsError Settings
  | [] => .ok s
  | (name, v) :: rest => do
    match sections.lookup name with
    | some keys => setSections (← setSection name keys v s) rest
    | none => throw (.unknownKey name)

/-- The settings that a configuration document gives. -/
def ofDocument (text : String) : Except SettingsError Settings :=
  match Toml.document? text with
  | some entries => setSections standard entries
  | none => .error .malformed

end Settings

end LetTree

/-!
# Command-line arguments

One file is named, and options say what to print and where. Options have a long name after two
dashes and a short one after a single dash; short ones may be run together. An option with a value
takes it from the rest of its own argument, with or without an equals sign, or from the next
argument. After `--` every argument is a file name. Arguments are read in their order and reading
stops at the first that is at fault, and likewise at a request for the version or for help.
-/

namespace LetTree

/-- What to run on. -/
structure Arguments where
  file : String
  output : Option String
  tree : Bool
  bindings : Bool
  config : Option String
  deriving DecidableEq, Repr

/-- Why arguments are refused. -/
inductive UsageError where
  | unknownOption (name : String)
  | repeated (name : String)
  | needlessValue (name : String)
  | missingValue (name : String)
  | missingFile
  | secondFile (file : String)
  deriving DecidableEq, Repr

def UsageError.message : UsageError → String
  | .unknownOption name => "unexpected argument '" ++ name ++ "'"
  | .repeated name => "the argument '" ++ name ++ "' cannot be used multiple times"
  | .needlessValue name => "the argument '" ++ name ++ "' takes no value"
  | .missingValue name => "a value is required for '" ++ name ++ "'"
  | .missingFile => "a file is required"
  | .secondFile file => "unexpected argument '" ++ file ++ "'"

/-- How reading ends without a file to run on. -/
inductive Ended where
  | refused (e : UsageError)
  | version
  | help
  deriving DecidableEq, Repr

inductive Switch where
  | tree
  | bindings
  | version
  | help
  deriving DecidableEq, Repr

inductive Valued where
  | output
  | config
  deriving DecidableEq, Repr

inductive CommandOption where
  | switch (s : Switch)
  | valued (v : Valued)
  deriving DecidableEq, Repr

/-- The options with their long and short names. -/
def CommandOption.names : List (CommandOption × String × Char) :=
  [(.valued .output, "output", 'o'), (.switch .tree, "tree", 't'),
    (.switch .bindings, "bindings", 'b'), (.valued .config, "config", 'c'),
    (.switch .help, "help", 'h'), (.switch .version, "version", 'V')]

namespace CommandOption

def ofLong? (name : String) : Option CommandOption :=
  (names.find? fun (_, long, _) => long = name).map (·.1)

def ofShort? (name : Char) : Option CommandOption :=
  (names.find? fun (_, _, short) => short = name).map (·.1)

end CommandOption

/-- The long name of an option with a value, as it is shown. -/
def Valued.text : Valued → String
  | .output => "--output"
  | .config => "--config"

structure Collected where
  file : Option String
  output : Option String
  tree : Bool
  bindings : Bool
  config : Option String
  deriving DecidableEq, Repr

namespace Collected

def start : Collected := ⟨none, none, false, false, none⟩

/-- Turns an option on, once. -/
def turnOn (c : Collected) : Switch → Except Ended Collected
  | .tree =>
    if c.tree then .error (.refused (.repeated "--tree"))
    else .ok ⟨c.file, c.output, true, c.bindings, c.config⟩
  | .bindings =>
    if c.bindings then .error (.refused (.repeated "--bindings"))
    else .ok ⟨c.file, c.output, c.tree, true, c.config⟩
  | .version => .error .version
  | .help => .error .help

/-- Gives an option its value, once; the value must not be empty. -/
def give (c : Collected) (option : Valued) (value : String) : Except Ended Collected :=
  if value.isEmpty then .error (.refused (.missingValue option.text))
  else
    match option with
    | .output =>
      if c.output.isSome then .error (.refused (.repeated option.text))
      else .ok ⟨c.file, some value, c.tree, c.bindings, c.config⟩
    | .config =>
      if c.config.isSome then .error (.refused (.repeated option.text))
      else .ok ⟨c.file, c.output, c.tree, c.bindings, some value⟩

/-- Names the file, once; the name must not be empty. -/
def name (c : Collected) (file : String) : Except Ended Collected :=
  if c.file.isSome then .error (.refused (.secondFile file))
  else if file.isEmpty then .error (.refused .missingFile)
  else .ok ⟨some file, c.output, c.tree, c.bindings, c.config⟩

/-- The arguments, once all have been read. -/
def finish (c : Collected) : Except Ended Arguments :=
  match c.file with
  | some file => .ok ⟨file, c.output, c.tree, c.bindings, c.config⟩
  | none => .error (.refused .missingFile)

/-- Reads a long option without its dashes. The second component of the result is an option whose
    value is still to come. -/
def readLong (c : Collected) (body : List Char) : Except Ended (Collected × Option Valued) :=
  let name := String.ofList (body.takeWhile (· ≠ '='))
  let attached :=
    match body.dropWhile (· ≠ '=') with
    | [] => none
    | _ :: value => some (String.ofList value)
  match CommandOption.ofLong? name, attached with
  | none, _ => .error (.refused (.unknownOption ("--" ++ name)))
  | some (.switch s), none => do return (← c.turnOn s, none)
  | some (.switch _), some _ => .error (.refused (.needlessValue ("--" ++ name)))
  | some (.valued v), none => .ok (c, some v)
  | some (.valued v), some value => do return (← c.give v value, none)

/-- Reads short options without their dash. -/
def readShort (c : Collected) : List Char → Except Ended (Collected × Option Valued)
  | [] => .ok (c, none)
  | short :: rest =>
    match CommandOption.ofShort? short with
    | none => .error (.refused (.unknownOption ("-" ++ String.singleton short)))
    | some (.switch s) => do readShort (← c.turnOn s) rest
    | some (.valued v) =>
      match rest with
      | [] => .ok (c, some v)
      | '=' :: value => do return (← c.give v (String.ofList value), none)
      | value => do return (← c.give v (String.ofList value), none)

def readFiles (c : Collected) : List String → Except Ended Arguments
  | [] => c.finish
  | file :: rest => do readFiles (← c.name file) rest

/-- Reads arguments; `awaiting` is an option whose value is still to come. -/
def read (c : Collected) (awaiting : Option Valued) : List String → Except Ended Arguments
  | [] =>
    match awaiting with
    | some v => .error (.refused (.missingValue v.text))
    | none => c.finish
  | arg :: rest =>
    match arg.toList, awaiting with
    | '-' :: _ :: _, some v => .error (.refused (.missingValue v.text))
    | _, some v => do read (← c.give v arg) none rest
    | ['-', '-'], none => c.readFiles rest
    | '-' :: '-' :: body, none => do
      let (c, awaiting) ← c.readLong body
      read c awaiting rest
    | '-' :: short :: body, none => do
      let (c, awaiting) ← c.readShort (short :: body)
      read c awaiting rest
    | _, none => do read (← c.name arg) none rest

end Collected

def Arguments.read (args : List String) : Except Ended Arguments :=
  Collected.start.read none args

end LetTree

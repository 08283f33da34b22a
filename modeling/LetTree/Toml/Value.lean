import LetTree.Text.Digits

/-!
# Values of a TOML document

A document is a table of keys and values. A table remembers how it came about, because that decides
whether a later line of the document may still add to it.
-/

namespace LetTree.Toml

/-- How a table came about: written in braces, named by a header, needed on the way to a header
    below it, or needed on the way to a dotted key. -/
inductive Origin where
  | braces
  | header
  | implied
  | dotted
  deriving DecidableEq, Repr

/-- A value. Numbers and dates are kept as they are written, an integer without its underscores and
    the mark of its base. -/
inductive Value where
  | string (s : String)
  | numeral (radix : Nat) (text : List Char)
  | float (text : String)
  | boolean (b : Bool)
  | date (text : String)
  | array (items : List Value)
  | table (origin : Origin) (entries : List (String × Value))
  | tables (elements : List (List (String × Value)))
  deriving Repr

/-- A sign, and what follows it; `true` is the minus sign. -/
def signed : List Char → Option Bool × List Char
  | '+' :: cs => (some false, cs)
  | '-' :: cs => (some true, cs)
  | cs => (none, cs)

/-- The integer of a numeral. A numeral may hold characters that are no digits of its base, or
    nothing at all; it then is no integer, which matters only to those who ask for one. -/
def Value.int? : Value → Option Int
  | .numeral radix text =>
    let (sign, digits) := signed text
    if !digits.isEmpty && digits.all (Text.isDigit radix) then
      let n : Int := Text.digitsValue radix digits
      some (if sign = some true then -n else n)
    else none
  | _ => none

/-- The keys of a table with their values, in the order of the document. -/
abbrev Entries := List (String × Value)

namespace Entries

def get? (entries : Entries) (key : String) : Option Value :=
  entries.lookup key

/-- Gives a key another value, or a new key its first value. -/
def put (entries : Entries) (key : String) (v : Value) : Entries :=
  match entries with
  | [] => [(key, v)]
  | (k, old) :: rest => if k = key then (k, v) :: rest else (k, old) :: put rest key v

/-- Adds a value under a dotted key. The key must be new, and a table on the way to it must not
    have been finished before. -/
def assign? (entries : Entries) (path : List String) (v : Value) : Option Entries :=
  match path with
  | [] => none
  | [key] =>
    match entries.get? key with
    | none => some (entries.put key v)
    | some _ => none
  | key :: path =>
    match entries.get? key with
    | none => do return entries.put key (.table .dotted (← assign? [] path v))
    | some (.table origin inside) =>
      if origin = .dotted || origin = .implied then do
        return entries.put key (.table origin (← assign? inside path v))
      else none
    | some _ => none

/-- Makes the table that a header names. Only a table that was merely implied may be there. -/
def openTable? (entries : Entries) (path : List String) : Option Entries :=
  match path with
  | [] => none
  | [key] =>
    match entries.get? key with
    | none => some (entries.put key (.table .header []))
    | some (.table .implied inside) => some (entries.put key (.table .header inside))
    | some _ => none
  | key :: path =>
    match entries.get? key with
    | none => do return entries.put key (.table .implied (← openTable? [] path))
    | some (.table origin inside) =>
      if origin = .braces then none
      else do return entries.put key (.table origin (← openTable? inside path))
    | some (.tables elements) =>
      match elements.getLast? with
      | some last => do
        return entries.put key (.tables (elements.dropLast ++ [← openTable? last path]))
      | none => none
    | some _ => none

/-- Adds an element to the list of tables that a header in double brackets names. -/
def openElement? (entries : Entries) (path : List String) : Option Entries :=
  match path with
  | [] => none
  | [key] =>
    match entries.get? key with
    | none => some (entries.put key (.tables [[]]))
    | some (.tables elements) => some (entries.put key (.tables (elements ++ [[]])))
    | some _ => none
  | key :: path =>
    match entries.get? key with
    | none => do return entries.put key (.table .implied (← openElement? [] path))
    | some (.table origin inside) =>
      if origin = .braces then none
      else do return entries.put key (.table origin (← openElement? inside path))
    | some (.tables elements) =>
      match elements.getLast? with
      | some last => do
        return entries.put key (.tables (elements.dropLast ++ [← openElement? last path]))
      | none => none
    | some _ => none

/-- Changes the entries of the table that a header has made. -/
def within? (entries : Entries) (path : List String) (change : Entries → Option Entries) :
    Option Entries :=
  match path with
  | [] => change entries
  | key :: path =>
    match entries.get? key with
    | some (.table origin inside) => do
      return entries.put key (.table origin (← within? inside path change))
    | some (.tables elements) =>
      match elements.getLast? with
      | some last => do
        return entries.put key (.tables (elements.dropLast ++ [← within? last path change]))
      | none => none
    | _ => none

end Entries

end LetTree.Toml

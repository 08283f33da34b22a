import LetTree.Toml.Text
import LetTree.Toml.Value

/-!
# Numbers, truth values and dates of a TOML document

A value without quotes or brackets is a run of characters that has to be a number, a truth value or
a date as a whole. Integers are held to little: one with an underscore after its first digits may go
on with other characters, and one with the mark of a base may lack digits. Such a numeral is a value
of the document, only not one that has an integer.
-/

namespace LetTree.Toml

/-! ### Numbers -/

/-- The rule for underscores in a text that goes on: `allowed` says that one may come next. -/
def spacedFrom (isDigit : Char → Bool) (allowed : Bool) : List Char → Bool
  | [] => true
  | ['_'] => false
  | '_' :: c :: cs => allowed && isDigit c && spacedFrom isDigit true cs
  | c :: cs => spacedFrom isDigit (isDigit c) cs

/-- The rule for underscores: each stands right after a digit and right before a digit. -/
def spaced (isDigit : Char → Bool) (text : List Char) : Bool :=
  spacedFrom isDigit false text

/-- A numeral without its underscores. -/
def numeral (radix : Nat) (text : List Char) : Value :=
  .numeral radix (text.filter (· ≠ '_'))

/-- An integer after the mark of its base: digits of the base and underscores, possibly none. -/
def radixed? (radix : Nat) (digits : List Char) : Option Value :=
  if digits.all (fun c => c = '_' || Text.isDigit radix c) && spaced (Text.isDigit 16) digits then
    some (numeral radix digits)
  else none

/-- Takes a run of digits and underscores that has a digit; unless `zeros` allows it, a run of more
    than one digit does not begin with a zero. -/
def digitRun (zeros : Bool) : Scan Unit := fun cs =>
  let run := cs.takeWhile fun c => c = '_' || Text.isDigit 10 c
  let count := (run.filter (· ≠ '_')).length
  if count = 0 || (1 < count && run.head? = some '0' && !zeros) then none
  else some ((), cs.drop run.length)

/-- Takes a number with a fraction, an exponent or both. -/
def float : Scan Unit := do
  digitRun false
  if ← Scan.oneOf ['.'] then digitRun true
  if ← Scan.oneOf ['e', 'E'] then
    let _ ← Scan.oneOf ['+', '-']
    digitRun true

/-- Whether a reader takes a text as a whole. -/
def Scan.takesAll (scan : Scan Unit) (cs : List Char) : Bool :=
  match scan.run cs with
  | some ((), []) => true
  | _ => false

/-! ### Dates -/

/-- The number of exactly `count` decimal digits. -/
def fixed (count : Nat) : Scan Nat := fun cs =>
  let digits := cs.take count
  if digits.length = count && digits.all (Text.isDigit 10) then
    some (Text.digitsValue 10 digits, cs.drop count)
  else none

def daysIn (year month : Nat) : Nat :=
  if month = 2 then
    if year % 4 = 0 && (year % 100 ≠ 0 || year % 400 = 0) then 29 else 28
  else if month = 4 || month = 6 || month = 9 || month = 11 then 30
  else 31

/-- A day of the calendar: year, month and day. -/
def day : Scan Unit := do
  let year ← fixed 4
  Scan.exactly ['-']
  let month ← fixed 2
  Scan.exactly ['-']
  let d ← fixed 2
  if 1 ≤ month && month ≤ 12 && 1 ≤ d && d ≤ daysIn year month then return else failure

/-- A time of day; seconds, and a fraction of them, may be left out. -/
def time : Scan Unit := do
  let hour ← fixed 2
  Scan.exactly [':']
  let minute ← fixed 2
  if !(hour ≤ 23 && minute ≤ 59) then failure
  if ← Scan.oneOf [':'] then
    let second ← fixed 2
    if !(second ≤ 60) then failure
    if ← Scan.oneOf ['.'] then
      let fraction ← Scan.takeWhile (Text.isDigit 10)
      if fraction.isEmpty then failure

/-- The distance from universal time, if it is given. -/
def zone : Scan Unit := do
  if ← Scan.oneOf ['Z', 'z'] then return
  if ← Scan.oneOf ['+', '-'] then
    let hour ← fixed 2
    Scan.exactly [':']
    let minute ← fixed 2
    if !(hour ≤ 23 && minute ≤ 59) then failure

/-- A day, and after a `T` or a space perhaps a time with a zone. -/
def dayAndTime : Scan Unit := do
  day
  if ← Scan.oneOf ['T', 't', ' '] then
    time
    zone

/-- A day, a time, or both. -/
def isDate (cs : List Char) : Bool :=
  time.takesAll cs || dayAndTime.takesAll cs

/-! ### Runs -/

/-- The characters that end a run. -/
def isDelimiter (c : Char) : Bool :=
  "=,[]\x7b\x7d#\r\n".toList.contains c

def isQuote (c : Char) : Bool :=
  c = '"' || c = '\''

/-- Whether a word begins here: neither a quote nor a dot, blank or delimiter comes next. -/
def wordNext : List Char → Bool
  | [] => false
  | c :: _ => !(isQuote c || c = '.' || isBlank c || isDelimiter c)

/-- The text of a value without quotes: words with dots and blanks between them. Blanks belong to it
    only ahead of a word, and a quote only inside of one (`inWord`). -/
def scalarText (inWord : Bool) : List Char → List Char
  | [] => []
  | c :: cs =>
    if c = '.' then c :: scalarText false cs
    else if isBlank c then
      if wordNext (cs.dropWhile isBlank) then c :: scalarText false cs else []
    else if isDelimiter c || (isQuote c && !inWord) then []
    else c :: scalarText true cs

/-- The value of a decimal text with its sign; `body` is the text after the sign. What follows the
    first digits decides what the text is to be. -/
def decimal? (text body : List Char) : Option Value :=
  let first := body.takeWhile (Text.isDigit 10)
  match body.drop first.length with
  | [] =>
    if first = [] || (first.head? = some '0' && 1 < first.length) then none
    else some (numeral 10 text)
  | c :: rest =>
    if c = '-' || c = ':' then
      if isDate text then some (.date (String.ofList text)) else none
    else if (c :: rest).contains ' ' then none
    else if (c :: rest).any fun c => c = '.' || c = 'e' || c = 'E' then
      if float.takesAll body && spaced (Text.isDigit 10) text then
        some (.float (String.ofList text))
      else none
    else if c = '_' && first.head? ≠ some '0' && spaced (Text.isDigit 16) text then
      some (numeral 10 text)
    else none

/-- The value of a text without quotes. A base is marked only where no sign is. -/
def scalar? (text : List Char) : Option Value :=
  let (sign, body) := signed text
  if text = "true".toList then some (.boolean true)
  else if text = "false".toList then some (.boolean false)
  else if body = "inf".toList || body = "nan".toList then some (.float (String.ofList text))
  else
    match sign, body with
    | none, '0' :: 'x' :: digits => radixed? 16 digits
    | none, '0' :: 'o' :: digits => radixed? 8 digits
    | none, '0' :: 'b' :: digits => radixed? 2 digits
    | _, _ => decimal? text body

def scalar : Scan Value := fun cs =>
  let text := scalarText false cs
  (scalar? text).map fun v => (v, cs.drop text.length)

end LetTree.Toml

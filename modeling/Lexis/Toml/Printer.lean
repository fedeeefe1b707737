/-!
  Lexis.Toml.Printer

  Writing TOML: strings in the plainest notation that can hold them, arrays of strings, entries and
  headers. Every string has such a notation; which one depends on its characters and on how many
  quotes stand in a row.
-/

namespace Lexis.Toml

/-! ## Strings -/

/-- How a string is written. -/
inductive Style where
  /-- In double quotes, with escapes. -/
  | basic
  /-- In single quotes, as it is. -/
  | literal
  /-- In three double quotes, with escapes. -/
  | multiBasic
  /-- In three single quotes, as it is. -/
  | multiLiteral
deriving DecidableEq

/-- A control character other than a tab or a line end: only an escape can write it. -/
def isControl (c : Char) : Bool :=
  c ≠ '\t' && c ≠ '\n' && (c.toNat < 0x20 || c.toNat = 0x7F)

/-- The length of the longest run of `q`, when `run` of them precede. -/
def longestRun (q : Char) : Nat → List Char → Nat
  | run, [] => run
  | run, c :: cs => if c = q then longestRun q (run + 1) cs else max run (longestRun q 0 cs)

/-- The first notation that suits a string: double quotes if nothing needs an escape, single quotes
    if none occurs inside, three double quotes, three single quotes, and escapes as the last
    resort. -/
def Style.choose (cs : List Char) : Style :=
  let control := cs.any isControl
  let backslash := cs.contains '\\'
  let newline := cs.contains '\n'
  let doubles := longestRun '"' 0 cs
  let singles := longestRun '\'' 0 cs
  if !control && !backslash && doubles = 0 && !newline then .basic
  else if !control && singles = 0 && !newline then .literal
  else if !control && !backslash && doubles ≤ 2 then .multiBasic
  else if !control && singles ≤ 2 then .multiLiteral
  else if newline then .multiBasic
  else .basic

/-- Four upper-case hexadecimal digits. -/
def hexQuad (n : Nat) : List Char :=
  [n / 4096, n / 256 % 16, n / 16 % 16, n % 16].map fun d => (Nat.digitChar d).toUpper

/-- A character that needs an escape, escaped, and any other as it is. Line ends stay in a string
    over several lines. Quotes are not looked at. -/
def escapeChar (multi : Bool) (c : Char) : List Char :=
  if c = '\x08' then ['\\', 'b']
  else if c = '\t' then ['\\', 't']
  else if c = '\n' then (if multi then ['\n'] else ['\\', 'n'])
  else if c = '\x0c' then ['\\', 'f']
  else if c = '\r' then ['\\', 'r']
  else if c = '\\' then ['\\', '\\']
  else if c.toNat < 0x20 || c.toNat = 0x7F then ['\\', 'u'] ++ hexQuad c.toNat
  else [c]

/-- The contents of a string in double quotes. On several lines up to two quotes in a row stay as
    they are; `run` of them precede. -/
def escapeBody (multi : Bool) : Nat → List Char → List Char
  | _, [] => []
  | run, c :: cs =>
    if c = '"' then
      if multi && run < 2 then '"' :: escapeBody multi (run + 1) cs
      else '\\' :: '"' :: escapeBody multi 0 cs
    else escapeChar multi c ++ escapeBody multi 0 cs

/-- A string with its quotes. Over several lines it begins on a line of its own. -/
def stringChars (cs : List Char) : List Char :=
  let lead := if cs.contains '\n' then ['\n'] else []
  match Style.choose cs with
  | .basic => '"' :: escapeBody false 0 cs ++ ['"']
  | .literal => '\'' :: cs ++ ['\'']
  | .multiBasic => ['"', '"', '"'] ++ lead ++ escapeBody true 0 cs ++ ['"', '"', '"']
  | .multiLiteral => ['\'', '\'', '\''] ++ lead ++ cs ++ ['\'', '\'', '\'']

/-! ## Arrays, entries and headers -/

/-- A line end, the indentation of an array item, and the item with its comma. -/
def itemLine (s : String) : List Char :=
  "\n    ".toList ++ stringChars s.toList ++ [',']

/-- An array of strings: up to one on the line, more on a line each. -/
def arrayChars : List String → List Char
  | [] => ['[', ']']
  | [s] => '[' :: stringChars s.toList ++ [']']
  | ss => '[' :: ss.flatMap itemLine ++ ['\n', ']']

/-- An entry on a line; the value is written already. -/
def entryChars (key : String) (value : List Char) : List Char :=
  key.toList ++ " = ".toList ++ value ++ ['\n']

/-- An empty line and the header of a table. -/
def headerChars (name : String) : List Char :=
  '\n' :: '[' :: name.toList ++ [']', '\n']

end Lexis.Toml

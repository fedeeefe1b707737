import Lexis.Toml.Numbers
import Lexis.Toml.Strings
import Lexis.Toml.Value

/-!
  Lexis.Toml.Reader

  Reading a TOML document into its entries. What is not TOML is refused, without a reason.
-/

namespace Lexis.Toml

open Lexis.Text (Reader)

/-- Arrays, tables in braces and dotted keys reach less deep than this. -/
def depthLimit : Nat := 80

/-! ## Blanks, comments and line ends -/

/-- Skip blanks within a line. -/
def skipSpaces (cs : List Char) : List Char := cs.dropWhile isSpace

/-- A line end. -/
def newline? : List Char → Option (List Char)
  | '\n' :: cs => some cs
  | '\r' :: '\n' :: cs => some cs
  | _ => none

/-- Skip a comment, if there is one. -/
def skipComment : List Char → List Char
  | '#' :: cs => cs.dropWhile isText
  | cs => cs

/-- The rest of a line: blanks, a comment, and the line end or the end of the document. -/
def lineEnd? (cs : List Char) : Option (List Char) :=
  match skipComment (skipSpaces cs) with
  | [] => some []
  | cs => newline? cs

/-- Skip blanks, line ends and comments; `inComment` tells whether a comment is open. -/
def skipLines : Bool → List Char → List Char
  | _, [] => []
  | _, '\r' :: '\n' :: cs => skipLines false cs
  | inComment, c :: cs =>
    if c = '\n' then skipLines false cs
    else if inComment then (if isText c then skipLines true cs else c :: cs)
    else if isSpace c then skipLines false cs
    else if c = '#' then skipLines true cs
    else c :: cs

/-! ## Keys -/

/-- A character of a key without quotes. -/
def isBare (c : Char) : Bool :=
  ('a' ≤ c && c ≤ 'z') || ('A' ≤ c && c ≤ 'Z') || isDigit c || c = '-' || c = '_'

/-- One part of a key. -/
def simpleKey? (cs : List Char) : Option (String × List Char) :=
  match cs with
  | [] => none
  | c :: _ =>
    if c = '"' || c = '\'' then (lineString? cs).map fun r => (String.ofList r.1, r.2)
    else
      let name := cs.takeWhile isBare
      if name.isEmpty then none else some (String.ofList name, cs.dropWhile isBare)

/-- The parts of a key, separated by dots; blanks may stand around each. There are at most as many
    parts as `fuel` says. -/
def keyParts? : Nat → Reader (List String)
  | 0, _ => none
  | fuel + 1, cs => do
    let (part, rest) ← simpleKey? (skipSpaces cs)
    match skipSpaces rest with
    | '.' :: rest => (keyParts? fuel rest).map fun r => (part :: r.1, r.2)
    | rest => return ([part], rest)

/-- A key: the path to its table, its last part, and the rest of the text. -/
def key? (cs : List Char) : Option (List String × String × List Char) := do
  let (parts, rest) ← keyParts? (depthLimit - 1) cs
  let last ← parts.getLast?
  return (parts.dropLast, last, rest)

/-! ## Values -/

/-- The items of an array after its opening bracket and the blanks behind it. -/
def items? (item : Reader Value) : Nat → Reader (List Value)
  | 0, _ => none
  | _ + 1, ']' :: cs => some ([], cs)
  | fuel + 1, cs => do
    let (v, cs) ← item cs
    match skipLines false cs with
    | ',' :: cs => (items? item fuel (skipLines false cs)).map fun r => (v :: r.1, r.2)
    | ']' :: cs => return ([v], cs)
    | _ => none

/-- A key and its value, with the blanks around them. -/
def pair? (item : Reader Value) (cs : List Char) :
    Option ((List String × String × Value) × List Char) := do
  let (path, key, cs) ← key? cs
  let cs ← expect? '=' cs
  let (v, cs) ← item (skipSpaces cs)
  return ((path, key, v), skipSpaces cs)

/-- The entries of a table in braces after its first entry's beginning. -/
def pairs? (item : Reader Value) : Nat → Entries → Reader Entries
  | 0, _, _ => none
  | fuel + 1, es, cs => do
    let ((path, key, v), cs) ← pair? item cs
    let es ← es.assign path key v .braces
    match cs with
    | ',' :: cs => pairs? item fuel es cs
    | '\x7d' :: cs => return (es, cs)
    | _ => none

/-- A number or a date. -/
def scalar (cs : List Char) : Option (Value × List Char) :=
  match dateTime? cs with
  | some rest => some (.dateTime, rest)
  | none =>
    match float? cs with
    | some rest => some (.float, rest)
    | none => (integer? cs).map fun r => (.integer r.1, r.2)

/-- A value in which arrays and tables nest less deep than `depth`. -/
def value? : Nat → Reader Value
  | _, [] => none
  | depth, c :: cs =>
    if c = '"' || c = '\'' then
      (string? (c :: cs)).map fun r => (.string (String.ofList r.1), r.2)
    else if c = '[' then
      match depth with
      | 0 | 1 => none
      | depth + 1 =>
        (items? (value? depth) (cs.length + 1) (skipLines false cs)).map fun r =>
          (.array r.1, r.2)
    else if c = '\x7b' then
      match depth with
      | 0 | 1 => none
      | depth + 1 =>
        match skipSpaces cs with
        | '\x7d' :: rest => some (.table .braces [], rest)
        | rest =>
          (pairs? (value? depth) (cs.length + 1) [] rest).map fun r => (.table .braces r.1, r.2)
    else
      match c :: cs with
      | 't' :: 'r' :: 'u' :: 'e' :: rest => some (.boolean true, rest)
      | 'f' :: 'a' :: 'l' :: 's' :: 'e' :: rest => some (.boolean false, rest)
      | cs => scalar cs

/-! ## Documents -/

/-- A document being read: all entries so far, and the header in force. -/
structure Document where
  entries : Entries
  header : List String

namespace Document

/-- A document without entries. -/
def empty : Document := ⟨[], []⟩

/-- Give a key a value in the table of the present header. -/
def assign (d : Document) (path : List String) (key : String) (v : Value) : Option Document := do
  let entries ← d.entries.descend .implied (Entries.assign path key v) .header d.header
  return { d with entries := entries }

/-- Open the table of a header. -/
def openTable (d : Document) (path : List String) (key : String) : Option Document := do
  return ⟨← d.entries.openTable path key, path ++ [key]⟩

/-- Begin the next table of an array of tables. -/
def openElement (d : Document) (path : List String) (key : String) : Option Document := do
  return ⟨← d.entries.openElement path key, path ++ [key]⟩

/-- One line of a document that holds more than blanks and a comment. -/
def line? (d : Document) (cs : List Char) : Option (Document × List Char) :=
  match cs with
  | '[' :: '[' :: cs => do
    let (path, key, cs) ← key? cs
    let cs ← expect? ']' cs
    let cs ← expect? ']' cs
    return (← d.openElement path key, cs)
  | '[' :: cs => do
    let (path, key, cs) ← key? cs
    let cs ← expect? ']' cs
    return (← d.openTable path key, cs)
  | cs => do
    let ((path, key, v), cs) ← pair? (value? depthLimit) cs
    return (← d.assign path key v, cs)

/-- The lines of a document; there are at most as many as `fuel` says. -/
def lines? : Nat → Document → List Char → Option Document
  | 0, _, _ => none
  | fuel + 1, d, cs =>
    match skipSpaces cs with
    | [] => some d
    | c :: rest =>
      if c = '#' || c = '\n' || c = '\r' then do
        lines? fuel d (← lineEnd? (c :: rest))
      else do
        let (d, rest) ← line? d (c :: rest)
        lines? fuel d (← lineEnd? rest)

end Document

/-- A byte order mark at the beginning of a document does not count. -/
def dropMark : List Char → List Char
  | '\uFEFF' :: cs => cs
  | cs => cs

/-- The entries of a document. -/
def read? (text : String) : Option Entries :=
  let cs := dropMark text.toList
  (Document.empty.lines? (cs.length + 1) cs).map Document.entries

end Lexis.Toml

/-!
  Lexis.Toml.Value

  TOML values and tables. A table remembers how it came to be, because that decides what may still
  be added to it: a table written in braces is closed, one opened by a header may get keys only
  below that header, and one that a dotted key implied may grow by further dotted keys.
-/

namespace Lexis.Toml

/-- How a table came to be. -/
inductive Form where
  /-- Opened by a header of its own. -/
  | header
  /-- Implied by the header of a table below it. -/
  | implied
  /-- Implied by a dotted key. -/
  | dotted
  /-- Written in braces. -/
  | braces
deriving DecidableEq

/-- A value. The contents of numbers with a fraction and of dates are not kept. -/
inductive Value where
  | string (s : String)
  | integer (i : Int)
  | float
  | boolean (b : Bool)
  | dateTime
  | array (items : List Value)
  /-- A table with its entries in order. -/
  | table (form : Form) (entries : List (String × Value))
  /-- The tables opened by repeated headers in double brackets. -/
  | tables (elements : List (List (String × Value)))
deriving Inhabited

/-- The entries of a table. -/
abbrev Entries := List (String × Value)

namespace Entries

/-- Replace the value of a key that is present. -/
def replace (es : Entries) (key : String) (v : Value) : Entries :=
  es.map fun p => if p.1 = key then (key, v) else p

/-- Go down a path of keys and change the table at its end. Missing tables are made on the way, of
    the form `made`. Dotted keys (`made = .dotted`) may not enter a table that has a header; no path
    enters a closed table or a plain value; in an array of tables the last one counts. -/
def descend (made : Form) (change : Form → Entries → Option Entries) :
    Form → List String → Entries → Option Entries
  | form, [], es => change form es
  | _, key :: keys, es =>
    match es.lookup key with
    | none => (descend made change made keys []).map fun sub => es ++ [(key, .table made sub)]
    | some (.table .braces _) => none
    | some (.table form sub) =>
      if made = .dotted && form = .header then none
      else (descend made change form keys sub).map fun sub => es.replace key (.table form sub)
    | some (.tables elements) =>
      match elements.reverse with
      | [] => none
      | last :: before =>
        (descend made change .header keys last).map fun last =>
          es.replace key (.tables (last :: before).reverse)
    | some _ => none

/-- Add an entry under a key that is not taken. -/
def add (key : String) (v : Value) (es : Entries) : Option Entries :=
  if es.any (·.1 = key) then none else some (es ++ [(key, v)])

/-- Give a dotted key a value. The last table on its path must be one that dotted keys made, unless
    the path is empty. -/
def assign (path : List String) (key : String) (v : Value) (form : Form) (es : Entries) :
    Option Entries :=
  descend .dotted (fun form es =>
    if decide (form = .dotted) = path.isEmpty then none else add key v es) form path es

/-- Open the table of a header. It must be new or implied by headers only. -/
def openTable (path : List String) (key : String) (es : Entries) : Option Entries :=
  descend .implied (fun _ es =>
    match es.lookup key with
    | none => some (es ++ [(key, .table .header [])])
    | some (.table .implied sub) => some (es.replace key (.table .header sub))
    | some _ => none) .header path es

/-- Begin the next table of an array of tables. -/
def openElement (path : List String) (key : String) (es : Entries) : Option Entries :=
  descend .implied (fun _ es =>
    match es.lookup key with
    | none => some (es ++ [(key, .tables [[]])])
    | some (.tables elements) => some (es.replace key (.tables (elements ++ [[]])))
    | some _ => none) .header path es

end Entries

end Lexis.Toml

import Lexis.Failure
import Lexis.Json.Printer
import Lexis.Report.Excerpt
import Lexis.Token.Json

/-!
  Lexis.Report.FileScan

  The results of scanning several inputs, and what is shown of them: tokens as text or JSON,
  a line for each clean input, a diagnostic for each failed one, and a summary.
-/

namespace Lexis

/-- The result of scanning one input. -/
structure FileScan where
  /-- Display name. -/
  name : String
  /-- The text, if it could be read. -/
  source : Option Source
  /-- Every token, or why there are none. -/
  outcome : Except Failure (List Token)

namespace FileScan

/-- Scan a text that was read. -/
def ofSource (lx : Lexicon) (source : Source) : FileScan :=
  ⟨source.name, some source, (lx.tokenize source.content).mapError (.lex source.name)⟩

/-- An input that could not be read. -/
def ofFailure (name : String) (f : Failure) : FileScan := ⟨name, none, .error f⟩

/-- The tokens of a scan that succeeded. -/
def tokens? (s : FileScan) : Option (List Token) := s.outcome.toOption

/-- The failure of a scan that did not. -/
def failure? (s : FileScan) : Option Failure :=
  match s.outcome with
  | .ok _ => none
  | .error f => some f

/-! ## Diagnostics -/

/-- The report of a failed scan. A problem of the text comes with an excerpt. -/
def diagnostic (s : FileScan) : Option String :=
  s.failure?.map fun f =>
    match f, s.source with
    | .lex _ e, some source => f.message ++ "\n" ++ Excerpt.text source e.span
    | _, _ => s!"{s.name}: error: {f.message}"

/-- The log of reporting a failed scan. -/
def diagnosticRecords (s : FileScan) : List Log.Record :=
  match s.failure?, s.source with
  | some (.lex _ e), some source => Excerpt.records source e.span
  | _, _ => []

/-! ## Tokens as text -/

/-- A text filled with spaces on the right. -/
def padRight (width : Nat) (s : String) : String :=
  s ++ String.ofList (List.replicate (width - s.length) ' ')

/-- A token on a line: place, kind and value. -/
def tokenLine (t : Token) : String :=
  padRight 9 t.span.text ++ " " ++ padRight 9 t.kind.name ++ " " ++ t.value

/-- The lines of one input, under its name when there are several. -/
def block (headed : Bool) (name : String) (tokens : List Token) : String :=
  (if headed then s!"==> {name} <==\n" else "") ++
    String.join (tokens.map fun t => tokenLine t ++ "\n")

/-- The blocks of the scans that succeeded. -/
def blocks (scans : List FileScan) : List String :=
  scans.filterMap fun s => s.tokens?.map (block (decide (1 < scans.length)) s.name)

/-- All blocks, an empty line between two of them, and no blank at the end. -/
def renderText (scans : List FileScan) : String :=
  Text.trimTrailing ("\n".intercalate (blocks scans))

/-! ## Tokens as JSON -/

/-- A list of tokens as JSON. -/
def tokensJson (tokens : List Token) : Json := .array (tokens.map Token.toJson)

/-- Give a key a value: in the place of its former value, or at the end. -/
def put {α : Type} (entries : List (String × α)) (key : String) (value : α) :
    List (String × α) :=
  if entries.any (·.1 = key) then entries.map fun p => if p.1 = key then (key, value) else p
  else entries ++ [(key, value)]

/-- The tokens of the scans that succeeded, by name: each name once, in the order of first
    occurrence, with the tokens of its last occurrence. -/
def byName (scans : List FileScan) : List (String × List Token) :=
  scans.foldl (fun entries s => match s.tokens? with
    | some ts => put entries s.name ts
    | none => entries) []

/-- The tokens of a single input, or those of several by name. A single input that failed leaves
    nothing to show. -/
def renderJson (scans : List FileScan) : String :=
  match scans with
  | [s] =>
    match s.tokens? with
    | some ts => (tokensJson ts).pretty
    | none => ""
  | _ => (Json.object ((byName scans).map fun p => (p.1, tokensJson p.2))).pretty

/-! ## Clean inputs -/

/-- The line of a clean input, with the number of its tokens when that is asked for. -/
def okLine (verbose : Bool) (name : String) (tokens : List Token) : String :=
  if verbose then s!"{name}: ok ({tokens.length} tokens)" else s!"{name}: ok"

/-- A line for every scan that succeeded. -/
def okLines (verbose : Bool) (scans : List FileScan) : List String :=
  scans.filterMap fun s => s.tokens?.map (okLine verbose s.name)

end FileScan

/-! ## Summaries -/

/-- How many inputs succeeded and how many failed. -/
structure Summary where
  succeeded : Nat
  failed : Nat
deriving DecidableEq

namespace Summary

/-- The number of inputs. -/
def total (s : Summary) : Except Word.Overflow Nat := Word.add s.succeeded s.failed

/-- No input failed. -/
def isSuccess (s : Summary) : Bool := s.failed = 0

/-- Count the scans that have a diagnostic, and the others. -/
def ofScans (scans : List FileScan) : Summary :=
  ⟨(scans.filter fun s => s.diagnostic.isNone).length,
   (scans.filter fun s => s.diagnostic.isSome).length⟩

/-- The summary in words. -/
def line (s : Summary) : Except Word.Overflow String :=
  s.total.map fun total => s!"checked {total} file(s): {s.succeeded} ok, {s.failed} failed"

/-- A run with failed inputs fails itself. -/
def check (s : Summary) : Except Failure Unit :=
  if s.isSuccess then .ok () else .error (.refused (.filesFailed s.failed))

end Summary

end Lexis

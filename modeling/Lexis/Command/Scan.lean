import Lexis.CommandLine.Invocation
import Lexis.Session

/-!
  Lexis.Command.Scan

  The tasks that scan inputs: printing their tokens, and checking that they tokenize.
-/

namespace Lexis

/-! ## Inputs -/

/-- Read an input. -/
def readSource (s : Surroundings) (t : FileTree) (path : String) : Except Failure Source :=
  let name := Path.displayName path
  if Path.isStandardInput path then
    match s.stdin.readText with
    | .ok text => .ok ⟨name, text⟩
    | .error e => .error (.os e)
  else if !t.pathExists path then .error (.input (.missing path))
  else if !t.isFile path then .error (.input (.notFile path))
  else
    match t.readText path with
    | .ok text => .ok ⟨name, text⟩
    | .error e => .error (.input (.unreadable path e))

namespace FileScan

/-- Read and scan an input. -/
def ofPath (s : Surroundings) (lx : Lexicon) (t : FileTree) (path : String) : FileScan :=
  match readSource s t path with
  | .ok source => ofSource lx source
  | .error f => ofFailure (Path.displayName path) f

/-- The log of reading and scanning an input. -/
def pathRecords (s : Surroundings) (lx : Lexicon) (t : FileTree) (path : String) :
    List Log.Record :=
  .logged none (.scanning (Path.displayName path)) ::
    match readSource s t path with
    | .ok source => lx.scanRecords source.content
    | .error _ => []

end FileScan

namespace ScanRequest

/-- Compile the vocabulary of a run: that of the settings with the lists given for the run. -/
def lexicon (settings : Settings) (overrides : Overrides) : Except Failure Lexicon :=
  (Lexicon.compile (overrides.apply settings.vocabulary)).mapError .vocabulary

/-- Standard input may be named once. -/
def checkInputs (r : ScanRequest) : Except Failure Unit :=
  if 1 < (r.files.filter Path.isStandardInput).length then .error (.refused .repeatedInput)
  else .ok ()

/-- Scan every input in the order in which they are named. -/
def scans (s : Surroundings) (settings : Settings) (r : ScanRequest) : Session (List FileScan) := do
  let lx ← Session.lift (lexicon settings r.overrides)
  Session.note lx.records
  let jobs ← Session.lift (settings.resolveJobs r.jobs s.processors)
  Session.lift r.checkInputs
  Session.report (.scanningInputs r.files.length jobs)
  let t ← Session.tree
  r.files.forM fun path => Session.noteWorker (FileScan.pathRecords s lx t path)
  return r.files.map (FileScan.ofPath s lx t)

end ScanRequest

/-- Write the diagnostic of every failed scan. -/
def reportFailures (scans : List FileScan) : Session Unit :=
  scans.forM fun s => do
    Session.note s.diagnosticRecords
    match s.diagnostic with
    | some text => Session.warn text
    | none => pure ()

/-! ## Tasks -/

namespace Command

/-- The tokens of scans in a format. -/
def render (format : OutputFormat) (scans : List FileScan) : String :=
  match format with
  | .text => FileScan.renderText scans
  | .json => FileScan.renderJson scans

/-- How many inputs were tokenized, and how long it took. -/
def reportCompletion (summary : Summary) : Session Unit := do
  let total ← Session.lift (summary.total.mapError .overflow)
  Session.write (.err s!"ℹ️ Tokenized {summary.succeeded} of {total} file(s) in ")
  Session.write .elapsed
  Session.write (.err "\n")

/-- Print the tokens of every input. -/
def runLex (s : Surroundings) (settings : Settings) (verbose : Bool) (r : ScanRequest)
    (format : Option OutputFormat) : Session Summary := do
  let scans ← r.scans s settings
  let text := render (format.getD settings.lex.format) scans
  if !text.isEmpty then Session.say text
  reportFailures scans
  let summary := Summary.ofScans scans
  if verbose then reportCompletion summary
  Session.lift summary.check
  return summary

/-- Print which inputs tokenize. -/
def runCheck (s : Surroundings) (settings : Settings) (verbose : Bool) (r : ScanRequest) :
    Session Summary := do
  let scans ← r.scans s settings
  (FileScan.okLines verbose scans).forM Session.say
  reportFailures scans
  let summary := Summary.ofScans scans
  let line ← Session.lift (summary.line.mapError .overflow)
  Session.say line
  Session.lift summary.check
  return summary

end Command

end Lexis

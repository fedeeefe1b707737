import Lexis.Command.Load
import Lexis.Command.Scan
import Lexis.CommandLine.Arguments
import Lexis.Report.Vocabulary

/-!
  Lexis.Command.Run

  The remaining tasks, and whole runs: arguments in, everything written and the exit status out.
-/

namespace Lexis

namespace Command

/-- Print the vocabulary in force. -/
def runVocab (settings : Settings) (format : Option OutputFormat) (overrides : Overrides) :
    Session VocabularyReport := do
  let lx ← Session.lift (ScanRequest.lexicon settings overrides)
  Session.note lx.records
  let report := VocabularyReport.ofLexicon lx
  match format.getD settings.lex.format with
  | .text => Session.say report.text
  | .json => Session.say report.toJson.pretty
  return report

/-- Make sure that the place for a settings file is a directory. -/
def prepareTarget (verbose : Bool) (target : String) : Session Unit := do
  let t ← Session.tree
  if !t.pathExists target then
    if verbose then Session.warn s!"ℹ️ Creating directory: {target}"
    let (t, result) := t.makeDirectories target
    Session.setTree t
    Session.lift (result.mapError .os)
  else if !t.isDirectory target then throw (.refused (.targetNotDirectory target))

/-- Write the built-in settings to a file. An existing file is replaced only by force. -/
def runInit (verbose : Bool) (path : Option String) (force : Bool) : Session String := do
  let target := path.getD "."
  prepareTarget verbose target
  let file := Path.join target Settings.fileName
  if (← Session.tree).pathExists file && !force then throw (.refused (.settingsExist file))
  Settings.builtIn.save file
  Session.report (.wroteSettings file)
  Session.say s!"Created {file}"
  return file

/-- Do what a command asks for. -/
def run (s : Surroundings) (settings : Settings) (verbose : Bool) (c : Command) : Session Unit := do
  Session.report (.started c.task)
  match c with
  | .lex scan format => discard (runLex s settings verbose scan format)
  | .check scan => discard (runCheck s settings verbose scan)
  | .vocab format overrides => discard (runVocab settings format overrides)
  | .init path force => discard (runInit verbose path force)

end Command

namespace Invocation

/-- Load the settings and do what is asked for. -/
def run (s : Surroundings) (i : Invocation) : Session Unit := do
  let settings ← Settings.load s i.config
  i.command.run s settings (i.verbose || settings.verbose)

/-- The paths that a run may look at or write. -/
def paths (s : Surroundings) (i : Invocation) : List String :=
  let settings := match i.config with
    | some path => [path]
    | none => Settings.candidates s
  settings ++
    match i.command with
    | .lex r _ | .check r => r.files.filter fun path => !Path.isStandardInput path
    | .vocab .. => []
    | .init path _ => [Path.join (path.getD ".") Settings.fileName]

/-- The run reads standard input. -/
def readsInput (i : Invocation) : Bool :=
  match i.command with
  | .lex r _ | .check r => r.files.any Path.isStandardInput
  | _ => false

/-- How a run ended. -/
structure Finished where
  /-- Exit status. -/
  status : Nat
  /-- Everything written, in order. -/
  written : List Output
  /-- The file system at the end. -/
  tree : FileTree

/-- A whole run. A failure is the last thing written and gives the status one. -/
def perform (s : Surroundings) (i : Invocation) (t : FileTree) : Finished :=
  match (i.run s).run ⟨t, #[]⟩ with
  | .ok _ w => ⟨0, w.written.toList, w.tree⟩
  | .error f w => ⟨1, w.written.toList ++ [.err (f.line ++ "\n")], w.tree⟩

end Invocation

end Lexis

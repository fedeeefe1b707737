import Lexis.FileTree
import Lexis.Log.Format
import Lexis.Report.FileScan

/-!
  Lexis.Session

  A run in progress: the file system as it stands, and everything written so far in the order in
  which it was written. A run can fail at any point; what was done until then remains.
-/

namespace Lexis

/-- Something that a run writes. -/
inductive Output where
  /-- Text on standard output. -/
  | out (text : String)
  /-- Text on standard error. -/
  | err (text : String)
  /-- The time that has passed, on standard error. -/
  | elapsed
  /-- An entry of the log; `worker` tells whether a worker made it. -/
  | log (worker : Bool) (record : Log.Record)
deriving DecidableEq

/-- What surrounds a run and does not change. -/
structure Surroundings where
  /-- The home directory, if it is known. -/
  home : Option String
  /-- The directory for the settings of programs, if it is known. -/
  configHome : Option String
  /-- Number of processors. -/
  processors : Nat
  /-- What standard input is connected to. -/
  stdin : FileTree.Entry

/-- What a run changes. -/
structure World where
  tree : FileTree
  written : Array Output

/-- A step of a run. -/
abbrev Session := EStateM Failure World

namespace Session

/-- Write something. -/
def write (o : Output) : Session Unit :=
  modify fun w => { w with written := w.written.push o }

/-- A line on standard output. -/
def say (line : String) : Session Unit := write (.out (line ++ "\n"))

/-- A line on standard error. -/
def warn (line : String) : Session Unit := write (.err (line ++ "\n"))

/-- Entries of the log. -/
def note (records : List Log.Record) : Session Unit :=
  records.forM fun r => write (.log false r)

/-- An event of the log. -/
def report (e : Log.Event) : Session Unit := note [.logged none e]

/-- Entries of the log made by a worker. -/
def noteWorker (records : List Log.Record) : Session Unit :=
  records.forM fun r => write (.log true r)

/-- The file system as it stands. -/
def tree : Session FileTree := do return (← get).tree

/-- Replace the file system. -/
def setTree (t : FileTree) : Session Unit := modify fun w => { w with tree := t }

/-- The value of a computation that may fail. -/
def lift {α : Type} : Except Failure α → Session α
  | .ok a => pure a
  | .error f => throw f

end Session

namespace Output

/-- The text of an output on standard output. -/
def outText : Output → String
  | .out text => text
  | _ => ""

/-- The text of an output on standard error, given how the log is written and the texts for the
    moment and for the time that has passed. -/
def errText (colour : Bool) (threshold : Log.Threshold) (moment elapsed : String) :
    Output → String
  | .err text => text
  | .elapsed => elapsed
  | .log _ r => (r.line? colour moment threshold).getD ""
  | .out _ => ""

/-- The log entries that the main thread of a run made. -/
def mainRecord? : Output → Option Log.Record
  | .log false r => some r
  | _ => none

end Output

end Lexis

import Lexis.Scan
import Lexis.Source
import Lexis.Task

/-!
  Lexis.Log.Event

  The log: what the program reports about its own work. An event is a typed fact; its level, its
  text and its fields are functions of it.
-/

namespace Lexis.Log

/-- How much an event matters, the least first. -/
inductive Level where
  | trace
  | debug
  | info
  | warn
  | error
deriving DecidableEq

namespace Level

/-- The name of a level. -/
def name : Level → String
  | .trace => "TRACE"
  | .debug => "DEBUG"
  | .info => "INFO"
  | .warn => "WARN"
  | .error => "ERROR"

/-- Levels as numbers, in the order of weight. -/
def weight : Level → Nat
  | .trace => 0
  | .debug => 1
  | .info => 2
  | .warn => 3
  | .error => 4

end Level

/-- A named value of an event; some values are shown between double quotes. -/
structure Field where
  name : String
  value : String
  quoted : Bool
deriving DecidableEq

namespace Field

/-- A field whose value is shown as it is. -/
def plain (name value : String) : Field := ⟨name, value, false⟩

/-- A field that holds a number. -/
def count (name : String) (n : Nat) : Field := ⟨name, toString n, false⟩

end Field

/-- Something worth reporting. -/
inductive Event where
  /-- A vocabulary was compiled. -/
  | builtLexicon (keywords operators operatorChars : Nat)
  /-- A token was completed. -/
  | token (t : Token)
  /-- A text was read to its end. -/
  | tokenized (tokens : Nat)
  /-- A text was given up. -/
  | scanAborted (e : LexError)
  /-- A span to be shown does not lie in its text. -/
  | spanOutsideSource (span : Span) (e : SliceError)
  /-- There is no settings file. -/
  | noSettings
  /-- A settings file was read. -/
  | loadedSettings (path : String)
  /-- A task begins. -/
  | started (task : Task)
  /-- The inputs of a task are about to be read. -/
  | scanningInputs (files jobs : Nat)
  /-- An input is about to be read. -/
  | scanning (file : String)
  /-- A settings file was written. -/
  | wroteSettings (path : String)
deriving DecidableEq

namespace Event

/-- How much an event matters. -/
def level : Event → Level
  | .token _ => .trace
  | .wroteSettings _ => .info
  | _ => .debug

/-- The text of an event. -/
def message : Event → String
  | .builtLexicon .. => "built lexicon"
  | .token _ => "token"
  | .tokenized _ => "tokenized"
  | .scanAborted _ => "scan aborted"
  | .spanOutsideSource .. => "span outside source"
  | .noSettings => "no configuration file found, using defaults"
  | .loadedSettings _ => "loaded configuration"
  | .started task => task.description
  | .scanningInputs .. => "scanning inputs"
  | .scanning _ => "scanning"
  | .wroteSettings _ => "wrote configuration"

/-- The fields of an event, in the order in which they are shown. -/
def fields : Event → List Field
  | .builtLexicon keywords operators operatorChars =>
    [.count "keywords" keywords, .count "operators" operators,
     .count "operator_chars" operatorChars]
  | .token t => [.plain "kind" t.kind.name, .plain "value" t.value, .plain "span" t.span.text]
  | .tokenized tokens => [.count "tokens" tokens]
  | .scanAborted e => [⟨"code", e.code, true⟩, .plain "error" e.message]
  | .spanOutsideSource span e => [.plain "span" span.text, .plain "error" e.message]
  | .noSettings => []
  | .loadedSettings path => [.plain "path" path]
  | .started task => [⟨"command", task.name, true⟩]
  | .scanningInputs files jobs => [.count "files" files, .count "jobs" jobs]
  | .scanning file => [.plain "file" file]
  | .wroteSettings path => [.plain "path" path]

end Event

/-- An entry of the log. The scan of a text is a scope, known by the number of bytes of the text;
    events inside it carry it. -/
inductive Record where
  /-- A scan begins. -/
  | opened (bytes : Nat)
  /-- An event, with the scan it belongs to. -/
  | logged (scope : Option Nat) (event : Event)
deriving DecidableEq

end Lexis.Log

namespace Lexis

/-- The log of compiling a vocabulary. -/
def Lexicon.records (lx : Lexicon) : List Log.Record :=
  [.logged none (.builtLexicon lx.keywords.wordCount lx.operators.wordCount
    lx.classifier.operatorChars.length)]

/-- The log of a scan: the scope, each token, and how the scan ended. -/
def Scan.Outcome.records (o : Scan.Outcome) (bytes : Nat) : List Log.Record :=
  let inside := Log.Record.logged (some bytes)
  let last := match o.problem with
    | some e => Log.Event.scanAborted e
    | none => Log.Event.tokenized o.tokens.size
  .opened bytes :: o.tokens.toList.map (fun t => inside (.token t)) ++ [inside last]

/-- The log of scanning a text. -/
def Lexicon.scanRecords (lx : Lexicon) (text : String) : List Log.Record :=
  (lx.scan text).records (Text.byteLength text.toList)

end Lexis

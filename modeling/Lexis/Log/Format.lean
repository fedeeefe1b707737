import Lexis.Log.Event

/-!
  Lexis.Log.Format

  The log as lines of text, plain or with terminal colours, and the choice of the events that are
  written at all.
-/

namespace Lexis.Log

/-! ## What is written -/

/-- The least level that is written; without one nothing is. -/
abbrev Threshold := Option Level

namespace Threshold

/-- An event passes a threshold that it reaches. -/
def admits (t : Threshold) (level : Level) : Bool :=
  t.any fun least => least.weight ≤ level.weight

/-- The threshold that a word asks for, in any case. An unknown word silences the log. -/
def ofWord (word : String) : Threshold :=
  match word.toLower with
  | "trace" => some .trace
  | "debug" => some .debug
  | "info" => some .info
  | "warn" => some .warn
  | "error" => some .error
  | _ => none

/-- The threshold of a run: the word from the environment if there is one, else by verbosity. -/
def choose (word : Option String) (verbose : Bool) : Threshold :=
  match word with
  | some w => ofWord w
  | none => some (if verbose then .debug else .warn)

end Threshold

/-! ## Lines -/

/-- Text styles of a terminal, by the number that switches them on. -/
inductive Style where
  | bold
  | dimmed
  | italic
  | green
  | blue
  | magenta
deriving DecidableEq

/-- The number that switches a style on. -/
def Style.code : Style → String
  | .bold => "1"
  | .dimmed => "2"
  | .italic => "3"
  | .green => "32"
  | .blue => "34"
  | .magenta => "35"

/-- A text in a style, when colours are on. -/
def paint (colour : Bool) (style : Style) (text : String) : String :=
  if colour then "\x1b[" ++ style.code ++ "m" ++ text ++ "\x1b[0m" else text

/-- The colour of a level. -/
def Level.style : Level → Style
  | .trace => .magenta
  | .debug => .blue
  | _ => .green

/-- A level, filled with spaces on the left to five characters. -/
def Level.padded (l : Level) : String :=
  String.ofList (List.replicate (5 - l.name.length) ' ') ++ l.name

/-- `name=value`. -/
def Field.text (colour : Bool) (f : Field) : String :=
  paint colour .italic f.name ++ paint colour .dimmed "=" ++
    (if f.quoted then "\"" ++ f.value ++ "\"" else f.value)

/-- The scope in front of an event. -/
def scopeText (colour : Bool) (bytes : Nat) : String :=
  paint colour .bold "tokenize" ++ paint colour .bold "\x7b" ++
    (Field.count "bytes" bytes).text colour ++ paint colour .bold "\x7d" ++
    paint colour .dimmed ":" ++ " "

/-- One line of the log: time, level, scope, message and fields. -/
def line (colour : Bool) (time : String) (scope : Option Nat) (e : Event) : String :=
  paint colour .dimmed time ++ " " ++ paint colour e.level.style e.level.padded ++ " " ++
    ((scope.map (scopeText colour)).getD "") ++ e.message ++
    String.join (e.fields.map fun f => " " ++ f.text colour) ++ "\n"

/-- The line of a record, if it has one and passes the threshold. A scope is shown only where
    scopes, which are debugging information, pass the threshold too. -/
def Record.line? (colour : Bool) (time : String) (threshold : Threshold) : Record → Option String
  | .opened _ => none
  | .logged scope e =>
    if threshold.admits e.level then
      some (line colour time (if threshold.admits .debug then scope else none) e)
    else none

end Lexis.Log

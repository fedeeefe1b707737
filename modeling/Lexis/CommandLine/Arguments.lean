import Lexis.CommandLine.Invocation
import Lexis.CommandLine.Usage
import Lexis.Word

/-!
  Lexis.CommandLine.Arguments

  Reading the arguments of a run. There are two levels, before and after the word that names the
  task, and each has its own options; a few options exist on both. An option with a value takes it
  from its own argument (`--opt=v`, `-ov`, `-o=v`) or from the next one, unless that looks like an
  option. A value is examined when the next option or input arrives, or at the end of its level.
-/

namespace Lexis.CommandLine

/-! ## What can be given -/

/-- An option without a value. -/
inductive Flag where
  | verbose
  | noColor
  | force
  | help
  | version
deriving DecidableEq

/-- Something that takes a value. -/
inductive Slot where
  | config
  | format
  | jobs
  | keywords
  | operators
  | path
  /-- The inputs, which are given without an option. -/
  | files
deriving DecidableEq

/-- An option. -/
inductive Argument where
  | flag (f : Flag)
  | slot (s : Slot)
deriving DecidableEq

/-- Before the task (`none`), or after it. -/
abbrev Level := Option Task

namespace Level

/-- The options of a level, with the letter that some of them have. -/
def options (level : Level) : List (String × Option Char × Argument) :=
  let common : List (String × Option Char × Argument) :=
    [("verbose", some 'v', .flag .verbose), ("config", some 'c', .slot .config),
     ("no-color", none, .flag .noColor), ("help", some 'h', .flag .help),
     ("version", some 'V', .flag .version)]
  let format : String × Option Char × Argument := ("format", some 'F', .slot .format)
  let jobs : String × Option Char × Argument := ("jobs", some 'j', .slot .jobs)
  let lists : List (String × Option Char × Argument) :=
    [("keywords", none, .slot .keywords), ("operators", none, .slot .operators)]
  match level with
  | none => common
  | some .lex => format :: jobs :: lists ++ common
  | some .check => jobs :: lists ++ common
  | some .vocab => format :: lists ++ common
  | some .init => [("path", some 'p', .slot .path), ("force", some 'f', .flag .force)] ++ common

/-- The option with a name. -/
def named? (level : Level) (name : String) : Option Argument :=
  (level.options.find? fun o => o.1 = name).map fun o => o.2.2

/-- The option with a letter. -/
def lettered? (level : Level) (letter : Char) : Option Argument :=
  (level.options.find? fun o => o.2.1 = some letter).map fun o => o.2.2

/-- The level takes inputs. -/
def takesFiles : Level → Bool
  | some .lex | some .check => true
  | _ => false

end Level

/-! ## What was given -/

/-- The values given on one level. -/
structure Given where
  flags : List Flag
  config : Option String
  format : Option OutputFormat
  jobs : Option Nat
  keywords : Option (List String)
  operators : Option (List String)
  path : Option String
  files : List String
deriving DecidableEq

namespace Given

/-- Nothing is given. -/
def nothing : Given := ⟨[], none, none, none, none, none, none, []⟩

/-- The path that a text is. -/
def readPath (s : String) : Except Usage String :=
  if s.isEmpty then .error .invalidValue else .ok s

/-- The format that a text names. -/
def readFormat (s : String) : Except Usage OutputFormat :=
  match OutputFormat.ofName? s with
  | some f => .ok f
  | none => .error .invalidValue

/-- The number that a text writes: decimal digits, with at most a plus sign in front, below
    `2 ^ 64`. -/
def readNumber (s : String) : Except Usage Nat :=
  let digits := match s.toList with
    | '+' :: ds => ds
    | ds => ds
  if digits.isEmpty || !digits.all Char.isDigit then .error .invalidNumber
  else
    let n := digits.foldl (fun n c => 10 * n + (c.toNat - '0'.toNat)) 0
    if n < Word.limit then .ok n else .error .invalidNumber

/-- The entries of a list given as one text: the pieces between spaces, empty ones included. -/
def splitWords (s : String) : List String := (s.toList.splitOn ' ').map String.ofList

/-- Store a value that may be given once. -/
def once {α : Type} (old : Option α) (value : Except Usage α) : Except Usage (Option α) :=
  match old with
  | some _ => .error .repeated
  | none => value.map some

/-- Store the values given for a slot in one go. -/
def accept (g : Given) (slot : Slot) : List String → Except Usage Given
  | [] => .error .invalidValue
  | value :: more =>
    match slot with
    | .config => (once g.config (readPath value)).map fun v => { g with config := v }
    | .format => (once g.format (readFormat value)).map fun v => { g with format := v }
    | .jobs => (once g.jobs (readNumber value)).map fun v => { g with jobs := v }
    | .path => (once g.path (readPath value)).map fun v => { g with path := v }
    | .keywords => .ok { g with keywords := some (g.keywords.getD [] ++ splitWords value) }
    | .operators => .ok { g with operators := some (g.operators.getD [] ++ splitWords value) }
    | .files => ((value :: more).mapM readPath).map fun vs => { g with files := g.files ++ vs }

/-- Store a flag, or answer one that asks for information. -/
def raise (g : Given) : Flag → Except Usage Given
  | .help => .error .help
  | .version => .error .version
  | f => if g.flags.contains f then .error .repeated else .ok { g with flags := f :: g.flags }

/-- Something is given. -/
def isAnything (g : Given) : Bool := g ≠ nothing

end Given

/-! ## Reading one level -/

/-- A level being read. -/
structure Reading where
  given : Given
  /-- The slot at hand with the values it has so far; they are not examined yet. -/
  pending : Option (Slot × List String)
  /-- The slot at hand waits for its value. -/
  waiting : Bool
  /-- After `--` everything is an input. -/
  inputsOnly : Bool

namespace Reading

/-- A level of which nothing has been read. -/
def start : Reading := ⟨.nothing, none, false, false⟩

/-- Examine the values of the slot at hand. -/
def settle (r : Reading) : Except Usage Reading :=
  match r.pending with
  | none => .ok { r with waiting := false }
  | some (slot, values) =>
    (r.given.accept slot values).map fun g =>
      { r with given := g, pending := none, waiting := false }

/-- A flag. -/
def flag (r : Reading) (f : Flag) : Except Usage Reading := do
  let r ← r.settle
  return { r with given := ← r.given.raise f }

/-- An option with a value, which may be part of the same argument. -/
def slot (r : Reading) (s : Slot) (attached : Option String) : Except Usage Reading := do
  let r ← r.settle
  match attached with
  | some value => return { r with given := ← r.given.accept s [value] }
  | none => return { r with pending := some (s, []), waiting := true }

/-- An option by name, with the value after an equals sign if there is one. -/
def long (level : Level) (r : Reading) (name : String) (attached : Option String) :
    Except Usage Reading :=
  match level.named? name, attached with
  | none, _ => .error .unknownArgument
  | some (.flag _), some _ => .error .uselessValue
  | some (.flag f), none => r.flag f
  | some (.slot s), attached => r.slot s attached

/-- Options by letter. The first one with a value takes the rest of the argument. -/
def short (level : Level) : Reading → List Char → Except Usage Reading
  | r, [] => .ok r
  | r, c :: cs =>
    match level.lettered? c with
    | none => .error .unknownArgument
    | some (.flag f) =>
      match r.flag f with
      | .ok r => short level r cs
      | .error e => .error e
    | some (.slot s) =>
      match cs with
      | [] => r.slot s none
      | '=' :: value => r.slot s (some (String.ofList value))
      | value => r.slot s (some (String.ofList value))

/-- A word that is no option and no value: an input, where inputs are taken. -/
def input (level : Level) (r : Reading) (word : String) : Except Usage Reading :=
  if level.takesFiles then
    match r.pending with
    | some (.files, values) => .ok { r with pending := some (.files, values ++ [word]) }
    | _ => r.settle.map fun r => { r with pending := some (.files, [word]) }
  else if level.isSome then .error .unknownArgument
  else if r.inputsOnly && (word = "help" || (Task.ofName? word).isSome) then
    .error .unknownArgument
  else .error .unknownTask

/-- A word that is no option: the value that is waited for, or an input. -/
def word (level : Level) (r : Reading) (s : String) : Except Usage Reading :=
  match r.waiting && !r.inputsOnly, r.pending with
  | true, some (slot, values) =>
    .ok { r with pending := some (slot, values ++ [s]), waiting := false }
  | _, _ => r.input level s

/-- The name and the value of an argument after its two dashes. -/
def splitLong (cs : List Char) : String × Option String :=
  let name := cs.takeWhile (· ≠ '=')
  match cs.dropWhile (· ≠ '=') with
  | [] => (String.ofList name, none)
  | _ :: value => (String.ofList name, some (String.ofList value))

/-- Any argument. A lone dash is a word. -/
def argument (level : Level) (r : Reading) (arg : String) : Except Usage Reading :=
  if r.inputsOnly then r.input level arg
  else
    match arg.toList with
    | ['-', '-'] => .ok { r with inputsOnly := true }
    | '-' :: '-' :: cs => r.long level (splitLong cs).1 (splitLong cs).2
    | ['-'] => r.word level arg
    | '-' :: cs => r.short level cs
    | _ => r.word level arg

end Reading

/-! ## The environment -/

/-- The variables of the environment that stand for options. -/
structure Variables where
  verbose : Option String
  config : Option String
  noColor : Option String
deriving DecidableEq

namespace Variables

/-- No variable is set. -/
def unset : Variables := ⟨none, none, none⟩

/-- The truth value that a variable writes. -/
def readBool : String → Except Usage Bool
  | "true" => .ok true
  | "false" => .ok false
  | _ => .error .invalidValue

/-- A variable is examined unless its option is given. -/
def examine {α : Type} (given : Bool) (value : Option String) (read : String → Except Usage α) :
    Except Usage (Option α) :=
  if given then .ok none
  else match value with
    | none => .ok none
    | some s => (read s).map some

/-- Examine the variables on a level. -/
def check (v : Variables) (g : Given) : Except Usage Unit := do
  let _ ← examine (g.flags.contains .verbose) v.verbose readBool
  let _ ← examine g.config.isSome v.config Given.readPath
  let _ ← examine (g.flags.contains .noColor) v.noColor readBool

/-- Some variable is set. -/
def isAny (v : Variables) : Bool := v.verbose.isSome || v.config.isSome || v.noColor.isSome

end Variables

/-! ## Whole command lines -/

/-- Read the arguments after the task. -/
def readTask (v : Variables) (task : Task) (args : List String) : Except Usage Given := do
  let r ← args.foldlM (fun r a => Reading.argument (some task) r a) Reading.start
  let r ← r.settle
  v.check r.given
  if Level.takesFiles (some task) && r.given.files.isEmpty then .error .missingInputs
  else return r.given

/-- The words after `help`: at most one, which names a task or is `help` itself. -/
def readHelp : List String → Usage
  | [] => .help
  | [word] => if word = "help" || (Task.ofName? word).isSome then .help else .unknownTask
  | _ => .unknownTask

/-- Put together what was given on both levels and in the environment. An option of the later
    level wins over the earlier one, and both win over the environment. -/
def assemble (v : Variables) (outer inner : Given) (task : Task) : Invocation :=
  let raised (f : Flag) (value : Option String) :=
    inner.flags.contains f || outer.flags.contains f || value = some "true"
  let overrides : Overrides := ⟨inner.keywords, inner.operators⟩
  let scan : ScanRequest := ⟨inner.files, inner.jobs, overrides⟩
  ⟨raised .verbose v.verbose, (inner.config.or outer.config).or v.config,
   raised .noColor v.noColor,
   match task with
    | .lex => .lex scan inner.format
    | .check => .check scan
    | .vocab => .vocab inner.format overrides
    | .init => .init inner.path (inner.flags.contains .force)⟩

/-- Close the level before the task, when all arguments have been read. -/
def closeOuter (v : Variables) (r : Reading) : Except Usage Given := do
  let r ← r.settle
  v.check r.given
  return r.given

/-- Read arguments up to the task and go on with its level. -/
def readOuter (v : Variables) : Reading → List String → Except Usage Invocation
  | r, [] => do
    let g ← closeOuter v r
    .error (if g.isAnything || v.isAny then .missingTask else .noArguments)
  | r, arg :: args =>
    let free := !r.waiting && !r.inputsOnly
    if free && arg = "help" then .error (readHelp args)
    else
      match if free then Task.ofName? arg else none with
      | some task => do
        let inner ← readTask v task args
        return assemble v (← closeOuter v r) inner task
      | none =>
        match r.argument none arg with
        | .ok r => readOuter v r args
        | .error e => .error e

/-- What a command line asks for. -/
def read (v : Variables) (args : List String) : Except Usage Invocation :=
  readOuter v Reading.start args

end Lexis.CommandLine

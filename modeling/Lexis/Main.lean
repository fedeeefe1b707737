import Lexis.Command.Run

/-!
  Lexis.Main

  The program: it takes a picture of the files that a run can touch, performs the run on the
  picture, and carries the result over to the real files and streams.
-/

namespace Lexis.Main

/-! ## The picture -/

/-- The absolute path of a place. -/
def absolute (place : List String) : String := "/" ++ "/".intercalate place

/-- Something stands at the path. -/
def onDisk (path : String) : IO Bool := do
  try
    let _ ← IO.FS.realPath path
    return true
  catch _ => return false

/-- What stands at a place on the disk. -/
def inspect (place : List String) : IO (Option FileTree.Entry) := do
  let path := absolute place
  if !(← onDisk path) then return none
  else if ← onDisk (path ++ "/.") then return some .directory
  else return some (.file (← IO.FS.readBinFile path))

/-- Follow the pieces of a path and note what stands on the way. -/
def follow (t : FileTree) : List String → List String → IO FileTree
  | _, [] => return t
  | place, piece :: rest => do
    if piece = "" || piece = "." then follow t place rest
    else if piece = ".." then follow t place.dropLast rest
    else
      match ← inspect (place ++ [piece]) with
      | some e => follow (t.put (place ++ [piece]) e) (place ++ [piece]) rest
      | none => return t

/-- A picture of everything that some paths lead through. -/
def picture (here : List String) (paths : List String) : IO FileTree :=
  paths.foldlM (fun t path => follow t (t.origin path) (Path.pieces path)) (.empty here)

/-- Carry an entry over to the disk. -/
def realize (place : List String) : FileTree.Entry → IO Unit
  | .directory => IO.FS.createDirAll (absolute place)
  | .file bytes => IO.FS.writeBinFile (absolute place) bytes

/-! ## The streams -/

/-- All bytes of a stream. -/
partial def readAll (stream : IO.FS.Stream) (before : ByteArray) : IO ByteArray := do
  let more ← stream.read 65536
  if more.isEmpty then return before else readAll stream (before ++ more)

/-- What standard input is connected to. A directory is what cannot be read. -/
def standardInput : IO FileTree.Entry := do
  try
    return .file (← readAll (← IO.getStdin) ByteArray.empty)
  catch _ => return .directory

/-- Milliseconds as seconds with two places. -/
def seconds (ms : Nat) : String :=
  let hundredths := ms / 10
  let fraction := hundredths % 100
  s!"{hundredths / 100}." ++ (if fraction < 10 then "0" else "") ++ s!"{fraction}s"

/-- What is said when the arguments ask for no task. -/
def usageText : CommandLine.Usage → String
  | .version => "muncht 0.1.0"
  | .help | .noArguments =>
    "Usage: muncht [OPTIONS] <COMMAND>\n\n" ++
      "Commands:\n  lex    Tokenize files and print every token\n" ++
      "  check  Check that files tokenize\n  vocab  Show the effective vocabulary\n" ++
      "  init   Write a default muncht.toml\n  help   Print this message\n\n" ++
      "Options:\n  -v, --verbose\n  -c, --config <CONFIG>\n      --no-color\n" ++
      "  -h, --help\n  -V, --version"
  | _ => "error: the arguments are not understood; for more information, try '--help'."

/-! ## The run -/

/-- Perform a run on the real files and streams. -/
def perform (i : Invocation) : IO Nat := do
  let began ← IO.monoMsNow
  let home := (← IO.getEnv "HOME").filter fun d => !d.isEmpty
  let configHome := ((← IO.getEnv "XDG_CONFIG_HOME").filter Path.isAbsolute).or
    (home.map fun d => Path.join d ".config")
  let stdin ← if i.readsInput then standardInput else pure (.file ByteArray.empty)
  let surroundings : Surroundings := ⟨home, configHome, 1, stdin⟩
  let here := (Path.components (← IO.currentDir).toString).filter fun s => s ≠ "/"
  let before ← picture here (i.paths surroundings)
  let finished := i.perform surroundings before
  for (place, e) in before.differences finished.tree do
    realize place e
  let elapsed := (← IO.monoMsNow) - began
  let threshold := Log.Threshold.choose (← IO.getEnv "RUST_LOG") i.verbose
  let moment := s!"{elapsed}ms"
  for o in finished.written do
    IO.print o.outText
    IO.eprint (o.errText (!i.noColor) threshold moment (seconds elapsed))
  return finished.status

end Lexis.Main

/-- Read the arguments and do what they ask for. -/
def main (args : List String) : IO UInt32 := do
  let given : Lexis.CommandLine.Variables :=
    ⟨← IO.getEnv "MUNCHT_VERBOSE", ← IO.getEnv "MUNCHT_CONFIG", ← IO.getEnv "MUNCHT_NO_COLOR"⟩
  match Lexis.CommandLine.read given args with
  | .ok i => return (← Lexis.Main.perform i).toUInt32
  | .error u =>
    if u.status = 0 then IO.println (Lexis.Main.usageText u)
    else IO.eprintln (Lexis.Main.usageText u)
    return u.status.toUInt32

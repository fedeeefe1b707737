import Lexis.Session
import Lexis.Settings.Toml

/-!
  Lexis.Command.Load

  Finding, reading and writing settings files.
-/

namespace Lexis.Settings

/-- Where a settings file is looked for: in the working directory, below the home directory, and
    in the directory for the settings of programs. -/
def candidates (s : Surroundings) : List String :=
  [fileName] ++
    (s.home.map fun d => Path.join (Path.join (Path.join d ".config") "muncht") fileName).toList ++
    (s.configHome.map fun d => Path.join (Path.join d "muncht") fileName).toList

/-- The first settings file that exists. -/
def discover? (s : Surroundings) (t : FileTree) : Option String :=
  (candidates s).find? t.pathExists

/-- Read the settings file at a path. -/
def ofFile (t : FileTree) (path : String) : Except Failure Settings :=
  if !t.pathExists path then .error (.settings (.notFound path))
  else
    match t.readText path with
    | .error e => .error (.os e)
    | .ok text =>
      match ofToml? text with
      | none => .error (.settings (.malformed path))
      | some s => s.validate.map fun _ => s

/-- Load the settings file at a path. -/
def loadFrom (path : String) : Session Settings := do
  let s ← Session.lift (ofFile (← Session.tree) path)
  Session.report (.loadedSettings path)
  return s

/-- Load the settings of a run: from the given file, else from the first one found, else none. -/
def load (surroundings : Surroundings) (path : Option String) : Session Settings := do
  match path.or (discover? surroundings (← Session.tree)) with
  | some path => loadFrom path
  | none =>
    Session.report .noSettings
    return builtIn

/-- Write settings to a file, with the directories above it: the state of the file system after
    the attempt, and how it went. -/
def toFile (t : FileTree) (path : String) (s : Settings) : FileTree × Except Failure Unit :=
  match (Path.parent? path).elim (t, .ok ()) t.makeDirectories with
  | (t, .error e) => (t, .error (.os e))
  | (t, .ok _) =>
    match s.toToml with
    | .error f => (t, .error f)
    | .ok text =>
      match t.writeText path text with
      | .ok t => (t, .ok ())
      | .error e => (t, .error (.os e))

/-- Save settings to a file. -/
def save (s : Settings) (path : String) : Session Unit := do
  let (t, result) := toFile (← Session.tree) path s
  Session.setTree t
  Session.lift result

end Lexis.Settings

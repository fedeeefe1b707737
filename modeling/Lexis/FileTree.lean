import Lexis.OsError
import Lexis.Path

/-!
  Lexis.FileTree

  The state of a file system: directories and files, and a working directory from which relative
  paths are walked. Every operation is a function of the state, with the refusals of the system.
-/

namespace Lexis

/-- What can stand at a place. -/
inductive FileTree.Entry where
  | file (bytes : ByteArray)
  | directory

/-- Entries are compared byte by byte. -/
instance FileTree.decideEntryEq : DecidableEq FileTree.Entry
  | .file a, .file b =>
    if h : a.data = b.data then isTrue (congrArg FileTree.Entry.file (ByteArray.ext h))
    else isFalse fun e => h (congrArg ByteArray.data (FileTree.Entry.file.inj e))
  | .directory, .directory => isTrue rfl
  | .file _, .directory => isFalse nofun
  | .directory, .file _ => isFalse nofun

/-- A file system. A place is the list of names that leads to it from the root. -/
structure FileTree where
  /-- The entries by place. The root is a directory and needs none. -/
  entries : List (List String × FileTree.Entry)
  /-- The place of the working directory. -/
  here : List String
deriving DecidableEq

namespace FileTree

/-- A file system that holds nothing but the way to its working directory. -/
def empty (here : List String) : FileTree :=
  ⟨(List.range here.length).map fun i => (here.take (i + 1), .directory), here⟩

/-- The entry at a place. -/
def at? (t : FileTree) (place : List String) : Option Entry :=
  if place.isEmpty then some .directory else t.entries.lookup place

/-- Put an entry at a place. -/
def put (t : FileTree) (place : List String) (e : Entry) : FileTree :=
  if t.entries.any (·.1 = place) then
    { t with entries := t.entries.map fun p => if p.1 = place then (place, e) else p }
  else { t with entries := t.entries ++ [(place, e)] }

/-! ## Walking -/

/-- What a name leads to in a directory, if the directory can hold such a name. -/
def step (t : FileTree) (place : List String) (name : String) : Except OsError (Option Entry) :=
  if Path.isLongName name then .error .nameTooLong else .ok (t.at? (place ++ [name]))

/-- Walk the pieces of a path from a place. Each step needs a directory under foot. -/
def walk (t : FileTree) : List String → List String → Except OsError (List String)
  | place, [] => .ok place
  | place, piece :: rest =>
    match t.at? place with
    | none => .error .notFound
    | some (.file _) => .error .notDirectory
    | some .directory =>
      if piece = "" || piece = "." then t.walk place rest
      else if piece = ".." then t.walk place.dropLast rest
      else
        match t.step place piece with
        | .error e => .error e
        | .ok none => .error .notFound
        | .ok (some _) => t.walk (place ++ [piece]) rest

/-- The place from which a path is walked. -/
def origin (t : FileTree) (path : String) : List String :=
  if Path.isAbsolute path then [] else t.here

/-- A path that can be followed: it holds no end mark and is neither empty nor too long. -/
def accept (path : String) : Except OsError Unit :=
  if Path.holdsNul path then .error .pathHoldsNul
  else if path.isEmpty then .error .notFound
  else if Path.isLong path then .error .nameTooLong
  else .ok ()

/-- The place of an existing entry. -/
def locate (t : FileTree) (path : String) : Except OsError (List String) :=
  match accept path with
  | .error e => .error e
  | .ok _ => t.walk (t.origin path) (Path.pieces path)

/-- The entry that a path leads to. -/
def find? (t : FileTree) (path : String) : Option Entry :=
  match t.locate path with
  | .ok place => t.at? place
  | .error _ => none

/-- Something stands at the path. -/
def pathExists (t : FileTree) (path : String) : Bool := (t.find? path).isSome

/-- A file stands at the path. -/
def isFile (t : FileTree) (path : String) : Bool :=
  match t.find? path with
  | some (.file _) => true
  | _ => false

/-- A directory stands at the path. -/
def isDirectory (t : FileTree) (path : String) : Bool :=
  match t.find? path with
  | some .directory => true
  | _ => false

/-! ## Reading -/

/-- The text of bytes, if they are one. -/
def decode (bytes : ByteArray) : Except OsError String :=
  match String.fromUTF8? bytes with
  | some text => .ok text
  | none => .error .notText

/-- The text of an entry. -/
def Entry.readText : Entry → Except OsError String
  | .file bytes => decode bytes
  | .directory => .error .isDirectory

/-- The text of a file. -/
def readText (t : FileTree) (path : String) : Except OsError String :=
  match t.locate path with
  | .error e => .error e
  | .ok place =>
    match t.at? place with
    | some e => e.readText
    | none => .error .notFound

/-! ## Writing -/

/-- A path ends with a slash. -/
def endsWithSlash (path : String) : Bool := path.toList.getLast? = some '/'

/-- A path without the slashes at its end; the root keeps one. -/
def trimSlashes (path : String) : String :=
  let cs := (path.toList.reverse.dropWhile (· = '/')).reverse
  if cs.isEmpty && !path.isEmpty then "/" else String.ofList cs

/-- The directory in which the last name of a path is looked up, and that name. Slashes at the end
    of the path do not count. -/
def target (t : FileTree) (path : String) : Except OsError (List String × String) :=
  match accept path with
  | .error e => .error e
  | .ok _ =>
    let pieces := Path.pieces (trimSlashes path)
    match t.walk (t.origin path) pieces.dropLast with
    | .error e => .error e
    | .ok place =>
      match t.at? place with
      | some .directory => .ok (place, pieces.getLast?.getD "")
      | some (.file _) => .error .notDirectory
      | none => .error .notFound

/-- A piece of a path that names no new entry. -/
def isDots (piece : String) : Bool := piece = "" || piece = "." || piece = ".."

/-- Make a directory. -/
def makeDirectory (t : FileTree) (path : String) : Except OsError FileTree :=
  match t.target path with
  | .error e => .error e
  | .ok (place, name) =>
    if isDots name then .error .alreadyExists
    else
      match t.step place name with
      | .error e => .error e
      | .ok (some _) => .error .alreadyExists
      | .ok none => .ok (t.put (place ++ [name]) .directory)

/-- Make a directory and the missing ones above it; `fuel` bounds how many those are. The state
    is kept also when a later directory is refused. -/
def makeAll (t : FileTree) : Nat → String → FileTree × Except OsError Unit
  | 0, _ => (t, .ok ())
  | fuel + 1, path =>
    if path.isEmpty then (t, .ok ())
    else
      match t.makeDirectory path with
      | .ok t => (t, .ok ())
      | .error .notFound =>
        match Path.parent? path with
        | none => (t, .error .notFound)
        | some above =>
          match t.makeAll fuel above with
          | (t, .error e) => (t, .error e)
          | (t, .ok _) =>
            match t.makeDirectory path with
            | .ok t => (t, .ok ())
            | .error e => (t, if t.isDirectory path then .ok () else .error e)
      | .error e => (t, if t.isDirectory path then .ok () else .error e)

/-- Make a directory and the missing ones above it. -/
def makeDirectories (t : FileTree) (path : String) : FileTree × Except OsError Unit :=
  t.makeAll ((Path.components path).length + 1) path

/-- Write a file, in the place of the one that may be there. -/
def writeText (t : FileTree) (path : String) (text : String) : Except OsError FileTree :=
  match t.target path with
  | .error e => .error e
  | .ok (place, name) =>
    if endsWithSlash path || isDots name then .error .isDirectory
    else
      match t.step place name with
      | .error e => .error e
      | .ok (some .directory) => .error .isDirectory
      | .ok _ => .ok (t.put (place ++ [name]) (.file text.toUTF8))

/-! ## Differences -/

/-- The entries that are new or different in a later state. -/
def differences (before after : FileTree) : List (List String × Entry) :=
  after.entries.filter fun p => before.at? p.1 ≠ some p.2

/-- The path of a place below the working directory. -/
def relative? (t : FileTree) (place : List String) : Option String :=
  if t.here.isPrefixOf place && t.here.length < place.length then
    some ("/".intercalate (place.drop t.here.length))
  else none

/-- The entries below the working directory that are new or different in a later state. -/
def changes (before after : FileTree) : List (String × Entry) :=
  (before.differences after).filterMap fun p =>
    (after.relative? p.1).map fun path => (path, p.2)

end FileTree

end Lexis

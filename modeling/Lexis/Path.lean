import Lexis.Text.Bytes

/-!
  Lexis.Path

  Paths as written by a user, which are texts; a path of bytes that are no text has no counterpart
  here. The pieces between slashes are what the file system walks; the components are what two
  spellings of one path have in common.
-/

namespace Lexis.Path

/-- The text between slashes, empty texts included. -/
def pieces (path : String) : List String := (path.toList.splitOn '/').map String.ofList

/-- A path that begins at the root of the file system. -/
def isAbsolute (path : String) : Bool := path.toList.head? = some '/'

/-- The names of a path. Repeated and trailing slashes do not count, nor do `.` pieces other than
    one at the beginning of a relative path. An absolute path begins with a slash of its own. -/
def components (path : String) : List String :=
  let names := (pieces path).filter fun s => s ≠ "" && s ≠ "."
  if isAbsolute path then "/" :: names
  else if (pieces path).head? = some "." then "." :: names
  else names

/-- Pieces without those at the end that add nothing to a path. -/
def dropIdle (ps : List String) : List String :=
  (ps.reverse.dropWhile fun s => s = "" || s = ".").reverse

/-- The path without its last component, spelled as in the whole path; the root and the empty path
    have none to lose. The piece before the first slash is the root's or a component. -/
def parent? (path : String) : Option String :=
  match pieces path with
  | [] => none
  | first :: rest =>
    match dropIdle rest with
    | [] => if first = "" then none else some ""
    | names =>
      match dropIdle names.dropLast with
      | [] => some (if first = "" then "/" else first)
      | above => some ("/".intercalate (first :: above))

/-- A path below a directory. -/
def join (directory name : String) : String :=
  if isAbsolute name || directory.isEmpty then name
  else if directory.toList.getLast? = some '/' then directory ++ name
  else directory ++ "/" ++ name

/-! ## Limits -/

/-- The largest number of bytes of a name. -/
def maxNameBytes : Nat := 255

/-- The largest number of bytes of a path. -/
def maxPathBytes : Nat := 4095

/-- A name that no directory can hold. -/
def isLongName (name : String) : Bool := maxNameBytes < Text.byteLength name.toList

/-- A path that the system refuses to take. -/
def isLong (path : String) : Bool := maxPathBytes < Text.byteLength path.toList

/-- A path with the character that ends a path inside. -/
def holdsNul (path : String) : Bool := path.toList.contains '\x00'

/-! ## Standard input -/

/-- The path argument that names standard input, in any spelling. -/
def isStandardInput (path : String) : Bool := components path = ["-"]

/-- The name under which an input is reported. -/
def displayName (path : String) : String := if isStandardInput path then "<stdin>" else path

end Lexis.Path

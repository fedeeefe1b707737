/-!
  Lexis.OsError

  The ways in which the file system refuses an operation.
-/

namespace Lexis

/-- A refusal of the file system. -/
inductive OsError where
  /-- There is nothing at the path. -/
  | notFound
  /-- Something already stands at the path. -/
  | alreadyExists
  /-- A file is used as a directory. -/
  | notDirectory
  /-- A directory is used as a file. -/
  | isDirectory
  /-- A name or a whole path is longer than the system takes. -/
  | nameTooLong
  /-- The path holds the character that ends a path. -/
  | pathHoldsNul
  /-- The bytes read are not a text. -/
  | notText
deriving DecidableEq

/-- The words of the system for a refusal. -/
def OsError.message : OsError → String
  | .notFound => "No such file or directory (os error 2)"
  | .alreadyExists => "File exists (os error 17)"
  | .notDirectory => "Not a directory (os error 20)"
  | .isDirectory => "Is a directory (os error 21)"
  | .nameTooLong => "File name too long (os error 36)"
  | .pathHoldsNul => "file name contained an unexpected NUL byte"
  | .notText => "stream did not contain valid UTF-8"

end Lexis

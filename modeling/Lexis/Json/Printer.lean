import Lexis.Json.Basic

/-!
  Lexis.Json.Printer

  JSON as indented text: one item or field to a line, two spaces to a level, and `[]` or an empty
  pair of braces where there is nothing to show.
-/

namespace Lexis.Json

/-- Two hexadecimal digits. -/
def hexPair (n : Nat) : List Char :=
  [Nat.digitChar (n / 16), Nat.digitChar (n % 16)]

/-- A character inside a string: quotes, backslashes and controls are escaped. -/
def escapeChar (c : Char) : List Char :=
  if c = '"' then ['\\', '"']
  else if c = '\\' then ['\\', '\\']
  else if c = '\x08' then ['\\', 'b']
  else if c = '\x0c' then ['\\', 'f']
  else if c = '\n' then ['\\', 'n']
  else if c = '\r' then ['\\', 'r']
  else if c = '\t' then ['\\', 't']
  else if c.toNat < 0x20 then ['\\', 'u', '0', '0'] ++ hexPair c.toNat
  else [c]

/-- A string with its quotes. -/
def quote (s : String) : List Char :=
  '"' :: s.toList.flatMap escapeChar ++ ['"']

/-- The break before a line at a level of indentation. -/
def newline (level : Nat) : List Char :=
  '\n' :: List.replicate (2 * level) ' '

mutual

/-- A value at a level of indentation. -/
def chars (level : Nat) : Json → List Char
  | .null => "null".toList
  | .bool true => "true".toList
  | .bool false => "false".toList
  | .integer n => (toString n).toList
  | .decimal mantissa exponent => (toString mantissa).toList ++ 'e' :: (toString exponent).toList
  | .string s => quote s
  | .array [] => ['[', ']']
  | .array (v :: vs) =>
    '[' :: newline (level + 1) ++ chars (level + 1) v ++ itemChars (level + 1) vs ++
      newline level ++ [']']
  | .object [] => ['\x7b', '\x7d']
  | .object ((k, v) :: fs) =>
    '\x7b' :: newline (level + 1) ++ quote k ++ [':', ' '] ++ chars (level + 1) v ++
      fieldChars (level + 1) fs ++ newline level ++ ['\x7d']

/-- The further items of an array, each after a comma on a line of its own. -/
def itemChars (level : Nat) : List Json → List Char
  | [] => []
  | v :: vs => ',' :: newline level ++ chars level v ++ itemChars level vs

/-- The further fields of an object, each after a comma on a line of its own. -/
def fieldChars (level : Nat) : List (String × Json) → List Char
  | [] => []
  | (k, v) :: fs =>
    ',' :: newline level ++ quote k ++ [':', ' '] ++ chars level v ++ fieldChars level fs

end

/-- A value as indented text. -/
def pretty (v : Json) : String := String.ofList (v.chars 0)

end Lexis.Json

import Lexis.Json.Basic
import Lexis.Text.Reader

/-!
  Lexis.Json.Reader

  Reading a JSON text. What is not JSON is refused, without a reason. A number keeps the form in
  which it is written: without a fraction and without an exponent it is an integer.
-/

namespace Lexis.Json

open Lexis.Text (Reader prepend hexDigit?)

/-- Arrays and objects nest no deeper than this. -/
def depthLimit : Nat := 127

/-- A blank between the parts of a text. -/
def isBlank (c : Char) : Bool := c = ' ' || c = '\n' || c = '\r' || c = '\t'

/-- Skip blanks. -/
def skipBlanks (cs : List Char) : List Char := cs.dropWhile isBlank

/-! ## Strings -/

/-- The character that a backslash and a letter stand for. -/
def shortEscape? (c : Char) : Option Char :=
  match c with
  | '"' => some '"'
  | '\\' => some '\\'
  | '/' => some '/'
  | 'b' => some '\x08'
  | 'f' => some '\x0c'
  | 'n' => some '\n'
  | 'r' => some '\r'
  | 't' => some '\t'
  | _ => none

/-- What the reader of a string is in the middle of. -/
inductive Escape where
  /-- Nothing. -/
  | none
  /-- An escape: the backslash has been read. -/
  | letter
  /-- A 16-bit unit: so many digits are still to come, this is the value so far, and `high` is the
      first half of a pair that the unit belongs to. -/
  | unit (high : Option Nat) (more : Nat) (value : Nat)
  /-- The first half of a pair has been read, the backslash of the second is to come. -/
  | pair (high : Nat)
  /-- The backslash of the second half of a pair has been read. -/
  | pairLetter (high : Nat)

/-- The unit is the first half of a pair. -/
def isHighHalf (n : Nat) : Bool := 0xD800 ≤ n && n ≤ 0xDBFF

/-- The unit is the second half of a pair. -/
def isLowHalf (n : Nat) : Bool := 0xDC00 ≤ n && n ≤ 0xDFFF

/-- The character that two halves of a pair stand for. -/
def joinHalves (high low : Nat) : Char :=
  Char.ofNat (0x10000 + (high - 0xD800) * 0x400 + (low - 0xDC00))

/-- The contents of a string after its opening quote, and the text after its closing quote. -/
def stringBody : Escape → Reader (List Char)
  | _, [] => none
  | .letter, c :: cs =>
    if c = 'u' then stringBody (.unit none 3 0) cs
    else
      match shortEscape? c with
      | some d => prepend d (stringBody .none cs)
      | none => none
  | .unit high (more + 1) value, c :: cs =>
    match hexDigit? c with
    | some d => stringBody (.unit high more (16 * value + d)) cs
    | none => none
  | .unit high 0 value, c :: cs =>
    match hexDigit? c, high with
    | none, _ => none
    | some d, none =>
      let n := 16 * value + d
      if isHighHalf n then stringBody (.pair n) cs
      else if isLowHalf n then none
      else prepend (Char.ofNat n) (stringBody .none cs)
    | some d, some high =>
      let n := 16 * value + d
      if isLowHalf n then prepend (joinHalves high n) (stringBody .none cs) else none
  | .pair high, c :: cs => if c = '\\' then stringBody (.pairLetter high) cs else none
  | .pairLetter high, c :: cs =>
    if c = 'u' then stringBody (.unit (some high) 3 0) cs else none
  | .none, c :: cs =>
    if c = '"' then some ([], cs)
    else if c = '\\' then stringBody .letter cs
    else if c.toNat < 0x20 then none
    else prepend c (stringBody .none cs)

/-! ## Numbers -/

/-- The number that decimal digits write. -/
def ofDigits (ds : List Char) : Nat := ds.foldl (fun n c => 10 * n + (c.toNat - '0'.toNat)) 0

/-- One or more decimal digits. -/
def digits? : Reader (List Char) := fun cs =>
  let ds := cs.takeWhile Char.isDigit
  if ds.isEmpty then none else some (ds, cs.dropWhile Char.isDigit)

/-- The digits before the point, without a leading zero. -/
def whole? : Reader (List Char)
  | '0' :: cs => some (['0'], cs)
  | cs => digits? cs

/-- The digits after the point, if there is one. -/
def fraction? : Reader (List Char)
  | '.' :: cs => digits? cs
  | cs => some ([], cs)

/-- The number after a sign, if there is one; `true` means minus. -/
def signed : List Char → Bool × List Char
  | '+' :: cs => (false, cs)
  | '-' :: cs => (true, cs)
  | cs => (false, cs)

/-- A number with its sign. -/
def withSign (negative : Bool) (n : Nat) : Int := if negative then -n else n

/-- The exponent, if there is one. -/
def exponent? : Reader (Option Int)
  | [] => some (none, [])
  | c :: cs =>
    if c = 'e' || c = 'E' then
      let (negative, cs) := signed cs
      (digits? cs).map fun r => (some (withSign negative (ofDigits r.1)), r.2)
    else some (none, c :: cs)

/-- A number. The zero with a minus is no integer. -/
def number? : Reader Json := fun cs => do
  let (negative, cs) := match cs with
    | '-' :: cs => (true, cs)
    | cs => (false, cs)
  let (whole, cs) ← whole? cs
  let (fraction, cs) ← fraction? cs
  let (exponent, cs) ← exponent? cs
  let n := ofDigits (whole ++ fraction)
  if fraction.isEmpty && exponent.isNone && !(negative && n = 0) then
    return (.integer (withSign negative n), cs)
  else return (.decimal (withSign negative n) (exponent.getD 0 - fraction.length), cs)

/-! ## Values -/

/-- Give a field a value, in its place if the name is there already. -/
def setField (name : String) (v : Json) : List (String × Json) → List (String × Json)
  | [] => [(name, v)]
  | f :: fs => if f.1 = name then (name, v) :: fs else f :: setField name v fs

/-- The items of an array from its first item on. -/
def items? (item : Reader Json) : Nat → Reader (List Json)
  | 0, _ => none
  | fuel + 1, cs => do
    let (v, cs) ← item cs
    match skipBlanks cs with
    | ',' :: cs => (items? item fuel cs).map fun r => (v :: r.1, r.2)
    | ']' :: cs => return ([v], cs)
    | _ => none

/-- The fields of an object from its next field on; `fields` are those before. A later field of
    the same name counts. -/
def fields? (item : Reader Json) :
    Nat → List (String × Json) → Reader (List (String × Json))
  | 0, _, _ => none
  | fuel + 1, fields, cs => do
    let (name, cs) ← match skipBlanks cs with
      | '"' :: cs => stringBody .none cs
      | _ => none
    let (v, cs) ← match skipBlanks cs with
      | ':' :: cs => item cs
      | _ => none
    let fields := setField (String.ofList name) v fields
    match skipBlanks cs with
    | ',' :: cs => fields? item fuel fields cs
    | '\x7d' :: cs => return (fields, cs)
    | _ => none

/-- A value in which arrays and objects nest no deeper than `depth`, with the blanks before it. -/
def value? : Nat → Reader Json
  | depth, cs =>
    match skipBlanks cs with
    | [] => none
    | c :: cs =>
      if c = '"' then (stringBody .none cs).map fun r => (.string (String.ofList r.1), r.2)
      else if c = '[' then
        match depth, skipBlanks cs with
        | 0, _ => none
        | _, ']' :: rest => some (.array [], rest)
        | depth + 1, _ =>
          (items? (value? depth) (cs.length + 1) cs).map fun r => (.array r.1, r.2)
      else if c = '\x7b' then
        match depth, skipBlanks cs with
        | 0, _ => none
        | _, '\x7d' :: rest => some (.object [], rest)
        | depth + 1, _ =>
          (fields? (value? depth) (cs.length + 1) [] cs).map fun r => (.object r.1, r.2)
      else
        match c :: cs with
        | 'n' :: 'u' :: 'l' :: 'l' :: rest => some (.null, rest)
        | 't' :: 'r' :: 'u' :: 'e' :: rest => some (.bool true, rest)
        | 'f' :: 'a' :: 'l' :: 's' :: 'e' :: rest => some (.bool false, rest)
        | cs => number? cs

/-- The value of a text. -/
def read? (text : String) : Option Json := do
  let (v, rest) ← value? depthLimit text.toList
  if (skipBlanks rest).isEmpty then some v else none

end Lexis.Json

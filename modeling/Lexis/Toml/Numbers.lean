/-!
  Lexis.Toml.Numbers

  TOML numbers and dates, for reading. Underscores may separate digits; integers fit in 64 bits
  with sign; a number too large for a double is refused; dates are those of the calendar.
-/

namespace Lexis.Toml

/-- A decimal digit. -/
def isDigit (c : Char) : Bool := '0' ≤ c && c ≤ '9'

/-- The digits of a base are the first characters of this list. -/
def digitChars : List Char := "0123456789abcdef".toList

/-- The value of a digit in a base up to sixteen. -/
def digitIn? (base : Nat) (c : Char) : Option Nat :=
  let c := if 'A' ≤ c && c ≤ 'F' then Char.ofNat (c.toNat + 32) else c
  ((digitChars.take base).findIdx? (· = c))

/-- Further digits, each after at most one underscore. -/
def moreDigits (base : Nat) : List Char → List Nat × List Char
  | '_' :: c :: cs =>
    match digitIn? base c with
    | some d => let r := moreDigits base cs; (d :: r.1, r.2)
    | none => ([], '_' :: c :: cs)
  | c :: cs =>
    match digitIn? base c with
    | some d => let r := moreDigits base cs; (d :: r.1, r.2)
    | none => ([], c :: cs)
  | [] => ([], [])

/-- One or more digits. -/
def digits? (base : Nat) : List Char → Option (List Nat × List Char)
  | c :: cs => (digitIn? base c).map fun d => let r := moreDigits base cs; (d :: r.1, r.2)
  | [] => none

/-- The number that digits write. -/
def ofDigits (base : Nat) (ds : List Nat) : Nat := ds.foldl (fun n d => base * n + d) 0

/-- An optional sign; `true` means minus. -/
def sign : List Char → Bool × List Char
  | '+' :: cs => (false, cs)
  | '-' :: cs => (true, cs)
  | cs => (false, cs)

/-- Decimal digits without a leading zero. -/
def decimalDigits? : List Char → Option (List Nat × List Char)
  | '0' :: cs => some ([0], cs)
  | cs => digits? 10 cs

/-- An integer that fits in 64 bits. -/
def fit? (i : Int) : Option Int :=
  if -9223372036854775808 ≤ i ∧ i ≤ 9223372036854775807 then some i else none

/-- An integer, in decimal with an optional sign or in base 16, 8 or 2 after its prefix. -/
def integer? : List Char → Option (Int × List Char)
  | '0' :: 'x' :: cs => inBase 16 cs
  | '0' :: 'o' :: cs => inBase 8 cs
  | '0' :: 'b' :: cs => inBase 2 cs
  | cs => do
    let (negative, cs) := sign cs
    let (ds, rest) ← decimalDigits? cs
    let n : Int := ofDigits 10 ds
    return (← fit? (if negative then -n else n), rest)
where
  /-- Digits of a base after its prefix. -/
  inBase (base : Nat) (cs : List Char) : Option (Int × List Char) := do
    let (ds, rest) ← digits? base cs
    return (← fit? (ofDigits base ds), rest)

/-- The least number that a double can only round to infinity. -/
def doubleLimit : Nat := Nat.pow 2 1024 - Nat.pow 2 970

/-- The number `mantissa · 10 ^ exponent` is beyond the range of doubles. -/
def exceedsDouble (mantissa : Nat) (exponent : Int) : Bool :=
  let magnitude := (Nat.toDigits 10 mantissa).length + exponent
  if mantissa = 0 || magnitude < 300 then false
  else if 320 < magnitude then true
  else doubleLimit * Nat.pow 10 (-exponent).toNat ≤ mantissa * Nat.pow 10 exponent.toNat

/-- The exponent of a float. -/
def exponent? : List Char → Option (Int × List Char)
  | c :: cs =>
    if c = 'e' || c = 'E' then do
      let (negative, cs) := sign cs
      let (ds, rest) ← digits? 10 cs
      let n : Int := ofDigits 10 ds
      return (if negative then -n else n, rest)
    else none
  | [] => none

/-- A float: infinity, not a number, or decimal digits with a fraction or an exponent. Returns the
    rest; the value is not kept. -/
def float? (cs : List Char) : Option (List Char) :=
  let (negative, cs) := sign cs
  match cs with
  | 'i' :: 'n' :: 'f' :: rest => some rest
  | 'n' :: 'a' :: 'n' :: rest => some rest
  | _ => do
    let (whole, rest) ← decimalDigits? cs
    let (fraction, rest) ← match rest with
      | '.' :: rest => digits? 10 rest
      | rest => if (exponent? rest).isSome then some ([], rest) else none
    let (exponent, rest) := (exponent? rest).getD (0, rest)
    if !negative && exceedsDouble (ofDigits 10 (whole ++ fraction)) (exponent - fraction.length) then
      none
    else some rest

/-! ## Dates and times -/

/-- Exactly `n` decimal digits. -/
def fixedDigits? : Nat → List Char → Option (Nat × List Char)
  | n, cs =>
    let ds := cs.take n
    if ds.length = n && ds.all isDigit then
      some (ofDigits 10 (ds.map fun c => c.toNat - '0'.toNat), cs.drop n)
    else none

/-- A two-digit number within bounds. -/
def bounded? (lo hi : Nat) (cs : List Char) : Option (Nat × List Char) := do
  let (n, rest) ← fixedDigits? 2 cs
  if lo ≤ n ∧ n ≤ hi then some (n, rest) else none

/-- A given character. -/
def expect? (c : Char) : List Char → Option (List Char)
  | d :: cs => if d = c then some cs else none
  | [] => none

/-- Number of days of a month. -/
def daysIn (year month : Nat) : Nat :=
  let leap := year % 4 = 0 && (year % 100 ≠ 0 || year % 400 = 0)
  if month = 2 then (if leap then 29 else 28)
  else if [4, 6, 9, 11].contains month then 30
  else 31

/-- Year, month and day. -/
def date? (cs : List Char) : Option (List Char) := do
  let (year, cs) ← fixedDigits? 4 cs
  let cs ← expect? '-' cs
  let (month, cs) ← bounded? 1 12 cs
  let cs ← expect? '-' cs
  let (_, cs) ← bounded? 1 (daysIn year month) cs
  return cs

/-- Hour, minute and second, with an optional fraction. -/
def time? (cs : List Char) : Option (List Char) := do
  let (_, cs) ← bounded? 0 23 cs
  let cs ← expect? ':' cs
  let (_, cs) ← bounded? 0 59 cs
  let cs ← expect? ':' cs
  let (_, cs) ← bounded? 0 60 cs
  match cs with
  | '.' :: d :: rest => if isDigit d then return rest.dropWhile isDigit else return cs
  | cs => return cs

/-- The distance from universal time. -/
def offset? : List Char → Option (List Char)
  | c :: cs =>
    if c = 'Z' || c = 'z' then some cs
    else if c = '+' || c = '-' then do
      let (_, cs) ← bounded? 0 23 cs
      let cs ← expect? ':' cs
      let (_, cs) ← bounded? 0 59 cs
      return cs
    else none
  | [] => none

/-- The time of a date, after `T` or a space. -/
def timeOfDate? : List Char → Option (List Char)
  | c :: cs =>
    if c = 'T' || c = 't' || c = ' ' then (time? cs).map fun cs => (offset? cs).getD cs else none
  | [] => none

/-- A date, a time, or both. -/
def dateTime? (cs : List Char) : Option (List Char) :=
  match date? cs with
  | some rest => some ((timeOfDate? rest).getD rest)
  | none => time? cs

end Lexis.Toml

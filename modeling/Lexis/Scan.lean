import Lexis.ByteCursor
import Lexis.LexError
import Lexis.Lexicon
import Lexis.Token

/-!
  Lexis.Scan

  The scan of a text: a machine that reads one character at a time, never looks ahead and never
  goes back. A token ends at the first character that cannot belong to it, and the end of the
  input acts like white space. Operators are read along the operator tree as far as it goes; where
  it ends, the characters read so far must be an operator.
-/

namespace Lexis

namespace Scan

/-- What the machine is in the middle of. -/
inductive Mode where
  /-- Between tokens. -/
  | gap
  /-- Inside a word; the node is present while the letters still begin a keyword. -/
  | word (keyword : Option NodeId)
  /-- Inside a number, before or after its decimal point. -/
  | number
  /-- Just after a decimal point. -/
  | fraction
  /-- Inside an operator, at a node of the operator tree. -/
  | operator (node : NodeId)
deriving DecidableEq

/-- The phase of a mode as messages name it. -/
def Mode.phase : Mode → Phase
  | .gap => .readingSpaces
  | .word (some _) => .keyword
  | .word none => .word
  | .number => .number
  | .fraction => .expectingDigit
  | .operator _ => .operator

/-- The machine between two characters. -/
structure State where
  /-- What it is in the middle of. -/
  mode : Mode
  /-- The lexeme most recently begun; it stays until the next one begins. -/
  lexeme : String
  /-- Whether the number at hand has had its decimal point. -/
  kind : NumberKind
  /-- The span of the first character of the lexeme. -/
  start : Span
deriving DecidableEq

/-- The machine before the first character. -/
def State.initial : State := ⟨.gap, "", .int, .point .start⟩

/-- One move: the token it completes, if any, and the next state or the problem that ends the
    scan. A move can complete a token and fail. -/
structure Move where
  emitted : Option Token
  next : Except LexError State

namespace State

/-! ## Pieces of a move -/

/-- The problem at the cursor, with the lexeme at hand as context. -/
def problem (s : State) (cur : Cursor) (fault : LexFault) (found : Found) : LexError :=
  ⟨fault, found, s.lexeme, cur.span⟩

/-- The problem of a character that has no place in the present mode. -/
def rejection (s : State) (cur : Cursor) (c : Char) (cls : CharClass) : LexError :=
  match cls with
  | .unknown => s.problem cur .unclassifiableCharacter (.char c)
  | cls => s.problem cur (.unexpectedCharacter cls) (.char c)

/-- The lexeme as a token that ends at the cursor. -/
def token (s : State) (cur : Cursor) (kind : TokenKind) : Token :=
  ⟨s.lexeme, kind, s.start.withStop cur.position.offset⟩

/-- Begin a lexeme with the character at the cursor. -/
def begin (s : State) (cur : Cursor) (c : Char) (mode : Mode) : State :=
  { s with mode := mode, lexeme := String.singleton c, start := cur.span }

/-- Add a character to the lexeme. -/
def extend (s : State) (c : Char) (mode : Mode) : State :=
  { s with mode := mode, lexeme := s.lexeme.push c }

/-- Leave the lexeme and wait for the next one. -/
def rest (s : State) : State := { s with mode := .gap }

/-- Begin a word. -/
def beginWord (lx : Lexicon) (s : State) (cur : Cursor) (c : Char) : State :=
  s.begin cur c (.word (lx.keywords.start? c))

/-- Begin a number. -/
def beginNumber (s : State) (cur : Cursor) (c : Char) : State :=
  { s.begin cur c .number with kind := .int }

/-- Begin an operator, if some operator begins with the character. -/
def beginOperator (lx : Lexicon) (s : State) (cur : Cursor) (c : Char) : Except LexError State :=
  match lx.operators.start? c with
  | some node => .ok (s.begin cur c (.operator node))
  | none => .error (s.problem cur (.invalidOperator .noOperatorStartsWith) (.char c))

/-- The token of a complete word. -/
def wordToken (lx : Lexicon) (s : State) (cur : Cursor) (keyword : Option NodeId) : Token :=
  s.token cur (if keyword.any lx.keywords.isTerminal then .keyword else .word)

/-- The token of a complete number, and the state without it. -/
def numberToken (s : State) (cur : Cursor) : Token := s.token cur s.kind.tokenKind

/-- The state after a complete number. -/
def afterNumber (s : State) : State := { s with kind := .int }

/-- The token of the operator at a node, if one ends there. -/
def operatorToken (lx : Lexicon) (s : State) (cur : Cursor) (node : NodeId) (found : Found) :
    Except LexError Token :=
  if lx.operators.isTerminal node then .ok (s.token cur .operator)
  else .error (s.problem cur (.invalidOperator .incomplete) found)

/-! ## Moves by mode -/

/-- Between tokens. -/
def stepGap (lx : Lexicon) (s : State) (cur : Cursor) (c : Char) (cls : CharClass) : Move :=
  match cls with
  | .whitespace => ⟨none, .ok s.rest⟩
  | .letter => ⟨none, .ok (s.beginWord lx cur c)⟩
  | .digit => ⟨none, .ok (s.beginNumber cur c)⟩
  | .operator => ⟨none, s.beginOperator lx cur c⟩
  | .dot | .unknown => ⟨none, .error (s.rejection cur c cls)⟩

/-- Inside a word. -/
def stepWord (lx : Lexicon) (s : State) (cur : Cursor) (keyword : Option NodeId) (c : Char)
    (cls : CharClass) : Move :=
  match cls with
  | .letter => ⟨none, .ok (s.extend c (.word (keyword.bind fun k => lx.keywords.step? k c)))⟩
  | .whitespace => ⟨some (s.wordToken lx cur keyword), .ok s.rest⟩
  | .operator => ⟨some (s.wordToken lx cur keyword), s.beginOperator lx cur c⟩
  | .digit | .dot | .unknown => ⟨none, .error (s.rejection cur c cls)⟩

/-- Inside a number. -/
def stepNumber (lx : Lexicon) (s : State) (cur : Cursor) (c : Char) (cls : CharClass) : Move :=
  match cls with
  | .digit => ⟨none, .ok (s.extend c .number)⟩
  | .dot =>
    match s.kind with
    | .int => ⟨none, .ok { s.extend c .fraction with kind := .float }⟩
    | .float =>
      ⟨none, .error (s.problem cur (.malformedNumber .secondDecimalPoint) (.char c))⟩
  | .whitespace => ⟨some (s.numberToken cur), .ok s.afterNumber.rest⟩
  | .operator => ⟨some (s.numberToken cur), s.afterNumber.beginOperator lx cur c⟩
  | .letter | .unknown => ⟨none, .error (s.rejection cur c cls)⟩

/-- Just after a decimal point: only a digit may follow. -/
def stepFraction (s : State) (cur : Cursor) (c : Char) (cls : CharClass) : Move :=
  match s.kind, cls with
  | .int, _ => ⟨none, .error (s.problem cur (.unexpectedState s.mode.phase) (.char c))⟩
  | .float, .digit => ⟨none, .ok (s.extend c .number)⟩
  | .float, _ => ⟨none, .error (s.problem cur (.malformedNumber .missingFraction) (.char c))⟩

/-- Finish the operator at a node and go on as `next` says. -/
def leaveOperator (lx : Lexicon) (s : State) (cur : Cursor) (node : NodeId) (c : Char)
    (next : Except LexError State) : Move :=
  match s.operatorToken lx cur node (.char c) with
  | .ok t => ⟨some t, next⟩
  | .error e => ⟨none, .error e⟩

/-- Inside an operator. -/
def stepOperator (lx : Lexicon) (s : State) (cur : Cursor) (node : NodeId) (c : Char)
    (cls : CharClass) : Move :=
  match cls with
  | .operator =>
    match lx.operators.step? node c with
    | some next => ⟨none, .ok (s.extend c (.operator next))⟩
    | none => s.leaveOperator lx cur node c (s.beginOperator lx cur c)
  | .whitespace => s.leaveOperator lx cur node c (.ok s.rest)
  | .letter => s.leaveOperator lx cur node c (.ok (s.beginWord lx cur c))
  | .digit => s.leaveOperator lx cur node c (.ok (s.beginNumber cur c))
  | .dot | .unknown => ⟨none, .error (s.rejection cur c cls)⟩

/-- The move on the character `c` at the cursor. -/
def step (lx : Lexicon) (s : State) (cur : Cursor) (c : Char) : Move :=
  let cls := lx.classify c
  match s.mode with
  | .gap => s.stepGap lx cur c cls
  | .word keyword => s.stepWord lx cur keyword c cls
  | .number => s.stepNumber lx cur c cls
  | .fraction => s.stepFraction cur c cls
  | .operator node => s.stepOperator lx cur node c cls

/-- The end of the input completes the lexeme at hand. -/
def finish (lx : Lexicon) (s : State) (cur : Cursor) : Except LexError (Option Token) :=
  match s.mode with
  | .gap => .ok none
  | .word keyword => .ok (some (s.wordToken lx cur keyword))
  | .number => .ok (some (s.numberToken cur))
  | .fraction => .error (s.problem cur (.malformedNumber .missingFraction) .endOfInput)
  | .operator node => (s.operatorToken lx cur node .endOfInput).map some

end State

/-! ## Whole scans -/

/-- What a scan leaves behind: the tokens it completed, and the problem that ended it early. -/
structure Outcome where
  tokens : Array Token
  problem : Option LexError
deriving DecidableEq

/-- The tokens of a scan that reached the end, or the problem that kept it from it. -/
def Outcome.result (o : Outcome) : Except LexError (List Token) :=
  match o.problem with
  | some e => .error e
  | none => .ok o.tokens.toList

/-- Add the token of a move. -/
def addToken (done : Array Token) : Option Token → Array Token
  | some t => done.push t
  | none => done

/-- Run the machine from a state over the rest of a text. -/
def run (lx : Lexicon) : List Char → Position → State → Array Token → Outcome
  | [], pos, s, done =>
    match s.finish lx ⟨[], pos⟩ with
    | .ok last => ⟨addToken done last, none⟩
    | .error e => ⟨done, some e⟩
  | c :: rest, pos, s, done =>
    let move := s.step lx ⟨c :: rest, pos⟩ c
    let done := addToken done move.emitted
    match move.next with
    | .ok s => run lx rest (pos.advance c) s done
    | .error e => ⟨done, some e⟩

/-- One round of the loop over a text: the move on the character at hand. -/
def round (lx : Lexicon) (p : State × Array Token) (cur : ByteCursor) (c : Char) :
    Except Outcome (State × Array Token) :=
  let move := p.1.step lx cur.view c
  let done := addToken p.2 move.emitted
  match move.next with
  | .ok s => .ok (s, done)
  | .error e => .error ⟨done, some e⟩

/-- What the loop leaves behind when it meets the end of the input. -/
def conclude (lx : Lexicon) (p : State × Array Token) (cur : ByteCursor) : Outcome :=
  match p.1.finish lx cur.view with
  | .ok last => ⟨addToken p.2 last, none⟩
  | .error e => ⟨p.2, some e⟩

end Scan

namespace Lexicon

/-- Scan a whole text. -/
def scan (lx : Lexicon) (text : String) : Scan.Outcome :=
  Scan.run lx text.toList .start .initial #[]

/-- Scan a whole text byte by byte, with counters that can run out. -/
def scanBytes (lx : Lexicon) (text : String) : Except Word.Overflow Scan.Outcome :=
  (ByteCursor.ofText text).loop (Scan.round lx) (Scan.conclude lx) (.initial, #[])

/-- The tokens of a text, or its first fatal problem; a problem discards the tokens before it. -/
def tokenize (lx : Lexicon) (text : String) : Except LexError (List Token) :=
  (lx.scan text).result

end Lexicon

end Lexis

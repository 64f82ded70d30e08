import CompletionPrompt.Source.Literal
import CompletionPrompt.Source.Tree

/-!
# Lexemes of a Python source

A source is cut into lexemes that, put together, are the source again (`flatten_lexemes`): blank
stretches, row ends and line continuations as much as words, numbers, literals and marks. Nothing
is refused; a character that means nothing on its own is a mark.
-/

namespace CompletionPrompt
namespace Source

/-- What a lexeme is. -/
inductive Kind where
  /-- Blank characters other than line feeds. -/
  | blank
  /-- One line feed. -/
  | rowEnd
  /-- A backslash and the end of its row. -/
  | continuation
  /-- A number sign and the rest of its row. -/
  | comment
  | word
  | number
  | literal
  /-- An operator or delimiter. -/
  | mark
deriving DecidableEq, Repr, Inhabited

/-- A piece of a source. -/
structure Lexeme where
  kind : Kind
  text : List Char
deriving DecidableEq, Repr

/-- A blank character other than the line feed. -/
def isSpace (c : Char) : Bool :=
  c = ' ' || c = '\t' || c = '\r' || c.toNat = 0x0B || c.toNat = 0x0C || c.toNat = 0xFEFF ||
    c.toNat = 0x2060 || c.toNat = 0x200B

/-- The marks of more than one character that have to be told from their parts. -/
def longMark (c : Char) (after : List Char) : Nat :=
  match c, after with
  | '.', '.' :: '.' :: _ => 2
  | ':', '=' :: _ => 1
  | _, _ => 0

/-- The lexeme that starts with a word character: a literal when only prefix letters stand before a
quote, and otherwise a word. -/
def wordOrLiteral (c : Char) (after : List Char) : Kind × Nat :=
  let (letters, rest) := after.span isWordChar
  match rest with
  | quote :: rest =>
    if isQuote quote && (c :: letters).all isLiteralLetter then
      (.literal, letters.length + 1 + literalLength (c :: letters) quote rest)
    else (.word, letters.length)
  | [] => (.word, letters.length)

/-- The kind of the lexeme that a character starts, and how many characters more it has. -/
def measure (c : Char) (after : List Char) : Kind × Nat :=
  if c = '\n' then (.rowEnd, 0)
  else if isSpace c then (.blank, (after.takeWhile isSpace).length)
  else if c = '\\' then
    match after with
    | '\n' :: _ => (.continuation, 1)
    | '\r' :: '\n' :: _ => (.continuation, 2)
    | [] => (.continuation, 0)
    | _ => (.mark, 0)
  else if c = '#' then (.comment, (after.takeWhile (· != '\n')).length)
  else if isQuote c then (.literal, literalLength [] c after)
  else if c.isDigit then (.number, (after.takeWhile fun d => isWordChar d || d = '.').length)
  else if isWordChar c then wordOrLiteral c after
  else (.mark, longMark c after)

/-- The lexemes of a source. -/
def lexemes : List Char → List Lexeme
  | [] => []
  | c :: cs =>
    let (kind, more) := measure c cs
    ⟨kind, c :: cs.take more⟩ :: lexemes (cs.drop more)
termination_by s => s.length

/-- The lexemes of a source are the source cut up. -/
theorem flatten_lexemes (s : List Char) : ((lexemes s).map (·.text)).flatten = s := by
  fun_induction lexemes s with
  | case1 => rfl
  | case2 c cs kind more h ih => simp [ih]

/-- A lexeme with the places where it starts and stops. -/
structure Piece where
  kind : Kind
  text : List Char
  start : Place
  stop : Place
deriving DecidableEq, Repr, Inhabited

/-- Lexemes with their places, the first of them at a given place. -/
def placeFrom : Place → List Lexeme → List Piece
  | _, [] => []
  | p, l :: ls => ⟨l.kind, l.text, p, p.after l.text⟩ :: placeFrom (p.after l.text) ls

/-- The lexemes of a source with their places. -/
def pieces (s : List Char) : List Piece :=
  placeFrom .start (lexemes s)

namespace Piece

/-- Is the piece a given word? -/
def isWord (p : Piece) (w : String) : Bool :=
  p.kind = .word && p.text = w.toList

/-- Is the piece one of some words? -/
def isOneOf (p : Piece) (ws : List String) : Bool :=
  ws.any p.isWord

/-- Is the piece a given mark? -/
def isMark (p : Piece) (m : String) : Bool :=
  p.kind = .mark && p.text = m.toList

end Piece

end Source
end CompletionPrompt

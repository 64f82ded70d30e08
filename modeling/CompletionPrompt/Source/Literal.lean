/-!
# Where a string literal ends

A string literal of Python is a run of prefix letters and then a quote, which three times over
opens a literal that may hold line feeds. A raw literal keeps its backslashes, but a backslash
still protects the quote after it. A formatted literal holds fields between braces: code, with
brackets, comments and literals of its own, and after a colon a format, which may hold fields
again.

`literalLength` reads a literal with a stack of what is open, innermost first.
-/

namespace CompletionPrompt
namespace Source

/-- How a literal is closed and what its backslashes and braces mean. -/
structure Quoting where
  quote : Char
  triple : Bool
  raw : Bool
  formatted : Bool
deriving DecidableEq, Repr

/-- What is open inside a literal. -/
inductive Inside where
  /-- The text of a literal. -/
  | text (q : Quoting)
  /-- The code of a field: how many brackets are open in it, and the letters just read. -/
  | code (brackets : Nat) (word : List Char)
  /-- The format of a field. -/
  | format
deriving DecidableEq, Repr

/-- A character that opens a literal. -/
def isQuote (c : Char) : Bool :=
  c = '"' || c = '\'' || c = '`'

/-- A letter that may stand in front of a literal. -/
def isLiteralLetter (c : Char) : Bool :=
  "fFrRbBuU".toList.contains c

/-- A letter, digit, underscore or character outside ASCII that is not blank: what words are made
of. -/
def isWordChar (c : Char) : Bool :=
  c.isAlphanum || c = '_' ||
    (c.toNat > 0x7F && !(c.toNat = 0xFEFF || c.toNat = 0x2060 || c.toNat = 0x200B))

/-- How the literal is quoted that a quote opens after some letters, followed by more text. -/
def quotingOf (letters : List Char) (quote : Char) (after : List Char) : Quoting :=
  let letters := if letters.all isLiteralLetter then letters else []
  { quote
    triple := [quote, quote].isPrefixOf after
    raw := letters.any fun c => c = 'r' || c = 'R'
    formatted := letters.any fun c => c = 'f' || c = 'F' }

/-- The number of quotes after the first that open or close a literal. -/
def Quoting.moreQuotes (q : Quoting) : Nat :=
  if q.triple then 2 else 0

/-- The number of characters that a backslash protects in what follows it: a row end, a quote or
another backslash, and in a formatted literal a character's name between braces. -/
def protectedLength (q : Quoting) (after : List Char) : Nat :=
  match after with
  | '\r' :: '\n' :: _ => 2
  | '\n' :: _ => 1
  | 'N' :: '\x7b' :: rest =>
    if q.formatted && !q.raw then (rest.takeWhile (· != '\x7d')).length + 3 else 0
  | c :: _ => if c = '\\' || c = q.quote && q.raw || (c = '"' || c = '\'') && !q.raw then 1 else 0
  | [] => 0

/-- A character of the text of a literal: how many characters after it belong to it, and what is
open then; nothing when a line feed cuts the literal short. -/
def textStep (q : Quoting) (c : Char) (after : List Char) (outside : List Inside) :
    Option (Nat × List Inside) :=
  if c = '\\' then some (protectedLength q after, .text q :: outside)
  else if c = q.quote then
    if !q.triple then some (0, outside)
    else if [q.quote, q.quote].isPrefixOf after then some (2, outside)
    else some (0, .text q :: outside)
  else if q.formatted && (c = '\x7b' || c = '\x7d') then
    if after.head? = some c then some (1, .text q :: outside)
    else if c = '\x7b' then some (0, .code 0 [] :: .text q :: outside)
    else some (0, .text q :: outside)
  else if c = '\n' && !q.triple then none
  else some (0, .text q :: outside)

/-- A character of the code of a field. -/
def codeStep (brackets : Nat) (word : List Char) (c : Char) (after : List Char)
    (outside : List Inside) : Nat × List Inside :=
  if isQuote c then
    let q := quotingOf word c after
    (q.moreQuotes, .text q :: .code brackets [] :: outside)
  else if c = '(' || c = '[' || c = '\x7b' then (0, .code (brackets + 1) [] :: outside)
  else if brackets = 0 && c = '\x7d' then (0, outside)
  else if c = ')' || c = ']' || c = '\x7d' then (0, .code (brackets - 1) [] :: outside)
  else if brackets = 0 && c = ':' then (0, .format :: outside)
  else if c = '#' then ((after.takeWhile (· != '\n')).length, .code brackets [] :: outside)
  else if isWordChar c then (0, .code brackets (word ++ [c]) :: outside)
  else (0, .code brackets [] :: outside)

/-- A character of the format of a field. -/
def formatStep (c : Char) (outside : List Inside) : List Inside :=
  if c = '\x7b' then .code 0 [] :: .format :: outside
  else if c = '\x7d' then outside
  else .format :: outside

/-- The number of characters, after `skip` more, up to where everything open is closed; all of them
when it never is. -/
def closeLength : Nat → List Inside → List Char → Nat
  | 0, [], _ => 0
  | _, _, [] => 0
  | skip + 1, inside, _ :: cs => closeLength skip inside cs + 1
  | 0, .text q :: outside, c :: cs =>
    match textStep q c cs outside with
    | some (skip, inside) => closeLength skip inside cs + 1
    | none => 0
  | 0, .code brackets word :: outside, c :: cs =>
    let (skip, inside) := codeStep brackets word c cs outside
    closeLength skip inside cs + 1
  | 0, .format :: outside, c :: cs => closeLength 0 (formatStep c outside) cs + 1

/-- The number of characters of a literal after the quote that opens it. -/
def literalLength (letters : List Char) (quote : Char) (after : List Char) : Nat :=
  let q := quotingOf letters quote after
  closeLength q.moreQuotes [.text q] after

end Source
end CompletionPrompt

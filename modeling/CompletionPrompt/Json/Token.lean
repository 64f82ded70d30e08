import CompletionPrompt.Json.Value

/-!
# JSON tokens

A text is cut into tokens by a machine that takes one character at a time. White space is the
tab, line feed, carriage return and space. A string must close, holds no control character
below U+0020, and escapes a character above U+FFFF by a pair of surrogates; a surrogate alone is
refused. A number follows JSON's grammar and must not overflow binary64.
-/

namespace CompletionPrompt
namespace Json

/-- A token of a JSON text. -/
inductive Token where
  | openBracket
  | closeBracket
  | openBrace
  | closeBrace
  | comma
  | colon
  | string (s : String)
  | scalar (v : Value)
deriving Inhabited

/-- The token of a punctuation mark. -/
def punctuation? (c : Char) : Option Token :=
  if c = '[' then some .openBracket
  else if c = ']' then some .closeBracket
  else if c = '\x7b' then some .openBrace
  else if c = '\x7d' then some .closeBrace
  else if c = ',' then some .comma
  else if c = ':' then some .colon
  else none

/-- White space between tokens. -/
def isSpace (c : Char) : Bool :=
  c = ' ' || c = '\n' || c = '\r' || c = '\t'

/-- The value of a hexadecimal digit of either case. -/
def hexValue? (c : Char) : Option Nat :=
  if '0' ≤ c ∧ c ≤ '9' then some (c.toNat - '0'.toNat)
  else if 'a' ≤ c ∧ c ≤ 'f' then some (c.toNat - 'a'.toNat + 10)
  else if 'A' ≤ c ∧ c ≤ 'F' then some (c.toNat - 'A'.toNat + 10)
  else none

/-- The number that decimal digits write. -/
def digitsValue (digits : List Char) : Nat :=
  digits.foldl (fun n c => 10 * n + (c.toNat - '0'.toNat)) 0

/-- A number cut into its parts: digits before the point, digits after it, exponent. -/
structure NumberParts where
  negative : Bool
  whole : List Char
  fraction : Option (List Char)
  exponent : Option Int

/-- A nonempty run of digits at the start of a text. -/
def takeDigits? (s : List Char) : Option (List Char × List Char) :=
  let (digits, rest) := s.span Char.isDigit
  if digits.isEmpty then none else some (digits, rest)

/-- The exponent of a number: `e`, an optional sign and digits, or nothing at all. -/
def exponent? : List Char → Option (Option Int)
  | [] => some none
  | e :: rest =>
    if e = 'e' ∨ e = 'E' then
      let (sign, rest) : Int × List Char :=
        match rest with
        | '-' :: rest => (-1, rest)
        | '+' :: rest => (1, rest)
        | _ => (1, rest)
      match takeDigits? rest with
      | some (digits, []) => some (some (sign * (digitsValue digits : Int)))
      | _ => none
    else none

/-- The parts of a number in JSON's grammar: no leading zero, digits on both sides of a point. -/
def numberParts? (s : List Char) : Option NumberParts :=
  let (negative, s) := match s with
    | '-' :: s => (true, s)
    | _ => (false, s)
  match takeDigits? s with
  | none => none
  | some (whole, rest) =>
    if whole.head? = some '0' ∧ whole.length ≠ 1 then none
    else
      let (fraction, rest) : Option (Option (List Char)) × List Char :=
        match rest with
        | '.' :: rest =>
          match takeDigits? rest with
          | some (digits, rest) => (some (some digits), rest)
          | none => (none, rest)
        | _ => (some none, rest)
      match fraction, exponent? rest with
      | some fraction, some exponent => some ⟨negative, whole, fraction, exponent⟩
      | _, _ => none

/-- The least magnitude that binary64 rounds to infinity. -/
def binary64Overflow : Nat :=
  Nat.pow 2 1024 - Nat.pow 2 970

/-- Does a number overflow binary64? -/
def NumberParts.overflows (p : NumberParts) : Bool :=
  let fraction := p.fraction.getD []
  let digits := digitsValue (p.whole ++ fraction)
  let scale := p.exponent.getD 0 - (fraction.length : Int)
  if digits = 0 then false
  else
    match scale with
    | .ofNat n => n > 308 || digits * Nat.pow 10 n ≥ binary64Overflow
    | .negSucc n =>
      let places := (Nat.toDigits 10 digits).length
      places > n + 1 + 308 && digits ≥ binary64Overflow * Nat.pow 10 (n + 1)

/-- The value of a word or number, if it is one. -/
def scalar? (s : List Char) : Option Value :=
  if s = "null".toList then some .null
  else if s = "true".toList then some (.bool true)
  else if s = "false".toList then some (.bool false)
  else
    match numberParts? s with
    | none => none
    | some p =>
      if p.overflows then none
      else
        match p with
        | ⟨false, whole, none, none⟩ => some (.natural (digitsValue whole))
        | _ => some (.decimal (String.ofList s))

/-- Where the tokenizer stands. What was read of a string or word is held with the last character
first. -/
inductive Mode where
  /-- Between tokens. -/
  | between
  /-- In a string. -/
  | text (done : List Char)
  /-- After a backslash in a string. -/
  | escape (done : List Char)
  /-- In the four digits of an escape, after a high surrogate if there is one. -/
  | unit (done : List Char) (high : Option Nat) (left : Nat) (value : Nat)
  /-- After a high surrogate, before the backslash of the low one. -/
  | lowSlash (done : List Char) (high : Nat)
  /-- After a high surrogate and a backslash. -/
  | lowMark (done : List Char) (high : Nat)
  /-- In a word or number. -/
  | bare (done : List Char)

/-- The tokens read so far, last first, and where the tokenizer stands. -/
structure Tokenizing where
  out : List Token
  mode : Mode

namespace Tokenizing

/-- A character taken between tokens. -/
def start (out : List Token) (c : Char) : Tokenizing :=
  if isSpace c then ⟨out, .between⟩
  else if c = '"' then ⟨out, .text []⟩
  else
    match punctuation? c with
    | some t => ⟨t :: out, .between⟩
    | none => ⟨out, .bare [c]⟩

/-- The character of an escape that is one letter. -/
def escaped? (c : Char) : Option Char :=
  match c with
  | '"' => some '"'
  | '\\' => some '\\'
  | '/' => some '/'
  | 'b' => some '\x08'
  | 'f' => some '\x0c'
  | 'n' => some '\n'
  | 'r' => some '\r'
  | 't' => some '\t'
  | _ => none

/-- The end of a four digit escape. -/
def endUnit (done : List Char) (high : Option Nat) (value : Nat) : Option Mode :=
  match high with
  | none =>
    if 0xD800 ≤ value ∧ value ≤ 0xDBFF then some (.lowSlash done value)
    else if 0xDC00 ≤ value ∧ value ≤ 0xDFFF then none
    else some (.text (Char.ofNat value :: done))
  | some high =>
    if 0xDC00 ≤ value ∧ value ≤ 0xDFFF then
      some (.text (Char.ofNat (0x10000 + (high - 0xD800) * 0x400 + (value - 0xDC00)) :: done))
    else none

/-- Ends a word or number in front of a character that starts something else. -/
def isBare (c : Char) : Bool :=
  !isSpace c && c != '"' && (punctuation? c).isNone

/-- One character. -/
def step (s : Tokenizing) (c : Char) : Option Tokenizing :=
  match s.mode with
  | .between => some (start s.out c)
  | .text done =>
    if c = '"' then some ⟨.string (String.ofList done.reverse) :: s.out, .between⟩
    else if c = '\\' then some ⟨s.out, .escape done⟩
    else if c.toNat < 0x20 then none
    else some ⟨s.out, .text (c :: done)⟩
  | .escape done =>
    if c = 'u' then some ⟨s.out, .unit done none 4 0⟩
    else (escaped? c).map fun e => ⟨s.out, .text (e :: done)⟩
  | .unit done high left value =>
    match hexValue? c with
    | none => none
    | some d =>
      if left ≤ 1 then (endUnit done high (16 * value + d)).map fun mode => ⟨s.out, mode⟩
      else some ⟨s.out, .unit done high (left - 1) (16 * value + d)⟩
  | .lowSlash done high => if c = '\\' then some ⟨s.out, .lowMark done high⟩ else none
  | .lowMark done high => if c = 'u' then some ⟨s.out, .unit done (some high) 4 0⟩ else none
  | .bare done =>
    if isBare c then some ⟨s.out, .bare (c :: done)⟩
    else (scalar? done.reverse).map fun v => start (.scalar v :: s.out) c

/-- The end of the text. -/
def finish (s : Tokenizing) : Option (List Token) :=
  match s.mode with
  | .between => some s.out.reverse
  | .bare done => (scalar? done.reverse).map fun v => (.scalar v :: s.out).reverse
  | _ => none

end Tokenizing

/-- The tokens of a text, if it can be cut into tokens. -/
def tokens? (s : List Char) : Option (List Token) :=
  (s.foldlM Tokenizing.step ⟨[], .between⟩).bind Tokenizing.finish

end Json
end CompletionPrompt

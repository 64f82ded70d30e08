import CompletionPrompt.Config
import CompletionPrompt.Json.Token
import CompletionPrompt.Text.Rows

/-!
# Settings files

A settings file gives parts of a configuration, one `key = value` on a line: a basic string
between double quotes, a whole number of 64 bits, or a truth value. Blank lines and comments after
a number sign are passed over; a key that is not a part of a configuration is as well. A key given
twice, and anything that is not of this form, makes the file unreadable.
-/

namespace CompletionPrompt
namespace Config
namespace Settings

/-- Blanks within a line. -/
def isSpace (c : Char) : Bool :=
  c = ' ' || c = '\t'

/-- A character of a bare key. -/
def isKeyChar (c : Char) : Bool :=
  c.isAlphanum || c = '_' || c = '-'

/-- The character of a number, if it is one. -/
def charOf? (n : Nat) : Option Char :=
  if n < 0xD800 ∨ 0xE000 ≤ n ∧ n < 0x110000 then some (Char.ofNat n) else none

/-- The number that hexadecimal digits write. -/
def hexNumber? (digits : List Char) : Option Nat :=
  digits.foldlM (fun n c => (Json.hexValue? c).map (16 * n + ·)) 0

/-- A string's text after its opening quote, up to the closing one, with what follows it; `skip`
characters belong to an escape that was read. -/
def stringFrom? : Nat → List Char → Option (List Char × List Char)
  | _, [] => none
  | skip + 1, _ :: cs => stringFrom? skip cs
  | 0, c :: cs =>
    let more (d : Char) (skip : Nat) :=
      (stringFrom? skip cs).map fun (text, rest) => (d :: text, rest)
    if c = '"' then some ([], cs)
    else if c = '\\' then
      match cs with
      | 'b' :: _ => more '\x08' 1
      | 't' :: _ => more '\t' 1
      | 'n' :: _ => more '\n' 1
      | 'f' :: _ => more '\x0c' 1
      | 'r' :: _ => more '\r' 1
      | '"' :: _ => more '"' 1
      | '\\' :: _ => more '\\' 1
      | 'u' :: cs =>
        if cs.length < 4 then none
        else ((hexNumber? (cs.take 4)).bind charOf?).bind (more · 5)
      | 'U' :: cs =>
        if cs.length < 8 then none
        else ((hexNumber? (cs.take 8)).bind charOf?).bind (more · 9)
      | _ => none
    else if c.toNat < 0x20 && c != '\t' || c.toNat = 0x7F then none
    else more c 0

/-- Digits of a base, with single underscores between digits. -/
def digitsOf? (base : Nat) (s : List Char) : Option Nat :=
  let groups := s.splitOn '_'
  if groups.any List.isEmpty then none
  else
    groups.flatten.foldlM (fun n c =>
      match Json.hexValue? c with
      | some d => if d < base then some (base * n + d) else none
      | none => none) 0

/-- The magnitude of a whole number: decimal without a leading zero, or with the letter of a base
after a zero. -/
def magnitude? (signed : Bool) : List Char → Option Nat
  | '0' :: 'x' :: s => if signed then none else digitsOf? 16 s
  | '0' :: 'o' :: s => if signed then none else digitsOf? 8 s
  | '0' :: 'b' :: s => if signed then none else digitsOf? 2 s
  | ['0'] => some 0
  | '0' :: _ => none
  | s => digitsOf? 10 s

/-- Whole numbers lie between the negative of this bound, which is one of them, and the bound, which
is not. -/
def integerBound : Nat := UInt64.size / 2

/-- A whole number that is not negative. -/
def upward? (n : Nat) : Option Json.Value :=
  if n < integerBound then some (.natural n) else none

/-- A whole number of 64 bits with a sign. -/
def integer? (s : List Char) : Option Json.Value :=
  match s with
  | '-' :: s =>
    match magnitude? true s with
    | some 0 => some (.natural 0)
    | some n => if n ≤ integerBound then some (.decimal (String.ofList ('-' :: s))) else none
    | none => none
  | '+' :: s => (magnitude? true s).bind upward?
  | s => (magnitude? false s).bind upward?

/-- Is the rest of a line blank up to a comment? -/
def endsLine (s : List Char) : Bool :=
  match s.dropWhile isSpace with
  | [] => true
  | c :: cs => c = '#' && cs.all fun c => (0x20 ≤ c.toNat && c.toNat != 0x7F) || c = '\t'

/-- The value at the start of a text, with nothing after it on the line. -/
def value? : List Char → Option Json.Value
  | [] => none
  | c :: cs =>
    if c = '"' then
      match stringFrom? 0 cs with
      | some (text, rest) => if endsLine rest then some (.string (String.ofList text)) else none
      | none => none
    else
      let (word, rest) := (c :: cs).span fun c => !isSpace c && c != '#'
      if !endsLine rest then none
      else if word = "true".toList then some (.bool true)
      else if word = "false".toList then some (.bool false)
      else integer? word

/-- The setting of a line, `none` inside when the line is blank. -/
def line? (s : List Char) : Option (Option (String × Json.Value)) :=
  let s := s.dropWhile isSpace
  if endsLine s then some none
  else
    let (key, rest) := s.span isKeyChar
    match key, rest.dropWhile isSpace with
    | [], _ => none
    | key, '=' :: rest =>
      (value? (rest.dropWhile isSpace)).map fun v => some (String.ofList key, v)
    | _, _ => none

/-- The settings of a file, in order. -/
def read? (text : String) : Option (List (String × Json.Value)) := do
  let settings ← ((Text.rows text.toList).map Text.dropReturn).mapM line?
  let settings := settings.filterMap id
  if (settings.map (·.1)).eraseDups.length = settings.length then some settings else none

end Settings

/-- The configuration of a settings file, with the defaults for what it leaves out. -/
def ofSettings? (text : String) : Option Config :=
  (Settings.read? text).bind fun settings => ofJson? (.object settings)

end Config
end CompletionPrompt

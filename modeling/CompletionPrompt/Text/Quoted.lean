import CompletionPrompt.Text.Unshown

/-!
# Quoted text in messages

A message that has to show a text exactly puts it between double quotes and escapes what would
be ambiguous or invisible: NUL, tab, carriage return and line feed by a letter, the backslash
and the double quote by a backslash, and every character of `isUnshown` by its number in
hexadecimal between braces. A single quote stays as it is.
-/

namespace CompletionPrompt
namespace Text

/-- The digits of a number in lower case hexadecimal. -/
def hexadecimal (n : Nat) : List Char :=
  Nat.toDigits 16 n

/-- A character as it stands between double quotes. -/
def quoteChar (c : Char) : List Char :=
  if c.toNat = 0 then ['\\', '0']
  else if c = '\t' then ['\\', 't']
  else if c = '\r' then ['\\', 'r']
  else if c = '\n' then ['\\', 'n']
  else if c = '\\' then ['\\', '\\']
  else if c = '"' then ['\\', '"']
  else if isUnshown c then ['\\', 'u', '\x7b'] ++ hexadecimal c.toNat ++ ['\x7d']
  else [c]

/-- A text between double quotes. -/
def quoted (s : List Char) : List Char :=
  '"' :: s.flatMap quoteChar ++ ['"']

end Text
end CompletionPrompt

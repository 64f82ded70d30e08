/-!
# JSON values and their text

A value keeps the order of its fields and every field that was written, repeated names included.
Whole numbers without a sign, fraction or exponent are `natural`; any other number keeps its
text.

`Value.compact` writes a value without white space, `Value.pretty` with two spaces per level.
Inside strings only the double quote, the backslash and the controls below U+0020 are escaped.
-/

namespace CompletionPrompt
namespace Json

/-- A JSON value. -/
inductive Value where
  | null
  | bool (b : Bool)
  | natural (n : Nat)
  | decimal (text : String)
  | string (s : String)
  | array (items : List Value)
  | object (fields : List (String × Value))
deriving Repr, BEq, Inhabited

/-- A control character as four lower case hexadecimal digits. -/
def fourDigits (n : Nat) : List Char :=
  (Nat.toDigits 16 n).leftpad 4 '0'

/-- A character as it stands in a string. -/
def escapeChar (c : Char) : List Char :=
  if c = '"' then ['\\', '"']
  else if c = '\\' then ['\\', '\\']
  else if c = '\n' then ['\\', 'n']
  else if c = '\r' then ['\\', 'r']
  else if c = '\t' then ['\\', 't']
  else if c.toNat = 8 then ['\\', 'b']
  else if c.toNat = 12 then ['\\', 'f']
  else if c.toNat < 0x20 then ['\\', 'u'] ++ fourDigits c.toNat
  else [c]

/-- A string between double quotes. -/
def literal (s : List Char) : List Char :=
  '"' :: s.flatMap escapeChar ++ ['"']

/-- Items joined by commas. -/
def commaSeparated (items : List (List Char)) : List Char :=
  [','].intercalate items

mutual

/-- A value without white space. -/
def Value.compact : Value → List Char
  | .null => "null".toList
  | .bool true => "true".toList
  | .bool false => "false".toList
  | .natural n => Nat.toDigits 10 n
  | .decimal text => text.toList
  | .string s => literal s.toList
  | .array items => '[' :: commaSeparated (compactItems items) ++ [']']
  | .object fields => '\x7b' :: commaSeparated (compactFields fields) ++ ['\x7d']

/-- The items of an array, each without white space. -/
def compactItems : List Value → List (List Char)
  | [] => []
  | v :: vs => v.compact :: compactItems vs

/-- The fields of an object, each without white space. -/
def compactFields : List (String × Value) → List (List Char)
  | [] => []
  | (name, v) :: fields => (literal name.toList ++ ':' :: v.compact) :: compactFields fields

end

/-- The start of a line at a level of nesting. -/
def newLine (level : Nat) : List Char :=
  '\n' :: List.replicate (2 * level) ' '

/-- Items on lines of their own, one level deeper than their brackets; nothing when there is no
item. -/
def onLines (level : Nat) (items : List (List Char)) : List Char :=
  if items.isEmpty then []
  else commaSeparated (items.map (newLine (level + 1) ++ ·)) ++ newLine level

mutual

/-- A value with each item and field on a line of its own. -/
def Value.prettyAt (level : Nat) : Value → List Char
  | .array items => '[' :: onLines level (prettyItems (level + 1) items) ++ [']']
  | .object fields => '\x7b' :: onLines level (prettyFields (level + 1) fields) ++ ['\x7d']
  | v => v.compact

/-- The items of an array at a level of nesting. -/
def prettyItems (level : Nat) : List Value → List (List Char)
  | [] => []
  | v :: vs => v.prettyAt level :: prettyItems level vs

/-- The fields of an object at a level of nesting. -/
def prettyFields (level : Nat) : List (String × Value) → List (List Char)
  | [] => []
  | (name, v) :: fields =>
    (literal name.toList ++ [':', ' '] ++ v.prettyAt level) :: prettyFields level fields

end

/-- A value with each item and field on a line of its own. -/
def Value.pretty (v : Value) : List Char :=
  v.prettyAt 0

/-- A string or null. -/
def Value.ofOption : Option String → Value
  | some s => .string s
  | none => .null

/-- An array of strings. -/
def Value.ofStrings (ss : List String) : Value :=
  .array (ss.map .string)

end Json
end CompletionPrompt

import CompletionPrompt.Json.Token

/-!
# Reading JSON values

A machine takes one token at a time and holds the arrays and objects that are open, innermost
first. A text is refused when it nests deeper than `maxNesting`, when a bracket does not match,
when a comma or colon is missing or too much, and when anything follows the value.
-/

namespace CompletionPrompt
namespace Json

/-- An array or object that is open. What was read of it is held last first; an object also holds
the name whose value is read. -/
inductive Frame where
  | array (items : List Value)
  | object (fields : List (String × Value)) (name : String)

/-- What may come next. -/
inductive Expected where
  /-- A value. -/
  | value
  /-- A value or the end of an array. -/
  | item
  /-- A name or the end of an object. -/
  | firstName
  /-- A name. -/
  | name
  /-- A colon. -/
  | colon
  /-- A comma or the end of what is open. -/
  | comma
  /-- Nothing: the value is complete. -/
  | nothing (v : Value)

/-- Where the reader stands. -/
structure Reading where
  expected : Expected
  frames : List Frame

namespace Reading

/-- The greatest number of arrays and objects that may be open at once. -/
def maxNesting : Nat := 127

/-- A complete value, handed to what is open around it. -/
def deliver (v : Value) : List Frame → Reading
  | [] => ⟨.nothing v, []⟩
  | .array items :: frames => ⟨.comma, .array (v :: items) :: frames⟩
  | .object fields name :: frames => ⟨.comma, .object ((name, v) :: fields) name :: frames⟩

/-- An array or object opened inside the others, if the nesting allows it. -/
def push? (limit : Nat) (expected : Expected) (frame : Frame) (frames : List Frame) :
    Option Reading :=
  if frames.length < limit then some ⟨expected, frame :: frames⟩ else none

/-- A token where a value may stand. -/
def takeValue? (limit : Nat) (t : Token) (frames : List Frame) : Option Reading :=
  match t with
  | .scalar v => some (deliver v frames)
  | .string s => some (deliver (.string s) frames)
  | .openBracket => push? limit .item (.array []) frames
  | .openBrace => push? limit .firstName (.object [] "") frames
  | _ => none

/-- One token. -/
def step (limit : Nat) (r : Reading) (t : Token) : Option Reading :=
  match r.expected, t, r.frames with
  | .item, .closeBracket, .array items :: frames => some (deliver (.array items.reverse) frames)
  | .item, t, frames => takeValue? limit t frames
  | .value, t, frames => takeValue? limit t frames
  | .firstName, .closeBrace, .object fields _ :: frames =>
    some (deliver (.object fields.reverse) frames)
  | .firstName, .string s, .object fields _ :: frames =>
    some ⟨.colon, .object fields s :: frames⟩
  | .name, .string s, .object fields _ :: frames => some ⟨.colon, .object fields s :: frames⟩
  | .colon, .colon, frames => some ⟨.value, frames⟩
  | .comma, .comma, .array items :: frames => some ⟨.value, .array items :: frames⟩
  | .comma, .comma, .object fields name :: frames => some ⟨.name, .object fields name :: frames⟩
  | .comma, .closeBracket, .array items :: frames => some (deliver (.array items.reverse) frames)
  | .comma, .closeBrace, .object fields _ :: frames =>
    some (deliver (.object fields.reverse) frames)
  | _, _, _ => none

/-- The value that was read, once it is complete. -/
def finish (r : Reading) : Option Value :=
  match r.expected with
  | .nothing v => some v
  | _ => none

end Reading

/-- The value that a text writes, with at most `limit` arrays and objects open at once. -/
def readNested? (limit : Nat) (s : List Char) : Option Value :=
  (tokens? s).bind fun ts =>
    (ts.foldlM (Reading.step limit) ⟨.value, []⟩).bind Reading.finish

/-- The value that a text writes. -/
def read? (s : List Char) : Option Value :=
  readNested? Reading.maxNesting s

end Json
end CompletionPrompt

import CompletionPrompt.Json.Value

/-!
# Reading records

How the parts of a record are read from a JSON value. A record is an object whose fields are found
by name, or an array of all its fields in order; unknown fields are passed over and a field given
twice is refused. Counts are whole numbers of 64 bits.
-/

namespace CompletionPrompt
namespace Json
namespace Value

/-- The text of a string. -/
def asString? : Value → Option String
  | .string s => some s
  | _ => none

/-- The truth value of a `true` or `false`. -/
def asBool? : Value → Option Bool
  | .bool b => some b
  | _ => none

/-- The number of a whole number of 64 bits. -/
def asCount? : Value → Option Nat
  | .natural n => if n < UInt64.size then some n else none
  | _ => none

/-- The items of an array. -/
def asArray? : Value → Option (List Value)
  | .array items => some items
  | _ => none

/-- A list of strings. -/
def asStrings? (v : Value) : Option (List String) :=
  v.asArray?.bind fun items => items.mapM asString?

/-- A part that may be absent: null and a missing field are both `none`. -/
def asOptional? {α : Type} (read : Value → Option α) : Option Value → Option (Option α)
  | none => some none
  | some .null => some none
  | some v => (read v).map some

/-- The last value of a field, which is the only one in a record. -/
def field? (name : String) : Value → Option Value
  | .object fields => (fields.reverse.find? (·.1 == name)).map (·.2)
  | _ => none

end Value

/-- The one value of a name among fields, `none` inside when it is missing, and a refusal when it is
there twice. -/
def uniqueField? (fields : List (String × Value)) (name : String) : Option (Option Value) :=
  match fields.filter (·.1 == name) with
  | [] => some none
  | [(_, v)] => some (some v)
  | _ => none

/-- The fields of a record in the order of `names`, missing ones as `none`. An array may end early
where every field has a default. -/
def fieldsOrMissing? (names : List String) : Value → Option (List (Option Value))
  | .object fields => names.mapM (uniqueField? fields)
  | .array items =>
    if items.length ≤ names.length then
      some (items.map some ++ List.replicate (names.length - items.length) none)
    else none
  | _ => none

/-- The fields of a record in the order of `names`; an array must give all of them. -/
def fields? (names : List String) (v : Value) : Option (List (Option Value)) :=
  match v with
  | .array items => if items.length = names.length then some (items.map some) else none
  | v => fieldsOrMissing? names v

/-- A part that must be there. -/
def required? {α : Type} (read : Value → Option α) (v : Option Value) : Option α :=
  v.bind read

end Json
end CompletionPrompt

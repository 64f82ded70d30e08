import CompletionPrompt.Json.Record

/-!
# Spans

The place of a statement in a text: rows counted by line feeds and columns in bytes, both from
zero, from its start up to its end. Spans are ordered by their four numbers in turn, which is the
order of their starts.
-/

namespace CompletionPrompt

/-- The place of a statement in a text. -/
structure Span where
  startRow : Nat
  startColumn : Nat
  endRow : Nat
  endColumn : Nat
deriving DecidableEq, Repr, Inhabited

namespace Span

/-- The span of nothing at the start of a text. -/
def zero : Span := ⟨0, 0, 0, 0⟩

/-- The first and last row of a span. -/
def rows (s : Span) : Nat × Nat :=
  (s.startRow, s.endRow)

/-- The rows that a span touches, in order. -/
def rowList (s : Span) : List Nat :=
  (List.range (s.endRow + 1)).drop s.startRow

/-- Does a span touch any row from `first` to `last`? -/
def overlapsRows (s : Span) (first last : Nat) : Bool :=
  s.startRow ≤ last && first ≤ s.endRow

/-- The four numbers of a span, in the order that spans are compared in. -/
def numbers (s : Span) : List Nat :=
  [s.startRow, s.startColumn, s.endRow, s.endColumn]

/-- Lists of numbers are compared number by number; of two where one goes on, the shorter comes
first. -/
def lexLe : List Nat → List Nat → Bool
  | [], _ => true
  | _ :: _, [] => false
  | a :: as, b :: bs => a < b || (a == b && lexLe as bs)

/-- Spans are ordered by their four numbers in turn. -/
def le (a b : Span) : Bool :=
  lexLe a.numbers b.numbers

/-- Spans in order. -/
def sort (spans : List Span) : List Span :=
  spans.mergeSort le

/-- The names of a span's numbers in a record. -/
def fieldNames : List String :=
  ["start_row", "start_column", "end_row", "end_column"]

/-- A span as a record. -/
def toJson (s : Span) : Json.Value :=
  .object (fieldNames.zip (s.numbers.map .natural))

/-- The span of a record. -/
def ofJson? (v : Json.Value) : Option Span := do
  match ← Json.fields? fieldNames v with
  | [a, b, c, d] =>
    let a ← Json.required? Json.Value.asCount? a
    let b ← Json.required? Json.Value.asCount? b
    let c ← Json.required? Json.Value.asCount? c
    let d ← Json.required? Json.Value.asCount? d
    return ⟨a, b, c, d⟩
  | _ => none

end Span
end CompletionPrompt

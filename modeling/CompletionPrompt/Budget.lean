import CompletionPrompt.Text.Rows
import CompletionPrompt.Text.Columns

/-!
# Fitting a text to a budget

A prompt that counts too many tokens loses whole rows from its front. Some rows are kept whatever
they cost, and a lead stands before the rows that is never cut. How many rows to drop is found by
bisection, for any way of counting; where counting never grows when a row is dropped, that is the
least number of rows that fits.
-/

namespace CompletionPrompt

/-- The number of tokens of a text. -/
abbrev Counter := String → Nat

namespace Counter

/-- The estimate of a fixed number of bytes per token: at least one token for any text that is not
empty. -/
def bytesPerToken (bytes : Nat) : Counter := fun text =>
  if text.isEmpty then 0 else max (text.utf8ByteSize / max bytes 1) 1

/-- The number of bytes that a token takes unless something else is said. -/
def defaultBytes : Nat := 4

end Counter

namespace Budget

/-- The numbers of the rows that may be dropped. -/
def droppable (rowCount : Nat) (keep : List Nat) : List Nat :=
  (List.range rowCount).filter (!keep.contains ·)

/-- The rows without those whose numbers are listed; the first row has the number `from`. -/
def without (cut : List Nat) (rs : List (List Char)) : List (List Char) :=
  (rs.zipIdx.filter fun (_, i) => !cut.contains i).map (·.1)

/-- The lead and then the rows, less the first `dropped` of those that may be dropped. -/
def assemble (lead : List Char) (rs : List (List Char)) (keep : List Nat) (dropped : Nat) :
    List Char :=
  lead ++ Text.unrows (without ((droppable rs.length keep).take dropped) rs)

/-- The end of a bisection between a number that fails and one that is taken to hold: the least
number above `low` that holds when `holds` never stops holding once it does. -/
def bisect (holds : Nat → Bool) (low high : Nat) : Nat :=
  if low + 1 < high then
    let middle := low + (high - low) / 2
    if holds middle then bisect holds low middle else bisect holds middle high
  else high
termination_by high - low

/-- How many rows are dropped: none when all of them fit, and otherwise the end of the bisection up
to the number of rows that may be dropped. -/
def dropCount (holds : Nat → Bool) (most : Nat) : Nat :=
  if holds 0 then 0 else bisect holds 0 most

/-- The lead and the rows, less rows from the front that need not be kept, within `limit` tokens if
that can be had. -/
def truncateKeeping (count : Counter) (rs : List (List Char)) (keep : List Nat) (limit : Nat)
    (lead : List Char) : List Char :=
  let fits dropped := count (String.ofList (assemble lead rs keep dropped)) ≤ limit
  assemble lead rs keep (dropCount (fun n => fits n) (droppable rs.length keep).length)

/-- A text less whole rows from its front, within `limit` tokens if that can be had. -/
def truncateLeft (count : Counter) (text : List Char) (limit : Nat) : List Char :=
  truncateKeeping count (Text.rows text) [] limit []

end Budget
end CompletionPrompt

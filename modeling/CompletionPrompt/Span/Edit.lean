import CompletionPrompt.Span
import CompletionPrompt.Text.Rows
import CompletionPrompt.Text.Columns
import CompletionPrompt.Text.Search

/-!
# Reading and replacing a span of text

Both operations are defined for every span. A row past the end means the last row, an end row
before the start row means the start row, and a column that cuts nothing reads as in `headTo` and
`tailFrom`.

* `Span.extract`: the text that a span covers.
* `Span.replace`: the text with what a span covers replaced.
* `rowsOf?`: the rows that the first occurrence of a text takes.
-/

namespace CompletionPrompt
namespace Span

/-- The row of a span's start, within a number of rows. -/
def firstRow (s : Span) (rowCount : Nat) : Nat :=
  min s.startRow (rowCount - 1)

/-- The row of a span's end, within a number of rows and not before its start. -/
def lastRow (s : Span) (rowCount : Nat) : Nat :=
  min (max s.endRow (s.firstRow rowCount)) (rowCount - 1)

/-- The rows before a span, the rows that it touches, and the rows after it. -/
def cutRows (s : Span) (rs : List (List Char)) :
    List (List Char) × List (List Char) × List (List Char) :=
  let first := s.firstRow rs.length
  let last := s.lastRow rs.length
  (rs.take first, (rs.take (last + 1)).drop first, rs.drop (last + 1))

/-- The rows that a span touches, cut at its end and then at its start. -/
def trimRows (s : Span) (touched : List (List Char)) : List (List Char) :=
  let toEnd := touched.dropLast ++ (touched.getLast?.map (Text.headTo s.endColumn)).toList
  match toEnd with
  | [] => []
  | r :: rs => Text.tailFrom s.startColumn r :: rs

/-- The text that a span covers. -/
def extract (s : Span) (text : List Char) : List Char :=
  let (_, touched, _) := s.cutRows (Text.rows text)
  Text.unrows (s.trimRows touched)

/-- The text with what a span covers replaced. -/
def replace (s : Span) (text replacement : List Char) : List Char :=
  let (before, touched, after) := s.cutRows (Text.rows text)
  let left := Text.headTo s.startColumn (touched.headD [])
  let right := Text.tailFrom s.endColumn (touched.getLastD [])
  Text.unrows (before ++ [left ++ replacement ++ right] ++ after)

end Span

/-- The first and last row that the first occurrence of a needle takes in a text. -/
def rowsOf? (needle text : List Char) : Option (Nat × Nat) :=
  (Text.cut? needle text).map fun (before, _) =>
    let first := Text.lineFeeds before
    (first, first + Text.lineFeeds needle)

end CompletionPrompt

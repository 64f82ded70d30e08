/-!
# Rows of a text

A text is cut into rows at its line feeds and at nothing else: a carriage return belongs to the
row that it ends. There is always one row more than there are line feeds, so the empty text has
one empty row. `unrows` puts rows together again.
-/

namespace CompletionPrompt
namespace Text

/-- The rows of a text: its stretches between line feeds. -/
def rows (s : List Char) : List (List Char) :=
  s.splitOn '\n'

/-- Rows joined by line feeds. -/
def unrows (rs : List (List Char)) : List Char :=
  ['\n'].intercalate rs

@[simp] theorem rows_nil : rows [] = [[]] := rfl

@[simp] theorem unrows_rows (s : List Char) : unrows (rows s) = s :=
  List.intercalate_splitOn '\n'

/-- The number of line feeds of a text, which is the row that its end stands in. -/
def lineFeeds (s : List Char) : Nat :=
  s.count '\n'

@[simp] theorem lineFeeds_nil : lineFeeds [] = 0 := rfl

theorem lineFeeds_append (a b : List Char) : lineFeeds (a ++ b) = lineFeeds a + lineFeeds b := by
  simp [lineFeeds]

/-- A row without one carriage return at its end. -/
def dropReturn (r : List Char) : List Char :=
  if r.getLast? = some '\r' then r.dropLast else r

/-- The lines of a stream: every row that a line feed ends, less one carriage return before it,
and then what follows the last line feed, if anything does. -/
def lines (s : List Char) : List (List Char) :=
  let rs := rows s
  rs.dropLast.map dropReturn ++ (rs.getLast?.toList.filter (!·.isEmpty))

end Text
end CompletionPrompt

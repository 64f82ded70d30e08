import CompletionPrompt.Proofs.Span.Region

/-!
# Spans that need not fit

Reading and replacing take any four numbers. Rows outside the text are clamped to rows that it has
(`firstRow_le_lastRow`, `lastRow_lt`), and a column that cuts nothing leaves its row whole on the
left and empty on the right. So replacing always puts a text between two others
(`exists_replace_eq`), and the question is whether reading gives what stands between them, which is
when putting back what was read changes nothing.

Over several rows the two ends are cut in rows of their own, and this is always so
(`replace_extract_of_lt`). Within one row the end is cut first, and the start is looked for in what
is left of the row; it goes wrong when the row is cut at its end column and the start column is not
one of the columns up to there (`Text.rejoin_eq_iff`, `replace_extract_of_eq_iff`). Together these
say exactly when reading and replacing agree (`replace_extract_eq_self_iff`). A span that reads
anything at all is such a span (`exists_around_of_extract_ne_nil`).
-/

namespace CompletionPrompt
namespace Text

/-! ### Columns of a row -/

/-- A column of a row: a character of the row starts there, or the row ends there. -/
def IsColumn (row : List Char) (column : Nat) : Prop :=
  ∃ before after, row = before ++ after ∧ byteLength before = column

theorem isSome_splitColumn?_iff {row : List Char} {column : Nat} :
    (splitColumn? column row).isSome ↔ IsColumn row column := by
  simp only [Option.isSome_iff_exists, Prod.exists, splitColumn?_eq_some_iff]
  rfl

instance (row : List Char) (column : Nat) : Decidable (IsColumn row column) :=
  decidable_of_iff _ isSome_splitColumn?_iff

theorem splitColumn?_of_not_isColumn {row : List Char} {column : Nat} (h : ¬ IsColumn row column) :
    splitColumn? column row = none := by
  rwa [← isSome_splitColumn?_iff, Option.not_isSome_iff_eq_none] at h

/-- A column that cuts nothing leaves the row whole on its left. -/
theorem headTo_of_not_isColumn {row : List Char} {column : Nat} (h : ¬ IsColumn row column) :
    headTo column row = row := by
  rw [headTo, splitColumn?_of_not_isColumn h]

/-- A column that cuts nothing leaves nothing on its right. -/
theorem tailFrom_of_not_isColumn {row : List Char} {column : Nat} (h : ¬ IsColumn row column) :
    tailFrom column row = [] := by
  rw [tailFrom, splitColumn?_of_not_isColumn h]

/-- Whatever the column, the two sides make up the row. -/
theorem headTo_append_tailFrom (column : Nat) (row : List Char) :
    headTo column row ++ tailFrom column row = row := by
  by_cases h : IsColumn row column
  · obtain ⟨before, after, rfl, rfl⟩ := h
    rw [headTo_byteLength, tailFrom_byteLength]
  · rw [headTo_of_not_isColumn h, tailFrom_of_not_isColumn h, List.append_nil]

/-- The columns of a row up to one of them are the columns of what stands before it. -/
theorem isColumn_append_iff {a b : List Char} {column : Nat} (hle : column ≤ byteLength a) :
    IsColumn (a ++ b) column ↔ IsColumn a column := by
  constructor
  · rintro ⟨before, after, h, rfl⟩
    obtain ⟨m, rfl⟩ := prefix_of_byteLength_le h.symm hle
    exact ⟨before, m, rfl, rfl⟩
  · rintro ⟨before, after, rfl, rfl⟩
    exact ⟨before, after ++ b, by simp, rfl⟩

/-- What stands before a column is no longer than the column says only if the column is one of the
columns up to there. -/
theorem isColumn_of_byteLength_headTo_le {row : List Char} {column n : Nat}
    (hlt : n < byteLength row) (hle : byteLength (headTo column row) ≤ n) :
    IsColumn row column ∧ column ≤ n := by
  by_cases h : IsColumn row column
  · refine ⟨h, ?_⟩
    obtain ⟨before, after, rfl, rfl⟩ := h
    rwa [headTo_byteLength] at hle
  · rw [headTo_of_not_isColumn h] at hle
    omega

/-- **A row is put together again** from what stands before a start column, what is read from there
to an end column, and what stands after the end column: always when the end column cuts nothing off,
and else when the start column is one of the columns up to the end column. -/
theorem rejoin_eq_iff (start stop : Nat) (row : List Char) :
    headTo start row ++ tailFrom start (headTo stop row) ++ tailFrom stop row = row ↔
      ¬ IsColumn row stop ∨ stop = byteLength row ∨ IsColumn row start ∧ start ≤ stop := by
  by_cases hstop : IsColumn row stop
  · obtain ⟨front, back, rfl, rfl⟩ := hstop
    have hcolumn : IsColumn (front ++ back) (byteLength front) := ⟨front, back, rfl, rfl⟩
    rw [headTo_byteLength, tailFrom_byteLength, List.append_left_inj]
    by_cases hback : back = []
    · subst hback
      rw [List.append_nil, headTo_append_tailFrom]
      exact iff_of_true rfl (.inr (.inl rfl))
    · have hlonger : byteLength front < byteLength (front ++ back) := by
        have hpos : byteLength back ≠ 0 := fun h => hback (byteLength_eq_zero_iff.1 h)
        rw [byteLength_append]
        omega
      constructor
      · intro h
        refine .inr (.inr (isColumn_of_byteLength_headTo_le hlonger ?_))
        have hlength := congrArg byteLength h
        rw [byteLength_append] at hlength
        omega
      · rintro (h | h | ⟨hstart, hle⟩)
        · exact absurd hcolumn h
        · omega
        · obtain ⟨before, middle, rfl, rfl⟩ := (isColumn_append_iff hle).1 hstart
          rw [List.append_assoc, headTo_byteLength, tailFrom_byteLength]
  · rw [headTo_of_not_isColumn hstop, tailFrom_of_not_isColumn hstop, List.append_nil,
      headTo_append_tailFrom]
    exact iff_of_true rfl (.inl hstop)

/-- What is read from a column on is not empty only behind a column that the row goes on after. -/
theorem isColumn_of_tailFrom_ne_nil {row : List Char} {column : Nat}
    (h : tailFrom column row ≠ []) : IsColumn row column ∧ column ≤ byteLength row := by
  by_cases hcolumn : IsColumn row column
  · refine ⟨hcolumn, ?_⟩
    obtain ⟨before, after, rfl, rfl⟩ := hcolumn
    rw [byteLength_append]
    omega
  · exact absurd (tailFrom_of_not_isColumn hcolumn) h

/-- A row from which anything is read between two columns is put together again. -/
theorem rejoin_eq_of_ne_nil {start stop : Nat} {row : List Char}
    (h : tailFrom start (headTo stop row) ≠ []) :
    headTo start row ++ tailFrom start (headTo stop row) ++ tailFrom stop row = row := by
  rw [rejoin_eq_iff]
  by_cases hstop : IsColumn row stop
  · obtain ⟨front, back, rfl, rfl⟩ := hstop
    rw [headTo_byteLength] at h
    obtain ⟨hstart, hle⟩ := isColumn_of_tailFrom_ne_nil h
    exact .inr (.inr ⟨(isColumn_append_iff hle).2 hstart, hle⟩)
  · exact .inl hstop

/-! ### Rows joined again -/

/-- A text whose rows are joined around a cut in one of them falls into two texts there. -/
theorem unrows_append_cut (before after : List (List Char)) (l r : List Char) :
    unrows (before ++ (l ++ r) :: after) = unrows (before ++ [l]) ++ unrows (r :: after) := by
  have h := unrows_append_cons before after l [] r
  rwa [List.append_nil, List.append_nil] at h

/-- Texts that differ in one row are different. -/
theorem unrows_append_cons_inj (before after : List (List Char)) {r r' : List Char} :
    unrows (before ++ r :: after) = unrows (before ++ r' :: after) ↔ r = r' := by
  have hrow : ∀ x, unrows (before ++ x :: after) =
      unrows (before ++ [[]]) ++ x ++ unrows ([] :: after) := fun x => by
    rw [← unrows_append_cons, List.nil_append, List.append_nil]
  rw [hrow, hrow, List.append_left_inj, List.append_right_inj]

end Text

namespace Span

variable {s : Span} {text : List Char}

/-! ### Rows that a span touches -/

theorem firstRow_le_lastRow (s : Span) (n : Nat) : s.firstRow n ≤ s.lastRow n := by
  simp only [firstRow, lastRow]
  omega

theorem lastRow_lt (s : Span) (text : List Char) :
    s.lastRow (Text.rows text).length < (Text.rows text).length := by
  have hpos : 0 < (Text.rows text).length := List.length_pos_iff.2 (Text.rows_ne_nil text)
  simp only [lastRow]
  omega

/-- The rows that a span touches end with its last row. -/
theorem exists_cutRows (s : Span) (text : List Char) :
    ∃ front row after, Text.rows text = front ++ row :: after ∧
      front.length = s.lastRow (Text.rows text).length ∧
      s.cutRows (Text.rows text) =
        (front.take (s.firstRow (Text.rows text).length),
          front.drop (s.firstRow (Text.rows text).length) ++ [row], after) := by
  obtain ⟨front, row, after, hrows, hlength⟩ := Text.exists_eq_append_cons (s.lastRow_lt text)
  have hle : s.firstRow (Text.rows text).length ≤ front.length :=
    hlength ▸ s.firstRow_le_lastRow (Text.rows text).length
  have hbefore : (Text.rows text).take (s.firstRow (Text.rows text).length) =
      front.take (s.firstRow (Text.rows text).length) := by
    rw [hrows, List.take_append_of_le_length (hrows ▸ hle)]
  have hupto : (Text.rows text).take (front.length + 1) = front ++ [row] := by
    rw [hrows, List.take_length_add_append, List.take_succ_cons, List.take_zero]
  have hafter : (Text.rows text).drop (front.length + 1) = after := by
    rw [hrows, List.drop_length_add_append, List.drop_succ_cons, List.drop_zero]
  refine ⟨front, row, after, hrows, hlength, ?_⟩
  rw [cutRows, ← hlength, hbefore, hupto, hafter, List.drop_append_of_le_length hle]

/-- A span within one row: the end is cut first, and the start in what is left of the row. -/
theorem exists_row_of_eq
    (h : s.firstRow (Text.rows text).length = s.lastRow (Text.rows text).length) :
    ∃ front row after, Text.rows text = front ++ row :: after ∧
      front.length = s.lastRow (Text.rows text).length ∧
      s.extract text = Text.tailFrom s.startColumn (Text.headTo s.endColumn row) ∧
      ∀ r, s.replace text r = Text.unrows (front ++
        (Text.headTo s.startColumn row ++ r ++ Text.tailFrom s.endColumn row) :: after) := by
  obtain ⟨front, row, after, hrows, hlength, hcut⟩ := s.exists_cutRows text
  rw [h, ← hlength, List.take_length, List.drop_length, List.nil_append] at hcut
  refine ⟨front, row, after, hrows, hlength, ?_, fun r => ?_⟩
  · simp [extract, hcut, trimRows, Text.unrows]
  · simp [replace, hcut]

/-- A span over several rows: the start is cut in its first row and the end in its last. -/
theorem exists_rows_of_lt
    (h : s.firstRow (Text.rows text).length < s.lastRow (Text.rows text).length) :
    ∃ before first middle last after,
      Text.rows text = before ++ first :: (middle ++ last :: after) ∧
      s.extract text = Text.unrows (Text.tailFrom s.startColumn first ::
        (middle ++ [Text.headTo s.endColumn last])) ∧
      ∀ r, s.replace text r = Text.unrows (before ++
        (Text.headTo s.startColumn first ++ r ++ Text.tailFrom s.endColumn last) :: after) := by
  obtain ⟨front, last, after, hrows, hlength, hcut⟩ := s.exists_cutRows text
  -- the first row stands among those before the last one
  obtain ⟨before, first, middle, rfl, hfirst⟩ := Text.exists_eq_append_cons (hlength ▸ h)
  rw [← hfirst, List.take_left, List.drop_left, List.cons_append] at hcut
  have hdropLast : (first :: (middle ++ [last])).dropLast = first :: middle := by
    rw [← List.cons_append, List.dropLast_concat]
  have hlast : (first :: (middle ++ [last])).getLast? = some last := by
    rw [← List.cons_append, List.getLast?_concat]
  refine ⟨before, first, middle, last, after, ?_, ?_, fun r => ?_⟩
  · rw [hrows, List.append_assoc, List.cons_append]
  · simp [extract, hcut, trimRows, hdropLast, hlast]
  · simp [replace, hcut, hlast]

/-! ### Reading and putting back -/

/-- Replacing puts a text between two others, which do not depend on it. -/
theorem exists_replace_eq (s : Span) (text : List Char) :
    ∃ before after, ∀ r, s.replace text r = before ++ r ++ after := by
  rcases hcut : s.cutRows (Text.rows text) with ⟨before, touched, after⟩
  refine ⟨Text.unrows (before ++ [Text.headTo s.startColumn (touched.headD [])]),
    Text.unrows (Text.tailFrom s.endColumn (touched.getLastD []) :: after), fun r => ?_⟩
  simp only [replace, hcut]
  rw [List.append_assoc _ [_], List.singleton_append, Text.unrows_append_cons]

/-- **Over several rows** what was read can be put back, whatever the columns. -/
theorem replace_extract_of_lt
    (h : s.firstRow (Text.rows text).length < s.lastRow (Text.rows text).length) :
    s.replace text (s.extract text) = text := by
  obtain ⟨before, first, middle, last, after, hrows, hextract, hreplace⟩ := exists_rows_of_lt h
  have hread := Text.unrows_append_cut (Text.tailFrom s.startColumn first :: middle) after
    (Text.headTo s.endColumn last) (Text.tailFrom s.endColumn last)
  have htext := Text.unrows_append_cut before (middle ++ last :: after)
    (Text.headTo s.startColumn first) (Text.tailFrom s.startColumn first)
  rw [Text.headTo_append_tailFrom] at hread htext
  calc s.replace text (s.extract text)
      = Text.unrows (before ++ [Text.headTo s.startColumn first]) ++
          Text.unrows (Text.tailFrom s.startColumn first ::
            (middle ++ [Text.headTo s.endColumn last])) ++
          Text.unrows (Text.tailFrom s.endColumn last :: after) := by
        rw [hreplace, Text.unrows_append_cons, hextract]
    _ = Text.unrows (before ++ [Text.headTo s.startColumn first]) ++
          Text.unrows (Text.tailFrom s.startColumn first :: (middle ++ last :: after)) := by
        rw [List.append_assoc, ← List.cons_append, ← hread, List.cons_append]
    _ = Text.unrows (Text.rows text) := by rw [← htext, hrows]
    _ = text := Text.unrows_rows text

/-- **Within one row** what was read can be put back exactly when the row is put together again. -/
theorem replace_extract_of_eq_iff
    (h : s.firstRow (Text.rows text).length = s.lastRow (Text.rows text).length) :
    ∃ row, (Text.rows text)[s.lastRow (Text.rows text).length]? = some row ∧
      s.extract text = Text.tailFrom s.startColumn (Text.headTo s.endColumn row) ∧
      (s.replace text (s.extract text) = text ↔
        Text.headTo s.startColumn row ++ Text.tailFrom s.startColumn (Text.headTo s.endColumn row) ++
          Text.tailFrom s.endColumn row = row) := by
  obtain ⟨front, row, after, hrows, hlength, hextract, hreplace⟩ := exists_row_of_eq h
  refine ⟨row, ?_, hextract, ?_⟩
  · rw [← hlength, hrows, List.getElem?_append_right (Nat.le_refl _), Nat.sub_self]
    rfl
  · refine Iff.trans ?_ (Text.unrows_append_cons_inj front after)
    rw [hreplace, hextract, ← hrows, Text.unrows_rows]

/-- **When what was read can be put back.** A span may be any four numbers. The rows that it is
clamped to exist and stand in order, so both operations are defined; and reading a span and putting
back what was read changes nothing exactly when the span goes over several rows, or its end column
cuts nothing off its last row (lying inside a character, or at the end of the row or past it), or its
start column is a column of that row which does not lie behind its end column. -/
theorem replace_extract_eq_self_iff (s : Span) (text : List Char) :
    let rows := Text.rows text
    let first := s.firstRow rows.length
    let last := s.lastRow rows.length
    first ≤ last ∧ ∃ row, rows[last]? = some row ∧
      (s.replace text (s.extract text) = text ↔
        first < last ∨ ¬ Text.IsColumn row s.endColumn ∨ s.endColumn = Text.byteLength row ∨
          Text.IsColumn row s.startColumn ∧ s.startColumn ≤ s.endColumn) := by
  intro rows first last
  refine ⟨s.firstRow_le_lastRow rows.length, ?_⟩
  rcases Nat.lt_or_eq_of_le (s.firstRow_le_lastRow rows.length) with h | h
  · have hlast : last < rows.length := s.lastRow_lt text
    exact ⟨rows[last], List.getElem?_eq_getElem hlast,
      iff_of_true (replace_extract_of_lt h) (.inl h)⟩
  · obtain ⟨row, hrow, -, hiff⟩ := replace_extract_of_eq_iff h
    refine ⟨row, hrow, ?_⟩
    rw [hiff, Text.rejoin_eq_iff, or_iff_right (Nat.not_lt.2 (Nat.le_of_eq h.symm))]

/-- A span that stops before it starts reads nothing, and putting nothing back doubles what stands
from its end to its start. -/
example : Span.extract ⟨0, 3, 0, 1⟩ "abcd".toList = [] ∧
    Span.replace ⟨0, 3, 0, 1⟩ "abcd".toList [] = "abcbcd".toList := by
  decide

/-- **A span that reads something** reads a stretch of the text, and replaces just that stretch. -/
theorem exists_around_of_extract_ne_nil (h : s.extract text ≠ []) :
    ∃ before after, text = before ++ s.extract text ++ after ∧
      ∀ r, s.replace text r = before ++ r ++ after := by
  obtain ⟨before, after, hreplace⟩ := s.exists_replace_eq text
  have hback : s.replace text (s.extract text) = text := by
    rcases Nat.lt_or_eq_of_le (s.firstRow_le_lastRow (Text.rows text).length) with hrows | hrows
    · exact replace_extract_of_lt hrows
    · obtain ⟨row, -, hextract, hiff⟩ := replace_extract_of_eq_iff hrows
      exact hiff.2 (Text.rejoin_eq_of_ne_nil (hextract ▸ h))
  exact ⟨before, after, hback.symm.trans (hreplace _), hreplace⟩

end Span
end CompletionPrompt

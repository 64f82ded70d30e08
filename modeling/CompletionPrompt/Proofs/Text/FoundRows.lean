import CompletionPrompt.Proofs.Text.Occurrences
import CompletionPrompt.Span.Edit

/-!
# The rows of the first occurrence

A text that occurs in another is looked for from the left, and the rows of what is found are counted
by line feeds: those before it and those in it. So these are the rows that the first occurrence takes
part in (`rowsOf?_eq_some_iff`). Joined, they are the needle with the rest of its first row before it
and the rest of its last row behind it (`Text.unrows_take_drop_rows`), and an occurrence further right
starts in no row above (`rowsOf?_names_first_rows`).
-/

namespace CompletionPrompt

/-- The rows that a stretch of a text takes part in are the stretch with the rest of its first row and
of its last row around it. -/
theorem Text.unrows_take_drop_rows (a m b : List Char) :
    unrows (((rows (a ++ m ++ b)).drop (lineFeeds a)).take (lineFeeds m + 1)) =
      lastRow a ++ m ++ firstRow b := by
  rw [rows_append_append, List.append_assoc, ← length_dropLast_rows a, List.drop_left,
    ← length_rows_stretch a m b, List.take_left, unrows_rows]

/-- Rows are found where the first occurrence stands. -/
theorem rowsOf?_eq_some_iff {needle text : List Char} {first last : Nat} :
    rowsOf? needle text = some (first, last) ↔
      ∃ before after, text = before ++ needle ++ after ∧
        (∀ a b, text = a ++ needle ++ b → before <+: a) ∧
        first = Text.lineFeeds before ∧ last = first + Text.lineFeeds needle := by
  simp only [rowsOf?, Option.map_eq_some_iff, Prod.exists, Prod.mk.injEq]
  constructor
  · rintro ⟨before, after, hcut, rfl, rfl⟩
    exact ⟨before, after, Text.eq_of_cut? hcut, fun a b => Text.prefix_of_cut? hcut, rfl, rfl⟩
  · rintro ⟨before, after, htext, hfirst, rfl, rfl⟩
    obtain ⟨⟨a, b⟩, hcut⟩ := Option.isSome_iff_exists.1 (Text.isSome_cut? before needle after)
    rw [← htext] at hcut
    have hprefix := hfirst a b (Text.eq_of_cut? hcut)
    obtain rfl := (Text.prefix_of_cut? hcut htext).eq_of_length_le hprefix.length_le
    exact ⟨a, b, hcut, rfl, rfl⟩

/-- **The rows that are found are those of the first occurrence.** No rows are found exactly when
the needle does not occur in the text. Otherwise the rows from the first to the last are rows of the
text, one more than the needle has line feeds; joined, they hold the needle, which starts in the first
of them and ends in the last; and no occurrence of the needle starts in a row above. -/
theorem rowsOf?_names_first_rows (needle text : List Char) :
    (rowsOf? needle text = none ↔ ¬ needle <:+: text) ∧
    ∀ first last, rowsOf? needle text = some (first, last) →
      first ≤ last ∧ last < (Text.rows text).length ∧ last - first = Text.lineFeeds needle ∧
      (∃ left right,
        Text.unrows (((Text.rows text).drop first).take (last + 1 - first)) =
          left ++ needle ++ right ∧
        '\n' ∉ left ∧ '\n' ∉ right) ∧
      ∀ before after, text = before ++ needle ++ after → first ≤ Text.lineFeeds before := by
  constructor
  · rw [rowsOf?, Option.map_eq_none_iff, Text.cut?_eq_none_iff]
  · intro first last h
    obtain ⟨before, after, rfl, hfirst, rfl, rfl⟩ := rowsOf?_eq_some_iff.1 h
    have hcount : Text.lineFeeds before + Text.lineFeeds needle + 1 - Text.lineFeeds before =
        Text.lineFeeds needle + 1 := by omega
    refine ⟨Nat.le_add_right _ _, ?_, Nat.add_sub_cancel_left _ _,
      ⟨Text.lastRow before, Text.firstRow after, ?_, Text.not_mem_lastRow before,
        Text.not_mem_firstRow after⟩, fun a b htext => ?_⟩
    · rw [Text.length_rows, Text.lineFeeds_append, Text.lineFeeds_append]
      omega
    · rw [hcount, Text.unrows_take_drop_rows]
    · obtain ⟨rest, rfl⟩ := hfirst a b htext
      rw [Text.lineFeeds_append]
      exact Nat.le_add_right _ _

/-- A needle that starts with a line feed and overlaps its own next occurrence, below a row with a
character of two bytes. -/
theorem rowsOf?_names_first_rows_of_overlap :
    let needle := "\naa\naa".toList
    let text := "é\nb\naa\naa\naa".toList
    let later := "é\nb\naa".toList
    rowsOf? needle text = some (1, 3) ∧ 3 < (Text.rows text).length ∧
      3 - 1 = Text.lineFeeds needle ∧
      (∃ left right,
        Text.unrows (((Text.rows text).drop 1).take (3 + 1 - 1)) = left ++ needle ++ right ∧
        '\n' ∉ left ∧ '\n' ∉ right) ∧
      text = later ++ needle ++ [] ∧ 1 ≤ Text.lineFeeds later := by
  intro needle text later
  have hfound : rowsOf? needle text = some (1, 3) := by decide
  have hlater : text = later ++ needle ++ [] := by decide
  obtain ⟨-, hlt, hcount, hjoined, hfirst⟩ := (rowsOf?_names_first_rows needle text).2 1 3 hfound
  exact ⟨hfound, hlt, hcount, hjoined, hlater, hfirst _ _ hlater⟩

end CompletionPrompt

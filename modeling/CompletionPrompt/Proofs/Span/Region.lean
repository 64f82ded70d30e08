import CompletionPrompt.Proofs.Text.Place
import CompletionPrompt.Span.Edit

/-!
# The region of a span

A span fits a text when both its ends are places of the text and it does not stop before it starts.
Such a span is the place of one stretch of the text between two others (`fits_iff`), and there
reading and replacing are what the names say: `extract_around` gives that stretch, `replace_around`
puts another text in its place. Two spans that fit a text stand apart when one stops at or before
the place where the other starts.
-/

namespace CompletionPrompt
namespace Span

/-- The place where a span starts. -/
def start (s : Span) : Nat × Nat :=
  (s.startRow, s.startColumn)

/-- The place where a span stops. -/
def stop (s : Span) : Nat × Nat :=
  (s.endRow, s.endColumn)

/-- A span fits a text when it goes from a place of the text to one that is not before it. -/
structure Fits (s : Span) (text : List Char) : Prop where
  start : Text.IsPlace text s.start
  stop : Text.IsPlace text s.stop
  ordered : Text.PlaceLe s.start s.stop

instance (s : Span) (text : List Char) : Decidable (s.Fits text) :=
  decidable_of_iff
    (Text.IsPlace text s.start ∧ Text.IsPlace text s.stop ∧ Text.PlaceLe s.start s.stop)
    ⟨fun h => ⟨h.1, h.2.1, h.2.2⟩, fun h => ⟨h.start, h.stop, h.ordered⟩⟩

/-- A span stops where another starts, or before it. -/
def EndsBefore (a b : Span) : Prop :=
  Text.PlaceLe a.stop b.start

instance (a b : Span) : Decidable (a.EndsBefore b) :=
  inferInstanceAs (Decidable (Text.PlaceLe _ _))

/-- The span of a stretch of a text, from what stands before it. -/
def around (before covered : List Char) : Span where
  startRow := Text.lineFeeds before
  startColumn := Text.lastColumn before
  endRow := Text.lineFeeds (before ++ covered)
  endColumn := Text.lastColumn (before ++ covered)

@[simp] theorem start_around (a m : List Char) : (around a m).start = Text.endOf a := rfl

@[simp] theorem stop_around (a m : List Char) : (around a m).stop = Text.endOf (a ++ m) := rfl

theorem offset_start_around (a m b : List Char) :
    Text.offset (a ++ m ++ b) (around a m).start = a.length := by
  rw [start_around, List.append_assoc, Text.offset_endOf]

theorem offset_stop_around (a m b : List Char) :
    Text.offset (a ++ m ++ b) (around a m).stop = (a ++ m).length := by
  rw [stop_around, Text.offset_endOf]

theorem rowList_eq (s : Span) :
    s.rowList = List.range' s.startRow (s.endRow + 1 - s.startRow) := by
  rw [rowList, List.range_eq_range', List.drop_range', Nat.mul_one, Nat.zero_add]

theorem mem_rowList_iff {s : Span} {n : Nat} : n ∈ s.rowList ↔ s.startRow ≤ n ∧ n ≤ s.endRow := by
  rw [rowList_eq, List.mem_range'_1]
  omega

theorem eq_of_start_of_stop {s t : Span} (hstart : s.start = t.start) (hstop : s.stop = t.stop) :
    s = t := by
  cases s
  cases t
  simp_all [start, stop]

/-- **A span that fits a text is the span of one stretch of it.** -/
theorem fits_iff {s : Span} {text : List Char} :
    s.Fits text ↔ ∃ before covered after,
      text = before ++ covered ++ after ∧ s = around before covered := by
  constructor
  · rintro ⟨hstart, hstop, hle⟩
    obtain ⟨a, b, rfl, ha⟩ := Text.isPlace_iff.1 hstart
    obtain ⟨a', b', h, ha'⟩ := Text.isPlace_iff.1 hstop
    rw [← ha, ← ha', Text.placeLe_endOf_iff h] at hle
    obtain ⟨m, rfl⟩ := List.prefix_of_prefix_length_le ⟨b, rfl⟩ ⟨b', h.symm⟩ hle
    exact ⟨a, m, b', h, eq_of_start_of_stop (by simp [ha]) (by simp [ha'])⟩
  · rintro ⟨a, m, b, rfl, rfl⟩
    exact ⟨Text.isPlace_iff.2 ⟨a, m ++ b, by simp, rfl⟩, Text.isPlace_iff.2 ⟨a ++ m, b, rfl, rfl⟩,
      (Text.placeLe_endOf_append a m).1⟩

theorem fits_around (a m b : List Char) : (around a m).Fits (a ++ m ++ b) :=
  fits_iff.2 ⟨a, m, b, rfl, rfl⟩

/-- The rows before a stretch of a text, those that it takes part in, and those after it. -/
theorem cutRows_around (a m b : List Char) :
    (around a m).cutRows (Text.rows (a ++ m ++ b)) =
      ((Text.rows a).dropLast, Text.rows (Text.lastRow a ++ m ++ Text.firstRow b),
        (Text.rows b).tail) := by
  have hbefore := Text.length_dropLast_rows a
  have htouched := Text.length_rows_stretch a m b
  have htotal : Text.lineFeeds a + (Text.lineFeeds m + 1) ≤ (Text.rows (a ++ m ++ b)).length := by
    rw [Text.rows_append_append, List.length_append, List.length_append]
    omega
  have hrow : Text.lineFeeds (a ++ m) = Text.lineFeeds a + Text.lineFeeds m :=
    Text.lineFeeds_append a m
  have hfirst : (around a m).firstRow (Text.rows (a ++ m ++ b)).length =
      (Text.rows a).dropLast.length := by
    simp only [firstRow, around]
    omega
  have hlast : (around a m).lastRow (Text.rows (a ++ m ++ b)).length + 1 =
      ((Text.rows a).dropLast ++
        Text.rows (Text.lastRow a ++ m ++ Text.firstRow b)).length := by
    rw [lastRow, hfirst, List.length_append]
    simp only [around]
    omega
  simp only [cutRows, hfirst, hlast]
  rw [Text.rows_append_append, List.take_left, List.drop_left, List.drop_left, List.append_assoc,
    List.take_left]

/-- The rows that a stretch takes part in, cut at its two ends, are its own rows. -/
theorem trimRows_around (a m b : List Char) :
    (around a m).trimRows (Text.rows (Text.lastRow a ++ m ++ Text.firstRow b)) = Text.rows m := by
  have hstop : (around a m).endColumn = Text.byteLength (Text.lastRow (Text.lastRow a ++ m)) := by
    rw [Text.lastRow_lastRow_append]
    rfl
  have htoEnd : (Text.rows (Text.lastRow a ++ m ++ Text.firstRow b)).dropLast ++
      ((Text.rows (Text.lastRow a ++ m ++ Text.firstRow b)).getLast?.map
        (Text.headTo (around a m).endColumn)).toList =
      (Text.lastRow a ++ Text.firstRow m) :: (Text.rows m).tail := by
    rw [Text.rows_append_right (Text.not_mem_firstRow b), List.dropLast_concat,
      List.getLast?_concat, Option.map_some, hstop, Text.headTo_byteLength, Option.toList_some,
      Text.dropLast_append_lastRow, Text.rows_append_of_not_mem (Text.not_mem_lastRow a)]
  simp only [trimRows, htoEnd]
  rw [show (around a m).startColumn = Text.byteLength (Text.lastRow a) from rfl,
    Text.tailFrom_byteLength, Text.firstRow_cons_tail]

/-- **Reading a span gives the stretch that it is the span of.** -/
theorem extract_around (a m b : List Char) : (around a m).extract (a ++ m ++ b) = m := by
  simp only [extract, cutRows_around, trimRows_around, Text.unrows_rows]

/-- A span that fits the beginning of a text reads there what it reads in the text. -/
theorem Fits.extract_append {s : Span} {a : List Char} (h : s.Fits a) (b : List Char) :
    s.extract (a ++ b) = s.extract a := by
  obtain ⟨before, covered, after, rfl, rfl⟩ := fits_iff.1 h
  rw [extract_around, List.append_assoc, extract_around]

/-- **Replacing a span replaces the stretch that it is the span of.** -/
theorem replace_around (a m b r : List Char) :
    (around a m).replace (a ++ m ++ b) r = a ++ r ++ b := by
  have hhead : (Text.rows (Text.lastRow a ++ m ++ Text.firstRow b)).headD [] =
      Text.lastRow a ++ Text.firstRow (m ++ Text.firstRow b) := by
    rw [List.append_assoc, Text.rows_append_of_not_mem (Text.not_mem_lastRow a)]
    rfl
  have hlast : (Text.rows (Text.lastRow a ++ m ++ Text.firstRow b)).getLastD [] =
      Text.lastRow (a ++ m) ++ Text.firstRow b := by
    rw [Text.rows_append_right (Text.not_mem_firstRow b), List.getLastD_concat,
      Text.lastRow_lastRow_append]
  have hstart : (around a m).startColumn = Text.byteLength (Text.lastRow a) := rfl
  have hstop : (around a m).endColumn = Text.byteLength (Text.lastRow (a ++ m)) := rfl
  simp only [replace, cutRows_around, hhead, hlast, hstart, hstop, Text.headTo_byteLength,
    Text.tailFrom_byteLength]
  rw [List.append_assoc _ [_], List.singleton_append, Text.unrows_append_cons,
    Text.dropLast_append_lastRow, Text.firstRow_cons_tail, Text.unrows_rows, Text.unrows_rows]

end Span
end CompletionPrompt

import CompletionPrompt.Proofs.Span.Region

/-!
# Spans and slices of bytes

A text in UTF-8 is a sequence of bytes (`Text.utf8`), and a place of the text has an offset among
them: the bytes of the rows above it, a line feed for each of these rows, and its column
(`Text.byteOffset`). The place where a beginning of the text ends has just the bytes of that
beginning before it (`Text.byteOffset_endOf`). So for a span that fits the text, reading is a slice
of the bytes, and replacing puts other bytes between two slices (`Span.Fits.slices_bytes`).
-/

namespace CompletionPrompt
namespace Text

/-- The bytes of a text in UTF-8. -/
def utf8 (s : List Char) : ByteArray :=
  (String.ofList s).toUTF8

theorem utf8_append (a b : List Char) : utf8 (a ++ b) = utf8 a ++ utf8 b := by
  simp [utf8, String.toUTF8]

theorem size_utf8 (s : List Char) : (utf8 s).size = byteLength s := by
  induction s with
  | nil => rfl
  | cons c s ih =>
    have hc : (utf8 [c]).size = c.utf8Size := by
      rw [utf8, String.toUTF8, String.toByteArray_ofList, List.utf8Encode_singleton,
        List.size_toByteArray, String.length_utf8EncodeChar]
    rw [← List.singleton_append, utf8_append, ByteArray.size_append, ih, hc]
    rfl

/-- The number of bytes of a text before a place: the rows above it, each with its line feed, and
then the column. -/
def byteOffset (text : List Char) (p : Nat × Nat) : Nat :=
  byteLength (((rows text).take p.1).flatMap (· ++ ['\n'])) + p.2

/-- In a text made of rows, each row but the last is ended by a line feed. -/
theorem unrows_concat (rs : List (List Char)) (r : List Char) :
    unrows (rs ++ [r]) = rs.flatMap (· ++ ['\n']) ++ r := by
  induction rs with
  | nil => simp [unrows]
  | cons s rs ih =>
    rw [unrows] at ih ⊢
    rw [List.cons_append, List.intercalate_cons_of_ne_nil (by simp), ih, List.flatMap_cons]
    simp only [List.append_assoc]

/-- **The place where a beginning of a text ends** has the bytes of that beginning before it. -/
theorem byteOffset_endOf (a b : List Char) : byteOffset (a ++ b) (endOf a) = byteLength a := by
  rw [byteOffset, endOf, take_lineFeeds_rows, lastColumn, ← byteLength_append, ← unrows_concat,
    dropLast_append_lastRow, unrows_rows]

/-- The end of a beginning of a text lies between characters. -/
theorem isValid_byteLength (a b : List Char) :
    String.Pos.Raw.IsValid (String.ofList (a ++ b)) ⟨byteLength a⟩ := by
  rw [String.Pos.Raw.isValid_iff_exists_append]
  refine ⟨String.ofList a, String.ofList b, String.ofList_append, ?_⟩
  rw [← size_utf8]
  rfl

/-- The bytes between two others. -/
theorem extract_between (x y z : ByteArray) :
    (x ++ y ++ z).extract x.size (x.size + y.size) = y := by
  rw [ByteArray.append_assoc]
  exact (ByteArray.extract_append_size_add (i := 0)).trans (ByteArray.extract_append_eq_left rfl)

end Text

namespace Span

/-- **Editing by rows and columns is slicing bytes.** Let a span fit a text: its rows exist, its
columns are boundaries of characters, and it does not stop before it starts. Its two ends lie
between characters at byte offsets `a ≤ b` of the text; reading gives the bytes from `a` to `b`, and
replacing gives the bytes up to `a`, then those of the replacement, then the bytes from `b` on. -/
theorem Fits.slices_bytes {s : Span} {text : List Char} (h : s.Fits text) :
    let a := Text.byteOffset text s.start
    let b := Text.byteOffset text s.stop
    let bytes := Text.utf8 text
    a ≤ b ∧ String.Pos.Raw.IsValid (String.ofList text) ⟨a⟩ ∧
      String.Pos.Raw.IsValid (String.ofList text) ⟨b⟩ ∧
      Text.utf8 (s.extract text) = bytes.extract a b ∧
      ∀ r, Text.utf8 (s.replace text r) =
        bytes.extract 0 a ++ Text.utf8 r ++ bytes.extract b bytes.size := by
  obtain ⟨before, covered, after, rfl, rfl⟩ := fits_iff.1 h
  intro a b bytes
  have ha : a = Text.byteLength before := by
    simp only [a, start_around, List.append_assoc, Text.byteOffset_endOf]
  have hb : b = Text.byteLength (before ++ covered) := by
    simp only [b, stop_around, Text.byteOffset_endOf]
  have hbytes : bytes = Text.utf8 before ++ Text.utf8 covered ++ Text.utf8 after := by
    simp only [bytes, Text.utf8_append]
  have hsizes : b = (Text.utf8 before).size + (Text.utf8 covered).size := by
    rw [hb, Text.byteLength_append, Text.size_utf8, Text.size_utf8]
  refine ⟨by rw [ha, hb, Text.byteLength_append]; omega, ?_, ?_, ?_, fun r => ?_⟩
  · rw [ha, List.append_assoc]
    exact Text.isValid_byteLength before _
  · rw [hb]
    exact Text.isValid_byteLength _ after
  · rw [extract_around, hsizes, ha, ← Text.size_utf8, hbytes, Text.extract_between]
  · have hfront : bytes.extract 0 a = Text.utf8 before := by
      rw [hbytes, ha, ← Text.size_utf8, ByteArray.append_assoc, ByteArray.extract_append_eq_left rfl]
    have hback : bytes.extract b bytes.size = Text.utf8 after := by
      rw [hbytes, hsizes, ← ByteArray.size_append]
      exact ByteArray.extract_append_eq_right rfl ByteArray.size_append
    rw [replace_around, hfront, hback, Text.utf8_append, Text.utf8_append]

/-- A span over two rows with characters of two and of three bytes. -/
theorem slices_bytes_of_wide :
    let text := "é = 1\nx€y = 2\n".toList
    let s : Span := ⟨0, 2, 1, 4⟩
    s.Fits text ∧ Text.byteOffset text s.start = 2 ∧ Text.byteOffset text s.stop = 11 ∧
      s.extract text = " = 1\nx€".toList ∧ s.replace text ['!'] = "é!y = 2\n".toList ∧
      Text.utf8 (s.extract text) = (Text.utf8 text).extract 2 11 ∧
      Text.utf8 (s.replace text ['!']) =
        (Text.utf8 text).extract 0 2 ++ Text.utf8 ['!'] ++ (Text.utf8 text).extract 11 17 := by
  intro text s
  have hfits : s.Fits text := by decide
  have hstart : Text.byteOffset text s.start = 2 := by decide
  have hstop : Text.byteOffset text s.stop = 11 := by decide
  have hsize : (Text.utf8 text).size = 17 := by rw [Text.size_utf8]; decide
  obtain ⟨-, -, -, hextract, hreplace⟩ := hfits.slices_bytes
  rw [hstart, hstop] at hextract hreplace
  rw [hsize] at hreplace
  exact ⟨hfits, hstart, hstop, by decide, by decide, hextract, hreplace ['!']⟩

end Span
end CompletionPrompt

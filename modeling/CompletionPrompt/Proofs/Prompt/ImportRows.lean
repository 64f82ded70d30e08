import CompletionPrompt.Proofs.Prompt.Draft
import CompletionPrompt.Proofs.Source.ImportSpans

/-!
# The rows of kept imports

The rows that top-level imports take are kept, so a prompt that shows imports as they are shows each
of these rows at every budget, and the rows of one import stand one after the other
(`build_shows_import_rows`). Nothing is asked of how tokens are counted. A statement stands in the
rows of its span (`Span.Fits.rows`), so its whole text stands in the prompt.
-/

namespace CompletionPrompt

/-! ### The rows of a span -/

namespace Span

theorem rowList_around (a m : List Char) :
    (around a m).rowList = List.range' (Text.lineFeeds a) (Text.lineFeeds m + 1) := by
  have hsize : Text.lineFeeds (a ++ m) + 1 - Text.lineFeeds a = Text.lineFeeds m + 1 := by
    rw [Text.lineFeeds_append]
    omega
  rw [rowList_eq, ← hsize]
  rfl

/-- **The rows of a span are rows of the text,** and what the span covers stands in them. -/
theorem Fits.rows {s : Span} {text : List Char} (h : s.Fits text) :
    s.startRow ≤ s.endRow ∧ s.endRow < (Text.rows text).length ∧
      s.extract text <:+: Text.unrows (Budget.rowsAt (Text.rows text) s.rowList) := by
  obtain ⟨a, m, b, rfl, rfl⟩ := fits_iff.1 h
  -- the rows of the span are what it covers with the rests of the rows where it starts and ends
  have hrows : Budget.rowsAt (Text.rows (a ++ m ++ b)) (around a m).rowList =
      Text.rows (Text.lastRow a ++ m ++ Text.firstRow b) := by
    rw [rowList_around, ← Text.length_dropLast_rows, ← Text.length_rows_stretch a m b,
      Text.rows_append_append, Budget.rowsAt_range']
  refine ⟨?_, ?_, ?_⟩
  · show Text.lineFeeds a ≤ Text.lineFeeds (a ++ m)
    rw [Text.lineFeeds_append]
    omega
  · show Text.lineFeeds (a ++ m) < _
    rw [Text.length_rows, Text.lineFeeds_append _ b]
    omega
  · rw [extract_around, hrows, Text.unrows_rows]
    exact List.infix_append _ _ _

end Span

namespace Builder

/-- The rows of a span that are all kept are shown one after the other. -/
theorem rowList_infix_shown {b : Builder} {d : Draft} {span : Span} (hfits : span.Fits d.text)
    (hkeep : ∀ n ∈ span.rowList, n ∈ d.keep) (limit : Nat) :
    span.rowList <:+: b.shown d limit := by
  obtain ⟨hle, hlt, -⟩ := hfits.rows
  rw [Span.rowList_eq] at hkeep ⊢
  exact Budget.range'_infix_shownRows (by omega) hkeep

/-- **Kept imports survive whole, at every budget.** A prompt that shows imports as they are is
built for every way of counting and every limit: it is the preamble and rows of the source in their
order. Among these the rows of each top-level import statement, from the row where it starts to the
row where it ends, stand one after the other, and the whole text of the statement stands in them.
They are rows of what follows the preamble, and of the prompt itself where the preamble ends its
last row. -/
theorem build_shows_import_rows [Source.Parser] [Source.LawfulParser] (b : Builder) (t : Target)
    (imports : List Import) (limit : Nat) (h : Host) :
    let source := t.source.toList
    let rs := Text.rows source
    ∃ (shown : List Nat) (prompt : String),
      (b.build .keepImports t imports limit).run h = (.ok prompt, h) ∧
      prompt.toList = b.config.preamble.toList ++ Text.unrows (Budget.rowsAt rs shown) ∧
      shown.Pairwise (· < ·) ∧ (∀ n ∈ shown, n < rs.length) ∧
      ∀ span statement, (span, statement) ∈ Source.importStatements .topLevel source →
        span.startRow ≤ span.endRow ∧ span.endRow < rs.length ∧
        List.range' span.startRow (span.endRow + 1 - span.startRow) <:+: shown ∧
        Budget.rowsAt rs span.rowList <:+:
          Text.rows (Text.unrows (Budget.rowsAt rs shown)) ∧
        (Text.lastRow b.config.preamble.toList = [] →
          Budget.rowsAt rs span.rowList <:+: Text.rows prompt.toList) ∧
        statement <:+: Text.unrows (Budget.rowsAt rs span.rowList) ∧
        statement <:+: prompt.toList := by
  intro source rs
  let d : Draft := ⟨source, Source.importRows source⟩
  have hdraft : (b.draft .keepImports t imports).run h = (.ok d, h) := rfl
  have hbuild := run_build_of_draft hdraft limit
  have hprompt : (b.config.preamble ++ String.ofList
      (Text.unrows (Budget.rowsAt rs (b.shown d limit)))).toList =
        b.config.preamble.toList ++ Text.unrows (Budget.rowsAt rs (b.shown d limit)) := by
    rw [String.toList_append, String.toList_ofList]
  refine ⟨b.shown d limit, _, hbuild, hprompt, b.pairwise_shown d limit,
    fun n hn => lt_of_mem_shown hn, fun span statement hstatement => ?_⟩
  obtain ⟨span, hspan, hpair⟩ := List.mem_map.1 hstatement
  cases hpair
  have hfits : span.Fits source := Source.fits_of_mem_importSpans hspan
  obtain ⟨hle, hlt, hextract⟩ := hfits.rows
  have hshown : span.rowList <:+: b.shown d limit :=
    rowList_infix_shown hfits
      (fun n hn => Source.mem_importRows_iff.2 ⟨span, hspan, Span.mem_rowList_iff.1 hn⟩) limit
  have hrange := Span.rowList_eq span
  have hne : b.shown d limit ≠ [] := by
    intro hnil
    rw [hnil, List.infix_nil, hrange, List.range'_eq_nil_iff] at hshown
    omega
  have hrows : Budget.rowsAt rs span.rowList <:+: Budget.rowsAt rs (b.shown d limit) :=
    Budget.rowsAt_infix hshown
  have hbody : Text.rows (Text.unrows (Budget.rowsAt rs (b.shown d limit))) =
      Budget.rowsAt rs (b.shown d limit) := b.rows_unrows_shown d hne
  refine ⟨hle, hlt, ?_, ?_, ?_, hextract, ?_⟩
  · rwa [← hrange]
  · rwa [hbody]
  · intro hended
    rw [hprompt, Text.rows_append_of_lastRow_eq_nil hended, hbody]
    exact hrows.trans (List.suffix_append _ _).isInfix
  · rw [hprompt]
    exact (hextract.trans (Text.intercalate_infix hrows)).trans (List.suffix_append _ _).isInfix

/-- An import over three rows, where nothing fits the budget. -/
theorem build_shows_parenthesised_import :
    let t : Target :=
      ⟨⟨"/proj/main.py"⟩, "import os\nx = 1\nfrom a import (b,\n  # c\n  c)  # d\ny = 2",
        "def f():"⟩
    let b : Builder := ⟨Config.default, fun _ => 1⟩
    let h : Host :=
      { currentDir := ⟨"/"⟩, files := ⟨[]⟩, respond := fun _ => ⟨[], [], .exit 0⟩, calls := [] }
    let statement := "from a import (b,\n  # c\n  c)".toList
    (⟨2, 0, 4, 4⟩, statement) ∈ Source.importStatements .topLevel t.source.toList ∧
      Text.lastRow b.config.preamble.toList = [] ∧
      ∃ prompt, (b.build .keepImports t [] 0).run h = (.ok prompt, h) ∧
        ["from a import (b,".toList, "  # c".toList, "  c)  # d".toList] <:+:
          Text.rows prompt.toList ∧
        statement <:+: prompt.toList := by
  intro t b h statement
  have hstatement : (⟨2, 0, 4, 4⟩, statement) ∈
      Source.importStatements .topLevel t.source.toList := by decide +kernel
  have hended : Text.lastRow b.config.preamble.toList = [] := by decide +kernel
  have hrows : Budget.rowsAt (Text.rows t.source.toList) (Span.rowList ⟨2, 0, 4, 4⟩) =
      ["from a import (b,".toList, "  # c".toList, "  c)  # d".toList] := by decide +kernel
  obtain ⟨shown, prompt, hbuild, -, -, -, himports⟩ := b.build_shows_import_rows t [] 0 h
  obtain ⟨-, -, -, -, hprompt, -, htext⟩ := himports _ _ hstatement
  exact ⟨hstatement, hended, prompt, hbuild, hrows ▸ hprompt hended, htext⟩

end Builder
end CompletionPrompt

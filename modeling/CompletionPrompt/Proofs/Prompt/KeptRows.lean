import CompletionPrompt.Proofs.Prompt.Replacement

/-!
# Which rows of replaced imports are kept

With the preference for replaced imports, the rows to keep are looked up in the finished text: the
first occurrence of each replacement names them. The rows that a replacement takes at the span of
its own import (`Span.replacedRows`) are other rows when the same text occurs further up. So no
budget ever drops a row of a replacement exactly when each such row lies in the first occurrence of
some replacement (`replacedRows_kept_iff`); two imports of the same statement are enough to break
that (`replacedRows_dropped_of_repeated`).
-/

namespace CompletionPrompt

namespace Span

/-- The rows that replacements take in a text with spans replaced all at once, from an offset of the
unedited text and a row of the finished text on. -/
def replacedRowsFrom (text : List Char) : Nat → Nat → List (Span × List Char) → List Nat
  | _, _, [] => []
  | p, row, (s, r) :: edits =>
    let first := row + Text.lineFeeds (Text.stretch text p (Text.offset text s.start))
    let last := first + Text.lineFeeds r
    (List.range (last + 1)).drop first ++
      replacedRowsFrom text (Text.offset text s.stop) last edits

/-- The rows that replacements take in a text with spans replaced all at once. -/
def replacedRows (text : List Char) (edits : List (Span × List Char)) : List Nat :=
  replacedRowsFrom text 0 0 edits

theorem mem_drop_range {first last row : Nat} :
    row ∈ (List.range (last + 1)).drop first ↔ first ≤ row ∧ row ≤ last := by
  rw [List.range_eq_range', List.drop_range', List.mem_range'_1]
  omega

/-- Replacements stand in rows that the finished text has. -/
theorem le_of_mem_replacedRowsFrom {text : List Char} {p row first : Nat}
    {edits : List (Span × List Char)} (h : row ∈ replacedRowsFrom text p first edits) :
    row ≤ first + Text.lineFeeds (substituteFrom text p edits) := by
  induction edits generalizing p first with
  | nil => simp [replacedRowsFrom] at h
  | cons e edits ih =>
    simp only [replacedRowsFrom, List.mem_append, mem_drop_range] at h
    simp only [substituteFrom, Text.lineFeeds_append]
    rcases h with h | h
    · omega
    · have := ih h
      omega

theorem lt_of_mem_replacedRows {text : List Char} {row : Nat} {edits : List (Span × List Char)}
    (h : row ∈ replacedRows text edits) : row < (Text.rows (substitute text edits)).length := by
  have hle := le_of_mem_replacedRowsFrom h
  rw [Text.length_rows, substitute]
  omega

end Span

namespace Budget

/-- Where nothing ever fits, every row that need not be kept is dropped. -/
theorem droppedRows_of_never_fits {count : Counter} {limit : Nat} {lead : List Char}
    (hnever : ∀ text, limit < count (String.ofList (lead ++ text))) (rs : List (List Char))
    (keep : List Nat) : droppedRows count rs keep limit lead = droppable rs.length keep := by
  have hfails : ∀ n, fits count rs keep limit lead n = false := by
    intro n
    have hover := hnever (Text.unrows (dropFree keep 0 n rs))
    simp only [fits, assemble_eq, decide_eq_false_iff_not]
    omega
  have hmost : dropCount (fits count rs keep limit lead) (droppable rs.length keep).length =
      (droppable rs.length keep).length := by
    rcases (dropCount_spec (fits count rs keep limit lead)
      (droppable rs.length keep).length).2.1 with h | h
    · rw [hfails] at h
      exact absurd h Bool.false_ne_true
    · exact h
  rw [droppedRows_eq_take, hmost, List.take_length]

end Budget

namespace Prompt

theorem mem_rowsOfAll {text : List Char} {needles : List String} {row : Nat} :
    row ∈ rowsOfAll text needles ↔
      ∃ needle ∈ needles, ∃ first last, rowsOf? needle.toList text = some (first, last) ∧
        first ≤ row ∧ row ≤ last := by
  simp only [rowsOfAll, List.mem_flatMap]
  refine exists_congr fun needle => and_congr_right fun _ => ?_
  cases h : rowsOf? needle.toList text with
  | none => simp
  | some found =>
    obtain ⟨first, last⟩ := found
    simp only [Span.mem_drop_range, Option.some.injEq, Prod.mk.injEq]
    constructor
    · intro hrow
      exact ⟨first, last, ⟨rfl, rfl⟩, hrow⟩
    · rintro ⟨_, _, ⟨rfl, rfl⟩, hrow⟩
      exact hrow

/-- The rows to keep lie in first occurrences of what imports are replaced by. -/
theorem mem_rowsOfAll_bottomUp {text : List Char} {f : Import → String} {imports : List Import}
    {row : Nat} :
    row ∈ rowsOfAll text ((bottomUp imports).map f) ↔
      ∃ i ∈ imports, ∃ first last, rowsOf? (f i).toList text = some (first, last) ∧
        first ≤ row ∧ row ≤ last := by
  rw [mem_rowsOfAll]
  constructor
  · rintro ⟨needle, hneedle, h⟩
    obtain ⟨i, hi, rfl⟩ := List.mem_map.1 hneedle
    exact ⟨i, mem_inSourceOrder.1 (List.mem_reverse.1 hi), h⟩
  · rintro ⟨i, hi, h⟩
    have hmem : i ∈ bottomUp imports := List.mem_reverse.2 (mem_inSourceOrder.2 hi)
    exact ⟨f i, List.mem_map_of_mem hmem, h⟩

end Prompt

namespace Builder

/-- The numbers of the rows that a prompt drops from a finished text with replacements in it. -/
def droppedRows (b : Builder) (text : List Char) (replacements : List String) (limit : Nat) :
    List Nat :=
  let keep := if b.config.keepReplacements then Prompt.rowsOfAll text replacements else []
  Budget.droppedRows b.count (Text.rows text) keep limit b.config.preamble.toList

section

variable {m : Type → Type} [Monad m] [LawfulMonad m] {replace : Import → m String}
  {f : Import → String} {source : String} {imports : List Import}

/-- A prompt with replaced imports is the finished text without the rows that are dropped. -/
theorem replaceOneByOne_eq_without (b : Builder) (limit : Nat)
    (hreplace : ∀ i ∈ imports, replace i = pure (f i))
    (hstands : ∀ i ∈ imports, i.StandsIn source.toList) (hapart : Prompt.Apart imports) :
    let text := Span.substitute source.toList (Prompt.edits f (Prompt.inSourceOrder imports))
    b.replaceOneByOne replace source imports limit =
      pure (String.ofList (b.config.preamble.toList ++ Text.unrows (Budget.without
        (b.droppedRows text ((Prompt.bottomUp imports).map f) limit) (Text.rows text)))) := by
  intro text
  rw [replaceOneByOne, Prompt.spliceAll_bottomUp hreplace hstands hapart, pure_bind]
  simp only [truncate, Budget.truncateKeeping_eq_without]
  rfl

/-- **When no budget drops a row of a replacement.** With the preference for replaced imports the
prompt is the finished text without some rows. For every way of counting and every limit these are
no rows of replacements, exactly when each row that a replacement takes at its import's span lies in
the first occurrence of some replacement in the finished text. -/
theorem replacedRows_kept_iff {c : Config} (hprefer : c.keepReplacements = true)
    (hreplace : ∀ i ∈ imports, replace i = pure (f i))
    (hstands : ∀ i ∈ imports, i.StandsIn source.toList) (hapart : Prompt.Apart imports) :
    let edits := Prompt.edits f (Prompt.inSourceOrder imports)
    let text := Span.substitute source.toList edits
    let dropped (count : Counter) (limit : Nat) :=
      droppedRows ⟨c, count⟩ text ((Prompt.bottomUp imports).map f) limit
    (∀ (count : Counter) (limit : Nat), replaceOneByOne ⟨c, count⟩ replace source imports limit =
      pure (String.ofList (c.preamble.toList ++
        Text.unrows (Budget.without (dropped count limit) (Text.rows text))))) ∧
    ((∀ (count : Counter) (limit : Nat), ∀ row ∈ Span.replacedRows source.toList edits,
        row ∉ dropped count limit) ↔
      ∀ row ∈ Span.replacedRows source.toList edits, ∃ i ∈ imports, ∃ first last,
        rowsOf? (f i).toList text = some (first, last) ∧ first ≤ row ∧ row ≤ last) := by
  intro edits text dropped
  refine ⟨fun count limit =>
    replaceOneByOne_eq_without ⟨c, count⟩ limit hreplace hstands hapart, ?_⟩
  constructor
  · -- a counter by which nothing fits drops every row that need not be kept
    intro h row hrow
    rw [← Prompt.mem_rowsOfAll_bottomUp]
    by_cases hkept : row ∈ Prompt.rowsOfAll text ((Prompt.bottomUp imports).map f)
    · exact hkept
    · refine absurd ?_ (h (fun _ => 1) 0 row hrow)
      simp only [dropped, droppedRows, hprefer, if_true]
      rw [Budget.droppedRows_of_never_fits (fun _ => Nat.zero_lt_one)]
      exact List.mem_filter.2
        ⟨List.mem_range.2 (Span.lt_of_mem_replacedRows hrow), by simpa using hkept⟩
  · intro h count limit row hrow hdropped
    simp only [dropped, droppedRows, hprefer, if_true] at hdropped
    exact Budget.not_mem_keep_of_mem_droppedRows hdropped
      (Prompt.mem_rowsOfAll_bottomUp.2 (h row hrow))

end

/-- Two imports of different statements: no budget drops a row of what they are replaced by. -/
theorem replacedRows_kept_of_distinct :
    let source := "x = 1\nimport a\nimport b\n"
    let imports :=
      [Import.unresolved "a" "a" "import a" ⟨1, 0, 1, 8⟩,
        Import.unresolved "b" "b" "import b" ⟨2, 0, 2, 8⟩]
    let f (i : Import) : String := i.statement ++ "\n# seen"
    let edits := Prompt.edits f (Prompt.inSourceOrder imports)
    Config.default.keepReplacements = true ∧ (∀ i ∈ imports, i.StandsIn source.toList) ∧
      Prompt.Apart imports ∧ Span.replacedRows source.toList edits = [1, 2, 3, 4] ∧
      ∀ (count : Counter) (limit : Nat), ∀ row ∈ Span.replacedRows source.toList edits,
        row ∉ droppedRows ⟨Config.default, count⟩ (Span.substitute source.toList edits)
          ((Prompt.bottomUp imports).map f) limit := by
  intro source imports f edits
  have hstands : ∀ i ∈ imports, i.StandsIn source.toList := by decide
  have hapart : Prompt.Apart imports := by decide
  have horder : Prompt.inSourceOrder imports = imports :=
    Prompt.inSourceOrder_eq_of_perm (List.Perm.refl imports) (by decide) (by decide)
  have hrows : Span.replacedRows source.toList edits = [1, 2, 3, 4] := by
    simp only [edits, horder]
    decide
  refine ⟨rfl, hstands, hapart, hrows, ?_⟩
  refine (@replacedRows_kept_iff Id _ _ f f source imports Config.default rfl (fun _ _ => rfl)
    hstands hapart).2.2 fun row hrow => ?_
  rw [← Prompt.mem_rowsOfAll_bottomUp, Prompt.bottomUp_eq_reverse]
  simp only [horder] at hrow ⊢
  revert row
  decide

/-- A statement that is imported twice: the rows that the second one gives way to are dropped, for
their text occurs further up. -/
theorem replacedRows_dropped_of_repeated :
    let source := "import a\ndef g():\n    import a\n"
    let i : Import :=
      { Import.unresolved "a" "a" "import a" ⟨0, 0, 0, 8⟩ with
        filename := some ⟨"/proj/a.py"⟩
        sourceText := some "def h(): pass\n" }
    let imports := [i, { i with span := ⟨2, 4, 2, 12⟩ }]
    let f := Declarations.describeImport "    " false
    let edits := Prompt.edits f (Prompt.inSourceOrder imports)
    let b : Builder := ⟨Config.default, String.length⟩
    b.config.keepReplacements = true ∧ (∀ i ∈ imports, i.StandsIn source.toList) ∧
      Prompt.Apart imports ∧ Span.replacedRows source.toList edits = [0, 1, 3, 4] ∧
      b.droppedRows (Span.substitute source.toList edits) ((Prompt.bottomUp imports).map f) 0 =
        [2, 3, 4, 5] ∧
      b.replaceOneByOne (m := Id) (fun i => f i) source imports 0 =
        "# Python 3\nimport a\n# module a declares the following functions: h" := by
  intro source i imports f edits b
  have hstands : ∀ i ∈ imports, i.StandsIn source.toList := by decide
  have hapart : Prompt.Apart imports := by decide
  have horder : Prompt.inSourceOrder imports = imports :=
    Prompt.inSourceOrder_eq_of_perm (List.Perm.refl imports) (by decide) (by decide)
  have hrows : Span.replacedRows source.toList edits = [0, 1, 3, 4] := by
    simp only [edits, horder]
    decide
  have hnever : ∀ text, 0 < b.count (String.ofList (b.config.preamble.toList ++ text)) := by
    intro text
    show 0 < (String.ofList _).length
    rw [String.length_ofList, List.length_append]
    exact Nat.add_pos_left (by decide) _
  have hdropped : b.droppedRows (Span.substitute source.toList edits)
      ((Prompt.bottomUp imports).map f) 0 = [2, 3, 4, 5] := by
    rw [droppedRows, Budget.droppedRows_of_never_fits hnever, Prompt.bottomUp_eq_reverse]
    simp only [edits, horder]
    decide
  refine ⟨rfl, hstands, hapart, hrows, hdropped, ?_⟩
  refine (@replaceOneByOne_eq_without Id _ _ f f source imports b 0 (fun _ _ => rfl) hstands
    hapart).trans ?_
  rw [hdropped, horder]
  show String.ofList _ = _
  decide

end Builder
end CompletionPrompt

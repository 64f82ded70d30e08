import CompletionPrompt.Driver.Snapshot
import CompletionPrompt.Proofs.Namespace.Record
import CompletionPrompt.Proofs.Text.Place

/-!
# The report behind other output

The driver writes its report behind whatever the statement has printed (`noise`), wherever that
ends, while the reader only looks at lines that start with the marker. The report's line is the last
one, and it starts with what the noise has left on it (`lines_report`). So the namespace is read
back when the noise is empty or ends with a line feed, and only then: any other noise hides some
namespace (`snapshot_report_iff`).
-/

namespace CompletionPrompt
namespace Driver

/-- What a successful run writes at its end. -/
def report (style : Json.Style) (ns : Namespace) : String :=
  marker ++ String.ofList (ns.toJson.written style) ++ "\n"

/-- The report without its line feed. -/
def reportLine (style : Json.Style) (ns : Namespace) : List Char :=
  marker.toList ++ ns.toJson.written style

theorem printable_reportLine (style : Json.Style) (ns : Namespace) :
    Json.Printable (reportLine style ns) :=
  .append (by decide +kernel : Json.Printable marker.toList)
    (Json.printable_written style _ ns.readable_toJson)

/-- What follows the marker is the namespace's text, and it is there. -/
theorem getLast?_reportLine (style : Json.Style) (ns : Namespace) :
    (reportLine style ns).getLast? = some ']' := by
  show (marker.toList ++ ('[' :: _ ++ [']'])).getLast? = some ']'
  rw [← List.append_assoc, List.getLast?_concat]

/-- **The lines of a run's output.** The report follows what the noise has left on its last row. -/
theorem lines_report (noise : List Char) (style : Json.Style) (ns : Namespace) :
    Text.lines (noise ++ (report style ns).toList) =
      (Text.rows noise).dropLast.map Text.dropReturn ++
        [Text.lastRow noise ++ reportLine style ns] := by
  have hfeed : '\n' ∉ reportLine style ns := fun h =>
    absurd (printable_reportLine style ns '\n' h) (by decide)
  have htext : noise ++ (report style ns).toList = noise ++ reportLine style ns ++ ['\n'] := by
    simp [report, reportLine]
  have hrows : Text.rows (noise ++ (report style ns).toList) =
      (Text.rows noise).dropLast ++ [Text.lastRow noise ++ reportLine style ns] ++ [[]] := by
    rw [htext, Text.rows_append, Text.rows_append_right hfeed, Text.lastRow_append, if_neg hfeed]
    simp [Text.rows_cons, Text.firstRow]
  have hreturn : Text.dropReturn (Text.lastRow noise ++ reportLine style ns) =
      Text.lastRow noise ++ reportLine style ns := by
    rw [Text.dropReturn, List.getLast?_append, getLast?_reportLine]
    rfl
  rw [Text.lines, hrows, List.dropLast_concat, List.map_append, List.map_singleton, hreturn]
  simp

/-- What the reader takes: the rest of the last line if the marker starts it, and else what it takes
from the lines that the noise has ended. -/
theorem snapshotText?_report (noise : List Char) (style : Json.Style) (ns : Namespace) :
    snapshotText? (noise ++ (report style ns).toList) =
      if marker.toList.isPrefixOf (Text.lastRow noise ++ marker.toList) then
        some ((Text.lastRow noise ++ reportLine style ns).drop marker.length)
      else
        (((Text.rows noise).dropLast.map Text.dropReturn).reverse.find?
          marker.toList.isPrefixOf).map (·.drop marker.length) := by
  have hprefix : marker.toList.isPrefixOf (Text.lastRow noise ++ reportLine style ns) =
      marker.toList.isPrefixOf (Text.lastRow noise ++ marker.toList) := by
    rw [Bool.eq_iff_iff, List.isPrefixOf_iff_prefix, List.isPrefixOf_iff_prefix, reportLine,
      ← List.append_assoc]
    refine ⟨fun h => ?_, fun h => h.trans (List.prefix_append _ _)⟩
    exact List.prefix_of_prefix_length_le h (List.prefix_append _ _) (by simp)
  rw [snapshotText?, lines_report, List.reverse_append, List.reverse_singleton,
    List.singleton_append, List.find?_cons, hprefix]
  split <;> simp_all

/-- The marker between its first underscore and its space. -/
def markerName : List Char :=
  "_IMPORT_NAMESPACE__".toList

/-- A word with an underscore is none, and a space behind it asks for one. -/
theorem foldlM_markerName (out : List Json.Token) {word : List Char} (hword : '_' ∈ word) :
    (markerName ++ [' ']).foldlM Json.Tokenizing.step ⟨out, .bare word⟩ = none := by
  have hbare : ∀ c ∈ markerName, Json.Tokenizing.isBare c :=
    List.all_eq_true.1 (by decide +kernel)
  have hnone : Json.scalar? (word.reverse ++ markerName) = none := by
    by_contra hsome
    obtain ⟨v, hv⟩ := Option.ne_none_iff_exists'.1 hsome
    have := (Json.isScalarChar_of_scalar? hv).2 '_' (by simp [hword])
    exact absurd this (by decide)
  have hspace : Json.Tokenizing.isBare ' ' = false := by decide
  rw [List.foldlM_append, Json.Tokenizing.foldlM_bare out hbare word, Option.bind_eq_bind,
    Option.bind_some]
  simp [Json.Tokenizing.step, hnone, hspace]

/-- **The marker is no JSON.** Behind any text, the tokenizer refuses it or is in a string at its
end. -/
theorem foldlM_marker (z : Json.Tokenizing) :
    marker.toList.foldlM Json.Tokenizing.step z = none ∨
      ∃ out done, marker.toList.foldlM Json.Tokenizing.step z = some ⟨out, .text done⟩ := by
  have hmarker : marker.toList = '_' :: (markerName ++ [' ']) := by decide +kernel
  have hplain : marker.toList.flatMap (Json.Style.escape .compact) = marker.toList := by
    decide +kernel
  obtain ⟨out, mode⟩ := z
  cases mode with
  | between =>
    have hstep : Json.Tokenizing.step ⟨out, .between⟩ '_' = some ⟨out, .bare ['_']⟩ :=
      congrArg some (Json.Tokenizing.start_of_isBare (by decide) out)
    left
    rw [hmarker, List.foldlM_cons, hstep, Option.bind_eq_bind, Option.bind_some]
    exact foldlM_markerName out (by simp)
  | text done =>
    have hrun := Json.Tokenizing.foldlM_flatMap_escape .compact out marker.toList done
    rw [hplain] at hrun
    exact .inr ⟨_, _, hrun⟩
  | bare word =>
    have hstep : Json.Tokenizing.step ⟨out, .bare word⟩ '_' = some ⟨out, .bare ('_' :: word)⟩ := by
      simp [Json.Tokenizing.step, show Json.Tokenizing.isBare '_' by decide]
    left
    rw [hmarker, List.foldlM_cons, hstep, Option.bind_eq_bind, Option.bind_some]
    exact foldlM_markerName out (by simp)
  | escape | unit | lowSlash | lowMark =>
    -- Escapes have no underscore.
    left
    rw [hmarker, List.foldlM_cons]
    simp [Json.Tokenizing.step, Json.Tokenizing.escaped?, show Json.hexValue? '_' = none by decide]

/-- No JSON text ends with the marker and an empty array. -/
theorem read?_marker (before : List Char) :
    Json.read? (before ++ (marker.toList ++ ['[', ']'])) = none := by
  have htokens : Json.tokens? (before ++ (marker.toList ++ ['[', ']'])) = none := by
    rw [Json.tokens?, List.foldlM_append]
    cases before.foldlM Json.Tokenizing.step ⟨[], .between⟩ with
    | none => rfl
    | some z =>
      rw [Option.bind_eq_bind, Option.bind_some, List.foldlM_append]
      rcases foldlM_marker z with hnone | ⟨out, done, htext⟩
      · simp [hnone]
      · simp [htext, Json.Tokenizing.step, Json.Tokenizing.finish]
  rw [Json.read?, Json.readNested?, htokens]
  rfl

/-- A text that the marker starts, where the marker stands behind it too, holds the marker twice:
the marker does not overlap itself. -/
theorem eq_of_isPrefixOf_marker {s : List Char} (hs : s ≠ [])
    (h : marker.toList.isPrefixOf (s ++ marker.toList)) : ∃ rest, s = marker.toList ++ rest := by
  rw [List.isPrefixOf_iff_prefix] at h
  rcases Nat.lt_or_ge s.length marker.toList.length with hlength | hlength
  · have hborder : ∀ n < marker.toList.length, 0 < n →
        ¬ marker.toList.drop n <+: marker.toList := by decide +kernel
    have hpositive : 0 < s.length := List.length_pos_iff.2 hs
    obtain ⟨rest, hrest⟩ := List.prefix_of_prefix_length_le (List.prefix_append s _) h hlength.le
    rw [← hrest, List.prefix_append_right_inj] at h
    have hdrop : marker.toList.drop s.length = rest := by rw [← hrest, List.drop_left]
    exact absurd (hdrop ▸ hrest.symm ▸ h) (hborder s.length hlength hpositive)
  · obtain ⟨rest, hrest⟩ := List.prefix_of_prefix_length_le h (List.prefix_append _ _) hlength
    exact ⟨rest, hrest.symm⟩

/-- Noise that leaves something on its last row hides a namespace: the empty one, or else the one
that binds `x`. -/
theorem exists_snapshot_report_ne (style : Json.Style) {noise : String}
    (h : Text.lastRow noise.toList ≠ []) :
    ∃ ns : Namespace, ns.toJson.nesting ≤ Json.Reading.maxNesting ∧
      snapshot (noise ++ report style ns) ≠ .ok ns := by
  by_cases hmarker : marker.toList.isPrefixOf (Text.lastRow noise.toList ++ marker.toList)
  · -- The reader takes the line, but not from where its own marker ends.
    obtain ⟨rest, hrest⟩ := eq_of_isPrefixOf_marker h hmarker
    have htext : snapshotText? (noise ++ report style .empty).toList =
        some (rest ++ (marker.toList ++ ['[', ']'])) := by
      rw [String.toList_append, snapshotText?_report, if_pos hmarker, hrest, List.append_assoc,
        ← String.length_toList, List.drop_left]
      rfl
    refine ⟨.empty, by decide, ?_⟩
    rw [snapshot, htext]
    simp [read?_marker]
  · -- The reader takes nothing from the line, so that it cannot tell two namespaces apart.
    by_contra hall
    push Not at hall
    have hsame : ∀ ns ms, snapshot (noise ++ report style ns) =
        snapshot (noise ++ report style ms) := by
      intro ns ms
      have htext : snapshotText? (noise ++ report style ns).toList =
          snapshotText? (noise ++ report style ms).toList := by
        rw [String.toList_append, String.toList_append, snapshotText?_report, snapshotText?_report,
          if_neg hmarker, if_neg hmarker]
      rw [snapshot, snapshot, htext]
    have hempty := hall .empty (by decide)
    have hother := hall ⟨[("x", .object "int")]⟩ (by decide)
    rw [hsame .empty ⟨[("x", .object "int")]⟩, hother] at hempty
    cases hempty

/-- **When the report is read back.** Noise that is empty or ends with a line feed hides no
namespace that the reader can take in, whatever its lines are, marker lines included. Any other
noise hides some namespace. -/
theorem snapshot_report_iff (style : Json.Style) (noise : String) :
    (∀ ns : Namespace, ns.toJson.nesting ≤ Json.Reading.maxNesting →
        snapshot (noise ++ report style ns) = .ok ns) ↔
      noise = "" ∨ noise.toList.getLast? = some '\n' := by
  have hnoise : noise = "" ↔ noise.toList = [] := by simp
  rw [hnoise, ← Text.lastRow_eq_nil_iff]
  refine ⟨fun h => ?_, fun h ns hns => ?_⟩
  · by_contra hrow
    obtain ⟨ns, hns, hne⟩ := exists_snapshot_report_ne style hrow
    exact hne (h ns hns)
  · have hmarker : marker.toList.isPrefixOf ([] ++ marker.toList) = true := by decide +kernel
    have hread := Namespace.read?_written style hns
    have htext : snapshotText? (noise ++ report style ns).toList =
        some (ns.toJson.written style) := by
      rw [String.toList_append, snapshotText?_report, h, if_pos hmarker, List.nil_append,
        reportLine, ← String.length_toList, List.drop_left]
    rw [snapshot, htext]
    simp only [hread]

/-- A statement that has printed `x` without a line feed. -/
theorem snapshot_report_ne_of_open_row :
    Namespace.empty.toJson.nesting ≤ Json.Reading.maxNesting ∧
      snapshot ("x" ++ report .ascii .empty) =
        .error (.protocol "no namespace snapshot in driver output") ∧
      snapshot ("x" ++ report .ascii .empty) ≠ .ok .empty := by
  have htext : snapshotText? ("x" ++ report .ascii .empty).toList = none := by decide +kernel
  have hsnapshot : snapshot ("x" ++ report .ascii .empty) =
      .error (.protocol "no namespace snapshot in driver output") := by
    rw [snapshot, htext]
  refine ⟨by decide, hsnapshot, fun h => ?_⟩
  rw [hsnapshot] at h
  cases h

end Driver
end CompletionPrompt

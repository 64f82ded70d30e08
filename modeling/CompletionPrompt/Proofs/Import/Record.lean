import CompletionPrompt.Import
import CompletionPrompt.Proofs.Json.Pretty
import CompletionPrompt.Proofs.Namespace.Record

/-!
# Imports and their records

An import is read back from its record, whichever of its file and the file's text it lacks, when the
numbers of its span have 64 bits (`Import.ofJson?_toJson`). With the same for namespaces, both are
read back from every text that is written of them (`records_read_back`): an import always, and a
namespace exactly when its record nests no deeper than the reader allows.
-/

namespace CompletionPrompt

namespace Span

/-- A span of 64-bit numbers is read back from its record. -/
theorem ofJson?_toJson {s : Span} (hs : ∀ n ∈ s.numbers, n < UInt64.size) :
    ofJson? s.toJson = some s := by
  have hfields : Json.fields? fieldNames s.toJson =
      some (s.numbers.map fun n => some (.natural n)) := by
    simp [toJson, fieldNames, numbers, Json.fields?, Json.fieldsOrMissing?, Json.uniqueField?]
  simp only [numbers, List.forall_mem_cons] at hs
  obtain ⟨ha, hb, hc, hd, -⟩ := hs
  simp [ofJson?, hfields, numbers, Json.required?, Json.Value.asCount?, ha, hb, hc, hd]

theorem readable_toJson {s : Span} (hs : ∀ n ∈ s.numbers, n < UInt64.size) :
    s.toJson.Readable := by
  have hlt : ∀ n ∈ s.numbers, n < Json.binary64Overflow :=
    fun n hn => (hs n hn).trans (by decide +kernel)
  simp only [numbers, List.forall_mem_cons] at hlt
  simp [toJson, fieldNames, numbers, Json.Value.Readable, Json.ReadableFields, hlt]

theorem nesting_toJson (s : Span) : s.toJson.nesting = 1 :=
  rfl

end Span

namespace Import

theorem fields?_toJson (i : Import) :
    Json.fields? fieldNames i.toJson =
      some [some (.string i.module), i.filename.map fun p => .string p.text,
        i.sourceText.map .string, some (.string i.asName), some (.string i.statement),
        some (.ofStrings i.imported), some i.span.toJson] := by
  obtain ⟨module, filename, sourceText, asName, statement, imported, span⟩ := i
  cases filename <;> cases sourceText <;>
    simp [toJson, fieldNames, Json.fields?, Json.fieldsOrMissing?, Json.uniqueField?]

/-- **An import is read back from its record**, with the parts that it lacks. -/
theorem ofJson?_toJson {i : Import} (hspan : ∀ n ∈ i.span.numbers, n < UInt64.size) :
    ofJson? i.toJson = some i := by
  have htext : ∀ t : Option String,
      Json.Value.asOptional? Json.Value.asString? (t.map .string) = some t := by
    intro t
    cases t <;> rfl
  have hfile : Json.Value.asOptional? Json.Value.asString?
      (i.filename.map fun p => .string p.text) = some (i.filename.map Path.text) := by
    rw [← htext, Option.map_map]
    rfl
  have hpath : i.filename.map (Path.mk ∘ Path.text) = i.filename := Option.map_id'
  simp [ofJson?, fields?_toJson, hfile, htext, hpath, Json.required?, Json.Value.asString?,
    Json.Value.asStrings?_ofStrings, Span.ofJson?_toJson hspan]

theorem readable_toJson {i : Import} (hspan : ∀ n ∈ i.span.numbers, n < UInt64.size) :
    i.toJson.Readable := by
  obtain ⟨module, filename, sourceText, asName, statement, imported, span⟩ := i
  cases filename <;> cases sourceText <;>
    simp [toJson, Json.Value.Readable, Json.ReadableFields, Json.Value.readable_ofStrings,
      Span.readable_toJson hspan]

/-- The names and the span of an import are the only parts that nest. -/
theorem nesting_toJson (i : Import) : i.toJson.nesting = 2 := by
  obtain ⟨module, filename, sourceText, asName, statement, imported, span⟩ := i
  cases filename <;> cases sourceText <;>
    simp [toJson, Json.Value.nesting, Json.fieldsNesting, Json.Value.nesting_ofStrings,
      Span.nesting_toJson]

end Import

/-- **Records are read back from their texts**, without white space or on many lines. A namespace,
with the order of its bindings, modules in modules, names that are bound twice and any characters in
its strings, is read back exactly when its record nests no deeper than the reader allows. An import
is read back whether it has a file and the file's text or not. -/
theorem records_read_back :
    (∀ ns : Namespace, ∀ text ∈ [ns.toJson.compact, ns.toJson.pretty],
      ((Json.read? text).bind Namespace.ofJson? = some ns ↔
        ns.toJson.nesting ≤ Json.Reading.maxNesting)) ∧
    ∀ i : Import, (∀ n ∈ i.span.numbers, n < UInt64.size) →
      ∀ text ∈ [i.toJson.compact, i.toJson.pretty],
        (Json.read? text).bind Import.ofJson? = some i := by
  constructor
  · intro ns text htext
    rw [Json.read?_of_mem_texts ns.readable_toJson htext]
    split
    · rename_i hnesting
      rw [Option.bind_some, ns.ofJson?_toJson]
      exact iff_of_true rfl hnesting
    · rename_i hnesting
      rw [Option.bind_none]
      exact iff_of_false (Option.some_ne_none ns).symm hnesting
  · intro i hspan text htext
    have hnesting : i.toJson.nesting ≤ Json.Reading.maxNesting := by
      rw [i.nesting_toJson]
      decide
    rw [Json.read?_of_mem_texts (Import.readable_toJson hspan) htext, if_pos hnesting,
      Option.bind_some, Import.ofJson?_toJson hspan]

/-- A namespace with a name that is bound twice inside a module and outside, and an import without a
file whose span ends at the greatest number. -/
theorem awkward_records_read_back :
    let ns : Namespace :=
      ⟨[("a", .module [("f", .function ["x\n", "\"é\""]), ("f", .type ["\\", "\u0000"])]),
        ("", .object "NoneType"), ("a", .module [])]⟩
    let i : Import :=
      { Import.unresolved "a" "a" "import a" ⟨0, 0, 0, 2 ^ 64 - 1⟩ with
        sourceText := some "x = '\t'\r\n" }
    ns.toJson.nesting ≤ Json.Reading.maxNesting ∧ (∀ n ∈ i.span.numbers, n < UInt64.size) ∧
      (Json.read? ns.toJson.pretty).bind Namespace.ofJson? = some ns ∧
      (Json.read? i.toJson.compact).bind Import.ofJson? = some i := by
  intro ns i
  have hnesting : ns.toJson.nesting ≤ Json.Reading.maxNesting := by decide +kernel
  have hspan : ∀ n ∈ i.span.numbers, n < UInt64.size := by decide +kernel
  exact ⟨hnesting, hspan, (records_read_back.1 ns _ (by simp)).2 hnesting,
    records_read_back.2 i hspan _ (by simp)⟩

end CompletionPrompt

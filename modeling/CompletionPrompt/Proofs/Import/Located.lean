import CompletionPrompt.Proofs.Import.CleanModule
import CompletionPrompt.Proofs.Import.Resolution
import CompletionPrompt.Proofs.Prompt.Replacement
import Mathlib.Data.List.Pairwise
import Mathlib.Data.List.TakeDrop
import Mathlib.Data.List.TakeWhile

/-!
# Imports that are located in a source

An import is located in a source when it is one of the source's import statements, resolved or not.
Then it stands in the source (`IsLocated.standsIn`), and two of them have the same span or stand
apart (`IsLocated.eq_or_apart`), so that a list of them may name a statement more than once. Its
name goes over no row end (`IsLocated.not_mem_asName`).
-/

namespace CompletionPrompt
namespace Import

/-- The import is one of the import statements of a source, whatever file it has been given. -/
def IsLocated [Source.Parser] (i : Import) (source : String) : Prop :=
  { i with filename := none, sourceText := none } ∈ statementsOf source

instance [Source.Parser] (i : Import) (source : String) : Decidable (i.IsLocated source) :=
  inferInstanceAs (Decidable (_ ∈ _))

/-! ### What a statement is read as -/

theorem not_mem_of_asNameHere? {s name : List Char} (h : asNameHere? s = some name) :
    '\n' ∉ name := by
  simp only [asNameHere?, Option.bind_eq_bind, Option.bind_eq_some_iff, Option.pure_def,
    Option.some.injEq] at h
  obtain ⟨_, -, _, -, _, -, ⟨path, _⟩, hrun, rfl⟩ := h
  obtain ⟨-, -, hname, -⟩ := run?_eq_some_iff.1 hrun
  exact fun hfeed => absurd (hname '\n' hfeed) (by decide)

/-- A path goes over no row end. -/
theorem IsPath.newline_not_mem {path : List Char} (h : IsPath path) : '\n' ∉ path := fun hfeed =>
  absurd (h.2 '\n' hfeed) (by decide)

/-- The name that a statement binds goes over no row end. -/
theorem not_mem_asName_of_parse? {statement : String} {span : Span} {i : Import}
    (hi : parse? statement span = some i) : '\n' ∉ i.asName.toList := by
  obtain ⟨⟨module, names⟩, hmodule, rfl⟩ := Option.map_eq_some_iff.1 hi
  simp only [unresolved, String.toList_ofList]
  cases hname : search asNameHere? statement.toList with
  | some name =>
    obtain ⟨_, -, hhere, -⟩ := search_eq_some_iff.1 hname
    exact not_mem_of_asNameHere? hhere
  | none =>
    obtain ⟨path, hfirst, rfl⟩ := exists_firstPath hmodule
    exact fun hfeed => hfirst.isPath.newline_not_mem ((dropDots_suffix path).subset hfeed)

theorem statement_of_parse? {statement : String} {span : Span} {i : Import}
    (hi : parse? statement span = some i) : i.statement = statement := by
  obtain ⟨⟨module, names⟩, -, rfl⟩ := Option.map_eq_some_iff.1 hi
  rfl

/-! ### Where a located import stands -/

namespace IsLocated

variable [Source.Parser] {i j : Import} {source : String}

theorem exists_parse? (hi : i.IsLocated source) :
    i.span ∈ Source.importSpans .wholeSource source.toList ∧
      parse? (String.ofList (i.span.extract source.toList)) i.span =
        some { i with filename := none, sourceText := none } := by
  obtain ⟨⟨span, statement⟩, hmem, hparse⟩ := List.mem_filterMap.1 hi
  obtain ⟨span', hspan, hpair⟩ := List.mem_map.1 hmem
  cases hpair
  have hsame := span_of_parse? hparse
  subst hsame
  exact ⟨hspan, hparse⟩

theorem not_mem_asName (hi : i.IsLocated source) : '\n' ∉ i.asName.toList :=
  not_mem_asName_of_parse? (i := { i with filename := none, sourceText := none })
    hi.exists_parse?.2

/-- **A located import stands in its source.** -/
theorem standsIn [Source.LawfulParser] (hi : i.IsLocated source) : i.StandsIn source.toList := by
  obtain ⟨hspan, hparse⟩ := hi.exists_parse?
  have hstatement := statement_of_parse? hparse
  obtain ⟨before, covered, after, htext, haround, hne⟩ :=
    Source.exists_stretch_of_mem_importSpans hspan
  refine ⟨Span.fits_iff.2 ⟨before, covered, after, htext, haround⟩, by rw [hstatement]; simp, ?_⟩
  intro hempty
  have hextract : i.span.extract source.toList = covered := by
    rw [haround, htext, Span.extract_around]
  rw [hempty, hextract] at hstatement
  exact hne (String.ofList_eq_empty_iff.1 hstatement.symm)

/-- **Two located imports have one span or stand apart.** -/
theorem eq_or_apart [Source.LawfulParser] (hi : i.IsLocated source) (hj : j.IsLocated source) :
    i.span = j.span ∨ i.span.EndsBefore j.span ∨ j.span.EndsBefore i.span := by
  by_cases hne : i.span = j.span
  · exact .inl hne
  · have hspans : (Source.importSpans .wholeSource source.toList).Pairwise fun s t =>
        s.EndsBefore t ∨ t.EndsBefore s :=
      (Source.importSpans_pairwise .wholeSource source.toList).imp .inl
    have hsymm : Std.Symm fun s t : Span => s.EndsBefore t ∨ t.EndsBefore s := ⟨fun _ _ => .symm⟩
    exact .inr (hspans.forall hi.exists_parse?.1 hj.exists_parse?.1 hne)

end IsLocated
end Import
end CompletionPrompt

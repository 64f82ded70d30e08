import CompletionPrompt.Proofs.Host.Action
import CompletionPrompt.Proofs.Prompt.Replacement
import CompletionPrompt.Proofs.Span.Clamped
import CompletionPrompt.Proofs.Text.Occurrences

/-!
# An import whose statement occurs once

An import is replaced at its span when the span reads its statement there, and else where its
statement first occurs. For a statement that occurs once it makes no difference which of the two is
taken: a span that reads something replaces just what it reads, however wrong its numbers are, and
what it reads stands at the only place where the statement stands
(`Prompt.spliceOne_of_occursOnce`). So such an import gives way to its replacement whatever its span
is (`Builder.replaceOneByOne_replaces_only_occurrence`).
-/

namespace CompletionPrompt
namespace Prompt

/-- **The span is of no account** where the statement occurs once. -/
theorem spliceOne_of_occursOnce {i : Import} {text before after : List Char} (hne : i.statement ≠ "")
    (honce : Text.OccursOnce i.statement.toList text before after) (r : List Char) :
    spliceOne text i r = before ++ r ++ after := by
  unfold spliceOne
  split
  · rename_i hspan
    have hread : i.span.extract text ≠ [] := by
      rw [hspan]
      exact fun h => hne (String.toList_eq_nil_iff.1 h)
    obtain ⟨a, b, htext, hreplace⟩ := Span.exists_around_of_extract_ne_nil hread
    rw [hspan] at htext
    obtain ⟨rfl, rfl⟩ := honce.sides_eq htext
    exact hreplace r
  · exact honce.replaceFirst_eq r

theorem spliceAll_singleton {m : Type → Type} [Monad m] [LawfulMonad m]
    (replace : Import → m String) (source : List Char) (i : Import) :
    spliceAll replace source [i] = do
      let r ← replace i
      return (spliceOne source i r.toList, [r]) := by
  simp [spliceAll]

end Prompt

namespace Builder

/-- **An import whose statement occurs once in the source gives way to its replacement,** whatever
its span is: the right one, one of another source, one out of range, or one that stops before it
starts. Where the replacement is had and the whole text fits the budget, the prompt is the preamble
and then the source with that occurrence replaced; where it is not had, building fails with its
failure. -/
theorem replaceOneByOne_replaces_only_occurrence (b : Builder) (replace : Import → Action String)
    {i : Import} {source : String} {before after : List Char} (hne : i.statement ≠ "")
    (honce : Text.OccursOnce i.statement.toList source.toList before after) (limit : Nat)
    (h : Host) :
    (∀ r h', (replace i).run h = (.ok r, h') →
      b.count (b.config.preamble ++ String.ofList (before ++ r.toList ++ after)) ≤ limit →
      (b.replaceOneByOne replace source [i] limit).run h =
        (.ok (b.config.preamble ++ String.ofList (before ++ r.toList ++ after)), h')) ∧
    ∀ e h', (replace i).run h = (.error e, h') →
      (b.replaceOneByOne replace source [i] limit).run h = (.error e, h') := by
  have hprompt : b.replaceOneByOne replace source [i] limit = do
      let r ← replace i
      let keep :=
        if b.config.keepReplacements then Prompt.rowsOfAll (before ++ r.toList ++ after) [r] else []
      return b.truncate (before ++ r.toList ++ after) keep limit := by
    simp only [replaceOneByOne, Prompt.bottomUp_singleton, Prompt.spliceAll_singleton, bind_assoc,
      pure_bind, Prompt.spliceOne_of_occursOnce hne honce]
  rw [hprompt]
  refine ⟨fun r h' hrun hfits => ?_, fun e h' hrun => ?_⟩
  · rw [Action.run_bind, hrun]
    simp only [truncate_of_fits _ hfits, Action.run_pure]
  · rw [Action.run_bind, hrun]

/-- A statement in the second row: at its span, at the span of another row, and at one that ends in
a row above its start and so is read in the row of its start alone. -/
theorem replaceOneByOne_replaces_at_any_span :
    let source := "import os\nfrom é import b\nx = 1"
    let statement := "from é import b"
    let before := "import os\n".toList
    let after := "\nx = 1".toList
    let mark : Import → Action String := fun i => pure (i.statement ++ "\n# seen")
    let b : Builder := ⟨Config.default, String.length⟩
    let h : Host :=
      { currentDir := ⟨"/"⟩, files := ⟨[]⟩, respond := fun _ => ⟨[], [], .exit 0⟩, calls := [] }
    statement ≠ "" ∧ Text.OccursOnce statement.toList source.toList before after ∧
      Span.extract ⟨1, 0, 1, 16⟩ source.toList = statement.toList ∧
      Span.extract ⟨0, 0, 0, 9⟩ source.toList ≠ statement.toList ∧
      Span.extract ⟨1, 0, 0, 90⟩ source.toList = statement.toList ∧
      ∀ s ∈ ([⟨1, 0, 1, 16⟩, ⟨0, 0, 0, 9⟩, ⟨1, 0, 0, 90⟩] : List Span),
        (b.replaceOneByOne mark source [.unresolved "é" "b" statement s] 60).run h =
          (.ok "# Python 3\nimport os\nfrom é import b\n# seen\nx = 1", h) := by
  intro source statement before after mark b h
  have hne : statement ≠ "" := by decide
  have honce : Text.OccursOnce statement.toList source.toList before after := by decide
  refine ⟨hne, honce, by decide, by decide, by decide, fun s _ => ?_⟩
  obtain ⟨hok, -⟩ := b.replaceOneByOne_replaces_only_occurrence mark
    (i := .unresolved "é" "b" statement s) hne honce 60 h
  have hprompt : b.config.preamble ++
      String.ofList (before ++ (statement ++ "\n# seen").toList ++ after) =
        "# Python 3\nimport os\nfrom é import b\n# seen\nx = 1" := by decide
  have hrun := hok (statement ++ "\n# seen") h rfl (by rw [hprompt]; decide)
  rwa [hprompt] at hrun

end Builder
end CompletionPrompt

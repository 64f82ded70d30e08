import Mathlib.Data.List.Nodup
import CompletionPrompt.Proofs.Prompt.Replacement

/-!
# The order in which imports are listed

Imports are replaced from the last span to the first, in whatever order they are listed. Spans in
order are the same when each comes before the other, so imports with different spans are taken in
one order only (`Prompt.bottomUp_eq_of_perm`), and everything that follows, the effects and failures
of the replacing included, is the same for every listing
(`Builder.replaceOneByOne_eq_of_perm`). When replacing fails, the failure is that of the import with
the last span among those that cannot be replaced (`Builder.replaceOneByOne_eq_error_iff`).
-/

namespace CompletionPrompt
namespace Prompt

/-- **Imports with different spans are taken in one order,** however they are listed. -/
theorem bottomUp_eq_of_perm {imports listed : List Import} (hperm : imports.Perm listed)
    (hspans : (imports.map (·.span)).Nodup) : bottomUp imports = bottomUp listed := by
  have hsame : ∀ i ∈ imports, ∀ j ∈ imports, i.span.le j.span → j.span.le i.span → i = j :=
    fun i hi j hj hij hji => List.inj_on_of_nodup_map hspans hi hj (Span.le_antisymm hij hji)
  have hlisted : imports.Perm (inSourceOrder listed) :=
    hperm.trans (List.mergeSort_perm listed _).symm
  rw [bottomUp_eq_reverse, bottomUp_eq_reverse,
    inSourceOrder_eq_of_perm hlisted (pairwise_le_inSourceOrder listed) hsame]

/-- Imports in source order stay as they are. -/
theorem bottomUp_of_pairwise {imports : List Import}
    (hsorted : imports.Pairwise fun i j => i.span.le j.span) :
    bottomUp imports = imports.reverse := by
  rw [bottomUp, List.mergeSort_of_pairwise hsorted]

/-- Why an import cannot be replaced, if it cannot. -/
def refusal? {ε : Type} (replace : Import → Except ε String) (i : Import) : Option ε :=
  match replace i with
  | .ok _ => none
  | .error e => some e

theorem refusal?_eq_none_iff {ε : Type} {replace : Import → Except ε String} {i : Import} :
    refusal? replace i = none ↔ ∃ r, replace i = .ok r := by
  unfold refusal?
  cases replace i <;> simp

theorem refusal?_eq_some_iff {ε : Type} {replace : Import → Except ε String} {i : Import} {e : ε} :
    refusal? replace i = some e ↔ replace i = .error e := by
  unfold refusal?
  cases replace i <;> simp

/-- The first import that cannot be replaced ends the replacing. -/
theorem spliceAll_eq_error_iff {ε : Type} {replace : Import → Except ε String}
    {source : List Char} {imports : List Import} {e : ε} :
    spliceAll replace source imports = .error e ↔
      imports.findSome? (refusal? replace) = some e := by
  unfold spliceAll
  generalize (source, ([] : List String)) = state
  induction imports generalizing state with
  | nil => exact ⟨nofun, nofun⟩
  | cons i imports ih =>
    rw [List.foldlM_cons, List.findSome?_cons, refusal?]
    cases replace i with
    | error e' =>
      exact ⟨fun h => congrArg some (Except.error.inj h),
        fun h => congrArg Except.error (Option.some.inj h)⟩
    | ok r => exact ih _

end Prompt

namespace Builder

/-- **The order in which imports are listed is of no account** when their spans differ, even if
they overlap, are out of range or belong to another source: the result is the same for every order,
be it a prompt or a failure, and whatever else the replacing does is done the same way. -/
theorem replaceOneByOne_eq_of_perm {m : Type → Type} [Monad m] (b : Builder)
    (replace : Import → m String) (source : String) {imports listed : List Import}
    (hperm : imports.Perm listed) (hspans : (imports.map (·.span)).Nodup) (limit : Nat) :
    b.replaceOneByOne replace source imports limit =
      b.replaceOneByOne replace source listed limit := by
  unfold replaceOneByOne
  rw [Prompt.bottomUp_eq_of_perm hperm hspans]

/-- Three imports listed out of order: one stands at its span, the span of the second overlaps it
and belongs to another source, and the third is out of range. They are replaced, with the last row
dropped, and when two of them cannot be replaced it is the later one that is reported. -/
theorem replaceOneByOne_listed_out_of_order :
    let source := "import a; import b\nx = 1"
    let a := Import.unresolved "a" "a" "import a" ⟨0, 0, 0, 8⟩
    let stale := Import.unresolved "b" "b" "import b" ⟨0, 4, 0, 18⟩
    let outside := Import.unresolved "c" "c" "import c" ⟨9, 0, 9, 8⟩
    let b : Builder := ⟨Config.default, String.length⟩
    let mark (i : Import) : Except String String := .ok (i.statement ++ "\n# seen")
    let refuse (i : Import) : Except String String :=
      if i = outside then mark i else .error i.module
    [outside, a, stale].Perm [a, stale, outside] ∧
      ([outside, a, stale].map (·.span)).Nodup ∧
      b.replaceOneByOne mark source [outside, a, stale] 45 =
        .ok "# Python 3\nimport a\n# seen; import b\n# seen" ∧
      b.replaceOneByOne refuse source [outside, a, stale] 45 = .error "b" := by
  intro source a stale outside b mark refuse
  have hperm : [outside, a, stale].Perm [a, stale, outside] := by decide
  have hspans : ([outside, a, stale].map (·.span)).Nodup := by decide
  have hsorted : Prompt.bottomUp [a, stale, outside] = [outside, stale, a] :=
    Prompt.bottomUp_of_pairwise (by decide)
  refine ⟨hperm, hspans, ?_, ?_⟩
  · rw [b.replaceOneByOne_eq_of_perm mark source hperm hspans 45, replaceOneByOne, hsorted]
    decide +kernel
  · rw [b.replaceOneByOne_eq_of_perm refuse source hperm hspans 45, replaceOneByOne, hsorted]
    decide +kernel

/-- **Which failure is returned:** that of the import with the last span among those that cannot be
replaced. -/
theorem replaceOneByOne_eq_error_iff {ε : Type} (b : Builder) (replace : Import → Except ε String)
    (source : String) {imports : List Import} (hspans : (imports.map (·.span)).Nodup)
    (limit : Nat) (e : ε) :
    b.replaceOneByOne replace source imports limit = .error e ↔
      ∃ i ∈ imports, replace i = .error e ∧
        ∀ j ∈ imports, i.span.le j.span → j ≠ i → ∃ r, replace j = .ok r := by
  have hfails : b.replaceOneByOne replace source imports limit = .error e ↔
      Prompt.spliceAll replace source.toList (Prompt.bottomUp imports) = .error e := by
    unfold replaceOneByOne
    cases Prompt.spliceAll replace source.toList (Prompt.bottomUp imports) with
    | error e' =>
      exact ⟨fun h => congrArg _ (Except.error.inj h), fun h => congrArg _ (Except.error.inj h)⟩
    | ok state => exact ⟨nofun, nofun⟩
  have hmem : ∀ {i}, i ∈ Prompt.bottomUp imports ↔ i ∈ imports :=
    (Prompt.bottomUp_perm imports).mem_iff
  rw [hfails, Prompt.spliceAll_eq_error_iff, List.findSome?_eq_some_iff]
  have hsorted := Prompt.pairwise_bottomUp hspans
  constructor
  · rintro ⟨done, i, rest, hsplit, hi, hdone⟩
    rw [hsplit] at hsorted
    refine ⟨i, hmem.1 (by simp [hsplit]), Prompt.refusal?_eq_some_iff.1 hi, fun j hj hij hne => ?_⟩
    have hj := hmem.2 hj
    rw [hsplit, List.mem_append, List.mem_cons] at hj
    rcases hj with hj | rfl | hj
    · exact Prompt.refusal?_eq_none_iff.1 (hdone j hj)
    · exact absurd rfl hne
    · obtain ⟨hji, hspan⟩ := (List.pairwise_cons.1 (List.pairwise_append.1 hsorted).2.1).1 j hj
      exact absurd (Span.le_antisymm hji hij) hspan
  · rintro ⟨i, hi, hfail, hothers⟩
    obtain ⟨done, rest, hsplit⟩ := List.append_of_mem (hmem.2 hi)
    rw [hsplit] at hsorted
    refine ⟨done, i, rest, hsplit, Prompt.refusal?_eq_some_iff.2 hfail, fun j hj => ?_⟩
    obtain ⟨hij, hspan⟩ := (List.pairwise_append.1 hsorted).2.2 j hj i List.mem_cons_self
    have hj : j ∈ imports := hmem.1 (by simp [hsplit, hj])
    exact Prompt.refusal?_eq_none_iff.2 (hothers j hj hij fun h => hspan (h ▸ rfl))

end Builder
end CompletionPrompt

import CompletionPrompt.Prompt
import CompletionPrompt.Proofs.Budget.Truncation
import CompletionPrompt.Proofs.Span.Order
import CompletionPrompt.Proofs.Span.Substitution

/-!
# Replacing imports in their places

Imports are replaced from the last span to the first, each at its span if its statement still stands
there. Where the spans fit the source and stand apart, an edit never moves what is above it, so the
statement always stands there (`extract_foldr_spliceOne`), the search for its text is never made,
and the finished text is the source with all spans replaced at once
(`foldr_spliceOne_eq_substitute`, `replaceOneByOne_eq_substitute`).
-/

namespace CompletionPrompt

/-- An import stands in a text when its span fits the text and covers its statement, which is not
empty. -/
structure Import.StandsIn (i : Import) (text : List Char) : Prop where
  fits : i.span.Fits text
  statement_eq : i.statement.toList = i.span.extract text
  statement_ne : i.statement ≠ ""

instance (i : Import) (text : List Char) : Decidable (i.StandsIn text) :=
  decidable_of_iff
    (i.span.Fits text ∧ i.statement.toList = i.span.extract text ∧ i.statement ≠ "")
    ⟨fun h => ⟨h.1, h.2.1, h.2.2⟩, fun h => ⟨h.fits, h.statement_eq, h.statement_ne⟩⟩

/-- Of two spans that stand apart and in order, the first ends before the second. -/
theorem Import.StandsIn.endsBefore_of_le {i j : Import} {text : List Char} (hj : j.StandsIn text)
    (hle : i.span.le j.span) (happart : i.span.EndsBefore j.span ∨ j.span.EndsBefore i.span) :
    i.span.EndsBefore j.span := by
  rcases happart with h | h
  · exact h
  · exfalso
    obtain ⟨a, m, b, htext, hspan⟩ := Span.fits_iff.1 hj.fits
    have hback : Text.PlaceLe j.span.stop j.span.start :=
      Text.PlaceLe.trans h (Span.placeLe_start_of_le hle)
    rw [hspan, Span.stop_around, Span.start_around] at hback
    obtain rfl := (Text.placeLe_endOf_append a m).2 hback
    have hempty := hj.statement_eq
    rw [hspan, htext, Span.extract_around] at hempty
    exact hj.statement_ne (String.toList_eq_nil_iff.1 hempty)

namespace Prompt

/-- Imports in the order in which their spans stand in the source. -/
def inSourceOrder (imports : List Import) : List Import :=
  imports.mergeSort fun a b => a.span.le b.span

theorem bottomUp_eq_reverse (imports : List Import) :
    bottomUp imports = (inSourceOrder imports).reverse :=
  rfl

/-- Imports stand apart when of any two one ends before the other. -/
def Apart (imports : List Import) : Prop :=
  imports.Pairwise fun i j => i.span.EndsBefore j.span ∨ j.span.EndsBefore i.span

instance (imports : List Import) : Decidable (Apart imports) :=
  inferInstanceAs (Decidable (List.Pairwise _ _))

theorem mem_inSourceOrder {imports : List Import} {i : Import} :
    i ∈ inSourceOrder imports ↔ i ∈ imports :=
  (List.mergeSort_perm imports _).mem_iff

theorem pairwise_le_inSourceOrder (imports : List Import) :
    (inSourceOrder imports).Pairwise fun i j => i.span.le j.span :=
  List.pairwise_mergeSort
    (fun i j k (hij : i.span.le j.span) (hjk : j.span.le k.span) => Span.le_trans hij hjk)
    (fun i j => Span.le_total i.span j.span) imports

theorem bottomUp_perm (imports : List Import) : (bottomUp imports).Perm imports :=
  (List.reverse_perm _).trans (List.mergeSort_perm imports _)

theorem bottomUp_singleton (i : Import) : bottomUp [i] = [i] := by
  rw [bottomUp, List.mergeSort_singleton, List.reverse_singleton]

/-- Imports are taken from the last span to the first. -/
theorem pairwise_bottomUp {imports : List Import} (hspans : (imports.map (·.span)).Nodup) :
    (bottomUp imports).Pairwise fun i j => j.span.le i.span ∧ j.span ≠ i.span := by
  have hle : (bottomUp imports).Pairwise fun i j => j.span.le i.span := by
    rw [bottomUp_eq_reverse, List.pairwise_reverse]
    exact pairwise_le_inSourceOrder imports
  have hne : ((bottomUp imports).map (·.span)).Nodup :=
    ((bottomUp_perm imports).map _).nodup_iff.2 hspans
  exact hle.and ((List.pairwise_map.1 hne).imp fun hij => Ne.symm hij)

/-- The order in which imports are listed is of no account. -/
theorem inSourceOrder_eq_of_perm {imports ordered : List Import} (hperm : imports.Perm ordered)
    (hordered : ordered.Pairwise fun i j => i.span.le j.span)
    (hspans : ∀ i ∈ imports, ∀ j ∈ imports, i.span.le j.span → j.span.le i.span → i = j) :
    inSourceOrder imports = ordered :=
  List.Perm.eq_of_pairwise
    (fun i j hi hj => hspans i (mem_inSourceOrder.1 hi) j (hperm.mem_iff.2 hj))
    (pairwise_le_inSourceOrder imports) hordered ((List.mergeSort_perm imports _).trans hperm)

/-- In source order, each of several imports that stand apart ends before the next. -/
theorem pairwise_endsBefore_inSourceOrder {text : List Char} {imports : List Import}
    (hstands : ∀ i ∈ imports, i.StandsIn text) (happart : Apart imports) :
    (inSourceOrder imports).Pairwise fun i j => i.span.EndsBefore j.span := by
  have hsorted := pairwise_le_inSourceOrder imports
  have hapart : Apart (inSourceOrder imports) :=
    ((List.mergeSort_perm imports _).pairwise_iff fun h => h.symm).2 happart
  refine (hsorted.and hapart).imp_of_mem fun _ hj h => ?_
  exact (hstands _ (mem_inSourceOrder.1 hj)).endsBefore_of_le h.1 h.2

/-- The spans of imports with the texts that replace them. -/
def edits (f : Import → String) (imports : List Import) : List (Span × List Char) :=
  imports.map fun i => (i.span, (f i).toList)

/-- One import after the other gives way to its text. -/
theorem spliceAll_eq_pure {m : Type → Type} [Monad m] [LawfulMonad m] {replace : Import → m String}
    {f : Import → String} {imports : List Import} (source : List Char)
    (h : ∀ i ∈ imports, replace i = pure (f i)) :
    spliceAll replace source imports =
      pure (imports.foldl (fun text i => spliceOne text i (f i).toList) source, imports.map f) := by
  have hfrom : ∀ (text : List Char) (done : List String),
      imports.foldlM (fun state i => do
        let replacement ← replace i
        return (spliceOne state.1 i replacement.toList, state.2 ++ [replacement])) (text, done) =
      pure (imports.foldl (fun text i => spliceOne text i (f i).toList) text,
        done ++ imports.map f) := by
    induction imports with
    | nil => simp
    | cons i imports ih =>
      intro text done
      simp only [List.foldlM_cons, h i List.mem_cons_self, pure_bind]
      rw [ih fun j hj => h j (List.mem_cons_of_mem _ hj)]
      simp
  exact hfrom source []

theorem spliceOne_of_extract_eq {text : List Char} {i : Import} (r : List Char)
    (h : i.span.extract text = i.statement.toList) : spliceOne text i r = i.span.replace text r :=
  if_pos h

theorem mem_edits {f : Import → String} {imports : List Import} {e : Span × List Char} :
    e ∈ edits f imports ↔ ∃ i ∈ imports, (i.span, (f i).toList) = e := by
  simp [edits]

section InSourceOrder

variable {source : List Char} {f : Import → String}

/-- What imports that stand in a text are replaced by fits the text. -/
theorem fits_of_mem_edits {imports : List Import} (hstands : ∀ i ∈ imports, i.StandsIn source)
    {e : Span × List Char} (he : e ∈ edits f imports) : e.1.Fits source := by
  obtain ⟨i, hi, rfl⟩ := mem_edits.1 he
  exact (hstands i hi).fits

theorem endsBefore_of_mem_edits {s : Span} {imports : List Import}
    (hbefore : ∀ i ∈ imports, s.EndsBefore i.span) {e : Span × List Char}
    (he : e ∈ edits f imports) : s.EndsBefore e.1 := by
  obtain ⟨i, hi, rfl⟩ := mem_edits.1 he
  exact hbefore i hi

/-- **Replacing from the last span to the first replaces all spans at once,** and each import is
still found at its span when everything below it is replaced. -/
theorem foldr_spliceOne_eq_substitute {imports : List Import}
    (hstands : ∀ i ∈ imports, i.StandsIn source)
    (hsorted : imports.Pairwise fun i j => i.span.EndsBefore j.span) :
    imports.foldr (fun i text => spliceOne text i (f i).toList) source =
        Span.substitute source (edits f imports) ∧
      ∀ i below, i :: below <:+ imports →
        i.span.extract (below.foldr (fun i text => spliceOne text i (f i).toList) source) =
          i.statement.toList := by
  induction imports with
  | nil => exact ⟨rfl, fun i below h => absurd (List.suffix_nil.1 h) (List.cons_ne_nil i below)⟩
  | cons i below ih =>
    obtain ⟨hbefore, hsorted⟩ := List.pairwise_cons.1 hsorted
    have hi := hstands i List.mem_cons_self
    have hbelow : ∀ j ∈ below, j.StandsIn source :=
      fun j hj => hstands j (List.mem_cons_of_mem i hj)
    obtain ⟨hfoldr, hthere⟩ := ih hbelow hsorted
    have hfits := fun e (he : e ∈ edits f below) => fits_of_mem_edits hbelow he
    have hends := fun e (he : e ∈ edits f below) => endsBefore_of_mem_edits hbefore he
    have hstill : i.span.extract (Span.substitute source (edits f below)) = i.statement.toList :=
      (Span.extract_substitute hi.fits hfits hends).trans hi.statement_eq.symm
    refine ⟨?_, fun j more hsuffix => ?_⟩
    · rw [List.foldr_cons, hfoldr, spliceOne_of_extract_eq _ hstill,
        Span.replace_substitute hi.fits hfits hends]
      rfl
    · rcases List.suffix_cons_iff.1 hsuffix with h | h
      · obtain ⟨rfl, rfl⟩ := List.cons.inj h
        rw [hfoldr, hstill]
      · exact hthere j more h

end InSourceOrder

/-- The finished text and the replacements, last import first. -/
theorem spliceAll_bottomUp {m : Type → Type} [Monad m] [LawfulMonad m]
    {replace : Import → m String} {f : Import → String} {source : List Char} {imports : List Import}
    (hreplace : ∀ i ∈ imports, replace i = pure (f i))
    (hstands : ∀ i ∈ imports, i.StandsIn source) (hapart : Apart imports) :
    spliceAll replace source (bottomUp imports) =
      pure (Span.substitute source (edits f (inSourceOrder imports)),
        (bottomUp imports).map f) := by
  have hordered : ∀ i ∈ inSourceOrder imports, i.StandsIn source :=
    fun i hi => hstands i (mem_inSourceOrder.1 hi)
  have hbottomUp : ∀ i ∈ bottomUp imports, replace i = pure (f i) :=
    fun i hi => hreplace i (mem_inSourceOrder.1 (List.mem_reverse.1 hi))
  rw [spliceAll_eq_pure _ hbottomUp, bottomUp_eq_reverse, List.foldl_reverse,
    (foldr_spliceOne_eq_substitute hordered
      (pairwise_endsBefore_inSourceOrder hstands hapart)).1]

/-- Every import is found at its span when its turn comes. -/
theorem extract_eq_statement {m : Type → Type} [Monad m] [LawfulMonad m]
    {replace : Import → m String} {f : Import → String} {source : List Char}
    {imports done rest : List Import} {i : Import}
    (hreplace : ∀ i ∈ imports, replace i = pure (f i))
    (hstands : ∀ i ∈ imports, i.StandsIn source) (hapart : Apart imports)
    (hsplit : bottomUp imports = done ++ i :: rest) :
    ∃ text, spliceAll replace source done = pure (text, done.map f) ∧
      i.span.extract text = i.statement.toList := by
  have hsuffix : i :: done.reverse <:+ inSourceOrder imports := by
    refine ⟨rest.reverse, ?_⟩
    rw [← List.reverse_reverse (inSourceOrder imports), ← bottomUp_eq_reverse, hsplit]
    simp
  have hdone : ∀ j ∈ done, replace j = pure (f j) := by
    intro j hj
    have hmem : j ∈ bottomUp imports := hsplit ▸ List.mem_append_left _ hj
    exact hreplace j (mem_inSourceOrder.1 (List.mem_reverse.1 hmem))
  have hordered : ∀ i ∈ inSourceOrder imports, i.StandsIn source :=
    fun i hi => hstands i (mem_inSourceOrder.1 hi)
  refine ⟨_, spliceAll_eq_pure _ hdone, ?_⟩
  rw [← List.reverse_reverse done, List.foldl_reverse]
  exact (foldr_spliceOne_eq_substitute hordered
    (pairwise_endsBefore_inSourceOrder hstands hapart)).2 i _ hsuffix

end Prompt

namespace Builder

/-- A truncated text is a string of the preamble and what a truncation leaves. -/
theorem truncate_eq_append {b : Builder} {text : List Char} {keep : List Nat} {limit : Nat}
    {left : List Char}
    (h : Budget.truncateKeeping b.count (Text.rows text) keep limit b.config.preamble.toList =
      b.config.preamble.toList ++ left) :
    b.truncate text keep limit = b.config.preamble ++ String.ofList left := by
  rw [truncate, h, String.ofList_append, String.ofList_toList]

theorem truncate_of_fits {b : Builder} {text : List Char} {limit : Nat} (keep : List Nat)
    (h : b.count (b.config.preamble ++ String.ofList text) ≤ limit) :
    b.truncate text keep limit = b.config.preamble ++ String.ofList text := by
  refine truncate_eq_append ?_
  have hfits : b.count (String.ofList (b.config.preamble.toList ++
      Text.unrows (Text.rows text))) ≤ limit := by simpa using h
  rw [Budget.truncateKeeping_of_fits keep hfits, Text.unrows_rows]

/-- **Replacing imports in their places is one simultaneous substitution.** Imports may be listed in
any order, share rows or take many, and be replaced by any texts: where they stand in the source and
apart from each other, and the whole text fits the budget, the prompt is the preamble and then the
source with all spans replaced at once. Every statement stands at its span when its turn comes, so
no text is searched for it. -/
theorem replaceOneByOne_eq_substitute {m : Type → Type} [Monad m] [LawfulMonad m] (b : Builder)
    {replace : Import → m String} {f : Import → String} {source : String} {imports : List Import}
    {limit : Nat} (hreplace : ∀ i ∈ imports, replace i = pure (f i))
    (hstands : ∀ i ∈ imports, i.StandsIn source.toList) (hapart : Prompt.Apart imports)
    (hfits : b.count (b.config.preamble ++ String.ofList (Span.substitute source.toList
      (Prompt.edits f (Prompt.inSourceOrder imports)))) ≤ limit) :
    b.replaceOneByOne replace source imports limit =
        pure (b.config.preamble ++ String.ofList (Span.substitute source.toList
          (Prompt.edits f (Prompt.inSourceOrder imports)))) ∧
      ((Prompt.inSourceOrder imports).Pairwise fun i j => i.span.EndsBefore j.span) ∧
      ∀ done i rest, Prompt.bottomUp imports = done ++ i :: rest →
        ∃ text, Prompt.spliceAll replace source.toList done = pure (text, done.map f) ∧
          i.span.extract text = i.statement.toList := by
  refine ⟨?_, Prompt.pairwise_endsBefore_inSourceOrder hstands hapart, fun done i rest hsplit =>
    Prompt.extract_eq_statement hreplace hstands hapart hsplit⟩
  rw [replaceOneByOne, Prompt.spliceAll_bottomUp hreplace hstands hapart, pure_bind]
  simp only [truncate_of_fits _ hfits]

/-- Two imports on one row, the second of them over two rows and listed first. -/
theorem replaceOneByOne_two_on_one_row :
    let source := "import a; from b import (c,\n  d)\nx = 1"
    let imports :=
      [Import.unresolved "b" "b" "from b import (c,\n  d)" ⟨0, 10, 1, 4⟩,
        Import.unresolved "a" "a" "import a" ⟨0, 0, 0, 8⟩]
    let b : Builder := ⟨Config.default, String.length⟩
    let f (i : Import) : String := i.statement ++ "\n# seen"
    (∀ i ∈ imports, i.StandsIn source.toList) ∧ Prompt.Apart imports ∧
      b.replaceOneByOne (m := Id) (fun i => f i) source imports 71 =
        "# Python 3\nimport a\n# seen; from b import (c,\n  d)\n# seen\nx = 1" := by
  intro source imports b f
  have hstands : ∀ i ∈ imports, i.StandsIn source.toList := by decide
  have hapart : Prompt.Apart imports := by decide
  have horder : Prompt.inSourceOrder imports = imports.reverse :=
    Prompt.inSourceOrder_eq_of_perm (List.reverse_perm imports).symm (by decide) (by decide)
  have htext : Span.substitute source.toList (Prompt.edits f imports.reverse) =
      "import a\n# seen; from b import (c,\n  d)\n# seen\nx = 1".toList := by decide
  have hfits : b.count (b.config.preamble ++ String.ofList (Span.substitute source.toList
      (Prompt.edits f (Prompt.inSourceOrder imports)))) ≤ 71 := by
    rw [horder, htext]
    decide
  have hprompt := (@replaceOneByOne_eq_substitute Id _ _ b f f source imports 71
    (fun _ _ => rfl) hstands hapart hfits).1
  refine ⟨hstands, hapart, hprompt.trans ?_⟩
  rw [horder, htext]
  show Config.default.preamble ++ String.ofList _ = _
  decide

end Builder
end CompletionPrompt

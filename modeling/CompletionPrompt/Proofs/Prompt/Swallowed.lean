import CompletionPrompt.Proofs.Prompt.Traced

/-!
# What ends up in a description's comment

Located imports are replaced by inserting their descriptions (`Prompt.finished`). A character of the
source goes on in a description's comment exactly when it stands behind the statement of an import
that got a description, on the last row of that statement (`Prompt.swallows_finished_iff`). So the
description of an import does no harm exactly where nothing but comments stands behind it
(`Builder.build_swallows_iff`).
-/

namespace CompletionPrompt

/-- What stands behind an import's statement on its last row. -/
def Import.behind (i : Import) (source : List Char) : Traced :=
  Traced.firstRow ((Traced.ofSource source).drop (i.stopOffset source))

namespace Prompt

/-- The finished text of imports that have been replaced, in source order. -/
def finished (source : List Char) (placed : List (Import × String)) : Traced :=
  Traced.described (Traced.ofSource source) 0 (insertions source placed)

theorem pairwise_insertions {source : List Char} {placed : List (Import × String)}
    (hsorted : placed.Pairwise fun e e' => e.1.stopOffset source ≤ e'.1.stopOffset source) :
    (0 :: (insertions source placed).map Prod.fst).Pairwise (· ≤ ·) := by
  refine List.pairwise_cons.2 ⟨fun q _ => Nat.zero_le q, ?_⟩
  rw [insertions, List.map_map, List.pairwise_map]
  exact hsorted

/-- **What the finished text swallows.** A character of the source goes on in a description's
comment exactly when it stands behind the statement of an import that has a description. -/
theorem swallows_finished_iff {source : List Char} {placed : List (Import × String)}
    (hsorted : placed.Pairwise fun e e' => e.1.stopOffset source ≤ e'.1.stopOffset source)
    (hplaced : ∀ e ∈ placed, ∃ d, e.2.toList = e.1.statement.toList ++ d ∧ OnCommentRows d)
    {x : Char × Origin} (hx : x.2 ≠ .description) :
    Traced.Swallows (finished source placed) x ↔
      ∃ e ∈ placed, e.2 ≠ e.1.statement ∧ x ∈ e.1.behind source := by
  have hdescription : ∀ e ∈ placed, OnCommentRows (description e.1 e.2) ∧
      (description e.1 e.2 ≠ [] ↔ e.2 ≠ e.1.statement) := by
    intro e he
    obtain ⟨d, hd, hrows⟩ := hplaced e he
    have hdrop : description e.1 e.2 = d := by rw [description, hd, List.drop_left]
    refine ⟨hdrop ▸ hrows, not_congr ?_⟩
    rw [hdrop, ← String.toList_inj, hd, List.append_right_eq_self]
  have hrows : ∀ e ∈ insertions source placed, OnCommentRows e.2 := by
    intro e he
    obtain ⟨e', he', rfl⟩ := List.mem_map.1 he
    exact (hdescription e' he').1
  rw [finished, Traced.swallows_described (fun _ => Traced.ne_description_of_mem_ofSource)
    (pairwise_insertions hsorted) hrows hx]
  constructor
  · rintro ⟨e, he, hne, hx⟩
    obtain ⟨e', he', rfl⟩ := List.mem_map.1 he
    exact ⟨e', he', (hdescription e' he').2.1 hne, hx⟩
  · rintro ⟨e, he, hne, hx⟩
    exact ⟨_, List.mem_map_of_mem he, (hdescription e he).2.2 hne, hx⟩

end Prompt

namespace Builder

/-- The source of a target with its imports replaced, and the replacements, last import first. -/
def spliced (b : Builder) (policy : ReplacementPolicy) (t : Target) (imports : List Import) :
    Action (List Char × List String) :=
  Prompt.spliceAll (b.replacement policy t.path) t.source.toList (Prompt.bottomUp imports)

/-- A prompt that fits its budget is the preamble and the finished text. -/
theorem run_build_of_fits [Source.Parser] {b : Builder} {policy : ReplacementPolicy} {t : Target}
    {imports : List Import} {text : List Char} {replacements : List String} {h h' : Host}
    (hrun : (b.spliced policy t imports).run h = (.ok (text, replacements), h')) {limit : Nat}
    (hfits : b.count (b.config.preamble ++ String.ofList text) ≤ limit) :
    (b.build (.replaceOneByOne policy) t imports limit).run h =
      (.ok (b.config.preamble ++ String.ofList text), h') := by
  rw [spliced] at hrun
  rw [build, replaceOneByOne, Action.run_bind, hrun]
  simp only [Action.run_pure, truncate_of_fits _ hfits]

/-- Describing imports by their declared names does not fail. -/
theorem run_spliced_declaredNames (b : Builder) (t : Target) (imports : List Import) (h : Host) :
    let describe := Declarations.describeImport b.config.indentation b.config.includePrivate
    (b.spliced .declaredNames t imports).run h =
      (.ok ((Prompt.bottomUp imports).foldl
          (fun text i => Prompt.spliceOne text i (describe i).toList) t.source.toList,
        (Prompt.bottomUp imports).map describe), h) := by
  intro describe
  have hpure : b.spliced .declaredNames t imports =
      pure ((Prompt.bottomUp imports).foldl
          (fun text i => Prompt.spliceOne text i (describe i).toList) t.source.toList,
        (Prompt.bottomUp imports).map describe) :=
    Prompt.spliceAll_eq_pure t.source.toList fun _ _ => rfl
  rw [hpure, Action.run_pure]

/-- **When replacing imports swallows code.** Located imports are replaced under either policy; with
declared names that does not fail. The finished text is the source with the descriptions inserted,
and a prompt that fits its budget shows it as it is. A character of the source goes on in the
comment of a description exactly when it stands behind the statement of an import that got one, on
the last row of that statement. So no text of a kind that stands behind statements is swallowed
exactly when no statement that got a description has such text behind it. -/
theorem build_swallows_iff [Source.Parser] [Source.LawfulParser] (b : Builder)
    (policy : ReplacementPolicy) (t : Target) {imports : List Import} (hlocated : ∀ i ∈ imports, i.IsLocated t.source) (h : Host) :
    (policy = .declaredNames → ∃ text replacements,
      (b.spliced policy t imports).run h = (.ok (text, replacements), h)) ∧
    ∀ text replacements h',
      (b.spliced policy t imports).run h = (.ok (text, replacements), h') →
      let source := t.source.toList
      let placed := Prompt.placed imports replacements
      let finished := Prompt.finished source placed
      placed.map Prod.fst = Prompt.inSourceOrder imports ∧
      finished.plain = text ∧
      finished.filter (fun x => x.2 ≠ .description) = Traced.ofSource source ∧
      (∀ limit, b.count (b.config.preamble ++ String.ofList text) ≤ limit →
        (b.build (.replaceOneByOne policy) t imports limit).run h =
          (.ok (b.config.preamble ++ String.ofList text), h')) ∧
      (∀ x : Char × Origin, x.2 ≠ .description →
        (finished.Swallows x ↔ ∃ e ∈ placed, e.2 ≠ e.1.statement ∧ x ∈ e.1.behind source)) ∧
      ∀ P : Source.Kind → Prop,
        (∀ i ∈ imports, ∀ c n kind, (c, .source n kind) ∈ i.behind source → P kind →
          ¬ finished.Swallows (c, .source n kind)) ↔
        ∀ e ∈ placed, e.2 ≠ e.1.statement →
          ∀ c n kind, (c, .source n kind) ∈ e.1.behind source → ¬ P kind := by
  refine ⟨?_, fun text replacements h' hrun => ?_⟩
  · rintro rfl
    exact ⟨_, _, b.run_spliced_declaredNames t imports h⟩
  have hshape : ∀ i ∈ imports, ∀ r h h', (b.replacement policy t.path i).run h = (.ok r, h') →
      ∃ d, r.toList = i.statement.toList ++ d ∧ OnCommentRows d := fun i hi _ _ _ hrun =>
    exists_description (hlocated i hi).not_mem_asName hrun
  obtain ⟨htext, hfst, hsorted, hreplaced⟩ := Prompt.eq_insertFrom_of_run hlocated
    (fun i hi r h h' hrun => by
      obtain ⟨d, hd, -⟩ := hshape i hi r h h' hrun
      exact ⟨d, hd.symm⟩) hrun
  have himports : ∀ e ∈ Prompt.placed imports replacements, e.1 ∈ imports := fun e he =>
    Prompt.mem_inSourceOrder.1 (hfst ▸ List.mem_map_of_mem he)
  have hplaced : ∀ e ∈ Prompt.placed imports replacements,
      ∃ d, e.2.toList = e.1.statement.toList ++ d ∧ OnCommentRows d := by
    intro e he
    obtain ⟨h, h', hrun⟩ := hreplaced e he
    exact hshape e.1 (himports e he) e.2 h h' hrun
  have hswallows := fun (x : Char × Origin) (hx : x.2 ≠ .description) =>
    Prompt.swallows_finished_iff hsorted hplaced hx
  refine ⟨hfst, ?_, ?_, fun limit => run_build_of_fits hrun, hswallows, fun P => ?_⟩
  · rw [Prompt.finished, Traced.plain_described, Traced.plain_ofSource, htext]
  · exact Traced.filter_described (fun _ => Traced.ne_description_of_mem_ofSource)
      (Prompt.pairwise_insertions hsorted)
  · constructor
    · intro hkept e he hne c n kind hx hP
      exact hkept e.1 (himports e he) c n kind hx hP
        ((hswallows _ Origin.noConfusion).2 ⟨e, he, hne, hx⟩)
    · intro hclear i hi c n kind hx hP hswallowed
      obtain ⟨e, he, hne, hbehind⟩ := (hswallows _ Origin.noConfusion).1 hswallowed
      exact hclear e he hne c n kind hbehind hP

/-- A comment behind an import is all that goes on in the comment of the import's description. -/
theorem build_swallows_comment_alone :
    let t : Target := ⟨⟨"/proj/main.py"⟩, "import a  # b\nx = 1", "def f():"⟩
    let i : Import :=
      { Import.unresolved "a" "a" "import a" ⟨0, 0, 0, 8⟩ with
        filename := some ⟨"/proj/a.py"⟩, sourceText := some "def h(): pass\n" }
    let b : Builder := ⟨Config.default, String.length⟩
    let h : Host :=
      { currentDir := ⟨"/"⟩, files := ⟨[]⟩, respond := fun _ => ⟨[], [], .exit 0⟩, calls := [] }
    (∀ j ∈ [i], j.IsLocated t.source) ∧
      ∃ text replacements,
        (b.spliced .declaredNames t [i]).run h = (.ok (text, replacements), h) ∧
        ∀ c n kind, (c, .source n kind) ∈ i.behind t.source.toList → kind.isCode →
          ¬ (Prompt.finished t.source.toList (Prompt.placed [i] replacements)).Swallows
            (c, .source n kind) := by
  intro t i b h
  have hlocated : ∀ j ∈ [i], j.IsLocated t.source := by decide +kernel
  obtain ⟨hruns, hswallows⟩ := build_swallows_iff b .declaredNames t hlocated h
  obtain ⟨text, replacements, hrun⟩ := hruns rfl
  obtain ⟨hfst, -, -, -, -, hkept⟩ := hswallows text replacements h hrun
  have hbehind : (i.behind t.source.toList).map (·.2) =
      [.source 8 .blank, .source 9 .blank, .source 10 .comment, .source 11 .comment,
        .source 12 .comment] := by
    decide +kernel
  have hclear := (hkept fun kind => kind.isCode).2 fun e he _ c n kind hx hcode => by
    have hone : e.1 ∈ Prompt.inSourceOrder [i] := hfst ▸ List.mem_map_of_mem he
    rw [List.mem_singleton.1 (Prompt.mem_inSourceOrder.1 hone)] at hx
    have hkind := List.mem_map_of_mem (f := Prod.snd) hx
    rw [hbehind] at hkind
    simp only [List.mem_cons, Origin.source.injEq, List.not_mem_nil, or_false] at hkind
    rcases hkind with ⟨-, rfl⟩ | ⟨-, rfl⟩ | ⟨-, rfl⟩ | ⟨-, rfl⟩ | ⟨-, rfl⟩ <;> cases hcode
  exact ⟨hlocated, text, replacements, hrun, hclear i (by simp)⟩

/-- A statement behind an import ends up in the comment of the import's description. -/
theorem build_swallows_statement_behind :
    let t : Target := ⟨⟨"/proj/main.py"⟩, "import a; x = 1", "def f():"⟩
    let i : Import :=
      { Import.unresolved "a" "a" "import a" ⟨0, 0, 0, 8⟩ with
        filename := some ⟨"/proj/a.py"⟩, sourceText := some "def h(): pass\n" }
    let b : Builder := ⟨Config.default, String.length⟩
    let h : Host :=
      { currentDir := ⟨"/"⟩, files := ⟨[]⟩, respond := fun _ => ⟨[], [], .exit 0⟩, calls := [] }
    let replaced := "import a\n# module a declares the following functions: h"
    i.IsLocated t.source ∧
      (b.build (.replaceOneByOne .declaredNames) t [i] 1000).run h =
        (.ok
          "# Python 3\nimport a\n# module a declares the following functions: h; x = 1\ndef f():",
          h) ∧
      (Prompt.finished t.source.toList [(i, replaced)]).plain =
        "import a\n# module a declares the following functions: h; x = 1\ndef f():".toList ∧
      ('x', .source 10 .word) ∈ i.behind t.source.toList ∧
      (Prompt.finished t.source.toList [(i, replaced)]).Swallows ('x', .source 10 .word) := by
  intro t i b h replaced
  have hrun := b.run_spliced_declaredNames t [i] h
  have htext : Prompt.spliceOne t.source.toList i (Declarations.describeImport
      b.config.indentation b.config.includePrivate i).toList =
        "import a\n# module a declares the following functions: h; x = 1\ndef f():".toList := by
    decide +kernel
  simp only [Prompt.bottomUp_singleton, List.foldl_cons, List.foldl_nil, htext] at hrun
  refine ⟨by decide +kernel, ?_, by decide +kernel, by decide +kernel, by decide +kernel⟩
  exact run_build_of_fits hrun (by decide +kernel)

end Builder
end CompletionPrompt

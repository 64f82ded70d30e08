import CompletionPrompt.Proofs.Prompt.Blocks
import CompletionPrompt.Proofs.Prompt.Draft

/-!
# Prompts without imports

Where there are no imports, there is nothing to take out of the source, nothing to paste in front of
it and nothing to replace in it. So every strategy but the one that keeps the rows of imports puts
the same draft together: the source, no row of which is to be kept (`Builder.draft_nil`). The
prompts are then the same at every budget and for every way of counting, and nothing is asked of the
host (`Builder.build_without_imports`).
-/

namespace CompletionPrompt

/-- No statement mentions one of no modules. -/
theorem Import.eraseMentioning_nil [Source.Parser] (text : List Char) :
    eraseMentioning [] text = text := by
  simp [eraseMentioning]

namespace Prompt

theorem withoutImports_nil [Source.Parser] (source : String) :
    withoutImports source [] = source.toList :=
  Import.eraseMentioning_nil source.toList

/-- Nothing is put in front of the source, not even a separator. -/
theorem pasted_nil [Source.Parser] (source : String) : pasted source [] = source.toList :=
  withoutImports_nil source

theorem bottomUp_nil : bottomUp [] = [] := by
  simp [bottomUp]

end Prompt

namespace Builder

/-- **Without imports a draft is the source,** with no row to keep, whatever the strategy does with
imports. -/
theorem draft_nil [Source.Parser] (b : Builder) {strategy : Strategy}
    (hstrategy : strategy ≠ .keepImports) (t : Target) : b.draft strategy t [] = pure ⟨t.source.toList, []⟩ := by
  cases strategy with
  | keepImports => exact absurd rfl hstrategy
  | paste => rw [draft, Prompt.pasted_nil]
  | pasteAsComment => rw [draft, Prompt.withoutImports_nil, List.flatMap_nil, List.nil_append]
  | classes => simp only [draft, Prompt.withoutImports_nil, List.flatMap_nil, List.nil_append]
  | replaceOneByOne policy =>
    have hspliced : b.spliced policy t [] = pure (t.source.toList, []) := by
      rw [spliced, Prompt.bottomUp_nil]
      rfl
    have hkeep : (if b.config.keepReplacements then Prompt.rowsOfAll t.source.toList [] else []) =
        [] := ite_self _
    simp only [draft, hspliced, pure_bind, hkeep]

/-- **Without imports the strategies agree.** For every way of counting and every limit there is one
prompt that all strategies but the one that keeps the rows of imports give, and the host is left as
it was: no child process is started. The prompt is the preamble and a last part of the rows of the
source, and rows are missing exactly when preamble and source do not fit the limit. -/
theorem build_without_imports [Source.Parser] (b : Builder) (t : Target) (limit : Nat) (h : Host) :
    ∃ prompt,
      (∀ strategy : Strategy, strategy ≠ .keepImports →
        (b.build strategy t [] limit).run h = (.ok prompt, h)) ∧
      (∃ k ≤ (Text.rows t.source.toList).length,
        prompt = b.config.preamble ++
          String.ofList (Text.unrows ((Text.rows t.source.toList).drop k)) ∧
        (k = 0 ↔ b.count (b.config.preamble ++ t.source) ≤ limit)) ∧
      (b.count (b.config.preamble ++ t.source) ≤ limit →
        prompt = b.config.preamble ++ t.source) := by
  let rs := Text.rows t.source.toList
  let holds := Budget.fits b.count rs [] limit b.config.preamble.toList
  have hzero : holds 0 = true ↔ b.count (b.config.preamble ++ t.source) ≤ limit := by
    have hall : String.ofList (Budget.assemble b.config.preamble.toList rs [] 0) =
        b.config.preamble ++ t.source := by
      rw [Budget.assemble_eq, Budget.dropFree, Text.unrows_rows, String.ofList_append,
        String.ofList_toList, String.ofList_toList]
    simp only [holds, Budget.fits, hall, decide_eq_true_eq]
  have hrows : 0 < rs.length := List.length_pos_of_ne_nil (Text.rows_ne_nil _)
  have hdrop : b.truncate t.source.toList [] limit = b.config.preamble ++
      String.ofList (Text.unrows (rs.drop (Budget.dropCount holds rs.length))) :=
    truncate_eq_append (Budget.truncateKeeping_nil b.count rs limit b.config.preamble.toList)
  refine ⟨b.truncate t.source.toList [] limit, fun strategy hstrategy => ?_,
    ⟨_, (Budget.dropCount_spec holds rs.length).1, hdrop, ?_⟩, fun hfits => ?_⟩
  · rw [build_eq_draft, draft_nil b hstrategy, pure_bind, Action.run_pure]
  · rw [Budget.dropCount_eq_zero_iff hrows, hzero]
  · have hfits' : b.count (b.config.preamble ++ String.ofList t.source.toList) ≤ limit := by
      rwa [String.ofList_toList]
    rw [truncate_of_fits [] hfits', String.ofList_toList]

/-- With a count that is no matter of length, the prompt of one length fits a limit that no shorter
one does. -/
theorem build_without_imports_of_odd_count :
    let t : Target := ⟨⟨"/proj/main.py"⟩, "import a\nx = 1", "def f():"⟩
    let b : Builder := ⟨Config.default, fun s => if s.length = 25 then 0 else s.length⟩
    let h : Host :=
      { currentDir := ⟨"/"⟩, files := ⟨[]⟩, respond := fun _ => ⟨[], [], .exit 0⟩, calls := [] }
    let prompt := "# Python 3\nx = 1\ndef f():"
    Strategy.paste ≠ .keepImports ∧ (b.build .paste t [] 5).run h = (.ok prompt, h) ∧
      Strategy.replaceOneByOne .importAnalysis ≠ .keepImports ∧
      (b.build (.replaceOneByOne .importAnalysis) t [] 5).run h = (.ok prompt, h) := by
  intro t b h prompt
  have hpaste : Strategy.paste ≠ .keepImports := by decide
  have hanalysis : Strategy.replaceOneByOne .importAnalysis ≠ .keepImports := by decide
  obtain ⟨common, hall, -, -⟩ := b.build_without_imports t 5 h
  have hcommon : ((b.build .paste t [] 5).run h).1 = .ok prompt := by decide +kernel
  rw [hall .paste hpaste] at hcommon
  obtain rfl := Except.ok.inj hcommon
  exact ⟨hpaste, hall .paste hpaste, hanalysis, hall _ hanalysis⟩

end Builder
end CompletionPrompt

import CompletionPrompt.Proofs.Budget.Shown
import CompletionPrompt.Proofs.Prompt.Swallowed

/-!
# What a prompt is cut from

A strategy puts a text together and says which of its rows to keep; neither depends on the budget.
This draft is then truncated (`build_eq_draft`), so a prompt is the preamble and the rows of its
draft that are shown (`truncate_eq_rowsAt`). With the builder's own estimate of tokens, a row that
is shown within a budget is shown within every larger one (`build_shows_more`).
-/

namespace CompletionPrompt

/-- A text that a prompt is cut from, and the numbers of its rows to keep. -/
structure Draft where
  text : List Char
  keep : List Nat

namespace Builder

/-- The draft of a target, with its imports shown as a strategy says. -/
def draft [Source.Parser] (b : Builder) (strategy : Strategy) (t : Target)
    (imports : List Import) : Action Draft :=
  let source := t.source
  match strategy with
  | .keepImports => return ⟨source.toList, Source.importRows source.toList⟩
  | .paste => return ⟨Prompt.pasted source imports, []⟩
  | .pasteAsComment =>
    return ⟨imports.flatMap Prompt.commentBlock ++ Prompt.withoutImports source imports, []⟩
  | .classes =>
    let blocks := imports.flatMap (Prompt.classBlock b.config.indentation)
    return ⟨blocks ++ Prompt.withoutImports source imports, []⟩
  | .replaceOneByOne policy => do
    let (text, replacements) ← b.spliced policy t imports
    return ⟨text, if b.config.keepReplacements then Prompt.rowsOfAll text replacements else []⟩

/-- **A prompt is a truncated draft:** the budget has no part in the draft. -/
theorem build_eq_draft [Source.Parser] (b : Builder) (strategy : Strategy) (t : Target)
    (imports : List Import) (limit : Nat) :
    b.build strategy t imports limit = (do
      let d ← b.draft strategy t imports
      return b.truncate d.text d.keep limit) := by
  cases strategy with
  | replaceOneByOne policy =>
    simp only [build, replaceOneByOne, draft, spliced, bind_assoc, pure_bind]
  | _ => rfl

/-- The numbers of the rows of a draft that a prompt shows. -/
def shown (b : Builder) (d : Draft) (limit : Nat) : List Nat :=
  Budget.shownRows b.count (Text.rows d.text) d.keep limit b.config.preamble.toList

theorem pairwise_shown (b : Builder) (d : Draft) (limit : Nat) :
    (b.shown d limit).Pairwise (· < ·) :=
  Budget.pairwise_shownRows

theorem lt_of_mem_shown {b : Builder} {d : Draft} {limit row : Nat} (h : row ∈ b.shown d limit) :
    row < (Text.rows d.text).length :=
  (Budget.mem_shownRows.1 h).1

/-- Rows of a draft, put together, have just these rows. -/
theorem rows_unrows_shown (b : Builder) (d : Draft) {limit : Nat} (hne : b.shown d limit ≠ []) :
    Text.rows (Text.unrows (Budget.rowsAt (Text.rows d.text) (b.shown d limit))) =
      Budget.rowsAt (Text.rows d.text) (b.shown d limit) := by
  refine Text.rows_unrows ?_ fun r hr => ?_
  · rwa [Budget.rowsAt, ne_eq, List.map_eq_nil_iff]
  · exact Text.not_mem_of_mem_rows (Budget.mem_of_mem_rowsAt (fun _ hn => lt_of_mem_shown hn) hr)

/-- A truncated text is the preamble and the rows that are shown. -/
theorem truncate_eq_rowsAt (b : Builder) (d : Draft) (limit : Nat) :
    b.truncate d.text d.keep limit = b.config.preamble ++
      String.ofList (Text.unrows (Budget.rowsAt (Text.rows d.text) (b.shown d limit))) :=
  truncate_eq_append (Budget.truncateKeeping_eq_rowsAt _ _ _ _ _)

/-- A prompt shows rows of the draft that its strategy puts together. -/
theorem run_build_of_draft [Source.Parser] {b : Builder} {strategy : Strategy} {t : Target}
    {imports : List Import} {h h' : Host} {d : Draft}
    (hdraft : (b.draft strategy t imports).run h = (.ok d, h')) (limit : Nat) :
    (b.build strategy t imports limit).run h =
      (.ok (b.config.preamble ++ String.ofList
        (Text.unrows (Budget.rowsAt (Text.rows d.text) (b.shown d limit)))), h') := by
  rw [build_eq_draft, Action.run_bind, hdraft]
  show (pure (b.truncate d.text d.keep limit) : Action String).run h' = _
  rw [Action.run_pure, truncate_eq_rowsAt]

/-- Putting a draft together does not fail where no import is executed. -/
theorem exists_draft [Source.Parser] (b : Builder) {strategy : Strategy}
    (hstrategy : strategy ≠ .replaceOneByOne .importAnalysis) (t : Target) (imports : List Import)
    (h : Host) : ∃ d, (b.draft strategy t imports).run h = (.ok d, h) := by
  cases strategy with
  | replaceOneByOne policy =>
    cases policy with
    | declaredNames =>
      obtain ⟨⟨text, replacements⟩, hrun⟩ :
          ∃ spliced, (b.spliced .declaredNames t imports).run h = (.ok spliced, h) :=
        ⟨_, b.run_spliced_declaredNames t imports h⟩
      let keep := if b.config.keepReplacements then Prompt.rowsOfAll text replacements else []
      refine ⟨⟨text, keep⟩, ?_⟩
      rw [draft, Action.run_bind, hrun]
      rfl
    | importAnalysis => exact absurd rfl hstrategy
  | _ => exact ⟨_, rfl⟩

/-- **A larger budget never shows less.** With the builder's own estimate of tokens and any strategy
that executes no import, the prompt is built at every limit, from a draft that does not depend on
the limit. It is the preamble and some rows of the draft in their order, and each row that is shown
within a limit is shown within every limit that is not smaller. -/
theorem build_shows_more [Source.Parser] {c : Config} {b : Builder} (hb : ofConfig c = .ok b)
    {strategy : Strategy} (hstrategy : strategy ≠ .replaceOneByOne .importAnalysis) (t : Target) (imports : List Import)
    (h : Host) :
    ∃ d, (b.draft strategy t imports).run h = (.ok d, h) ∧
      (∀ limit, (b.build strategy t imports limit).run h =
        (.ok (c.preamble ++ String.ofList
          (Text.unrows (Budget.rowsAt (Text.rows d.text) (b.shown d limit)))), h)) ∧
      (∀ limit, (b.shown d limit).Pairwise (· < ·) ∧
        ∀ row ∈ b.shown d limit, row < (Text.rows d.text).length) ∧
      ∀ m₁ m₂, m₁ ≤ m₂ → b.shown d m₁ ⊆ b.shown d m₂ := by
  obtain ⟨hconfig, hcount⟩ : b.config = c ∧ b.count = Counter.bytesPerToken c.bytesPerToken := by
    unfold ofConfig at hb
    split at hb <;> cases hb
    exact ⟨rfl, rfl⟩
  obtain ⟨d, hdraft⟩ := b.exists_draft hstrategy t imports h
  refine ⟨d, hdraft, fun limit => ?_, fun limit => ?_, fun m₁ m₂ hle => ?_⟩
  · rw [run_build_of_draft hdraft, hconfig]
  · exact ⟨b.pairwise_shown d limit, fun row hrow => lt_of_mem_shown hrow⟩
  · have hshrinks : Budget.Shrinks b.count (Text.rows d.text) d.keep b.config.preamble.toList := by
      rw [hcount]
      exact Budget.shrinks_bytesPerToken _ _ _ _
    exact Budget.shownRows_subset_of_le hshrinks hle

/-- Three budgets for a prompt that keeps an import. -/
theorem build_shows_more_of_keepImports :
    let t : Target := ⟨⟨"/proj/main.py"⟩, "import a\nx = 1\ny = 2", "def f():"⟩
    let b : Builder := ⟨Config.default, Counter.bytesPerToken 4⟩
    let d : Draft := ⟨t.source.toList, [0]⟩
    let h : Host :=
      { currentDir := ⟨"/"⟩, files := ⟨[]⟩, respond := fun _ => ⟨[], [], .exit 0⟩, calls := [] }
    ofConfig Config.default = .ok b ∧ Strategy.keepImports ≠ .replaceOneByOne .importAnalysis ∧
      (b.draft .keepImports t []).run h = (.ok d, h) ∧
      b.shown d 0 = [0] ∧ b.shown d 7 = [0, 3] ∧ b.shown d 8 = [0, 2, 3] ∧
      b.shown d 7 ⊆ b.shown d 8 ∧
      ∀ limit, ∃ prompt, (b.build .keepImports t [] limit).run h = (.ok prompt, h) := by
  intro t b d h
  have hb : ofConfig Config.default = .ok b := rfl
  have hstrategy : Strategy.keepImports ≠ .replaceOneByOne .importAnalysis := by decide
  have hdraft : (b.draft .keepImports t []).run h = (.ok d, h) := by
    have hkeep : Source.importRows t.source.toList = [0] := by decide +kernel
    rw [draft, hkeep, Action.run_pure]
  obtain ⟨d', hdraft', hbuild, -, hmore⟩ := build_shows_more hb hstrategy t [] h
  obtain rfl : d = d' := by
    rw [hdraft] at hdraft'
    cases hdraft'
    rfl
  exact ⟨hb, hstrategy, hdraft, by decide +kernel, by decide +kernel, by decide +kernel,
    hmore 7 8 (by decide), fun limit => ⟨_, hbuild limit⟩⟩

end Builder
end CompletionPrompt

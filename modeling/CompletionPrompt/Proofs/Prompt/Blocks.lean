import CompletionPrompt.Proofs.Prompt.Draft

/-!
# Pasted files stay behind their leads

A pasted file is a block: a first row that names the module, the rows of the file behind a lead
each, and an empty row (`endedRows_block`). A block ends its last row, so blocks and what follows
them share no row (`Text.rows_flatMap_append`). A prompt with pasted files keeps no row and is
therefore cut between rows only, whatever the budget and the way of counting; no row of a pasted
file stands in a prompt without its lead (`build_fences_pasted`).
-/

namespace CompletionPrompt
namespace Text

/-- The rows of a text that a line feed ends. -/
def endedRows (s : List Char) : List (List Char) :=
  (rows s).dropLast

/-- **Texts that end their last rows share no row,** neither with each other nor with what
follows. -/
theorem rows_flatMap_append {α : Type} {f : α → List Char} {as : List α}
    (hended : ∀ a ∈ as, lastRow (f a) = []) (rest : List Char) :
    rows (as.flatMap f ++ rest) = as.flatMap (fun a => endedRows (f a)) ++ rows rest := by
  induction as with
  | nil => rfl
  | cons a as ih =>
    have hrest := ih fun a' ha' => hended a' (List.mem_cons_of_mem a ha')
    rw [List.flatMap_cons, List.append_assoc,
      rows_append_of_lastRow_eq_nil (hended a List.mem_cons_self), hrest, List.flatMap_cons,
      List.append_assoc]
    rfl

end Text

namespace Prompt

/-- A file as a block: a first row, the rows of the file behind a lead each, and an empty row. -/
def block (head : List Char) (lead source : String) : List Char :=
  head ++ ['\n'] ++ withLead lead source ++ ['\n', '\n']

theorem commentBlock_eq (i : Import) :
    commentBlock i = block ("# Content of module ".toList ++ i.asName.toList) "# " i.source :=
  rfl

theorem classBlock_eq (indentation : String) (i : Import) :
    classBlock indentation i =
      block ("class ".toList ++ i.asName.toList ++ [':']) indentation i.source := by
  rw [block, List.append_assoc _ [':'] ['\n']]
  rfl

theorem append_intercalate (lead : List Char) {rs : List (List Char)} (hne : rs ≠ []) :
    lead ++ ('\n' :: lead).intercalate rs = Text.unrows (rs.map (lead ++ ·)) := by
  induction rs with
  | nil => exact absurd rfl hne
  | cons r rs ih =>
    cases rs with
    | nil => simp [Text.unrows]
    | cons r' rs =>
      have hrest := ih (List.cons_ne_nil r' rs)
      rw [Text.unrows, List.map_cons, List.map_cons, List.intercalate_cons_cons,
        List.intercalate_cons_cons, ← List.map_cons, ← Text.unrows, ← hrest]
      simp

/-- Each row of the file stands behind the lead. -/
theorem withLead_eq (lead source : String) :
    withLead lead source =
      Text.unrows ((Text.rows source.toList).map (lead.toList ++ ·)) :=
  append_intercalate lead.toList (Text.rows_ne_nil source.toList)

theorem lastRow_block (head : List Char) (lead source : String) :
    Text.lastRow (block head lead source) = [] := by
  rw [Text.lastRow_eq_nil_iff]
  right
  rw [block, List.getLast?_append_of_ne_nil _ (by simp)]
  rfl

/-- **The rows of a block:** the first row, the rows of the file behind the lead, and an empty
row. -/
theorem endedRows_block {head : List Char} (hhead : '\n' ∉ head) (lead source : String) :
    Text.endedRows (block head lead source) =
      head :: (Text.rows source.toList).flatMap (fun r => Text.rows (lead.toList ++ r)) ++
        [[]] := by
  have hfile : Text.rows (withLead lead source) =
      (Text.rows source.toList).flatMap fun r => Text.rows (lead.toList ++ r) := by
    have hne : (Text.rows source.toList).map (lead.toList ++ ·) ≠ [] := by
      rw [ne_eq, List.map_eq_nil_iff]
      exact Text.rows_ne_nil source.toList
    rw [withLead_eq, Text.rows_unrows_eq_flatMap hne, List.flatMap_map]
  have hrows : Text.rows (block head lead source) =
      (head :: Text.rows (withLead lead source) ++ [[]]) ++ [[]] := by
    have hend : Text.rows ['\n'] = [[], []] := rfl
    rw [block, List.append_assoc, List.append_assoc, List.singleton_append, Text.rows_append_feed,
      Text.rows_append_feed, Text.rows_of_not_mem hhead, hend]
    simp
  rw [Text.endedRows, hrows, List.dropLast_concat, hfile]

/-- A lead of one row makes each row of the file one row. -/
theorem flatMap_rows_append {lead : List Char} (hlead : '\n' ∉ lead) (source : List Char) :
    (Text.rows source).flatMap (fun r => Text.rows (lead ++ r)) =
      (Text.rows source).map (lead ++ ·) := by
  rw [List.map_eq_flatMap]
  refine List.flatMap_congr fun r hr => ?_
  refine Text.rows_of_not_mem fun hmem => ?_
  rcases List.mem_append.1 hmem with h | h
  · exact hlead h
  · exact Text.not_mem_of_mem_rows hr h

/-- **A file in comments** stands behind `# `, and comes back when that is taken away. -/
theorem commentBlock_rows {i : Import} (hname : '\n' ∉ i.asName.toList) :
    ∃ first body, first = "# Content of module ".toList ++ i.asName.toList ∧
      Text.endedRows (commentBlock i) = first :: body ++ [[]] ∧
      (∀ r ∈ first :: body, "# ".toList <+: r) ∧
      body.map (·.drop 2) = Text.rows i.source.toList := by
  have hhead : '\n' ∉ "# Content of module ".toList ++ i.asName.toList := by
    rw [List.mem_append, not_or]
    exact ⟨by decide, hname⟩
  have hrows := endedRows_block hhead "# " i.source
  rw [flatMap_rows_append (by decide), ← commentBlock_eq] at hrows
  refine ⟨_, _, rfl, hrows, fun r hr => ?_, ?_⟩
  · rcases List.mem_cons.1 hr with rfl | hr
    · exact ⟨"Content of module ".toList ++ i.asName.toList, rfl⟩
    · obtain ⟨r, -, rfl⟩ := List.mem_map.1 hr
      exact List.prefix_append _ _
  · rw [List.map_map]
    exact List.map_id _

/-- **A file in a class** stands behind the indentation, row by row. -/
theorem classBlock_rows {i : Import} (hname : '\n' ∉ i.asName.toList) (indentation : String) :
    Text.endedRows (classBlock indentation i) =
      ("class ".toList ++ i.asName.toList ++ [':']) ::
        (Text.rows i.source.toList).flatMap (fun r => Text.rows (indentation.toList ++ r)) ++
          [[]] := by
  have hhead : '\n' ∉ "class ".toList ++ i.asName.toList ++ [':'] := by
    rw [List.mem_append, List.mem_append, not_or, not_or]
    exact ⟨⟨by decide, hname⟩, by decide⟩
  rw [classBlock_eq, endedRows_block hhead]

end Prompt

namespace Builder

/-- Where no row is kept, a prompt is the preamble and a last part of the rows. -/
theorem exists_truncate_eq_drop (b : Builder) (text : List Char) (limit : Nat) :
    ∃ k ≤ (Text.rows text).length, b.truncate text [] limit =
      b.config.preamble ++ String.ofList (Text.unrows ((Text.rows text).drop k)) := by
  obtain ⟨k, hk, heq⟩ := Budget.exists_truncateKeeping_nil b.count (Text.rows text) limit
    b.config.preamble.toList
  exact ⟨k, hk, truncate_eq_append heq⟩

/-- **Pasted files stay fenced, at every budget.** With files pasted as comments or as classes, for
every way of counting and every limit, the prompt is the preamble and a last part of the rows of the
blocks and the source without its imports. No block shares a row with another or with the source.
A block of comments is a comment that names the module, rows that start with `# ` and without it are
the rows of the file, and an empty row. A class is a row that names the module, the rows of the file
behind the indentation, each of them one row if the indentation is, and an empty row. -/
theorem build_fences_pasted [Source.Parser] (b : Builder) (t : Target) {imports : List Import}
    (hnames : ∀ i ∈ imports, '\n' ∉ i.asName.toList) (limit : Nat) (h : Host) :
    let rest := Prompt.withoutImports t.source imports
    let indentation := b.config.indentation
    let commented := imports.flatMap Prompt.commentBlock ++ rest
    let inClasses := imports.flatMap (Prompt.classBlock indentation) ++ rest
    ∃ k ≤ (Text.rows commented).length, ∃ l ≤ (Text.rows inClasses).length,
      (b.build .pasteAsComment t imports limit).run h = (.ok (b.config.preamble ++
        String.ofList (Text.unrows ((Text.rows commented).drop k))), h) ∧
      (b.build .classes t imports limit).run h = (.ok (b.config.preamble ++
        String.ofList (Text.unrows ((Text.rows inClasses).drop l))), h) ∧
      Text.rows commented =
        imports.flatMap (fun i => Text.endedRows (Prompt.commentBlock i)) ++ Text.rows rest ∧
      Text.rows inClasses =
        imports.flatMap (fun i => Text.endedRows (Prompt.classBlock indentation i)) ++
          Text.rows rest ∧
      ∀ i ∈ imports,
        (∃ first body, first = "# Content of module ".toList ++ i.asName.toList ∧
          Text.endedRows (Prompt.commentBlock i) = first :: body ++ [[]] ∧
          (∀ r ∈ first :: body, "# ".toList <+: r) ∧
          body.map (·.drop 2) = Text.rows i.source.toList) ∧
        ∃ first body, first = "class ".toList ++ i.asName.toList ++ [':'] ∧
          Text.endedRows (Prompt.classBlock indentation i) = first :: body ++ [[]] ∧
          body = (Text.rows i.source.toList).flatMap
            (fun r => Text.rows (indentation.toList ++ r)) ∧
          ('\n' ∉ indentation.toList →
            body = (Text.rows i.source.toList).map (indentation.toList ++ ·)) := by
  intro rest indentation commented inClasses
  obtain ⟨k, hk, hcommented⟩ := b.exists_truncate_eq_drop commented limit
  obtain ⟨l, hl, hclasses⟩ := b.exists_truncate_eq_drop inClasses limit
  have hbuild : b.build .pasteAsComment t imports limit =
      pure (b.truncate commented [] limit) := rfl
  have hbuild' : b.build .classes t imports limit = pure (b.truncate inClasses [] limit) := rfl
  refine ⟨k, hk, l, hl, ?_, ?_, ?_, ?_, fun i hi => ⟨?_, ?_⟩⟩
  · rw [hbuild, Action.run_pure, hcommented]
  · rw [hbuild', Action.run_pure, hclasses]
  · exact Text.rows_flatMap_append (fun i _ => Prompt.lastRow_block _ _ _) rest
  · refine Text.rows_flatMap_append (fun i _ => ?_) rest
    rw [Prompt.classBlock_eq]
    exact Prompt.lastRow_block _ _ _
  · exact Prompt.commentBlock_rows (hnames i hi)
  · exact ⟨_, _, rfl, Prompt.classBlock_rows (hnames i hi) indentation, rfl,
      fun hone => Prompt.flatMap_rows_append hone _⟩

/-- A file that ends its last row, and an empty one. -/
theorem build_fences_two_files :
    let t : Target := ⟨⟨"/proj/main.py"⟩, "import a\nx = 1", "def f():"⟩
    let i : Import :=
      { Import.unresolved "a" "a" "import a" ⟨0, 0, 0, 8⟩ with
        filename := some ⟨"/proj/a.py"⟩, sourceText := some "def g():\n\n    pass\n" }
    let j : Import :=
      { Import.unresolved "b" "b" "import b" ⟨1, 0, 1, 8⟩ with
        filename := some ⟨"/proj/b.py"⟩, sourceText := some "" }
    let b : Builder := ⟨Config.default, String.length⟩
    let h : Host :=
      { currentDir := ⟨"/"⟩, files := ⟨[]⟩, respond := fun _ => ⟨[], [], .exit 0⟩, calls := [] }
    let commented := [i, j].flatMap Prompt.commentBlock ++ Prompt.withoutImports t.source [i, j]
    (∀ e ∈ [i, j], '\n' ∉ e.asName.toList) ∧
      (∃ k, (b.build .pasteAsComment t [i, j] 40).run h = (.ok (b.config.preamble ++
        String.ofList (Text.unrows ((Text.rows commented).drop k))), h)) ∧
      Text.rows commented =
        ["# Content of module a".toList, "# def g():".toList, "# ".toList, "#     pass".toList,
          "# ".toList, [], "# Content of module b".toList, "# ".toList, [], [], "x = 1".toList,
          "def f():".toList] := by
  intro t i j b h commented
  have hnames : ∀ e ∈ [i, j], '\n' ∉ e.asName.toList := by decide
  obtain ⟨k, -, _, -, hbuild, -, hrows, -⟩ := b.build_fences_pasted t hnames 40 h
  have hblocks : [i, j].flatMap (fun i => Text.endedRows (Prompt.commentBlock i)) =
      ["# Content of module a".toList, "# def g():".toList, "# ".toList, "#     pass".toList,
        "# ".toList, [], "# Content of module b".toList, "# ".toList, []] := by decide +kernel
  have hrest : Text.rows (Prompt.withoutImports t.source [i, j]) =
      [[], "x = 1".toList, "def f():".toList] := by decide +kernel
  exact ⟨hnames, ⟨k, hbuild⟩, hrows.trans (by rw [hblocks, hrest]; rfl)⟩

end Builder
end CompletionPrompt

import CompletionPrompt.Proofs.Declarations.Listed
import CompletionPrompt.Proofs.Import.Located
import CompletionPrompt.Proofs.Introspection.Cleanup
import CompletionPrompt.Proofs.Text.Pieces

/-!
# What describes an import

Under either policy an import gives way to its statement and comment rows below it (`AddsComments`,
`replacement_adds_comments`): no name in a comment goes over a row end, whether it was found in the
text of a file or reported by a child process.

Seen from the statement, what stands behind it is a description (`exists_description`). It is empty,
or it starts with a line feed and then is rows that are comments each (`OnCommentRows`). So it ends
in an open comment row.
-/

namespace CompletionPrompt

/-- A row that is a comment: it starts with a hash sign and a blank and goes over no row end. -/
def IsCommentRow (row : List Char) : Prop :=
  "# ".toList <+: row ∧ '\n' ∉ row

theorem IsCommentRow.head?_eq {row : List Char} (h : IsCommentRow row) : row.head? = some '#' := by
  obtain ⟨rest, rfl⟩ := h.1
  rfl

/-- A text is a statement, as it stands, and comment rows below it. -/
def AddsComments (statement text : String) : Prop :=
  ∃ comments : List String,
    text = "\n".intercalate (statement :: comments) ∧
    Text.rows text.toList = Text.rows statement.toList ++ comments.map String.toList ∧
    ∀ row ∈ comments, IsCommentRow row.toList

theorem toList_intercalate_feed (statement : String) (comments : List String) :
    ("\n".intercalate (statement :: comments)).toList =
      Text.unrows (statement.toList :: comments.map String.toList) := by
  rw [String.toList_intercalate, List.map_cons]
  rfl

/-- Comment rows stay rows below a statement. -/
theorem addsComments_of_forall {statement : String} {comments : List String}
    (h : ∀ row ∈ comments, IsCommentRow row.toList) :
    AddsComments statement ("\n".intercalate (statement :: comments)) := by
  refine ⟨comments, rfl, ?_, h⟩
  rw [toList_intercalate_feed]
  by_cases hempty : comments = []
  · simp [hempty, Text.unrows]
  · have hne : comments.map String.toList ≠ [] := by simpa using hempty
    have hrows : Text.rows (Text.unrows (comments.map String.toList)) =
        comments.map String.toList := by
      refine Text.rows_unrows hne fun row hrow => ?_
      obtain ⟨comment, hcomment, rfl⟩ := List.mem_map.1 hrow
      exact (h comment hcomment).2
    rw [Text.unrows, List.intercalate_cons_of_ne_nil hne, ← Text.unrows, List.append_assoc,
      List.singleton_append, Text.rows_append_feed, hrows]

theorem addsComments_self (statement : String) : AddsComments statement statement :=
  ⟨[], by simp, by simp, by simp⟩

/-- A description is empty, or it is comment rows behind a line feed. -/
inductive OnCommentRows : List Char → Prop where
  | none : OnCommentRows []
  | rows {rs : List (List Char)} (hne : rs ≠ [])
    (hrows : ∀ row ∈ rs, row.head? = some '#' ∧ '\n' ∉ row) : OnCommentRows ('\n' :: Text.unrows rs)

namespace Declarations

/-! ### Declared names -/

/-- Declared names go over no row end. -/
theorem IsName.newline_not_mem {name : List Char} (h : IsName name) : '\n' ∉ name := fun hfeed =>
  absurd (h.2 '\n' hfeed) (by decide)

theorem isName_of_mem_methodsIn {indentation : List Char} {includePrivate : Bool}
    {rows : List (List Char)} {name : List Char}
    (h : name ∈ methodsIn indentation includePrivate rows) : IsName name := by
  obtain ⟨row, -, hrow⟩ := List.mem_filterMap.1 (List.mem_filter.1 h).1
  split at hrow
  · obtain ⟨⟨found, rest⟩, hfound, rfl⟩ := Option.map_eq_some_iff.1 hrow
    obtain ⟨_, _, -, -, hname, -⟩ := functionHere?_eq_some_iff.1 hfound
    exact hname
  · cases hrow

theorem not_mem_of_mem_functions {indentation source name : String} {includePrivate : Bool}
    (h : name ∈ (ofSource indentation includePrivate source).functions) : '\n' ∉ name.toList := by
  obtain ⟨_, _, _, _, -, -, -, hname, -⟩ := exists_hasFunction h
  exact hname.newline_not_mem

theorem not_mem_of_mem_classes {indentation source : String} {includePrivate : Bool}
    {e : String × List String}
    (h : e ∈ (ofSource indentation includePrivate source).classes) :
    '\n' ∉ e.1.toList ∧ ∀ method ∈ e.2, '\n' ∉ method.toList := by
  refine ⟨?_, fun method hm => ?_⟩
  · obtain ⟨_, _, -, -, hname, -⟩ := exists_hasClass h
    exact hname.newline_not_mem
  · obtain ⟨⟨name, methods⟩, hfound, rfl⟩ := List.mem_map.1 h
    obtain ⟨_, below, _, -, -, rfl⟩ := exists_of_mem_classesFrom hfound
    obtain ⟨chars, hchars, rfl⟩ := List.mem_map.1 hm
    rw [String.toList_ofList]
    exact (isName_of_mem_methodsIn hchars).newline_not_mem

theorem not_mem_intercalate {names : List String} (h : ∀ name ∈ names, '\n' ∉ name.toList) :
    '\n' ∉ [',', ' '].intercalate (names.map String.toList) := by
  intro hfeed
  rcases Text.mem_of_mem_intercalate hfeed with hgap | ⟨chars, hchars, hc⟩
  · exact absurd hgap (by decide)
  · obtain ⟨name, hname, rfl⟩ := List.mem_map.1 hchars
    exact h name hname hc

/-- Names that go over no row end make one comment of each row. -/
theorem comment_of_mem_comments {asName : String} {d : Declarations}
    (hname : '\n' ∉ asName.toList) (hfunctions : ∀ name ∈ d.functions, '\n' ∉ name.toList)
    (hclasses : ∀ e ∈ d.classes, '\n' ∉ e.1.toList ∧ ∀ method ∈ e.2, '\n' ∉ method.toList)
    {row : String} (hrow : row ∈ d.comments asName) : IsCommentRow row.toList := by
  rcases List.mem_append.1 hrow with hrow | hrow
  · split at hrow
    · simp at hrow
    · have hlist := not_mem_intercalate hfunctions
      rw [List.mem_singleton.1 hrow]
      simp [IsCommentRow, hname, hlist]
  · obtain ⟨⟨name, methods⟩, he, rfl⟩ := List.mem_map.1 hrow
    obtain ⟨hclass, hmethods⟩ := hclasses _ he
    have hlist := not_mem_intercalate hmethods
    by_cases hempty : methods = []
    · simp [IsCommentRow, hname, hclass, hempty]
    · simp [IsCommentRow, hname, hclass, hlist, hempty]

end Declarations

/-- Comments below a statement are a description behind it. -/
theorem AddsComments.exists_description {statement text : String}
    (h : AddsComments statement text) :
    ∃ d, text.toList = statement.toList ++ d ∧ OnCommentRows d := by
  obtain ⟨comments, rfl, -, hrows⟩ := h
  by_cases hempty : comments = []
  · exact ⟨[], by simp [hempty], .none⟩
  · refine ⟨'\n' :: Text.unrows (comments.map (·.toList)), ?_, .rows (by simpa using hempty) ?_⟩
    · rw [toList_intercalate_feed, Text.unrows,
        List.intercalate_cons_of_ne_nil (by simpa using hempty)]
      simp [Text.unrows]
    · intro row hrow
      obtain ⟨comment, hcomment, rfl⟩ := List.mem_map.1 hrow
      exact ⟨(hrows comment hcomment).head?_eq, (hrows comment hcomment).2⟩

/-- An import that is described by the names its file declares. -/
theorem Declarations.addsComments {i : Import} (hname : '\n' ∉ i.asName.toList)
    (indentation : String) (includePrivate : Bool) :
    AddsComments i.statement (describeImport indentation includePrivate i) :=
  addsComments_of_forall fun _ hrow => comment_of_mem_comments hname
    (fun _ hf => not_mem_of_mem_functions hf) (fun _ he => not_mem_of_mem_classes he) hrow

namespace Introspection

/-- A text made comments, below a statement. -/
theorem addsComments_commentRows (statement text : String) :
    AddsComments statement (statement ++ "\n" ++ commentRows text) := by
  have hne : (Text.rows text.toList).map (fun row => "# " ++ String.ofList row) ≠ [] := by
    simpa using Text.rows_ne_nil text.toList
  rw [commentRows, ← String.intercalate_cons_of_ne_nil hne]
  refine addsComments_of_forall fun comment hcomment => ?_
  obtain ⟨row, hrow, rfl⟩ := List.mem_map.1 hcomment
  have hfeed := Text.not_mem_of_mem_rows hrow
  rw [String.toList_append, String.toList_ofList]
  exact ⟨List.prefix_append _ _, by simp [hfeed]⟩

/-- An import that is described by what executing it binds, whatever the child process does. -/
theorem addsComments_of_run {c : Config} {dir : Path} {i : Import} {h : Host} {r : String}
    (hrun : ((annotate c dir i).run h).1 = .ok r) : AddsComments i.statement r := by
  rw [run_annotate] at hrun
  rcases hdescribe : (describe c i dir).run h with ⟨e | text, h₁⟩
  · rw [hdescribe] at hrun
    cases hrun
  · rw [hdescribe] at hrun
    obtain rfl := Except.ok.inj hrun
    by_cases hcomment : (if text.isEmpty then "" else commentRows text).isEmpty
    · rw [if_pos hcomment]
      exact addsComments_self i.statement
    · rw [if_neg hcomment]
      have htext : ¬ text.isEmpty := fun htext => hcomment (by simp [htext])
      rw [if_neg htext]
      exact addsComments_commentRows i.statement text

end Introspection

/-- **An import gives way to its statement and a description,** whatever the policy. -/
theorem Builder.exists_description {b : Builder} {policy : ReplacementPolicy} {path : Path}
    {i : Import} (hname : '\n' ∉ i.asName.toList) {h h' : Host} {r : String}
    (hrun : (b.replacement policy path i).run h = (.ok r, h')) :
    ∃ d, r.toList = i.statement.toList ++ d ∧ OnCommentRows d := by
  cases policy with
  | declaredNames =>
    rw [replacement, Action.run_pure] at hrun
    cases hrun
    exact (Declarations.addsComments hname _ _).exists_description
  | importAnalysis =>
    rw [run_replacement] at hrun
    exact (Introspection.addsComments_of_run (congrArg Prod.fst hrun)).exists_description

/-- **An import gives way to its statement and comment rows, and to nothing else.** The import is
what some statement is read as, with any file and any text of it. Described by declared names, under
any indentation and with or without private names, it gives way to that statement as it stands and
rows that start with `# `; and so it does when executing it describes it, whatever the child process
did, if that does not fail. -/
theorem replacement_adds_comments {statement : String} {span : Span} {i : Import}
    (hi : Import.parse? statement span = some i) (filename : Path) (sourceText : String) :
    (∀ indentation includePrivate, AddsComments statement
      (Declarations.describeImport indentation includePrivate
        (i.withResolved filename sourceText))) ∧
    ∀ (c : Config) (dir : Path) (h : Host) (r : String),
      ((Introspection.annotate c dir (i.withResolved filename sourceText)).run h).1 = .ok r →
        AddsComments statement r := by
  have hstatement : (i.withResolved filename sourceText).statement = statement :=
    Import.statement_of_parse? (i := i) hi
  have hname : '\n' ∉ (i.withResolved filename sourceText).asName.toList :=
    Import.not_mem_asName_of_parse? (i := i) hi
  constructor
  · intro indentation includePrivate
    exact hstatement ▸ Declarations.addsComments hname indentation includePrivate
  · intro c dir h r hrun
    exact hstatement ▸ Introspection.addsComments_of_run hrun

/-- A child process reports a name that goes over a row end, and both of its rows are comments. -/
theorem replacement_adds_comments_for_broken_name :
    let statement := "import q.m as m"
    let i : Import := Import.unresolved "q.m" "m" statement ⟨0, 0, 0, 15⟩
    let source := "def f(): pass\nclass C:\n    def g(self): pass\n"
    let c := { Config.default with python := "/bin/py" }
    let report :=
      "__IMPORT_NAMESPACE__ [[\"a\\nb\",\x7b\"kind\":\"object\",\"type_name\":\"int\"\x7d]]"
    let h : Host :=
      { currentDir := ⟨"/p"⟩
        files := ⟨[(["bin"], .directory), (["bin", "py"], .program none), (["p"], .directory)]⟩
        respond := fun _ => ⟨report.toUTF8.toList, [], .exit 0⟩
        calls := [] }
    let declared := Declarations.describeImport "    " false (i.withResolved ⟨"/p/q/m.py"⟩ source)
    let executed := "import q.m as m\n# m adds the objects: a\n# b: int"
    Import.parse? statement ⟨0, 0, 0, 15⟩ = some i ∧
      declared = "import q.m as m\n# module m declares the following functions: f\n" ++
        "# module m declares the class C, which contains the following functions: g" ∧
      AddsComments statement declared ∧
      ((Introspection.annotate c ⟨"/p"⟩ (i.withResolved ⟨"/p/q/m.py"⟩ source)).run h).1 =
        .ok executed ∧
      AddsComments statement executed := by
  intro statement i source c report h declared executed
  have hi : Import.parse? statement ⟨0, 0, 0, 15⟩ = some i := by decide +kernel
  obtain ⟨hdeclared, hexecuted⟩ := replacement_adds_comments hi ⟨"/p/q/m.py"⟩ source
  have hrun : ((Introspection.annotate c ⟨"/p"⟩ (i.withResolved ⟨"/p/q/m.py"⟩ source)).run h).1 =
      .ok executed := by
    decide +kernel
  have htext : declared = "import q.m as m\n# module m declares the following functions: f\n" ++
      "# module m declares the class C, which contains the following functions: g" := by
    decide +kernel
  have hcomments : AddsComments statement executed := hexecuted c ⟨"/p"⟩ h executed hrun
  exact ⟨hi, htext, hdeclared "    " false, hrun, hcomments⟩

end CompletionPrompt

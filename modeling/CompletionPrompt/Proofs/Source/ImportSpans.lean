import CompletionPrompt.Proofs.Source.LayoutTree
import CompletionPrompt.Proofs.Span.Order
import CompletionPrompt.Source.Imports
import Mathlib.Data.List.Sort

/-!
# The spans of import statements

The spans of import statements are listed as a set in order (`setInOrder`), which is told by what it
holds: two lists in order that hold the same are the same. With a lawful parser the import statements
of a source stand one behind another, since no other stands in one, so their spans can be read and
replaced: they fit the source, come in strictly increasing order and stand apart
(`importSpans_pairwise`). The layout parser sets import statements off from what follows them, so what
a span reads starts with a keyword and is no part of a longer word (`importSpans_standAlone`).

In a source without errors an import statement ends as the grammar has it, so what its span reads ends
with no blank (`importSpans_usable`). Spans of top-level statements are among all spans, and the rows
that they take are listed once each, from the first to the last.
-/

namespace CompletionPrompt
namespace Source

/-! ### Sets in order -/

/-- An order that any two are in, one way alone when they differ. -/
structure TotalOrder {α : Type} (le : α → α → Bool) : Prop where
  trans {a b c : α} : le a b → le b c → le a c
  total (a b : α) : le a b || le b a
  antisymm {a b : α} : le a b → le b a → a = b

theorem totalOrder_spans : TotalOrder Span.le where
  trans := Span.le_trans
  total := Span.le_total
  antisymm := Span.le_antisymm

theorem totalOrder_rows : TotalOrder Nat.ble where
  trans hab hbc := by
    rw [Nat.ble_eq] at *
    omega
  total a b := by
    rw [Bool.or_eq_true, Nat.ble_eq, Nat.ble_eq]
    omega
  antisymm hab hba := by
    rw [Nat.ble_eq] at *
    omega

/-- **A set in order is told by what it holds:** one that holds less is part of the other. -/
theorem sublist_of_subset {α : Type} {le : α → α → Bool} (h : TotalOrder le) {xs ys : List α}
    (hxs : xs.Pairwise fun a b => le a b = true ∧ a ≠ b)
    (hys : ys.Pairwise fun a b => le a b = true ∧ a ≠ b) (hsub : xs ⊆ ys) : xs.Sublist ys := by
  have hantisymm : Std.Antisymm fun a b : α => le a b = true ∧ a ≠ b :=
    ⟨fun _ _ hab hba => h.antisymm hab.1 hba.1⟩
  have hnodup : xs.Nodup := hxs.imp And.right
  exact List.sublist_of_subperm_of_pairwise (List.subperm_of_subset hnodup hsub) hxs hys

section
variable {α : Type} [DecidableEq α] {le : α → α → Bool}

theorem mem_insertInOrder {x y : α} {ys : List α} :
    y ∈ insertInOrder le x ys ↔ y = x ∨ y ∈ ys := by
  induction ys with
  | nil => simp [insertInOrder]
  | cons z zs ih =>
    rw [insertInOrder]
    split
    · rename_i heq
      rw [heq]
      simp
    split
    · exact List.mem_cons
    · rw [List.mem_cons, ih, List.mem_cons]
      exact or_left_comm

theorem mem_setInOrder {y : α} {xs : List α} : y ∈ setInOrder le xs ↔ y ∈ xs := by
  have hfold : ∀ set : List α,
      y ∈ xs.foldl (fun set x => insertInOrder le x set) set ↔ y ∈ xs ∨ y ∈ set := by
    induction xs with
    | nil => simp
    | cons x xs ih =>
      intro set
      rw [List.foldl_cons, ih, mem_insertInOrder, List.mem_cons]
      tauto
  simpa [setInOrder] using hfold []

/-- One more keeps a set in order. -/
theorem pairwise_insertInOrder (h : TotalOrder le) {ys : List α}
    (hys : ys.Pairwise fun a b => le a b = true ∧ a ≠ b) (x : α) :
    (insertInOrder le x ys).Pairwise fun a b => le a b = true ∧ a ≠ b := by
  induction ys with
  | nil => exact List.pairwise_singleton _ _
  | cons y ys ih =>
    obtain ⟨hy, hrest⟩ := List.pairwise_cons.1 hys
    rw [insertInOrder]
    split
    · exact hys
    rename_i hne
    split
    · rename_i hle
      refine List.pairwise_cons.2 ⟨fun z hz => ?_, hys⟩
      rcases List.mem_cons.1 hz with rfl | hz
      · exact ⟨hle, hne⟩
      · obtain ⟨hyz, hyne⟩ := hy z hz
        refine ⟨h.trans hle hyz, ?_⟩
        rintro rfl
        exact hne (h.antisymm hle hyz)
    · rename_i hnot
      have hle : le y x = true := (Bool.or_eq_true_iff.1 (h.total x y)).resolve_left hnot
      refine List.pairwise_cons.2 ⟨fun z hz => ?_, ih hrest⟩
      rcases mem_insertInOrder.1 hz with rfl | hz
      · exact ⟨hle, Ne.symm hne⟩
      · exact hy z hz

theorem pairwise_setInOrder (h : TotalOrder le) (xs : List α) :
    (setInOrder le xs).Pairwise fun a b => le a b = true ∧ a ≠ b := by
  have hfold : ∀ set : List α, (set.Pairwise fun a b => le a b = true ∧ a ≠ b) →
      (xs.foldl (fun set x => insertInOrder le x set) set).Pairwise
        fun a b => le a b = true ∧ a ≠ b := by
    induction xs with
    | nil => exact fun _ hset => hset
    | cons x xs ih => exact fun set hset => ih _ (pairwise_insertInOrder h hset x)
  exact hfold [] .nil

end

/-! ### Import statements -/

theorem mem_imports_wholeSource {t n : Tree} :
    n ∈ t.imports .wholeSource ↔ n ∈ t.nodes ∧ n.isImport = true :=
  List.mem_filter

/-- Import statements of every scope are import statements. -/
theorem imports_subset (t : Tree) (scope : Scope) : t.imports scope ⊆ t.imports .wholeSource := by
  cases scope with
  | wholeSource => exact List.Subset.refl _
  | topLevel =>
    intro n hn
    obtain ⟨m, hm, hn⟩ := List.mem_flatMap.1 hn
    obtain ⟨hn, himport⟩ := List.mem_filter.1 hn
    exact mem_imports_wholeSource.2
      ⟨Tree.nodes_subset (List.mem_filter.1 hm).1 (Tree.mem_nodes_of_mem_children hn), himport⟩

section
variable [Parser] {text : List Char}

theorem mem_importSpans_iff {scope : Scope} {span : Span} :
    span ∈ importSpans scope text ↔ ∃ n ∈ (parse text).imports scope, n.span = span := by
  rw [importSpans, mem_setInOrder, List.mem_map]

theorem mem_importRows_iff {row : Nat} :
    row ∈ importRows text ↔
      ∃ span ∈ importSpans .topLevel text, span.startRow ≤ row ∧ row ≤ span.endRow := by
  rw [importRows, mem_setInOrder, List.mem_flatMap]
  simp only [Span.mem_rowList_iff]

/-- The rows of top-level imports are listed from the first to the last. -/
theorem pairwise_importRows (text : List Char) : (importRows text).Pairwise (· < ·) := by
  refine (pairwise_setInOrder totalOrder_rows _).imp fun {a b} hab => ?_
  have hle := Nat.le_of_ble_eq_true hab.1
  have hne := hab.2
  omega

/-- Top-level import statements are import statements. -/
theorem importSpans_topLevel_sublist (text : List Char) :
    (importSpans .topLevel text).Sublist (importSpans .wholeSource text) := by
  refine sublist_of_subset totalOrder_spans (pairwise_setInOrder totalOrder_spans _)
    (pairwise_setInOrder totalOrder_spans _) fun span hspan => ?_
  obtain ⟨n, hn, rfl⟩ := mem_importSpans_iff.1 hspan
  exact mem_importSpans_iff.2 ⟨n, imports_subset _ _ hn, rfl⟩

end

section
variable [Parser] [LawfulParser] {text : List Char}

/-- Of two import statements one stops before the other starts. -/
theorem apart_of_isImport {m n : Tree} (hm : m ∈ (parse text).nodes) (hn : n ∈ (parse text).nodes)
    (hmi : m.isImport = true) (hni : n.isImport = true) (hne : m ≠ n) :
    m.stop.offset ≤ n.start.offset ∨ n.stop.offset ≤ m.start.offset := by
  have hbelow : ∀ {a b : Tree}, b ∈ (parse text).nodes → a.isImport = true → b.isImport = true →
      a ≠ b → a ∉ b.nodes := fun {a b} hb ha hbi hab hmem => by
    rw [Tree.nodes_eq, List.mem_cons] at hmem
    have hnot := LawfulParser.import_apart hb hbi a (hmem.resolve_left hab)
    rw [ha] at hnot
    cases hnot
  have hnested : ∀ n ∈ (parse text).nodes, n.IsNested := fun n hn =>
    (LawfulParser.standsIn hn).toIsNested
  rcases Tree.IsNested.below_or_apart hnested hm hn with h | h | h
  · exact absurd h (hbelow hn hmi hni hne)
  · exact absurd h (hbelow hm hni hmi (Ne.symm hne))
  · exact h

/-- **The spans of import statements come in strictly increasing order and stand apart.** -/
theorem importSpans_increasing (scope : Scope) (text : List Char) :
    (importSpans scope text).Pairwise fun a b => a.le b = true ∧ a ≠ b ∧ a.EndsBefore b := by
  refine (pairwise_setInOrder totalOrder_spans _).imp_of_mem fun {a b} ha hb hab => ?_
  obtain ⟨hle, hne⟩ := hab
  refine ⟨hle, hne, ?_⟩
  obtain ⟨m, hm, rfl⟩ := mem_importSpans_iff.1 ha
  obtain ⟨n, hn, rfl⟩ := mem_importSpans_iff.1 hb
  obtain ⟨hm, hmi⟩ := mem_imports_wholeSource.1 (imports_subset _ _ hm)
  obtain ⟨hn, hni⟩ := mem_imports_wholeSource.1 (imports_subset _ _ hn)
  have hmIn := LawfulParser.standsIn hm
  have hnIn := LawfulParser.standsIn hn
  rcases apart_of_isImport hm hn hmi hni (fun h => hne (congrArg Tree.span h)) with h | h
  · exact (hmIn.endsBefore_iff hnIn).2 h
  · -- the second would come first
    have hroom := hnIn.not_placeLe_span (LawfulParser.import_room hn hni)
    obtain ⟨hge, -⟩ := ((hnIn.endsBefore_iff hmIn).2 h).le_of_lt hroom
    exact absurd (Span.le_antisymm hle hge) hne

theorem importSpans_pairwise (scope : Scope) (text : List Char) :
    (importSpans scope text).Pairwise Span.EndsBefore :=
  (importSpans_increasing scope text).imp fun h => h.2.2

/-- The span of an import statement is that of a stretch of the source that is not empty. -/
theorem exists_stretch_of_mem_importSpans {scope : Scope} {span : Span}
    (h : span ∈ importSpans scope text) :
    ∃ before covered after, text = before ++ covered ++ after ∧ span = Span.around before covered ∧
      covered ≠ [] := by
  obtain ⟨n, hn, rfl⟩ := mem_importSpans_iff.1 h
  obtain ⟨hn, himport⟩ := mem_imports_wholeSource.1 (imports_subset _ _ hn)
  have hroom := LawfulParser.import_room hn himport
  obtain ⟨before, covered, after, htext, hspan, -, hstart, hstop⟩ :=
    (LawfulParser.standsIn hn).exists_around
  refine ⟨before, covered, after, htext, hspan, ?_⟩
  rintro rfl
  rw [hstart, hstop, List.append_nil] at hroom
  exact absurd hroom (Nat.lt_irrefl _)

theorem fits_of_mem_importSpans {scope : Scope} {span : Span} (h : span ∈ importSpans scope text) :
    span.Fits text := by
  obtain ⟨before, covered, after, rfl, rfl, -⟩ := exists_stretch_of_mem_importSpans h
  exact Span.fits_around before covered after

end

/-- A span of a stretch of a text that starts with a keyword of import statements and is set off from
what follows. -/
def StandsAlone (text : List Char) (span : Span) : Prop :=
  ∃ before covered after, text = before ++ covered ++ after ∧ span = Span.around before covered ∧
    ("import".toList <+: covered ∨ "from".toList <+: covered) ∧
    ∀ c ∈ after.head?, isWordChar c = false

theorem StandsAlone.fits {text : List Char} {span : Span} (h : StandsAlone text span) :
    span.Fits text := by
  obtain ⟨before, covered, after, rfl, rfl, -⟩ := h
  exact Span.fits_around before covered after

/-- What starts with a node that is written with a keyword starts with the keyword. -/
theorem keyword_prefix {text : List Char} {k n : Tree} (hn : ∀ m ∈ n.nodes, m.IsNested)
    (hk : k ∈ n.children.head?) (hstart : k.start = n.start)
    (htext : k.textIn text ∈ Tree.keywordTexts) :
    "import".toList <+: n.textIn text ∨ "from".toList <+: n.textIn text := by
  have hkn : k ∈ n.children := List.mem_of_mem_head? hk
  have hstop := (Tree.IsNested.le_of_mem_nodes hn (Tree.mem_nodes_of_mem_children hkn)).2
  have hprefix := Tree.textIn_prefix hstart hstop text
  rw [Tree.keywordTexts, List.mem_cons, List.mem_singleton] at htext
  rcases htext with htext | htext <;> rw [htext] at hprefix
  · exact .inl hprefix
  · exact .inr hprefix

/-- **Import statements of a layout stand alone in their source.** -/
theorem importSpans_standAlone {text : List Char} {scope : Scope} {span : Span}
    (h : span ∈ importSpans scope text) : StandsAlone text span := by
  obtain ⟨n, hn, rfl⟩ := mem_importSpans_iff.1 h
  obtain ⟨hn, himport⟩ := mem_imports_wholeSource.1 (imports_subset _ _ hn)
  obtain ⟨⟨k, hk, hstart, hkeyword⟩, hbehind⟩ := edges_of_isImport hn himport
  have hnested : ∀ m ∈ n.nodes, m.IsNested := fun m hm =>
    (LawfulParser.standsIn (Tree.nodes_subset hn hm)).toIsNested
  have hprefix := keyword_prefix hnested hk hstart hkeyword
  obtain ⟨before, covered, after, rfl, hspan, htext, -, hstop⟩ :=
    (LawfulParser.standsIn hn).exists_around
  rw [hstop, List.drop_left] at hbehind
  rw [htext] at hprefix
  exact ⟨before, covered, after, rfl, hspan, hprefix, hbehind⟩

/-! ### Sources without errors -/

/-- An import statement stops with a token that is written with something other than blanks, as the
grammar has it. -/
theorem exists_last_token {text : List Char} {t n : Tree} (hrules : t.KeepsEdgeRules text)
    (hn : n ∈ t.nodes) (himport : n.isImport = true) :
    ∃ k ∈ n.tokens.getLast?, k.stop = n.stop ∧ k.textIn text ≠ [] ∧
      (k.textIn text).any Text.isBlank = false := by
  obtain ⟨k, hk, hstop, hlast⟩ := hrules.import_last n hn himport
  refine ⟨k, hk, hstop, ?_⟩
  rcases hlast with hkind | hclosing
  · have hkn := (Tree.mem_tokens_iff.1 (List.mem_of_getLast? hk)).1
    exact hrules.identifier k (Tree.nodes_subset hn hkn) hkind
  · have hclosings : ∀ s ∈ Tree.closingTexts, s ≠ [] ∧ s.any Text.isBlank = false := by
      decide
    exact hclosings _ hclosing

theorem not_isBlank_of_getLast? {text : List Char} {t n : Tree}
    (hnested : ∀ m ∈ t.nodes, m.IsNested) (hrules : t.KeepsEdgeRules text) (hn : n ∈ t.nodes)
    (himport : n.isImport = true) : ∀ c ∈ (n.textIn text).getLast?, Text.isBlank c = false := by
  obtain ⟨k, hk, hstop, hne, hword⟩ := exists_last_token hrules hn himport
  have hkn := (Tree.mem_tokens_iff.1 (List.mem_of_getLast? hk)).1
  have hstart := (Tree.IsNested.le_of_mem_nodes
    (fun m hm => hnested m (Tree.nodes_subset hn hm)) hkn).1
  obtain ⟨front, hfront⟩ := Tree.textIn_suffix hstop hstart text
  intro c hc
  rw [← hfront, List.getLast?_append, List.getLast?_eq_some_getLast hne, Option.some_or] at hc
  exact Bool.eq_false_iff.2 (List.any_eq_false.1 hword c (Option.some.inj hc ▸ List.getLast_mem hne))

/-- **The spans of import statements can be edited.** In a source without errors they come in strictly
increasing order and stand apart. Each fits the source, and what it reads starts with `import` or `from`
and ends with no blank. The spans of top-level import statements are among them, and the rows listed
for these are just the rows that they take, in order. -/
theorem importSpans_usable [Parser] [LawfulParser] [GrammaticalParser] {text : List Char}
    (hfree : (parse text).ErrorFree) :
    (importSpans .wholeSource text).Pairwise
      (fun a b => a.le b = true ∧ a ≠ b ∧ a.EndsBefore b) ∧
    (∀ span ∈ importSpans .wholeSource text, span.Fits text ∧
      ("import".toList <+: span.extract text ∨ "from".toList <+: span.extract text) ∧
      ∀ c ∈ (span.extract text).getLast?, Text.isBlank c = false) ∧
    (importSpans .topLevel text).Sublist (importSpans .wholeSource text) ∧
    (importRows text).Pairwise (· < ·) ∧
    ∀ n, n ∈ importRows text ↔
      ∃ span ∈ importSpans .topLevel text, span.startRow ≤ n ∧ n ≤ span.endRow := by
  refine ⟨importSpans_increasing .wholeSource text, fun span hspan => ?_,
    importSpans_topLevel_sublist text, pairwise_importRows text, fun n => mem_importRows_iff⟩
  have hrules := GrammaticalParser.grammatical hfree
  have hnested : ∀ m ∈ (parse text).nodes, m.IsNested := fun m hm =>
    (LawfulParser.standsIn hm).toIsNested
  obtain ⟨n, hn, rfl⟩ := mem_importSpans_iff.1 hspan
  obtain ⟨hn, himport⟩ := mem_imports_wholeSource.1 hn
  obtain ⟨k, hk, hstart, hkeyword⟩ := hrules.import_first n hn himport
  rw [(LawfulParser.standsIn hn).extract_span]
  exact ⟨(LawfulParser.standsIn hn).fits_span,
    keyword_prefix (fun m hm => hnested m (Tree.nodes_subset hn hm)) hk hstart hkeyword,
    not_isBlank_of_getLast? hnested hrules.toKeepsEdgeRules hn himport⟩

/-- Imports behind a byte order mark, in brackets over three rows with a carriage return behind them,
and in a suite with a continuation; one in a comment is none. -/
theorem importSpans_usable_of_awkward :
    let text := ("\uFEFFimport os; from é import (a,\n  # import x\n  b) \r\nif x:\n" ++
      "\timport a . b \\\n  as c").toList
    let first : Span := ⟨0, 3, 0, 12⟩
    let second : Span := ⟨0, 14, 2, 4⟩
    let third : Span := ⟨4, 1, 5, 6⟩
    (parse text).ErrorFree ∧ importSpans .wholeSource text = [first, second, third] ∧
      [first, second, third].Pairwise (fun a b => a.le b = true ∧ a ≠ b ∧ a.EndsBefore b) ∧
      second.Fits text ∧ second.extract text = "from é import (a,\n  # import x\n  b)".toList ∧
      (∀ c ∈ (second.extract text).getLast?, Text.isBlank c = false) ∧
      (importSpans .topLevel text).Sublist [first, second, third] ∧
      importSpans .topLevel text = [first, second] ∧ importRows text = [0, 1, 2] ∧
      (1 ∈ importRows text ↔
        ∃ span ∈ importSpans .topLevel text, span.startRow ≤ 1 ∧ 1 ≤ span.endRow) := by
  intro text first second third
  obtain ⟨hfree, hall, htop, hlist⟩ : (parse text).ErrorFree ∧
      importSpans .wholeSource text = [first, second, third] ∧
      importSpans .topLevel text = [first, second] ∧ importRows text = [0, 1, 2] := by
    decide +kernel
  obtain ⟨hpairwise, hread, hsublist, -, hrows⟩ := importSpans_usable hfree
  rw [hall] at hpairwise hread hsublist
  obtain ⟨hfits, -, hlast⟩ := hread second (by simp)
  exact ⟨hfree, hall, hpairwise, hfits, by decide +kernel, hlast, hsublist, htop, hlist, hrows 1⟩

end Source
end CompletionPrompt

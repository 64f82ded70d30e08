import CompletionPrompt.Proofs.Budget.Least

/-!
# Which rows a truncation shows

A truncation is its lead and the rows that it shows, by their numbers in the text
(`truncateKeeping_eq_rowsAt`). Rows that are kept and stand one after the other in the text do so in
what is shown (`range'_infix_shownRows`), at every limit and for every way of counting. Where no row
is kept, the rows shown are a last part of the rows (`exists_truncateKeeping_nil`).
-/

namespace CompletionPrompt
namespace Budget

/-- The numbers of the rows that a truncation shows. -/
def shownRows (count : Counter) (rs : List (List Char)) (keep : List Nat) (limit : Nat)
    (lead : List Char) : List Nat :=
  (List.range rs.length).filter (!(droppedRows count rs keep limit lead).contains ·)

/-- The rows of some numbers. -/
def rowsAt (rs : List (List Char)) (numbers : List Nat) : List (List Char) :=
  numbers.map fun n => rs.getD n []

theorem without_eq_rowsAt (cut : List Nat) (rs : List (List Char)) :
    without cut rs = rowsAt rs ((List.range rs.length).filter (!cut.contains ·)) := by
  have hrows : rs.zipIdx = (List.range rs.length).map fun n => (rs.getD n [], n) := by
    refine List.ext_getElem (by simp) fun n hn _ => ?_
    have hlt : n < rs.length := by simpa using hn
    simp [hlt]
  rw [without, hrows, List.filter_map, List.map_map]
  rfl

/-- A truncation is the lead and the rows that it shows. -/
theorem truncateKeeping_eq_rowsAt (count : Counter) (rs : List (List Char)) (keep : List Nat)
    (limit : Nat) (lead : List Char) :
    truncateKeeping count rs keep limit lead =
      lead ++ Text.unrows (rowsAt rs (shownRows count rs keep limit lead)) := by
  rw [truncateKeeping_eq_without, without_eq_rowsAt]
  rfl

variable {count : Counter} {rs : List (List Char)} {keep : List Nat} {limit : Nat}
  {lead : List Char}

theorem mem_shownRows {n : Nat} :
    n ∈ shownRows count rs keep limit lead ↔
      n < rs.length ∧ n ∉ droppedRows count rs keep limit lead := by
  simp [shownRows]

theorem pairwise_shownRows : (shownRows count rs keep limit lead).Pairwise (· < ·) :=
  List.pairwise_lt_range.sublist List.filter_sublist

/-- **A higher limit shows more:** each row that a lower limit shows is shown. -/
theorem shownRows_subset_of_le (h : Shrinks count rs keep lead) {m n : Nat} (hle : m ≤ n) :
    shownRows count rs keep m lead ⊆ shownRows count rs keep n lead := by
  intro row hrow
  obtain ⟨hlt, hshown⟩ := mem_shownRows.1 hrow
  exact mem_shownRows.2 ⟨hlt, fun hdropped => hshown (droppedRows_subset_of_le h hle hdropped)⟩

theorem range_eq_append {first size all : Nat} (h : first + size ≤ all) :
    List.range all = List.range first ++ List.range' first size ++
      List.range' (first + size) (all - (first + size)) := by
  have hfront : List.range first ++ List.range' first size = List.range (first + size) := by
    rw [List.range_eq_range', List.range_eq_range', ← List.range'_append_1, Nat.zero_add]
  have hall := @List.range'_append_1 0 (first + size) (all - (first + size))
  rw [Nat.zero_add, Nat.add_sub_cancel' h, ← List.range_eq_range', ← List.range_eq_range'] at hall
  rw [hfront, hall]

/-- Rows to keep that stand one after the other are shown one after the other. -/
theorem range'_infix_shownRows {first size : Nat} (hrange : first + size ≤ rs.length)
    (hkeep : ∀ n ∈ List.range' first size, n ∈ keep) :
    List.range' first size <:+: shownRows count rs keep limit lead := by
  have hshown : (List.range' first size).filter
      (!(droppedRows count rs keep limit lead).contains ·) = List.range' first size := by
    refine List.filter_eq_self.2 fun n hn => ?_
    have hnot : n ∉ droppedRows count rs keep limit lead := fun hdropped =>
      not_mem_keep_of_mem_droppedRows hdropped (hkeep n hn)
    simpa using hnot
  rw [shownRows, range_eq_append hrange, List.filter_append, List.filter_append, hshown]
  exact List.infix_append _ _ _

theorem rowsAt_infix {ms ns : List Nat} (h : ms <:+: ns) : rowsAt rs ms <:+: rowsAt rs ns :=
  h.map _

/-- The rows of the numbers from some row on. -/
theorem rowsAt_range' (before rs after : List (List Char)) :
    rowsAt (before ++ rs ++ after) (List.range' before.length rs.length) = rs := by
  refine List.ext_getElem (by simp [rowsAt]) fun n hn hn' => ?_
  simp [rowsAt, List.getElem?_append_right, List.getElem?_append_left hn', hn']

theorem mem_of_mem_rowsAt {numbers : List Nat} (hlt : ∀ n ∈ numbers, n < rs.length)
    {r : List Char} (hr : r ∈ rowsAt rs numbers) : r ∈ rs := by
  obtain ⟨n, hn, rfl⟩ := List.mem_map.1 hr
  have hrow : rs.getD n [] = rs.get ⟨n, hlt n hn⟩ := by simp [hlt n hn]
  rw [hrow]
  exact List.get_mem _ _

/-! ### Where no row is kept -/

theorem dropFree_nil (first dropped : Nat) (rs : List (List Char)) :
    dropFree [] first dropped rs = rs.drop dropped := by
  induction rs generalizing first dropped with
  | nil => cases dropped <;> simp [dropFree]
  | cons r rs ih => cases dropped <;> simp [dropFree, ih]

theorem truncateKeeping_nil (count : Counter) (rs : List (List Char)) (limit : Nat)
    (lead : List Char) :
    truncateKeeping count rs [] limit lead =
      lead ++ Text.unrows (rs.drop (dropCount (fits count rs [] limit lead) rs.length)) := by
  have hall : (droppable rs.length []).length = rs.length := by simp [droppable]
  show assemble lead rs [] (dropCount (fits count rs [] limit lead)
    (droppable rs.length []).length) = _
  rw [hall, assemble_eq, dropFree_nil]

/-- **Where no row is kept,** a truncation is its lead and a last part of the rows. -/
theorem exists_truncateKeeping_nil (count : Counter) (rs : List (List Char)) (limit : Nat)
    (lead : List Char) :
    ∃ k ≤ rs.length, truncateKeeping count rs [] limit lead = lead ++ Text.unrows (rs.drop k) :=
  ⟨_, (dropCount_spec _ rs.length).1, truncateKeeping_nil count rs limit lead⟩

end Budget
end CompletionPrompt

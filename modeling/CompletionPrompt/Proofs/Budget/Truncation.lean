import CompletionPrompt.Budget

/-!
# What a truncation drops

Rows go from the front, and rows that are kept are passed over: `dropFree` says this by recursion on
the rows, and `assemble_eq` says that a prompt is put together from just these rows.

How many rows go is found by bisection. Its interval always has a number below that fails and one
above that holds or is the most that can be dropped (`bisect_spec`); nothing is asked of the order
in which numbers hold. So the number found is one after a number that failed, and it holds unless
nothing is left to drop (`dropCount_spec`, `truncateKeeping_eq_dropFree`).
-/

namespace CompletionPrompt
namespace Budget

/-- The rows without the first `dropped` of those that need not be kept. The first row has the
number `first`, and `keep` lists the numbers of the rows to keep. -/
def dropFree (keep : List Nat) : Nat → Nat → List (List Char) → List (List Char)
  | _, 0, rs => rs
  | _, _ + 1, [] => []
  | first, dropped + 1, r :: rs =>
    if first ∈ keep then r :: dropFree keep (first + 1) (dropped + 1) rs
    else dropFree keep (first + 1) dropped rs

/-- The rows whose numbers are listed. -/
def keptRows (keep : List Nat) (rs : List (List Char)) : List (List Char) :=
  (rs.zipIdx.filter fun (_, i) => keep.contains i).map (·.1)

/-- The numbers of the rows that a truncation drops. -/
def droppedRows (count : Counter) (rs : List (List Char)) (keep : List Nat) (limit : Nat)
    (lead : List Char) : List Nat :=
  let fits dropped := count (String.ofList (assemble lead rs keep dropped)) ≤ limit
  (droppable rs.length keep).take
    (dropCount (fun n => fits n) (droppable rs.length keep).length)

/-- Does the text fit when so many rows are dropped? -/
def fits (count : Counter) (rs : List (List Char)) (keep : List Nat) (limit : Nat)
    (lead : List Char) (dropped : Nat) : Bool :=
  count (String.ofList (assemble lead rs keep dropped)) ≤ limit

theorem droppedRows_eq_take (count : Counter) (rs : List (List Char)) (keep : List Nat)
    (limit : Nat) (lead : List Char) :
    droppedRows count rs keep limit lead = (droppable rs.length keep).take
      (dropCount (fits count rs keep limit lead) (droppable rs.length keep).length) :=
  rfl

theorem truncateKeeping_eq_without (count : Counter) (rs : List (List Char)) (keep : List Nat)
    (limit : Nat) (lead : List Char) :
    truncateKeeping count rs keep limit lead =
      lead ++ Text.unrows (without (droppedRows count rs keep limit lead) rs) :=
  rfl

/-- A row that is dropped is one that need not be kept. -/
theorem not_mem_keep_of_mem_droppedRows {count : Counter} {rs : List (List Char)} {keep : List Nat}
    {limit row : Nat} {lead : List Char} (h : row ∈ droppedRows count rs keep limit lead) :
    row ∉ keep := by
  have hdroppable := List.mem_filter.1 (List.mem_of_mem_take h)
  simpa using hdroppable.2

/-! ### The rows that go -/

/-- The numbers from `first` on of rows that need not be kept. -/
def droppableFrom (keep : List Nat) (first rowCount : Nat) : List Nat :=
  (List.range' first rowCount).filter (!keep.contains ·)

theorem droppableFrom_zero (keep : List Nat) (rowCount : Nat) :
    droppableFrom keep 0 rowCount = droppable rowCount keep := by
  rw [droppableFrom, droppable, List.range_eq_range']

theorem droppableFrom_succ (keep : List Nat) (first rowCount : Nat) :
    droppableFrom keep first (rowCount + 1) =
      if first ∈ keep then droppableFrom keep (first + 1) rowCount
      else first :: droppableFrom keep (first + 1) rowCount := by
  by_cases h : first ∈ keep <;> simp [droppableFrom, List.range'_succ, h]

/-- The rows without some of them, the first row having the number `first`. -/
def withoutFrom (first : Nat) (cut : List Nat) (rs : List (List Char)) : List (List Char) :=
  ((rs.zipIdx first).filter fun (_, i) => !cut.contains i).map (·.1)

theorem withoutFrom_cons (first : Nat) (cut : List Nat) (r : List Char) (rs : List (List Char)) :
    withoutFrom first cut (r :: rs) =
      if first ∈ cut then withoutFrom (first + 1) cut rs
      else r :: withoutFrom (first + 1) cut rs := by
  by_cases h : first ∈ cut <;> simp [withoutFrom, h]

/-- A number below all rows cuts none of them. -/
theorem withoutFrom_cons_of_lt {first n : Nat} (h : n < first) (cut : List Nat)
    (rs : List (List Char)) : withoutFrom first (n :: cut) rs = withoutFrom first cut rs := by
  unfold withoutFrom
  congr 1
  refine List.filter_congr fun ⟨r, i⟩ hi => ?_
  have hle := List.le_snd_of_mem_zipIdx hi
  have hne : i ≠ n := by simp only at hle; omega
  simp [hne]

@[simp] theorem withoutFrom_nil (first : Nat) (rs : List (List Char)) :
    withoutFrom first [] rs = rs := by
  have hall : (rs.zipIdx first).filter (fun (_, i) => !([] : List Nat).contains i) =
      rs.zipIdx first :=
    List.filter_eq_self.2 (by simp)
  rw [withoutFrom, hall, List.zipIdx_map_fst]

/-- Cutting the first numbers that need not be kept drops the first rows that need not be kept. -/
theorem withoutFrom_take_droppableFrom (keep : List Nat) (first dropped : Nat)
    (rs : List (List Char)) :
    withoutFrom first ((droppableFrom keep first rs.length).take dropped) rs =
      dropFree keep first dropped rs := by
  induction rs generalizing first dropped with
  | nil => cases dropped <;> simp [withoutFrom, dropFree]
  | cons r rs ih =>
    cases dropped with
    | zero => simp [dropFree]
    | succ dropped =>
      rw [List.length_cons, droppableFrom_succ, dropFree]
      by_cases h : first ∈ keep
      · have hcut : first ∉ (droppableFrom keep (first + 1) rs.length).take (dropped + 1) := by
          intro hmem
          have hrange := (List.mem_filter.1 (List.mem_of_mem_take hmem)).1
          rw [List.mem_range'_1] at hrange
          omega
        rw [if_pos h, if_pos h, withoutFrom_cons, if_neg hcut, ih]
      · rw [if_neg h, if_neg h, List.take_succ_cons, withoutFrom_cons,
          if_pos List.mem_cons_self, withoutFrom_cons_of_lt (Nat.lt_succ_self first), ih]

/-- **A prompt is its lead and the rows that are left.** -/
theorem assemble_eq (lead : List Char) (rs : List (List Char)) (keep : List Nat) (dropped : Nat) :
    assemble lead rs keep dropped = lead ++ Text.unrows (dropFree keep 0 dropped rs) := by
  rw [assemble, ← droppableFrom_zero, ← withoutFrom_take_droppableFrom]
  rfl

/-- Once every row that may go is gone, the rows to keep are left. -/
theorem dropFree_length_droppable (keep : List Nat) (rs : List (List Char)) :
    dropFree keep 0 (droppable rs.length keep).length rs = keptRows keep rs := by
  rw [← droppableFrom_zero, ← withoutFrom_take_droppableFrom, List.take_length, withoutFrom,
    keptRows]
  congr 1
  refine List.filter_congr fun ⟨r, i⟩ hi => ?_
  have hlt : i < rs.length := by simpa using List.snd_lt_of_mem_zipIdx hi
  simp [droppableFrom, List.mem_range'_1, hlt]

/-! ### How many rows go -/

/-- **What a bisection ends at:** the number after one that fails, which holds itself or is the one
that the bisection was told to end at. Numbers may hold in any order. -/
theorem bisect_spec (holds : Nat → Bool) {low high : Nat} (hlow : holds low = false)
    (hlt : low < high) :
    bisect holds low high ≤ high ∧ 0 < bisect holds low high ∧
      holds (bisect holds low high - 1) = false ∧
      (holds (bisect holds low high) = true ∨ bisect holds low high = high) := by
  fun_induction bisect holds low high with
  | case1 low high hwide middle hmiddle ih =>
    obtain ⟨hle, hpos, hfail, hholds⟩ := ih hlow (by omega)
    refine ⟨by omega, hpos, hfail, Or.inl ?_⟩
    rcases hholds with h | h
    · exact h
    · rwa [h]
  | case2 low high hwide middle hmiddle ih =>
    exact ih (by simpa using hmiddle) (by omega)
  | case3 low high hnarrow =>
    have hhigh : high - 1 = low := by omega
    exact ⟨Nat.le_refl _, by omega, hhigh ▸ hlow, Or.inr rfl⟩

/-- **How many rows go:** a number that fits unless it is the most, one more than a number that does
not. -/
theorem dropCount_spec (holds : Nat → Bool) (most : Nat) :
    dropCount holds most ≤ most ∧
      (holds (dropCount holds most) = true ∨ dropCount holds most = most) ∧
      (0 < dropCount holds most → holds (dropCount holds most - 1) = false) := by
  unfold dropCount
  split
  · rename_i h
    exact ⟨Nat.zero_le _, Or.inl h, fun h₀ => absurd h₀ (Nat.lt_irrefl 0)⟩
  · rename_i h
    have hzero : holds 0 = false := by simpa using h
    rcases Nat.eq_zero_or_pos most with rfl | hpos
    · rw [bisect, if_neg (by omega)]
      exact ⟨Nat.le_refl _, Or.inr rfl, fun h₀ => absurd h₀ (Nat.lt_irrefl 0)⟩
    · obtain ⟨hle, -, hfail, hholds⟩ := bisect_spec holds hzero hpos
      exact ⟨hle, hholds, fun _ => hfail⟩

/-- No row goes exactly when the text fits as it is, where there is a row that may go. -/
theorem dropCount_eq_zero_iff {holds : Nat → Bool} {most : Nat} (hmost : 0 < most) :
    dropCount holds most = 0 ↔ holds 0 = true := by
  unfold dropCount
  split
  · rename_i h
    exact iff_of_true rfl h
  · rename_i h
    have hpos := (bisect_spec holds (by simpa using h) hmost).2.1
    exact iff_of_false (by omega) h

/-- A text that fits is left as it is. -/
theorem truncateKeeping_of_fits {count : Counter} {rs : List (List Char)} {limit : Nat}
    {lead : List Char} (keep : List Nat)
    (h : count (String.ofList (lead ++ Text.unrows rs)) ≤ limit) :
    truncateKeeping count rs keep limit lead = lead ++ Text.unrows rs := by
  have hall : assemble lead rs keep 0 = lead ++ Text.unrows rs := by rw [assemble_eq, dropFree]
  simp only [truncateKeeping, dropCount, hall, h, decide_true, if_true]

/-- **Truncation is safe for every way of counting.** What is left are all rows but the first `k` of
those that need not be kept; that fits, or no row that may go is left; and with one row more it does
not fit. So the result fits whenever the lead and the rows to keep do. -/
theorem truncateKeeping_eq_dropFree (count : Counter) (rs : List (List Char)) (keep : List Nat)
    (limit : Nat) (lead : List Char) :
    ∃ k ≤ (droppable rs.length keep).length,
      truncateKeeping count rs keep limit lead =
        lead ++ Text.unrows (dropFree keep 0 k rs) ∧
      (count (String.ofList (truncateKeeping count rs keep limit lead)) ≤ limit ∨
        k = (droppable rs.length keep).length) ∧
      (0 < k →
        limit < count (String.ofList (lead ++ Text.unrows (dropFree keep 0 (k - 1) rs)))) ∧
      (count (String.ofList (lead ++ Text.unrows (keptRows keep rs))) ≤ limit →
        count (String.ofList (truncateKeeping count rs keep limit lead)) ≤ limit) := by
  let holds : Nat → Bool := fun n => count (String.ofList (assemble lead rs keep n)) ≤ limit
  let k := dropCount holds (droppable rs.length keep).length
  have heq : truncateKeeping count rs keep limit lead = assemble lead rs keep k := rfl
  obtain ⟨hle, hfits, hfail⟩ := dropCount_spec holds (droppable rs.length keep).length
  have hfits : count (String.ofList (assemble lead rs keep k)) ≤ limit ∨
      k = (droppable rs.length keep).length := by simpa [holds] using hfits
  refine ⟨k, hle, by rw [heq, assemble_eq], heq ▸ hfits, fun hpos => ?_, fun hkept => ?_⟩
  · rw [← assemble_eq]
    simpa [holds] using hfail hpos
  · rcases hfits with h | h
    · exact heq ▸ h
    · rwa [heq, assemble_eq, h, dropFree_length_droppable]

end Budget
end CompletionPrompt

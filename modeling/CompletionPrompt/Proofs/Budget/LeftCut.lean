import CompletionPrompt.Proofs.Budget.Shown
import CompletionPrompt.Proofs.Text.Place

/-!
# Texts cut from their left

Without a lead and without rows to keep, what a truncation leaves of a text is what follows one of
its line feeds, or the text, or nothing (`truncateLeft_eq`). A text that is cut is left with as many
rows as the bisection finds to fit, or with nothing when not even its last row does
(`truncateLeft_of_over`). Either way the result is settled: it fits, or it is empty
(`settled_truncateLeft`). A settled text is not cut any more (`truncateLeft_of_settled`), so a second
truncation changes nothing, whatever the counter makes of the rows in between
(`truncateLeft_suffix_idempotent`).
-/

namespace CompletionPrompt
namespace Budget

variable {count : Counter} {text : List Char} {limit : Nat}

/-- How many rows of a text are dropped when it is cut from its left. -/
def leftCount (count : Counter) (text : List Char) (limit : Nat) : Nat :=
  dropCount (fits count (Text.rows text) [] limit []) (Text.rows text).length

theorem truncateLeft_eq (count : Counter) (text : List Char) (limit : Nat) :
    truncateLeft count text limit =
      Text.unrows ((Text.rows text).drop (leftCount count text limit)) :=
  truncateKeeping_nil count (Text.rows text) limit []

theorem fits_nil (count : Counter) (rs : List (List Char)) (limit n : Nat) :
    fits count rs [] limit [] n =
      decide (count (String.ofList (Text.unrows (rs.drop n))) ≤ limit) := by
  rw [fits, assemble_eq, dropFree_nil, List.nil_append]

/-- The rows of a text that are left fit the limit, or no row is left; with one row more they do
not fit. -/
theorem leftCount_spec (count : Counter) (text : List Char) (limit : Nat) :
    leftCount count text limit ≤ (Text.rows text).length ∧
      (count (String.ofList (truncateLeft count text limit)) ≤ limit ∨
        leftCount count text limit = (Text.rows text).length) ∧
      (0 < leftCount count text limit →
        limit < count (String.ofList
          (Text.unrows ((Text.rows text).drop (leftCount count text limit - 1))))) := by
  obtain ⟨hle, hends, hfail⟩ :=
    dropCount_spec (fits count (Text.rows text) [] limit []) (Text.rows text).length
  simp only [fits_nil, decide_eq_true_eq, decide_eq_false_iff_not, Nat.not_le] at hends hfail
  rw [truncateLeft_eq]
  exact ⟨hle, hends, hfail⟩

/-! ### Texts that are not cut -/

/-- A text is settled when it fits the limit or has nothing to cut. -/
def Settled (count : Counter) (text : List Char) (limit : Nat) : Prop :=
  count (String.ofList text) ≤ limit ∨ text = []

theorem truncateLeft_of_fits (h : count (String.ofList text) ≤ limit) :
    truncateLeft count text limit = text := by
  have hrows : count (String.ofList ([] ++ Text.unrows (Text.rows text))) ≤ limit := by
    simpa using h
  exact (truncateKeeping_of_fits [] hrows).trans (by simp)

/-- Nothing is left of nothing: whether its one empty row is dropped does not show. -/
theorem truncateLeft_nil (count : Counter) (limit : Nat) : truncateLeft count [] limit = [] := by
  rw [truncateLeft_eq, Text.rows_nil]
  cases leftCount count [] limit <;> simp [Text.unrows]

theorem truncateLeft_of_settled (h : Settled count text limit) :
    truncateLeft count text limit = text := by
  rcases h with hfits | rfl
  · exact truncateLeft_of_fits hfits
  · exact truncateLeft_nil count limit

/-- What a truncation leaves is settled. -/
theorem settled_truncateLeft (count : Counter) (text : List Char) (limit : Nat) :
    Settled count (truncateLeft count text limit) limit := by
  obtain ⟨-, hends, -⟩ := leftCount_spec count text limit
  refine hends.imp_right fun hall => ?_
  rw [truncateLeft_eq, hall, List.drop_length]
  rfl

/-! ### Texts that are cut -/

/-- The rows of a text that is cut: those before the last one that goes, that row, which would not
fit any more, and those that are left. -/
theorem exists_rows_of_over (h : limit < count (String.ofList text)) :
    ∃ front row rest, Text.rows text = front ++ row :: rest ∧
      truncateLeft count text limit = Text.unrows rest ∧
      limit < count (String.ofList (Text.unrows (row :: rest))) ∧
      (rest ≠ [] → count (String.ofList (Text.unrows rest)) ≤ limit) := by
  obtain ⟨hle, hends, hmore⟩ := leftCount_spec count text limit
  rw [truncateLeft_eq] at hends ⊢
  have hpos : 0 < leftCount count text limit := by
    refine Nat.pos_of_ne_zero fun hzero => ?_
    rw [hzero, List.drop_zero, Text.unrows_rows, Text.length_rows] at hends
    omega
  have hlast : leftCount count text limit - 1 < (Text.rows text).length := by omega
  obtain ⟨front, row, rest, hrows, hlength⟩ := Text.exists_eq_append_cons hlast
  have hcount : leftCount count text limit = front.length + 1 := by omega
  have hrest : (Text.rows text).drop (front.length + 1) = rest := by
    rw [hrows, ← List.drop_drop, List.drop_left, List.drop_one, List.tail_cons]
  have hrow : (Text.rows text).drop front.length = row :: rest := by rw [hrows, List.drop_left]
  rw [hcount] at hends hmore ⊢
  rw [hrest] at hends ⊢
  refine ⟨front, row, rest, hrows, rfl, ?_, fun hne => ?_⟩
  · rw [← hrow]
    exact hmore (Nat.succ_pos _)
  · refine hends.resolve_right fun hall => hne ?_
    rw [hrows, List.length_append, List.length_cons] at hall
    exact List.length_eq_zero_iff.1 (by omega)

/-- **A text that is cut** keeps what fits behind one of its line feeds, and what starts a row
earlier does not fit; or it keeps nothing, and its last row does not fit. -/
theorem truncateLeft_of_over (h : limit < count (String.ofList text)) :
    (truncateLeft count text limit = [] ∧ limit < count (String.ofList (Text.lastRow text))) ∨
      ∃ front, text = front ++ '\n' :: truncateLeft count text limit ∧
        count (String.ofList (truncateLeft count text limit)) ≤ limit ∧
        limit < count (String.ofList
          (Text.lastRow front ++ '\n' :: truncateLeft count text limit)) := by
  obtain ⟨front, row, rest, hrows, hleft, hover, hfits⟩ := exists_rows_of_over h
  rw [hleft]
  by_cases hrest : rest = []
  · left
    have hlast : Text.lastRow text = Text.unrows (row :: rest) := by
      rw [Text.lastRow, hrows, hrest, List.getLastD_concat, Text.unrows, List.intercalate_singleton]
    rw [hlast, hrest]
    exact ⟨rfl, hrest ▸ hover⟩
  · right
    have hfeeds : ∀ r ∈ front ++ [row], '\n' ∉ r := by
      intro r hr
      refine Text.not_mem_of_mem_rows (s := text) ?_
      rw [hrows, List.append_cons]
      exact List.mem_append_left rest hr
    have hlast : Text.lastRow (Text.unrows (front ++ [row])) = row := by
      rw [Text.lastRow, Text.rows_unrows (by simp) hfeeds, List.getLastD_concat]
    refine ⟨Text.unrows (front ++ [row]), ?_, hfits hrest, ?_⟩
    · calc text = Text.unrows (Text.rows text) := (Text.unrows_rows text).symm
        _ = Text.unrows (front ++ [row] ++ rest) := by rw [hrows, List.append_cons]
        _ = _ := Text.intercalate_append (by simp) hrest
    · rw [hlast]
      rwa [Text.unrows, List.intercalate_cons_of_ne_nil hrest, List.append_assoc] at hover

/-- **Cutting a text from its left is an idempotent suffix operation,** for every way of counting. A
text that fits is left as it is. Of one that does not, what is left follows a line feed of the text
and fits, with one row more it would not fit; or nothing is left, when not even the last row fits.
Cutting what is left again, to the same limit, changes nothing. -/
theorem truncateLeft_suffix_idempotent (count : Counter) (text : List Char) (limit : Nat) :
    (count (String.ofList text) ≤ limit → truncateLeft count text limit = text) ∧
      (limit < count (String.ofList text) →
        (truncateLeft count text limit = [] ∧
            limit < count (String.ofList (Text.lastRow text))) ∨
          ∃ front, text = front ++ '\n' :: truncateLeft count text limit ∧
            count (String.ofList (truncateLeft count text limit)) ≤ limit ∧
            limit < count (String.ofList
              (Text.lastRow front ++ '\n' :: truncateLeft count text limit))) ∧
      truncateLeft count (truncateLeft count text limit) limit = truncateLeft count text limit :=
  ⟨truncateLeft_of_fits, truncateLeft_of_over,
    truncateLeft_of_settled (settled_truncateLeft count text limit)⟩

/-- Two rows fit, or not even the last one. -/
example : truncateLeft String.length "aaaa\nbbbb\ncccc".toList 9 = "bbbb\ncccc".toList ∧
    truncateLeft String.length "aaaa\nbbbb\ncccc".toList 3 = [] := by
  decide +kernel

end Budget
end CompletionPrompt

import CompletionPrompt.Proofs.Budget.Truncation
import CompletionPrompt.Proofs.Text.Pieces
import Mathlib.Data.List.Basic
import Mathlib.Data.String.Basic
import Mathlib.Order.Basic

/-!
# The least number of rows that fits

Where dropping a row never makes a text count more, a number of dropped rows that fits goes on
fitting when more rows are dropped. Then the bisection ends at the least number that fits
(`dropCount_le_iff`), which makes two truncations comparable whatever numbers they try on the way:
a higher limit drops no row that a lower limit does not drop (`droppedRows_subset_of_le`). The
estimate of a fixed number of bytes per token is such a way of counting (`shrinks_bytesPerToken`).

So the bisection finds what trying one number after the other finds (`dropCount_eq_scanCount`), and
a truncation drops as few rows as make the text fit (`truncateKeeping_drops_least`).
-/

namespace CompletionPrompt

/-- A text of no more bytes is estimated at no more tokens. -/
theorem Counter.bytesPerToken_mono (bytes : Nat) {s t : String}
    (h : s.utf8ByteSize ≤ t.utf8ByteSize) : bytesPerToken bytes s ≤ bytesPerToken bytes t := by
  have hdiv : s.utf8ByteSize / max bytes 1 ≤ t.utf8ByteSize / max bytes 1 := Nat.div_le_div_right h
  unfold bytesPerToken
  split
  · exact Nat.zero_le _
  · rename_i hs
    -- the text of more bytes is not empty either, so both are estimated by division
    have ht : ¬ t.isEmpty = true := by
      intro ht
      rw [String.isEmpty_iff_utf8ByteSize_eq_zero] at hs ht
      omega
    rw [if_neg ht]
    omega

namespace Budget

/-- A number that holds goes on holding when more rows are dropped. -/
def Lasting (holds : Nat → Bool) : Prop :=
  ∀ n, holds n = true → holds (n + 1) = true

theorem Lasting.of_le {holds : Nat → Bool} (h : Lasting holds) {m n : Nat} (hle : m ≤ n)
    (hm : holds m = true) : holds n = true := by
  induction hle with
  | refl => exact hm
  | step _ ih => exact h _ ih

/-- **The bisection ends at the least number that holds**, if numbers go on holding; where none
does, at the number it was told to end at. -/
theorem dropCount_le_iff {holds : Nat → Bool} (h : Lasting holds) {most n : Nat} :
    dropCount holds most ≤ n ↔ holds n = true ∨ most ≤ n := by
  obtain ⟨hle, hends, hfail⟩ := dropCount_spec holds most
  constructor
  · intro hn
    rcases hends with hholds | hmost
    · exact Or.inl (h.of_le hn hholds)
    · exact Or.inr (hmost ▸ hn)
  · rintro (hn | hn)
    · by_contra hlt
      -- the number before the end fails, though one that is not above it holds
      have hbefore : holds (dropCount holds most - 1) = false := hfail (by omega)
      rw [h.of_le (by omega) hn] at hbefore
      cases hbefore
    · omega

variable {count : Counter} {rs : List (List Char)} {keep : List Nat} {lead : List Char}

/-- Dropping one more row never makes the text count more. -/
def Shrinks (count : Counter) (rs : List (List Char)) (keep : List Nat) (lead : List Char) : Prop :=
  ∀ n, count (String.ofList (assemble lead rs keep (n + 1))) ≤
    count (String.ofList (assemble lead rs keep n))

theorem Shrinks.lasting (h : Shrinks count rs keep lead) (limit : Nat) :
    Lasting (fits count rs keep limit lead) := by
  intro n hn
  simp only [fits, decide_eq_true_eq] at hn ⊢
  exact (h n).trans hn

theorem without_sublist {cut cut' : List Nat} (h : cut ⊆ cut') (rs : List (List Char)) :
    (without cut' rs).Sublist (without cut rs) := by
  refine (List.monotone_filter_right rs.zipIdx fun x hx => ?_).map _
  simp only [List.contains_eq_mem, Bool.not_eq_true', decide_eq_false_iff_not] at hx ⊢
  exact fun hcut => hx (h hcut)

theorem assemble_succ_sublist (lead : List Char) (rs : List (List Char)) (keep : List Nat)
    (n : Nat) : (assemble lead rs keep (n + 1)).Sublist (assemble lead rs keep n) := by
  have hcut : (droppable rs.length keep).take n ⊆ (droppable rs.length keep).take (n + 1) :=
    (List.take_prefix_take_left (Nat.le_succ n)).subset
  exact (List.Sublist.refl lead).append (Text.intercalate_sublist (without_sublist hcut rs))

/-- The estimate by bytes never grows when a row is dropped, whatever rows are kept. -/
theorem shrinks_bytesPerToken (bytes : Nat) (rs : List (List Char)) (keep : List Nat)
    (lead : List Char) : Shrinks (Counter.bytesPerToken bytes) rs keep lead := by
  intro n
  apply Counter.bytesPerToken_mono
  rw [String.utf8ByteSize_ofList, String.utf8ByteSize_ofList]
  exact String.utf8Len_le_of_sublist (assemble_succ_sublist lead rs keep n)

/-- **A higher limit drops fewer rows:** each row that it drops is dropped at a lower limit too. -/
theorem droppedRows_subset_of_le (h : Shrinks count rs keep lead) {m n : Nat} (hle : m ≤ n) :
    droppedRows count rs keep n lead ⊆ droppedRows count rs keep m lead := by
  have hfewer : dropCount (fits count rs keep n lead) (droppable rs.length keep).length ≤
      dropCount (fits count rs keep m lead) (droppable rs.length keep).length := by
    rw [dropCount_le_iff (h.lasting n)]
    refine ((dropCount_le_iff (h.lasting m)).1 (Nat.le_refl _)).imp_left fun hm => ?_
    simp only [fits, decide_eq_true_eq] at hm ⊢
    exact hm.trans hle
  rw [droppedRows_eq_take, droppedRows_eq_take]
  exact (List.take_prefix_take_left hfewer).subset

/-! ### One number after the other -/

/-- How many rows are dropped when one number after the other is tried: the first that holds, and
the most when none does. -/
def scanCount (holds : Nat → Bool) (most : Nat) : Nat :=
  ((List.range (most + 1)).find? holds).getD most

/-- The scan stops at the first number that holds. -/
theorem scanCount_le_iff {holds : Nat → Bool} {most n : Nat} :
    scanCount holds most ≤ n ↔ (∃ m ≤ n, holds m = true) ∨ most ≤ n := by
  unfold scanCount
  cases hfind : (List.range (most + 1)).find? holds with
  | none =>
    have hnone : ∀ m ≤ most, holds m = false := by simpa [Nat.lt_succ_iff] using hfind
    rw [Option.getD_none]
    refine ⟨.inr, ?_⟩
    rintro (⟨m, hmn, hm⟩ | hle)
    · by_contra hlt
      rw [hnone m (by omega)] at hm
      cases hm
    · exact hle
  | some first =>
    obtain ⟨hfirst, hrange, hbefore⟩ := List.find?_range_eq_some.1 hfind
    rw [Option.getD_some]
    constructor
    · exact fun hle => .inl ⟨first, hle, hfirst⟩
    · rintro (⟨m, hmn, hm⟩ | hle)
      · by_contra hlt
        have hfails := hbefore m (by omega)
        simp [hm] at hfails
      · have hmost : first < most + 1 := List.mem_range.1 hrange
        omega

/-- **The bisection finds what a scan finds,** if numbers go on holding. -/
theorem dropCount_eq_scanCount {holds : Nat → Bool} (h : Lasting holds) (most : Nat) :
    dropCount holds most = scanCount holds most := by
  refine eq_of_forall_ge_iff fun n => ?_
  rw [dropCount_le_iff h, scanCount_le_iff]
  refine or_congr_left ⟨fun hn => ⟨n, Nat.le_refl n, hn⟩, ?_⟩
  rintro ⟨m, hmn, hm⟩
  exact h.of_le hmn hm

/-- Numbers below the end of the bisection fail, and so does the end when it does not hold. -/
theorem dropCount_least {holds : Nat → Bool} (h : Lasting holds) (most : Nat) :
    (∀ n < dropCount holds most, holds n = false) ∧
      (holds (dropCount holds most) = true ∨
        dropCount holds most = most ∧ ∀ n ≤ dropCount holds most, holds n = false) := by
  have hbefore : ∀ n < dropCount holds most, holds n = false := by
    intro n hn
    by_contra hholds
    have hle : dropCount holds most ≤ n := (dropCount_le_iff h).2 (.inl (by simpa using hholds))
    omega
  refine ⟨hbefore, ?_⟩
  cases hlast : holds (dropCount holds most) with
  | true => exact .inl rfl
  | false =>
    obtain ⟨-, hends, -⟩ := dropCount_spec holds most
    refine .inr ⟨hends.resolve_left (by simp [hlast]), fun n hn => ?_⟩
    rcases Nat.lt_or_eq_of_le hn with hn | rfl
    · exact hbefore n hn
    · exact hlast

/-- Once all rows that may go are gone, no more can be dropped. -/
theorem assemble_of_le {n : Nat} (h : (droppable rs.length keep).length ≤ n) :
    assemble lead rs keep n = assemble lead rs keep (droppable rs.length keep).length := by
  rw [assemble, assemble, List.take_of_length_le h, List.take_length]

/-- Only the numbers of rows that can be dropped matter. -/
theorem shrinks_of_lt (h : ∀ n < (droppable rs.length keep).length,
    count (String.ofList (assemble lead rs keep (n + 1))) ≤
      count (String.ofList (assemble lead rs keep n))) : Shrinks count rs keep lead := by
  intro n
  by_cases hn : n < (droppable rs.length keep).length
  · exact h n hn
  · rw [assemble_of_le (n := n + 1) (by omega), assemble_of_le (n := n) (by omega)]

/-- What is left of a text when the first `dropped` of the rows that may go are gone. -/
def remaining (lead : List Char) (rs : List (List Char)) (keep : List Nat) (dropped : Nat) :
    String :=
  String.ofList (lead ++ Text.unrows (dropFree keep 0 dropped rs))

theorem remaining_eq (lead : List Char) (rs : List (List Char)) (keep : List Nat) (dropped : Nat) :
    remaining lead rs keep dropped = String.ofList (assemble lead rs keep dropped) := by
  rw [remaining, assemble_eq]

/-- **A truncation drops as few rows as make the text fit.** If dropping one more row from the front
never makes the text count more, what is left is the text less the first `k` of the rows that may be
dropped, where `k` is what trying one number after the other gives: with fewer rows dropped the text
does not fit, and with `k` it does, or none of the numbers fits and all these rows are dropped. The
estimate by bytes counts in such a way, whatever number of bytes a token is taken to have. -/
theorem truncateKeeping_drops_least :
    (∀ (count : Counter) (rs : List (List Char)) (keep : List Nat) (limit : Nat)
        (lead : List Char),
      (∀ n < (droppable rs.length keep).length,
        count (remaining lead rs keep (n + 1)) ≤ count (remaining lead rs keep n)) →
      ∃ k ≤ (droppable rs.length keep).length,
        String.ofList (truncateKeeping count rs keep limit lead) = remaining lead rs keep k ∧
        droppedRows count rs keep limit lead = (droppable rs.length keep).take k ∧
        k = scanCount (fun n => count (remaining lead rs keep n) ≤ limit)
          (droppable rs.length keep).length ∧
        (∀ n < k, limit < count (remaining lead rs keep n)) ∧
        (count (remaining lead rs keep k) ≤ limit ∨
          k = (droppable rs.length keep).length ∧
            ∀ n ≤ k, limit < count (remaining lead rs keep n))) ∧
    ∀ (bytes : Nat) (rs : List (List Char)) (keep : List Nat) (lead : List Char) (n : Nat),
      Counter.bytesPerToken bytes (remaining lead rs keep (n + 1)) ≤
        Counter.bytesPerToken bytes (remaining lead rs keep n) := by
  constructor
  · intro count rs keep limit lead h
    simp only [remaining_eq] at h ⊢
    obtain ⟨hle, -, -⟩ :=
      dropCount_spec (fits count rs keep limit lead) (droppable rs.length keep).length
    have hlasting : Lasting (fits count rs keep limit lead) := (shrinks_of_lt h).lasting limit
    obtain ⟨hbefore, hends⟩ := dropCount_least hlasting (droppable rs.length keep).length
    refine ⟨_, hle, rfl, rfl, dropCount_eq_scanCount hlasting _, fun n hn => ?_, ?_⟩
    · simpa [fits] using hbefore n hn
    · refine hends.imp (by simp [fits]) fun ⟨hall, hnone⟩ => ⟨hall, fun n hn => ?_⟩
      simpa [fits] using hnone n hn
  · intro bytes rs keep lead n
    rw [remaining_eq, remaining_eq]
    exact shrinks_bytesPerToken bytes rs keep lead n

/-- The first row is kept, the second goes, and the rest fits. -/
theorem truncateKeeping_drops_second_row :
    let rs := ["import a".toList, "x = 1".toList, "y = 2".toList, "def f():".toList]
    let lead := "# P\n".toList
    (∀ n < (droppable rs.length [0]).length,
      String.length (remaining lead rs [0] (n + 1)) ≤ String.length (remaining lead rs [0] n)) ∧
      String.ofList (truncateKeeping String.length rs [0] 30 lead) =
        "# P\nimport a\ny = 2\ndef f():" ∧
      droppedRows String.length rs [0] 30 lead = [1] := by
  intro rs lead
  have hshrinks : ∀ n < (droppable rs.length [0]).length,
      String.length (remaining lead rs [0] (n + 1)) ≤ String.length (remaining lead rs [0] n) := by
    decide +kernel
  obtain ⟨k, -, hleft, hdropped, hk, -⟩ :=
    truncateKeeping_drops_least.1 String.length rs [0] 30 lead hshrinks
  obtain rfl : k = 1 := hk.trans (by decide +kernel)
  have hone : remaining lead rs [0] 1 = "# P\nimport a\ny = 2\ndef f():" := by decide +kernel
  exact ⟨hshrinks, hleft.trans hone, hdropped.trans (by decide)⟩

end Budget
end CompletionPrompt

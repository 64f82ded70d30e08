/-!
# Pieces of a text

A text cut at a separator falls into pieces without the separator (`not_mem_of_mem_splitOn`), which
hold nothing that the text does not (`mem_of_mem_splitOn`). Joined pieces go on where others end
(`intercalate_append`); leaving out pieces leaves out characters (`intercalate_sublist`), and
neighbouring pieces are neighbours in the text (`intercalate_infix`).
-/

namespace CompletionPrompt
namespace Text

variable {α : Type} [BEq α] [LawfulBEq α] {x : α}

omit [BEq α] [LawfulBEq α] in
/-- What stands before a piece, the piece, and what stands behind it. -/
theorem exists_eq_append_cons {pieces : List α} {n : Nat} (h : n < pieces.length) :
    ∃ before piece after, pieces = before ++ piece :: after ∧ before.length = n := by
  refine ⟨pieces.take n, pieces[n], pieces.drop (n + 1), ?_, ?_⟩
  · rw [← List.drop_eq_getElem_cons h, List.take_append_drop]
  · exact List.length_take_of_le (Nat.le_of_lt h)

/-- No piece holds the separator. -/
theorem not_mem_of_mem_splitOn {s piece : List α} (h : piece ∈ s.splitOn x) : x ∉ piece := by
  induction s generalizing piece with
  | nil => simp_all
  | cons c s ih =>
    rw [List.splitOn_cons_eq_if_modifyHead] at h
    split at h
    · rcases List.mem_cons.1 h with rfl | h
      · exact List.not_mem_nil
      · exact ih h
    · rename_i hc
      obtain ⟨first, others, hs⟩ := List.exists_cons_of_ne_nil (List.splitOn_ne_nil x s)
      rw [hs, List.modifyHead_cons] at h
      rcases List.mem_cons.1 h with rfl | h
      · rw [List.mem_cons, not_or]
        exact ⟨fun e => hc (beq_iff_eq.2 e.symm), ih (hs ▸ List.mem_cons_self)⟩
      · exact ih (hs ▸ List.mem_cons_of_mem _ h)

omit [BEq α] [LawfulBEq α] in
/-- What joined pieces hold, a piece or the separator holds. -/
theorem mem_intercalate_iff {pieces : List (List α)} {c : α} :
    c ∈ [x].intercalate pieces ↔
      (∃ piece ∈ pieces, c ∈ piece) ∨ c = x ∧ 1 < pieces.length := by
  induction pieces with
  | nil => simp
  | cons piece pieces ih =>
    cases pieces with
    | nil => simp
    | cons next pieces =>
      rw [List.intercalate_cons_of_ne_nil (List.cons_ne_nil next pieces)]
      rw [List.mem_append, List.mem_append, ih]
      grind

omit [BEq α] [LawfulBEq α] in
/-- What pieces joined by a text hold, a piece or that text holds. -/
theorem mem_of_mem_intercalate {gap : List α} {pieces : List (List α)} {c : α}
    (h : c ∈ gap.intercalate pieces) : c ∈ gap ∨ ∃ piece ∈ pieces, c ∈ piece := by
  induction pieces with
  | nil => simp at h
  | cons piece pieces ih =>
    cases pieces with
    | nil => exact .inr ⟨piece, List.mem_cons_self, by simpa using h⟩
    | cons next pieces =>
      rw [List.intercalate_cons_cons, List.mem_append, List.mem_append] at h
      rcases h with (h | h) | h
      · exact .inr ⟨piece, List.mem_cons_self, h⟩
      · exact .inl h
      · rcases ih h with h | ⟨q, hq, hc⟩
        · exact .inl h
        · exact .inr ⟨q, List.mem_cons_of_mem _ hq, hc⟩

omit [BEq α] [LawfulBEq α] in
/-- What a piece of a text cut at some elements holds, the text holds. -/
theorem mem_of_mem_splitOnP {p : α → Bool} {s piece : List α} {c : α} (h : piece ∈ s.splitOnP p)
    (hc : c ∈ piece) : c ∈ s := by
  induction s generalizing piece with
  | nil => simp_all
  | cons b s ih =>
    rw [List.splitOnP_cons_eq_if_modifyHead] at h
    split at h
    · rcases List.mem_cons.1 h with rfl | h
      · exact absurd hc List.not_mem_nil
      · exact List.mem_cons_of_mem b (ih h hc)
    · obtain ⟨first, others, hs⟩ := List.exists_cons_of_ne_nil (List.splitOnP_ne_nil p s)
      rw [hs, List.modifyHead_cons] at h
      rcases List.mem_cons.1 h with rfl | h
      · rcases List.mem_cons.1 hc with rfl | hc
        · exact List.mem_cons_self
        · exact List.mem_cons_of_mem b (ih (hs ▸ List.mem_cons_self) hc)
      · exact List.mem_cons_of_mem b (ih (hs ▸ List.mem_cons_of_mem _ h) hc)

omit [LawfulBEq α] in
/-- What a piece holds, the text holds. -/
theorem mem_of_mem_splitOn {s piece : List α} {c : α} (h : piece ∈ s.splitOn x) (hc : c ∈ piece) :
    c ∈ s :=
  mem_of_mem_splitOnP h hc

omit [BEq α] [LawfulBEq α] in
/-- Joined pieces are followed by a separator and the pieces after them. -/
theorem intercalate_append {before after : List (List α)} (hbefore : before ≠ [])
    (hafter : after ≠ []) :
    [x].intercalate (before ++ after) = [x].intercalate before ++ x :: [x].intercalate after := by
  induction before with
  | nil => exact absurd rfl hbefore
  | cons piece before ih =>
    cases before with
    | nil => simp [List.intercalate_cons_of_ne_nil hafter]
    | cons next before =>
      rw [List.cons_append,
        List.intercalate_cons_of_ne_nil (List.append_ne_nil_of_right_ne_nil _ hafter),
        ih (List.cons_ne_nil next before),
        List.intercalate_cons_of_ne_nil (List.cons_ne_nil next before)]
      simp only [List.append_assoc]

omit [BEq α] [LawfulBEq α] in
/-- What follows joined pieces makes the last of them longer. -/
theorem intercalate_concat_append (front : List (List α)) (last r : List α) :
    [x].intercalate (front ++ [last]) ++ r = [x].intercalate (front ++ [last ++ r]) := by
  by_cases hfront : front = []
  · simp [hfront]
  · rw [intercalate_append hfront (List.cons_ne_nil _ _),
      intercalate_append hfront (List.cons_ne_nil _ _)]
    simp

omit [BEq α] [LawfulBEq α] in
/-- Pieces that are left out take their characters with them and add none. -/
theorem intercalate_sublist {some all : List (List α)} (h : some.Sublist all) :
    ([x].intercalate some).Sublist ([x].intercalate all) := by
  induction h with
  | slnil => exact List.Sublist.refl _
  | @cons some all piece h ih =>
    by_cases hall : all = []
    · obtain rfl := List.sublist_nil.1 (hall ▸ h)
      simp
    · rw [List.intercalate_cons_of_ne_nil hall]
      exact ih.trans (List.sublist_append_right _ _)
  | @cons_cons some all piece h ih =>
    by_cases hsome : some = []
    · rw [hsome, List.intercalate_singleton]
      by_cases hall : all = []
      · simp [hall]
      · rw [List.intercalate_cons_of_ne_nil hall, List.append_assoc]
        exact List.sublist_append_left _ _
    · have hall : all ≠ [] := fun hall => hsome (List.sublist_nil.1 (hall ▸ h))
      rw [List.intercalate_cons_of_ne_nil hsome, List.intercalate_cons_of_ne_nil hall]
      exact (List.Sublist.refl _).append ih

omit [BEq α] [LawfulBEq α] in
/-- Neighbouring pieces make one stretch of the text. -/
theorem intercalate_infix {some all : List (List α)} (h : some <:+: all) :
    [x].intercalate some <:+: [x].intercalate all := by
  obtain ⟨before, after, rfl⟩ := h
  by_cases hsome : some = []
  · rw [hsome]
    exact List.nil_infix
  have hfront : [x].intercalate some <+: [x].intercalate (some ++ after) := by
    by_cases hafter : after = []
    · simp [hafter]
    · rw [intercalate_append hsome hafter]
      exact List.prefix_append _ _
  rw [List.append_assoc]
  by_cases hbefore : before = []
  · rw [hbefore, List.nil_append]
    exact hfront.isInfix
  · rw [intercalate_append hbefore (List.append_ne_nil_of_left_ne_nil hsome after)]
    obtain ⟨rest, hrest⟩ := hfront
    exact ⟨[x].intercalate before ++ [x], rest, by rw [← hrest]; simp⟩

/-- A text without the separator makes the last piece longer. -/
theorem splitOn_append_of_not_mem {r : List α} (s : List α) (hr : x ∉ r) :
    ∃ front last, s.splitOn x = front ++ [last] ∧ (s ++ r).splitOn x = front ++ [last ++ r] := by
  obtain ⟨front, last, hs⟩ := (List.eq_nil_or_concat (s.splitOn x)).resolve_left
    (List.splitOn_ne_nil x s)
  rw [List.concat_eq_append] at hs
  refine ⟨front, last, hs, ?_⟩
  have hpieces : ∀ piece ∈ front ++ [last], x ∉ piece := fun piece hmem =>
    not_mem_of_mem_splitOn (s := s) (hs ▸ hmem)
  have hjoined : [x].intercalate (s.splitOn x) = s := List.intercalate_splitOn x
  rw [← hjoined, hs, intercalate_concat_append,
    List.splitOn_intercalate x (fun piece hmem => ?_) (by simp)]
  rcases List.mem_append.1 hmem with hfront | hlast
  · exact hpieces piece (List.mem_append_left _ hfront)
  · obtain rfl := List.mem_singleton.1 hlast
    rw [List.mem_append, not_or]
    exact ⟨hpieces last (List.mem_append_right _ List.mem_cons_self), hr⟩

end Text
end CompletionPrompt

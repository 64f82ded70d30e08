import CompletionPrompt.Import.Resolution
import CompletionPrompt.Proofs.Path.Components

/-!
# The directories that a module is looked for in

The search goes from a directory to the ones above it and stops short of the root, or of the empty
path when the directory is relative (`components_searchDirs`). So every directory that is searched
later stands above those before it (`searchDirs_pairwise`): it holds them, and it is none of them.
-/

namespace CompletionPrompt

namespace Path

/-- One path stands above another: it has the first components of the other, and not all of them. -/
structure Above (outer inner : Path) : Prop where
  isPrefix : outer.components <+: inner.components
  length_lt : outer.components.length < inner.components.length

/-- A cut of a path lacks no more components than its ancestors may. -/
theorem leastCut_eq_of_take {p q : Path} {k : Nat} (hq : q.components = p.components.take k)
    (hk : p.leastCut ≤ k) : q.leastCut = p.leastCut := by
  have habs : q.isAbsolute = true ↔ p.isAbsolute = true := by
    rw [isAbsolute_iff, isAbsolute_iff, hq, List.head?_take]
    by_cases hzero : k = 0
    · have hrelative : p.isAbsolute = false := by
        refine Bool.eq_false_iff.2 fun h => ?_
        simp [leastCut, h, hzero] at hk
      rw [← isAbsolute_iff, hrelative]
      simp [hzero]
    · rw [if_neg hzero]
  simp only [leastCut, habs]

end Path

/-- What a directory is searched for: it has a parent. -/
theorem searched_iff {q : Path} :
    (!q.text.isEmpty && q.parent?.isSome) = true ↔ q.leastCut < q.components.length := by
  rw [Bool.and_eq_true, Path.isSome_parent?, and_iff_right_of_imp]
  intro hlt
  rw [Bool.not_eq_true', Bool.eq_false_iff]
  intro hempty
  obtain rfl : q = ⟨""⟩ := congrArg Path.mk (String.isEmpty_iff.1 hempty)
  exact absurd hlt (by decide +kernel)

/-- **The directories that are searched are cuts,** innermost first: from the whole of the starting
directory to the shortest that has a parent. -/
theorem components_searchDirs (start : Path) :
    (searchDirs start).map Path.components =
      ((List.range' (start.leastCut + 1) (start.components.length - start.leastCut)).map
        (start.components.take ·)).reverse := by
  have hcount : start.components.length + 1 - start.leastCut =
      start.components.length - start.leastCut + 1 := by
    have := start.leastCut_le
    omega
  have hne : start.ancestors ≠ [] := by simp [Path.ancestors]
  obtain ⟨front, last, hall⟩ := (List.eq_nil_or_concat start.ancestors).resolve_left hne
  rw [List.concat_eq_append] at hall
  have hcuts := start.components_ancestors
  rw [hall, hcount, List.range'_succ, List.map_append, List.map_cons, List.map_cons,
    List.reverse_cons] at hcuts
  obtain ⟨hfront, hlast⟩ := List.append_inj' hcuts rfl
  have hsearched : ∀ q ∈ front, (!q.text.isEmpty && q.parent?.isSome) = true := by
    intro q hq
    have hmem : q.components ∈ front.map Path.components := List.mem_map_of_mem hq
    rw [hfront, List.mem_reverse] at hmem
    obtain ⟨k, hk, hcut⟩ := List.mem_map.1 hmem
    obtain ⟨hlow, hhigh⟩ := List.mem_range'_1.1 hk
    rw [searched_iff, Path.leastCut_eq_of_take hcut.symm (by omega), ← hcut, List.length_take]
    omega
  have hroot : ¬ (!last.text.isEmpty && last.parent?.isSome) = true := by
    have hcut : last.components = start.components.take start.leastCut := by simpa using hlast
    rw [searched_iff, Path.leastCut_eq_of_take hcut (Nat.le_refl _), hcut, List.length_take]
    omega
  rw [searchDirs, hall, List.takeWhile_append_of_pos hsearched, List.takeWhile_cons, if_neg hroot,
    List.append_nil, hfront]

/-- **A directory that is searched later stands above those before it.** -/
theorem searchDirs_pairwise (start : Path) :
    (searchDirs start).Pairwise fun inner outer => outer.Above inner := by
  have hcuts : ((searchDirs start).map Path.components).Pairwise fun inner outer =>
      outer <+: inner ∧ outer.length < inner.length := by
    rw [components_searchDirs, List.pairwise_reverse, List.pairwise_map]
    refine (List.pairwise_lt_range' 1 Nat.one_pos).imp_of_mem fun {k k'} _ hk' hlt => ?_
    have hle := (List.mem_range'_1.1 hk').2
    have hleast := start.leastCut_le
    refine ⟨List.take_prefix_take_left (by omega), ?_⟩
    simp only [List.length_take]
    omega
  exact (List.pairwise_map.1 hcuts).imp fun h => ⟨h.1, h.2⟩

end CompletionPrompt

import CompletionPrompt.Proofs.Span.Region

/-!
# The order of spans

Spans are ordered by their four numbers in turn: one number list is below another or the other way
round, and lists that are below each other are the same. Of two spans that stand apart, the one that
ends before the other comes first (`EndsBefore.le_of_lt`).
-/

namespace CompletionPrompt
namespace Span

theorem lexLe_trans : ∀ {a b c : List Nat}, lexLe a b → lexLe b c → lexLe a c
  | [], _, _, _, _ => rfl
  | _ :: _, [], _, h, _ => by simp [lexLe] at h
  | _ :: _, _ :: _, [], _, h => by simp [lexLe] at h
  | x :: a, y :: b, z :: c, hab, hbc => by
    simp only [lexLe, Bool.or_eq_true, decide_eq_true_eq, Bool.and_eq_true, beq_iff_eq] at hab hbc ⊢
    rcases hab with hxy | ⟨rfl, hab⟩
    · left
      rcases hbc with hyz | ⟨rfl, -⟩
      · omega
      · exact hxy
    · rcases hbc with hyz | ⟨rfl, hbc⟩
      · exact Or.inl hyz
      · exact Or.inr ⟨rfl, lexLe_trans hab hbc⟩

theorem lexLe_total : ∀ a b : List Nat, lexLe a b || lexLe b a
  | [], _ => rfl
  | _ :: _, [] => by simp [lexLe]
  | x :: a, y :: b => by
    have ih := lexLe_total a b
    simp only [lexLe, Bool.or_eq_true, decide_eq_true_eq, Bool.and_eq_true, beq_iff_eq] at ih ⊢
    rcases Nat.lt_trichotomy x y with h | rfl | h
    · exact Or.inl (Or.inl h)
    · rcases ih with h | h
      · exact Or.inl (Or.inr ⟨rfl, h⟩)
      · exact Or.inr (Or.inr ⟨rfl, h⟩)
    · exact Or.inr (Or.inl h)

theorem lexLe_antisymm : ∀ {a b : List Nat}, lexLe a b → lexLe b a → a = b
  | [], [], _, _ => rfl
  | [], _ :: _, _, h => by simp [lexLe] at h
  | _ :: _, [], h, _ => by simp [lexLe] at h
  | x :: a, y :: b, hab, hba => by
    simp only [lexLe, Bool.or_eq_true, decide_eq_true_eq, Bool.and_eq_true, beq_iff_eq] at hab hba
    rcases hab with hxy | ⟨rfl, hab⟩
    · omega
    · rcases hba with hxx | ⟨-, hba⟩
      · omega
      · rw [lexLe_antisymm hab hba]

variable {a b c : Span}

theorem le_trans (hab : a.le b) (hbc : b.le c) : a.le c :=
  lexLe_trans hab hbc

theorem le_total (a b : Span) : a.le b || b.le a :=
  lexLe_total a.numbers b.numbers

theorem le_antisymm (hab : a.le b) (hba : b.le a) : a = b := by
  have h : a.numbers = b.numbers := lexLe_antisymm hab hba
  simp only [numbers, List.cons.injEq, and_true] at h
  obtain ⟨hstartRow, hstartColumn, hendRow, hendColumn⟩ := h
  cases a
  cases b
  simp_all

/-- Spans in order start in order. -/
theorem placeLe_start_of_le (h : a.le b) : Text.PlaceLe a.start b.start := by
  simp only [le, numbers, lexLe, Bool.or_eq_true, decide_eq_true_eq, Bool.and_eq_true,
    beq_iff_eq] at h
  simp only [Text.PlaceLe, start]
  omega

/-- Of two spans that stand apart the first comes before the second, unless it is empty. -/
theorem EndsBefore.le_of_lt (h : a.EndsBefore b) (hne : ¬ Text.PlaceLe a.stop a.start) :
    a.le b = true ∧ a ≠ b := by
  constructor
  · simp only [EndsBefore, Text.PlaceLe, start, stop] at h hne
    simp only [le, numbers, lexLe, Bool.or_eq_true, Bool.and_eq_true, decide_eq_true_eq, beq_iff_eq]
    omega
  · rintro rfl
    exact hne h

end Span
end CompletionPrompt

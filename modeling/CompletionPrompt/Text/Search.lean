/-!
# Searching and replacing text

Occurrences are found from left to right. An empty needle occurs at the start of every text.

* `cut?`: the text before and after the first occurrence of a needle.
* `replaceFirst`, `eraseAll`: what an occurrence, or all of them, is replaced by.
-/

namespace CompletionPrompt
namespace Text

/-- The text before and after the first occurrence of a needle. -/
def cut? (needle : List Char) : List Char → Option (List Char × List Char)
  | [] => if needle.isEmpty then some ([], []) else none
  | c :: cs =>
    if needle.isPrefixOf (c :: cs) then some ([], (c :: cs).drop needle.length)
    else (cut? needle cs).map fun (before, after) => (c :: before, after)

/-- Does the needle occur in the text? -/
def occurs (needle text : List Char) : Bool :=
  (cut? needle text).isSome

/-- A text with the first occurrence of a needle replaced, unchanged when there is none. -/
def replaceFirst (needle replacement text : List Char) : List Char :=
  match cut? needle text with
  | some (before, after) => before ++ replacement ++ after
  | none => text

/-- A text after `skip` characters are dropped and then every occurrence of a needle. -/
def eraseFrom (needle : List Char) : Nat → List Char → List Char
  | _, [] => []
  | skip + 1, _ :: cs => eraseFrom needle skip cs
  | 0, c :: cs =>
    if needle.isPrefixOf (c :: cs) && !needle.isEmpty then eraseFrom needle (needle.length - 1) cs
    else c :: eraseFrom needle 0 cs

/-- A text without the occurrences of a needle, which do not overlap and are taken from the
left. -/
def eraseAll (needle text : List Char) : List Char :=
  eraseFrom needle 0 text

/-- A text starts with another exactly when it is the other and then some more. -/
theorem isPrefixOf_eq_true_iff {a b : List Char} :
    a.isPrefixOf b = true ↔ ∃ rest, b = a ++ rest := by
  induction a generalizing b with
  | nil => simp
  | cons x a ih =>
    cases b with
    | nil => simp
    | cons y b =>
      simp only [List.isPrefixOf, Bool.and_eq_true, beq_iff_eq, ih, List.cons_append,
        List.cons.injEq, exists_and_left]
      exact and_congr_left fun _ => eq_comm

/-- A text that holds a needle at its first occurrence is its two sides around the needle. -/
theorem eq_of_cut? {needle text before after : List Char}
    (h : cut? needle text = some (before, after)) : text = before ++ needle ++ after := by
  induction text generalizing before after with
  | nil =>
    simp only [cut?] at h
    split at h
    · simp_all
    · simp at h
  | cons c cs ih =>
    simp only [cut?] at h
    split at h
    · rename_i hp
      obtain ⟨rest, hr⟩ := isPrefixOf_eq_true_iff.1 hp
      obtain ⟨rfl, rfl⟩ := Prod.mk.inj (Option.some.inj h)
      rw [hr]
      simp
    · obtain ⟨⟨b, a⟩, hb, he⟩ := Option.map_eq_some_iff.1 h
      obtain ⟨rfl, rfl⟩ := Prod.mk.inj he
      simp [ih hb]

end Text
end CompletionPrompt

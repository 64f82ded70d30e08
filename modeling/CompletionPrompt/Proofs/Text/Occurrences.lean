import CompletionPrompt.Text.Search
import CompletionPrompt.Proofs.Text.Place

/-!
# Occurrences of a text in another

A needle occurs in a text at the byte offsets where the text goes on with it
(`mem_occurrences_iff`). The search from the left finds an occurrence whenever there is one
(`isSome_cut?`), and then the first (`prefix_of_cut?`). Where a needle occurs at one offset only, what
stands before and after it is settled (`OccursOnce.sides_eq`), so the search finds just this
occurrence (`OccursOnce.replaceFirst_eq`).
-/

namespace CompletionPrompt
namespace Text

/-- The byte offsets of a text at which a needle starts. -/
def occurrences (needle : List Char) : List Char → List Nat
  | [] => if needle.isEmpty then [0] else []
  | c :: cs =>
    (if needle.isPrefixOf (c :: cs) then [0] else []) ++
      (occurrences needle cs).map (c.utf8Size + ·)

theorem mem_occurrences_iff {needle text : List Char} {p : Nat} :
    p ∈ occurrences needle text ↔
      ∃ before after, text = before ++ needle ++ after ∧ byteLength before = p := by
  induction text generalizing p with
  | nil => cases needle <;> simp [occurrences, eq_comm]
  | cons c cs ih =>
    simp only [occurrences, List.mem_append, List.mem_map, ih]
    constructor
    · rintro (h | ⟨q, ⟨before, after, rfl, rfl⟩, rfl⟩)
      · split at h
        · rename_i hstart
          obtain ⟨after, hafter⟩ := isPrefixOf_eq_true_iff.1 hstart
          exact ⟨[], after, hafter, (List.mem_singleton.1 h).symm⟩
        · exact absurd h List.not_mem_nil
      · exact ⟨c :: before, after, rfl, rfl⟩
    · rintro ⟨before, after, h, rfl⟩
      cases before with
      | nil =>
        rw [List.nil_append] at h
        rw [if_pos (isPrefixOf_eq_true_iff.2 ⟨after, h⟩)]
        left
        exact List.mem_singleton_self 0
      | cons d before =>
        obtain ⟨rfl, rfl⟩ := List.cons.inj h
        exact .inr ⟨byteLength before, ⟨before, after, rfl, rfl⟩, rfl⟩

/-- A text in which a needle occurs is cut at an occurrence. -/
theorem isSome_cut? (before needle after : List Char) :
    (cut? needle (before ++ needle ++ after)).isSome := by
  induction before with
  | nil =>
    cases needle with
    | nil => cases after <;> simp [cut?]
    | cons c needle => simp [cut?]
  | cons c before ih =>
    rw [List.cons_append, List.cons_append, cut?]
    split
    · rfl
    · rw [Option.isSome_map, ih]

/-- A search that finds nothing says that there is nothing. -/
theorem cut?_eq_none_iff {needle text : List Char} :
    cut? needle text = none ↔ ¬ needle <:+: text := by
  constructor
  · rintro h ⟨before, after, rfl⟩
    have hfound := isSome_cut? before needle after
    rw [h] at hfound
    cases hfound
  · intro h
    cases hcut : cut? needle text with
    | none => rfl
    | some sides => exact absurd ⟨sides.1, sides.2, (eq_of_cut? hcut).symm⟩ h

/-- **The first occurrence is found:** what stands before it stands before every other. -/
theorem prefix_of_cut? {needle text before after : List Char}
    (h : cut? needle text = some (before, after)) {a b : List Char}
    (htext : text = a ++ needle ++ b) : before <+: a := by
  induction text generalizing before after a with
  | nil =>
    rw [cut?] at h
    split at h
    · obtain ⟨rfl, -⟩ := Prod.mk.inj (Option.some.inj h)
      exact List.nil_prefix
    · cases h
  | cons c cs ih =>
    rw [cut?] at h
    split at h
    · obtain ⟨rfl, -⟩ := Prod.mk.inj (Option.some.inj h)
      exact List.nil_prefix
    · rename_i hstart
      obtain ⟨⟨front, rest⟩, hcut, heq⟩ := Option.map_eq_some_iff.1 h
      obtain ⟨rfl, rfl⟩ := Prod.mk.inj heq
      cases a with
      | nil => exact absurd (isPrefixOf_eq_true_iff.2 ⟨b, htext⟩) hstart
      | cons d a =>
        obtain ⟨rfl, hcs⟩ := List.cons.inj htext
        exact List.cons_prefix_cons.2 ⟨rfl, ih hcut hcs⟩

/-- Two beginnings of one text that have as many bytes are one. -/
theorem eq_of_byteLength_eq {a b a' b' : List Char} (h : a ++ b = a' ++ b')
    (hlength : byteLength a = byteLength a') : a = a' := by
  obtain ⟨m, rfl⟩ := prefix_of_byteLength_le h (Nat.le_of_eq hlength)
  rw [byteLength_append] at hlength
  have hm : m = [] := byteLength_eq_zero_iff.1 (by omega)
  rw [hm, List.append_nil]

/-- A needle occurs in a text at one byte offset only, with some text before it and some after. -/
structure OccursOnce (needle text before after : List Char) : Prop where
  text_eq : text = before ++ needle ++ after
  only : ∀ p ∈ occurrences needle text, p = byteLength before

instance (needle text before after : List Char) :
    Decidable (OccursOnce needle text before after) :=
  decidable_of_iff (text = before ++ needle ++ after ∧
      ∀ p ∈ occurrences needle text, p = byteLength before)
    ⟨fun h => ⟨h.1, h.2⟩, fun h => ⟨h.text_eq, h.only⟩⟩

variable {needle text before after : List Char}

/-- There are no other two sides of the needle in the text. -/
theorem OccursOnce.sides_eq (h : OccursOnce needle text before after) {a b : List Char}
    (htext : text = a ++ needle ++ b) : a = before ∧ b = after := by
  have hoffset := h.only _ (mem_occurrences_iff.2 ⟨a, b, htext, rfl⟩)
  have hsides : a ++ (needle ++ b) = before ++ (needle ++ after) := by
    rw [← List.append_assoc, ← htext, h.text_eq, List.append_assoc]
  obtain rfl := eq_of_byteLength_eq hsides hoffset
  exact ⟨rfl, List.append_cancel_left (List.append_cancel_left hsides)⟩

/-- Replacing the first occurrence replaces the only one. -/
theorem OccursOnce.replaceFirst_eq (h : OccursOnce needle text before after) (r : List Char) :
    replaceFirst needle r text = before ++ r ++ after := by
  obtain ⟨⟨a, b⟩, hcut⟩ := Option.isSome_iff_exists.1 (isSome_cut? before needle after)
  rw [← h.text_eq] at hcut
  obtain ⟨rfl, rfl⟩ := h.sides_eq (eq_of_cut? hcut)
  rw [replaceFirst, hcut]

end Text
end CompletionPrompt

/-!
# Columns of a row

A column counts the bytes that a row's first characters take in UTF-8, so a column can lie past
the end of a row or inside a character; such a column cuts nothing. `headTo` then gives the whole
row and `tailFrom` nothing.
-/

namespace CompletionPrompt
namespace Text

/-- The number of bytes that a text takes in UTF-8. -/
def byteLength : List Char → Nat
  | [] => 0
  | c :: s => c.utf8Size + byteLength s

@[simp] theorem byteLength_nil : byteLength [] = 0 := rfl

@[simp] theorem byteLength_cons (c : Char) (s : List Char) :
    byteLength (c :: s) = c.utf8Size + byteLength s := rfl

@[simp] theorem byteLength_append (a b : List Char) :
    byteLength (a ++ b) = byteLength a + byteLength b := by
  induction a with
  | nil => simp
  | cons c a ih => simp [ih, Nat.add_assoc]

/-- A row cut at a column, where a character starts there or the row ends there. -/
def splitColumn? : Nat → List Char → Option (List Char × List Char)
  | 0, row => some ([], row)
  | _ + 1, [] => none
  | column + 1, c :: row =>
    if c.utf8Size ≤ column + 1 then
      (splitColumn? (column + 1 - c.utf8Size) row).map fun (before, after) => (c :: before, after)
    else none

/-- The part of a row before a column, and the whole row when the column cuts nothing. -/
def headTo (column : Nat) (row : List Char) : List Char :=
  match splitColumn? column row with
  | some (before, _) => before
  | none => row

/-- The part of a row from a column on, and nothing when the column cuts nothing. -/
def tailFrom (column : Nat) (row : List Char) : List Char :=
  match splitColumn? column row with
  | some (_, after) => after
  | none => []

/-- A column cuts a row into two parts exactly where the first part has that many bytes. -/
theorem splitColumn?_eq_some_iff {column : Nat} {row before after : List Char} :
    splitColumn? column row = some (before, after) ↔
      row = before ++ after ∧ byteLength before = column := by
  induction row generalizing column before after with
  | nil =>
    cases column with
    | zero => cases before <;> simp [splitColumn?, eq_comm]
    | succ n => cases before <;> simp [splitColumn?]
  | cons c row ih =>
    have hc : 0 < c.utf8Size := Char.utf8Size_pos c
    cases column with
    | zero =>
      cases before with
      | nil => simp [splitColumn?, eq_comm]
      | cons d before =>
        have hd : 0 < d.utf8Size := Char.utf8Size_pos d
        simp [splitColumn?]
        omega
    | succ n =>
      rw [splitColumn?]
      split
      · rename_i hle
        simp only [Option.map_eq_some_iff, Prod.exists, Prod.mk.injEq]
        constructor
        · rintro ⟨b, a, h, rfl, rfl⟩
          obtain ⟨rfl, hb⟩ := ih.1 h
          exact ⟨rfl, by simp; omega⟩
        · rintro ⟨h, hb⟩
          cases before with
          | nil => simp at hb
          | cons d before =>
            obtain ⟨rfl, rfl⟩ := List.cons.inj h
            exact ⟨before, after, ih.2 ⟨rfl, by simp at hb; omega⟩, rfl, rfl⟩
      · rename_i hle
        simp only [reduceCtorEq, false_iff, not_and]
        rintro h hb
        cases before with
        | nil => simp at hb
        | cons d before =>
          obtain ⟨rfl, rfl⟩ := List.cons.inj h
          simp at hb
          omega

end Text
end CompletionPrompt

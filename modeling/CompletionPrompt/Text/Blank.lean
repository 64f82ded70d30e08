/-!
# Blank characters

White space here is Unicode's property `White_Space`: the five controls from tab to carriage
return, the space, and the separators listed in `isBlank`. The zero width space (U+200B) and the
byte order mark (U+FEFF) are not in it.

* `trim`: a text without the blanks at its two ends.
* `words`: the maximal stretches of a text that hold no blank.
-/

namespace CompletionPrompt
namespace Text

/-- White space, as the property `White_Space` has it. -/
def isBlank (c : Char) : Bool :=
  let n := c.toNat
  (9 ≤ n && n ≤ 13) || n == 0x20 || n == 0x85 || n == 0xA0 || n == 0x1680 ||
    (0x2000 ≤ n && n ≤ 0x200A) || n == 0x2028 || n == 0x2029 || n == 0x202F || n == 0x205F ||
    n == 0x3000

/-- A text without the characters of a class at its end. -/
def dropEndWhile (p : Char → Bool) (s : List Char) : List Char :=
  (s.reverse.dropWhile p).reverse

theorem dropEndWhile_append {p : Char → Bool} {s : List Char} (t : List Char)
    (hs : ∀ c ∈ s.getLast?, p c = false) :
    dropEndWhile p (s ++ t) = s ++ dropEndWhile p t := by
  rw [dropEndWhile, List.reverse_append, List.dropWhile_append]
  split
  · rename_i hempty
    have hs : s.reverse.dropWhile p = s.reverse := by
      cases hr : s.reverse with
      | nil => rfl
      | cons c r =>
        have hlast : s.getLast? = some c := by rw [← List.head?_reverse, hr]; rfl
        exact List.dropWhile_cons_of_neg (by simp [hs c hlast])
    rw [hs, List.reverse_reverse, dropEndWhile, List.isEmpty_iff.1 hempty]
    simp
  · rw [List.reverse_append, List.reverse_reverse, dropEndWhile]

theorem dropEndWhile_append_of_forall {p : Char → Bool} (s : List Char) {t : List Char}
    (ht : ∀ c ∈ t, p c = true) : dropEndWhile p (s ++ t) = dropEndWhile p s := by
  rw [dropEndWhile, List.reverse_append,
    List.dropWhile_append_of_pos fun c hc => ht c (List.mem_reverse.1 hc), dropEndWhile]

theorem exists_dropEndWhile_append (p : Char → Bool) (s : List Char) :
    ∃ t, s = dropEndWhile p s ++ t ∧ ∀ c ∈ t, p c = true := by
  refine ⟨(s.reverse.takeWhile p).reverse, ?_, fun c hc => ?_⟩
  · rw [dropEndWhile, ← List.reverse_append, List.takeWhile_append_dropWhile,
      List.reverse_reverse]
  · exact List.all_eq_true.1 List.all_takeWhile c (List.mem_reverse.1 hc)

/-- A text without the characters of a class at its end ends with none of them. -/
theorem not_of_mem_getLast?_dropEndWhile {p : Char → Bool} {s : List Char} {c : Char}
    (h : c ∈ (dropEndWhile p s).getLast?) : p c = false := by
  rw [dropEndWhile, List.getLast?_reverse] at h
  have hnot := List.head?_dropWhile_not p s.reverse
  rw [Option.mem_def.1 h] at hnot
  exact hnot

/-- A text without the characters of a class at its two ends. -/
def trimBoth (p : Char → Bool) (s : List Char) : List Char :=
  dropEndWhile p (s.dropWhile p)

/-- A text without the blanks at its two ends. -/
def trim (s : List Char) : List Char :=
  trimBoth isBlank s

@[simp] theorem trim_nil : trim [] = [] := rfl

/-- The first word of a text, empty when all of it is blank. -/
def firstWord (s : List Char) : List Char :=
  (s.dropWhile isBlank).takeWhile (!isBlank ·)

/-- The words of a text, in order. -/
def words (s : List Char) : List (List Char) :=
  (s.splitOnP isBlank).filter (!·.isEmpty)

/-- A text is blank when it holds no word: it is empty or all white space. -/
def allBlank (s : List Char) : Bool :=
  s.all isBlank

end Text
end CompletionPrompt

import CompletionPrompt.Text.Blank
import CompletionPrompt.Text.Rows
import CompletionPrompt.Text.Columns
import CompletionPrompt.Proofs.Text.Pieces

/-!
# Places of a text

The place where a text ends is the row `lineFeeds` and the column `lastColumn`. Put behind one
another, two texts share one row: the last row of the first text and the first row of the second
make one (`rows_append`). So the place where a text ends says how much of a longer text it is: a
longer beginning ends at a later place (`placeLe_endOf_iff`), and a row and a column that a
text has belong to exactly one beginning of it (`isPlace_iff`).
-/

namespace CompletionPrompt
namespace Text

/-! ### First and last row -/

/-- The first row of a text. -/
def firstRow (s : List Char) : List Char :=
  (rows s).headD []

/-- The last row of a text. -/
def lastRow (s : List Char) : List Char :=
  (rows s).getLastD []

/-- The column where a text ends. -/
def lastColumn (s : List Char) : Nat :=
  byteLength (lastRow s)

theorem rows_ne_nil (s : List Char) : rows s ≠ [] :=
  List.splitOn_ne_nil '\n' s

theorem rows_cons (c : Char) (s : List Char) :
    rows (c :: s) = if c = '\n' then [] :: rows s else (rows s).modifyHead (c :: ·) := by
  simp only [rows, List.splitOn_cons_eq_if_modifyHead, beq_iff_eq]

/-- The rows of a text are its first row and the others. -/
theorem firstRow_cons_tail (s : List Char) : firstRow s :: (rows s).tail = rows s := by
  obtain ⟨r, rs, h⟩ := List.exists_cons_of_ne_nil (rows_ne_nil s)
  simp [firstRow, h]

/-- The rows of a text are all but the last, and the last. -/
theorem dropLast_append_lastRow (s : List Char) : (rows s).dropLast ++ [lastRow s] = rows s := by
  rw [lastRow, List.getLastD_eq_getLast?, List.getLast?_eq_some_getLast (rows_ne_nil s)]
  exact List.dropLast_concat_getLast (rows_ne_nil s)

/-- A text starts with its first row. -/
theorem firstRow_prefix (s : List Char) : firstRow s <+: s := by
  have hs : unrows (firstRow s :: (rows s).tail) = s := by rw [firstRow_cons_tail, unrows_rows]
  cases htail : (rows s).tail with
  | nil => exact ⟨[], by simpa [htail, unrows] using hs⟩
  | cons r rs =>
    rw [htail, unrows, List.intercalate_cons_cons, List.append_assoc] at hs
    exact ⟨_, hs⟩

/-- The rows below the first are those of what stands behind the first character, without the row
that the character stands on. -/
theorem tail_rows_cons (c : Char) (s : List Char) :
    (rows (c :: s)).tail = if c = '\n' then rows s else (rows s).tail := by
  rw [rows_cons]
  split
  · rfl
  · rw [List.tail_modifyHead]

@[simp] theorem firstRow_nil : firstRow [] = [] := rfl

@[simp] theorem lastRow_nil : lastRow [] = [] := rfl

@[simp] theorem lastColumn_nil : lastColumn [] = 0 := rfl

/-- A text without line feeds is one row. -/
theorem rows_of_not_mem {s : List Char} (h : '\n' ∉ s) : rows s = [s] :=
  List.splitOn_eq_singleton h

/-- No row holds a line feed. -/
theorem not_mem_of_mem_rows {s r : List Char} (h : r ∈ rows s) : '\n' ∉ r :=
  not_mem_of_mem_splitOn h

theorem not_mem_firstRow (s : List Char) : '\n' ∉ firstRow s :=
  not_mem_of_mem_rows (firstRow_cons_tail s ▸ List.mem_cons_self)

theorem not_mem_lastRow (s : List Char) : '\n' ∉ lastRow s :=
  not_mem_of_mem_rows (dropLast_append_lastRow s ▸ List.mem_append_right _ List.mem_cons_self)

/-- Rows without line feeds are the rows of the text that they make. -/
theorem rows_unrows {rs : List (List Char)} (hne : rs ≠ []) (h : ∀ r ∈ rs, '\n' ∉ r) :
    rows (unrows rs) = rs :=
  List.splitOn_intercalate '\n' h hne

/-! ### Texts behind one another -/

/-- **Two texts share one row:** where one ends and the other starts. -/
theorem rows_append (a b : List Char) :
    rows (a ++ b) = (rows a).dropLast ++ (lastRow a ++ firstRow b) :: (rows b).tail := by
  induction a with
  | nil => simpa using (firstRow_cons_tail b).symm
  | cons c a ih =>
    obtain ⟨r, rs, hr⟩ := List.exists_cons_of_ne_nil (rows_ne_nil a)
    rw [List.cons_append, rows_cons, ih]
    by_cases hc : c = '\n'
    · simp [lastRow, rows_cons, hc, hr, List.getLastD_eq_getLast?]
    · cases rs <;> simp [lastRow, rows_cons, hc, hr, List.getLastD_eq_getLast?]

/-- A line feed ends a row. -/
theorem rows_append_feed (a b : List Char) : rows (a ++ '\n' :: b) = rows a ++ rows b := by
  have hfirst : firstRow ('\n' :: b) = [] := by simp [firstRow, rows_cons]
  have htail : (rows ('\n' :: b)).tail = rows b := by simp [rows_cons]
  rw [rows_append, hfirst, htail, List.append_nil, ← List.singleton_append, ← List.append_assoc,
    dropLast_append_lastRow]

/-- The rows above a row that a line feed starts. -/
theorem unrows_take_rows (a b : List Char) :
    unrows ((rows (a ++ '\n' :: b)).take (rows a).length) = a := by
  rw [rows_append_feed, List.take_left, unrows_rows]

/-- What follows an ended row starts a row of its own. -/
theorem rows_append_of_lastRow_eq_nil {a : List Char} (ha : lastRow a = []) (b : List Char) :
    rows (a ++ b) = (rows a).dropLast ++ rows b := by
  rw [rows_append, ha, List.nil_append, firstRow_cons_tail]

/-- Texts that are joined by line feeds bring their rows. -/
theorem rows_unrows_eq_flatMap {ss : List (List Char)} (hne : ss ≠ []) :
    rows (unrows ss) = ss.flatMap rows := by
  induction ss with
  | nil => exact absurd rfl hne
  | cons s ss ih =>
    cases ss with
    | nil => simp [unrows]
    | cons t ss =>
      rw [unrows, List.intercalate_cons_cons, List.append_assoc, List.singleton_append,
        rows_append_feed, List.flatMap_cons]
      exact congrArg (rows s ++ ·) (ih (List.cons_ne_nil t ss))

/-- A text whose rows are joined around a stretch of one row is the stretch between two texts. -/
theorem unrows_append_cons (before after : List (List Char)) (l m r : List Char) :
    unrows (before ++ (l ++ m ++ r) :: after) =
      unrows (before ++ [l]) ++ m ++ unrows (r :: after) := by
  induction before with
  | nil => cases after <;> simp [unrows, List.intercalate_cons_cons]
  | cons b before ih =>
    have h : ∀ x xs, unrows (b :: (before ++ x :: xs)) = b ++ '\n' :: unrows (before ++ x :: xs) :=
      fun x xs => by cases before <;> simp [unrows, List.intercalate_cons_cons]
    rw [List.cons_append, h, ih, List.cons_append, h]
    simp

/-- A text in front of a row makes that row longer. -/
theorem rows_append_of_not_mem {l : List Char} (hl : '\n' ∉ l) (s : List Char) :
    rows (l ++ s) = (l ++ firstRow s) :: (rows s).tail := by
  rw [rows_append, rows_of_not_mem hl]
  simp [lastRow, rows_of_not_mem hl]

/-- A text without line feeds makes the last row longer. -/
theorem rows_append_right {r : List Char} (hr : '\n' ∉ r) (s : List Char) :
    rows (s ++ r) = (rows s).dropLast ++ [lastRow s ++ r] := by
  rw [rows_append, rows_of_not_mem hr]
  simp [firstRow, rows_of_not_mem hr]

theorem length_rows (s : List Char) : (rows s).length = lineFeeds s + 1 := by
  induction s with
  | nil => rfl
  | cons c s ih =>
    rw [rows_cons]
    by_cases hc : c = '\n' <;> simp [hc, ih, lineFeeds]

theorem lastRow_append (a b : List Char) :
    lastRow (a ++ b) = if '\n' ∈ b then lastRow b else lastRow a ++ b := by
  split
  · rename_i h
    obtain ⟨r, rs, hr⟩ := List.exists_cons_of_ne_nil (rows_ne_nil b)
    have hrs : rs ≠ [] := by
      rintro rfl
      have := length_rows b
      simp [hr, lineFeeds, List.count_eq_zero, h] at this
    obtain ⟨r', rs', rfl⟩ := List.exists_cons_of_ne_nil hrs
    simp [lastRow, rows_append, hr, List.getLastD_eq_getLast?, List.getLast?_cons]
  · rename_i h
    simp [lastRow, rows_append_right h, List.getLastD_eq_getLast?]

/-- The last row is empty behind a line feed, or in an empty text. -/
theorem lastRow_eq_nil_iff {s : List Char} :
    lastRow s = [] ↔ s = [] ∨ s.getLast? = some '\n' := by
  rcases List.eq_nil_or_concat s with rfl | ⟨s, c, rfl⟩
  · simp
  · rw [List.concat_eq_append, lastRow_append, List.getLast?_concat]
    by_cases hc : c = '\n'
    · simp [hc, lastRow, rows_cons]
    · simp [hc, Ne.symm hc]

/-- What stands above the last row of a text ends in a line feed, or there is nothing. -/
theorem lastRow_dropEndWhile (s : List Char) : lastRow (dropEndWhile (· != '\n') s) = [] := by
  refine lastRow_eq_nil_iff.2 ?_
  cases h : (dropEndWhile (· != '\n') s).getLast? with
  | none => exact .inl (List.getLast?_eq_none_iff.1 h)
  | some c => exact .inr (by simpa using not_of_mem_getLast?_dropEndWhile h)

/-- A text without line feeds ends in its first row. -/
theorem lineFeeds_eq_zero_iff {s : List Char} : lineFeeds s = 0 ↔ '\n' ∉ s :=
  List.count_eq_zero

theorem lineFeeds_dropEndWhile (s : List Char) :
    lineFeeds (dropEndWhile (· != '\n') s) = lineFeeds s := by
  obtain ⟨row, hs, hrow⟩ := exists_dropEndWhile_append (· != '\n') s
  have hfeeds : lineFeeds row = 0 := lineFeeds_eq_zero_iff.2 fun h => by simpa using hrow '\n' h
  have hcount := congrArg lineFeeds hs
  rw [lineFeeds_append, hfeeds] at hcount
  exact hcount.symm

@[simp] theorem headTo_byteLength (a b : List Char) : headTo (byteLength a) (a ++ b) = a := by
  rw [headTo, splitColumn?_eq_some_iff.2 ⟨rfl, rfl⟩]

@[simp] theorem tailFrom_byteLength (a b : List Char) : tailFrom (byteLength a) (a ++ b) = b := by
  rw [tailFrom, splitColumn?_eq_some_iff.2 ⟨rfl, rfl⟩]

theorem byteLength_eq_zero_iff {s : List Char} : byteLength s = 0 ↔ s = [] := by
  cases s with
  | nil => simp
  | cons c s =>
    have := Char.utf8Size_pos c
    simp
    omega

/-- Of two beginnings of a text, the one with fewer bytes is a beginning of the other. -/
theorem prefix_of_byteLength_le {a b a' b' : List Char} (h : a ++ b = a' ++ b')
    (hle : byteLength a ≤ byteLength a') : a <+: a' := by
  rcases List.append_eq_append_iff.1 h with ⟨m, rfl, -⟩ | ⟨m, rfl, -⟩
  · exact List.prefix_append a m
  · rw [byteLength_append] at hle
    obtain rfl := byteLength_eq_zero_iff.1 (show byteLength m = 0 by omega)
    simp

theorem length_dropLast_rows (s : List Char) : (rows s).dropLast.length = lineFeeds s := by
  simp [length_rows]

/-- The rows above the end of a text are all its rows but the last, whatever follows. -/
theorem take_lineFeeds_rows (a b : List Char) :
    (rows (a ++ b)).take (lineFeeds a) = (rows a).dropLast := by
  rw [rows_append, ← length_dropLast_rows, List.take_left]

/-- The row where a beginning of a text ends. -/
theorem getElem?_lineFeeds_rows (a b : List Char) :
    (rows (a ++ b))[lineFeeds a]? = some (lastRow a ++ firstRow b) := by
  rw [rows_append, ← length_dropLast_rows, List.getElem?_append_right (Nat.le_refl _), Nat.sub_self]
  rfl

/-- As many rows take part in a stretch of a text as the stretch has itself. -/
theorem length_rows_stretch (a m b : List Char) :
    (rows (lastRow a ++ m ++ firstRow b)).length = lineFeeds m + 1 := by
  simp [length_rows, lineFeeds_append, lineFeeds_eq_zero_iff.2 (not_mem_lastRow a),
    lineFeeds_eq_zero_iff.2 (not_mem_firstRow b)]

/-- The rows around a stretch of a text, and those that the stretch takes part in. -/
theorem rows_append_append (a m b : List Char) :
    rows (a ++ m ++ b) =
      (rows a).dropLast ++ rows (lastRow a ++ m ++ firstRow b) ++ (rows b).tail := by
  have hright : rows (lastRow a ++ (m ++ b)) =
      rows (lastRow a ++ m ++ firstRow b) ++ (rows b).tail := by
    rw [← List.append_assoc, rows_append, rows_append_right (not_mem_firstRow b)]
    simp
  rw [List.append_assoc, rows_append, ← rows_append_of_not_mem (not_mem_lastRow a), hright,
    ← List.append_assoc]

theorem lastRow_lastRow_append (a m : List Char) : lastRow (lastRow a ++ m) = lastRow (a ++ m) := by
  have h : lastRow (lastRow a) = lastRow a := by
    rw [lastRow, rows_of_not_mem (not_mem_lastRow a)]
    rfl
  rw [lastRow_append, lastRow_append, h]

/-! ### Places -/

/-- The place where a text ends: its row and its column. -/
def endOf (s : List Char) : Nat × Nat :=
  (lineFeeds s, lastColumn s)

/-- One place is another or comes before it: rows count first, and then columns. -/
def PlaceLe (p q : Nat × Nat) : Prop :=
  p.1 < q.1 ∨ p.1 = q.1 ∧ p.2 ≤ q.2

instance (p q : Nat × Nat) : Decidable (PlaceLe p q) :=
  inferInstanceAs (Decidable (_ ∨ _))

theorem PlaceLe.trans {p q r : Nat × Nat} (hpq : PlaceLe p q) (hqr : PlaceLe q r) :
    PlaceLe p r := by
  simp only [PlaceLe] at *
  omega

/-- A place of a text: a row that it has, and a column at which a character of that row starts or
the row ends. -/
def IsPlace (text : List Char) (p : Nat × Nat) : Prop :=
  ∃ r ∈ (rows text)[p.1]?, (splitColumn? p.2 r).isSome

instance (text : List Char) (p : Nat × Nat) : Decidable (IsPlace text p) :=
  match h : (rows text)[p.1]? with
  | some r => decidable_of_iff ((splitColumn? p.2 r).isSome = true) (by simp [IsPlace, h])
  | none => .isFalse (by simp [IsPlace, h])

/-- The number of characters of a text before a place. -/
def offset (text : List Char) (p : Nat × Nat) : Nat :=
  (unrows ((rows text).take p.1 ++ [headTo p.2 ((rows text).getD p.1 [])])).length

theorem endOf_append_of_not_mem {m : List Char} (h : '\n' ∉ m) (a : List Char) :
    endOf (a ++ m) = (lineFeeds a, lastColumn a + byteLength m) := by
  simp [endOf, lastColumn, lastRow_append, h, lineFeeds_append, lineFeeds_eq_zero_iff.2 h]

/-- A text that ends in a line feed ends where a row starts. -/
theorem endOf_append_feed (s : List Char) : endOf (s ++ ['\n']) = ((rows s).length, 0) := by
  have hlast : lastRow (s ++ ['\n']) = [] := lastRow_eq_nil_iff.2 (.inr List.getLast?_concat)
  rw [endOf, lastColumn, hlast, lineFeeds_append, length_rows]
  rfl

/-- A longer text ends at a later place. -/
theorem placeLe_endOf_append (a m : List Char) :
    PlaceLe (endOf a) (endOf (a ++ m)) ∧ (PlaceLe (endOf (a ++ m)) (endOf a) → m = []) := by
  by_cases h : '\n' ∈ m
  · have hpos : lineFeeds m ≠ 0 := fun h₀ => lineFeeds_eq_zero_iff.1 h₀ h
    have hrow : lineFeeds (a ++ m) = lineFeeds a + lineFeeds m := lineFeeds_append a m
    constructor
    · left
      simp only [endOf]
      omega
    · intro hle
      simp only [PlaceLe, endOf] at hle
      omega
  · rw [endOf_append_of_not_mem h]
    constructor
    · right
      simp [endOf]
    · intro hle
      simp only [PlaceLe, endOf] at hle
      exact byteLength_eq_zero_iff.1 (by omega)

/-- Two beginnings of one text end in the order of their lengths. -/
theorem placeLe_endOf_iff {a b a' b' : List Char} (h : a ++ b = a' ++ b') :
    PlaceLe (endOf a) (endOf a') ↔ a.length ≤ a'.length := by
  rcases List.append_eq_append_iff.1 h with ⟨m, rfl, -⟩ | ⟨m, rfl, -⟩
  · simpa using (placeLe_endOf_append a m).1
  · constructor
    · intro hle
      simp [(placeLe_endOf_append a' m).2 hle]
    · intro hle
      rw [List.length_append] at hle
      have hm : m = [] := List.length_eq_zero_iff.1 (by omega)
      simp [hm, PlaceLe]

/-- The place where a beginning of a text ends has that beginning before it. -/
theorem offset_endOf (a b : List Char) : offset (a ++ b) (endOf a) = a.length := by
  have hrow : (rows (a ++ b)).getD (lineFeeds a) [] = lastRow a ++ firstRow b := by
    rw [List.getD_eq_getElem?_getD, getElem?_lineFeeds_rows, Option.getD_some]
  rw [offset, endOf, take_lineFeeds_rows, hrow, lastColumn, headTo_byteLength,
    dropLast_append_lastRow, unrows_rows]

/-- **A place of a text is where a beginning of it ends.** -/
theorem isPlace_iff {text : List Char} {p : Nat × Nat} :
    IsPlace text p ↔ ∃ before after, text = before ++ after ∧ endOf before = p := by
  constructor
  · rintro ⟨r, hr, hsplit⟩
    obtain ⟨⟨l, m⟩, hlm⟩ := Option.isSome_iff_exists.1 hsplit
    obtain ⟨rfl, hcol⟩ := splitColumn?_eq_some_iff.1 hlm
    obtain ⟨hlt, hget⟩ := List.getElem?_eq_some_iff.1 hr
    have hrow : '\n' ∉ l ++ m := not_mem_of_mem_rows (List.mem_of_getElem hget)
    have hbefore : rows (unrows ((rows text).take p.1 ++ [l])) = (rows text).take p.1 ++ [l] := by
      refine rows_unrows (by simp) fun r' hr' => ?_
      rcases List.mem_append.1 hr' with h | h
      · exact not_mem_of_mem_rows (List.mem_of_mem_take h)
      · obtain rfl := List.mem_singleton.1 h
        exact fun h => hrow (List.mem_append_left _ h)
    have hlines := length_rows (unrows ((rows text).take p.1 ++ [l]))
    rw [hbefore, List.length_append, List.length_take_of_le (Nat.le_of_lt hlt)] at hlines
    refine ⟨unrows ((rows text).take p.1 ++ [l]), unrows (m :: (rows text).drop (p.1 + 1)), ?_, ?_⟩
    · have hrows : text =
          unrows ((rows text).take p.1 ++ (l ++ [] ++ m) :: (rows text).drop (p.1 + 1)) := by
        rw [List.append_nil, ← hget, List.getElem_cons_drop, List.take_append_drop, unrows_rows]
      calc text = _ := hrows
        _ = _ := by rw [unrows_append_cons, List.append_nil]
    · rw [endOf, lastColumn, lastRow, hbefore, List.getLastD_concat, hcol]
      exact Prod.ext (by simpa using hlines.symm) rfl
  · rintro ⟨before, after, rfl, rfl⟩
    refine ⟨lastRow before ++ firstRow after, getElem?_lineFeeds_rows before after, ?_⟩
    rw [endOf, lastColumn, splitColumn?_eq_some_iff.2 ⟨rfl, rfl⟩]
    rfl

end Text
end CompletionPrompt

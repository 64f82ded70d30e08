import CompletionPrompt.Proofs.Prompt.Descriptions
import CompletionPrompt.Proofs.Prompt.Insertion

/-!
# Texts whose characters keep where they come from

When descriptions are inserted into a source, each character of the result comes from an offset of
the source or from a description (`Traced`). A character is swallowed when a comment sign of a
description opens its row (`Traced.Swallows`). A description ends in a comment row without a line
feed, so it swallows the rest of the row that it is inserted into, and nothing else
(`Traced.swallows_described`).
-/

namespace CompletionPrompt

/-- Where a character comes from: from an offset of the source, where it is part of a lexeme of some
kind, or from a description. -/
inductive Origin where
  | source (offset : Nat) (kind : Source.Kind)
  | description
deriving DecidableEq, Repr

/-- A text whose characters keep where they come from. -/
abbrev Traced := List (Char × Origin)

namespace Traced

/-- The text alone. -/
def plain (t : Traced) : List Char :=
  t.map (·.1)

/-- A source. -/
def ofSource (source : List Char) : Traced :=
  ((Source.pieces source).flatMap fun p => p.text.map (·, p.kind)).zipIdx.map fun x =>
    (x.1.1, .source x.2 x.1.2)

/-- A description. -/
def ofDescription (d : List Char) : Traced :=
  d.map (·, .description)

/-- A character other than the line feed. -/
def isInner (x : Char × Origin) : Bool :=
  x.1 != '\n'

/-- The rows of a text. -/
def rows (t : Traced) : List Traced :=
  t.splitOnP fun x => !isInner x

/-- The first row of a text. -/
def firstRow (t : Traced) : Traced :=
  t.takeWhile isInner

/-- A character stands on a row that the comment sign of a description opens. -/
def Swallows (t : Traced) (x : Char × Origin) : Prop :=
  ∃ row ∈ rows t, row.head? = some ('#', .description) ∧ x ∈ row

instance (t : Traced) (x : Char × Origin) : Decidable (Swallows t x) :=
  inferInstanceAs (Decidable (∃ row ∈ rows t, row.head? = some ('#', .description) ∧ x ∈ row))

theorem plain_ofSource (source : List Char) : plain (ofSource source) = source := by
  have hpieces : ((Source.pieces source).flatMap fun p => p.text.map (·, p.kind)).map (·.1) =
      source := by
    simpa [List.map_flatMap, Function.comp_def, Source.written] using Source.written_pieces source
  rw [plain, ofSource, List.map_map]
  conv_rhs => rw [← hpieces, ← List.zipIdx_map_fst 0 (List.flatMap _ _), List.map_map]
  rfl

theorem plain_ofDescription (d : List Char) : plain (ofDescription d) = d := by
  simp [plain, ofDescription, Function.comp_def]

theorem ne_description_of_mem_ofSource {source : List Char} {x : Char × Origin}
    (h : x ∈ ofSource source) : x.2 ≠ .description := by
  obtain ⟨y, -, rfl⟩ := List.mem_map.1 h
  exact Origin.noConfusion

theorem eq_description_of_mem_ofDescription {d : List Char} {x : Char × Origin}
    (h : x ∈ ofDescription d) : x.2 = .description := by
  obtain ⟨c, -, rfl⟩ := List.mem_map.1 h
  rfl

/-! ### Rows -/

variable {t a b row : Traced} {x : Char × Origin}

/-- A text is one row, or a row, a line feed and more. -/
theorem inner_or_exists_cut (t : Traced) : (∀ y ∈ t, isInner y) ∨
    ∃ row feed rest, t = row ++ feed :: rest ∧ (∀ y ∈ row, isInner y) ∧ isInner feed = false := by
  by_cases h : ∀ y ∈ t, isInner y
  · exact .inl h
  · right
    have hcut : t.takeWhile isInner ++ t.dropWhile isInner = t := List.takeWhile_append_dropWhile
    obtain ⟨feed, rest, hrest⟩ : ∃ feed rest, t.dropWhile isInner = feed :: rest :=
      List.exists_cons_of_ne_nil (by simpa [List.dropWhile_eq_nil_iff] using h)
    have hfeed := List.head?_dropWhile_not isInner t
    rw [hrest] at hfeed
    exact ⟨t.takeWhile isInner, feed, rest, by rw [← hrest, hcut],
      fun y hy => List.mem_takeWhile_imp hy, hfeed⟩

theorem rows_of_inner (h : ∀ y ∈ t, isInner y) : rows t = [t] :=
  List.splitOnP_eq_singleton fun y hy => by simp [h y hy]

theorem rows_append_cons (a b : Traced) {feed : Char × Origin} (hfeed : isInner feed = false) :
    rows (a ++ feed :: b) = rows a ++ rows b :=
  List.splitOnP_append_cons a b (by simp [hfeed])

theorem firstRow_append_of_inner (h : ∀ y ∈ a, isInner y) (b : Traced) :
    firstRow (a ++ b) = a ++ firstRow b :=
  List.takeWhile_append_of_pos h

theorem firstRow_cons_feed {feed : Char × Origin} (hfeed : isInner feed = false) (t : Traced) :
    firstRow (feed :: t) = [] := by
  simp [firstRow, hfeed]

/-- The first row of a text goes on from a row in front of it. -/
theorem rows_append_of_inner (hrow : ∀ y ∈ row, isInner y) (t : Traced) :
    ∃ later, rows t = firstRow t :: later ∧ rows (row ++ t) = (row ++ firstRow t) :: later := by
  rcases inner_or_exists_cut t with h | ⟨first, feed, rest, rfl, hfirst, hfeed⟩
  · have hboth : ∀ y ∈ row ++ t, isInner y := List.forall_mem_append.2 ⟨hrow, h⟩
    have hall : firstRow t = t := List.takeWhile_eq_self_iff.2 h
    exact ⟨[], by rw [rows_of_inner h, hall], by rw [rows_of_inner hboth, hall]⟩
  · have hboth : ∀ y ∈ row ++ first, isInner y := List.forall_mem_append.2 ⟨hrow, hfirst⟩
    have hhead : firstRow (first ++ feed :: rest) = first := by
      rw [firstRow_append_of_inner hfirst, firstRow_cons_feed hfeed, List.append_nil]
    refine ⟨rows rest, ?_, ?_⟩
    · rw [rows_append_cons _ _ hfeed, rows_of_inner hfirst, hhead, List.singleton_append]
    · rw [hhead, ← List.append_assoc, rows_append_cons _ _ hfeed, rows_of_inner hboth,
        List.singleton_append]

theorem mem_of_mem_rows (hrow : row ∈ rows t) (hx : x ∈ row) : x ∈ t :=
  Text.mem_of_mem_splitOnP hrow hx

theorem Swallows.mem (h : Swallows t x) : x ∈ t := by
  obtain ⟨row, hrow, -, hx⟩ := h
  exact mem_of_mem_rows hrow hx

/-- No row of a source is opened by a description. -/
theorem not_swallows_of_source (h : ∀ y ∈ t, y.2 ≠ .description) : ¬ Swallows t x := by
  rintro ⟨row, hrow, hhead, -⟩
  exact h _ (mem_of_mem_rows hrow (List.mem_of_head? hhead)) rfl

theorem swallows_append_cons {feed : Char × Origin} (hfeed : isInner feed = false) :
    Swallows (a ++ feed :: b) x ↔ Swallows a x ∨ Swallows b x := by
  simp only [Swallows, rows_append_cons a b hfeed, List.mem_append, or_and_right, exists_or]

/-- A row that is opened by a description takes in the first row of what is behind it. -/
theorem swallows_append_of_comment (hrow : ∀ y ∈ row, isInner y)
    (hhead : row.head? = some ('#', .description)) (t : Traced) :
    Swallows (row ++ t) x ↔ x ∈ row ∨ x ∈ firstRow t ∨ Swallows t x := by
  obtain ⟨later, hrows, happend⟩ := rows_append_of_inner hrow t
  have hopen : (row ++ firstRow t).head? = some ('#', .description) := by
    rw [List.head?_append, hhead, Option.some_or]
  simp only [Swallows, hrows, happend, List.mem_cons, exists_eq_or_imp, hopen, true_and,
    List.mem_append]
  tauto

/-- Comment rows take in the first row of what is behind them. -/
theorem swallows_comments {rs : List (List Char)} (hne : rs ≠ [])
    (hrows : ∀ row ∈ rs, row.head? = some '#' ∧ '\n' ∉ row) (hx : x.2 ≠ .description) (b : Traced) :
    Swallows (ofDescription (Text.unrows rs) ++ b) x ↔ x ∈ firstRow b ∨ Swallows b x := by
  have hother : ∀ d : List Char, x ∉ ofDescription d := fun d h =>
    hx (eq_description_of_mem_ofDescription h)
  induction rs with
  | nil => exact absurd rfl hne
  | cons r rs ih =>
    obtain ⟨⟨hhead, hfeedless⟩, hrest⟩ := List.forall_mem_cons.1 hrows
    have hinner : ∀ y ∈ ofDescription r, isInner y := by
      intro y hy
      obtain ⟨c, hc, rfl⟩ := List.mem_map.1 hy
      rw [isInner, bne_iff_ne]
      rintro rfl
      exact hfeedless hc
    have hopen : (ofDescription r).head? = some ('#', .description) := by
      rw [ofDescription, List.head?_map, hhead]
      rfl
    cases rs with
    | nil =>
      have hone : Text.unrows [r] = r := List.intercalate_singleton
      rw [hone, swallows_append_of_comment hinner hopen]
      simp [hother r]
    | cons next rs =>
      have hsplit : ofDescription (Text.unrows (r :: next :: rs)) ++ b =
          ofDescription r ++
            ('\n', .description) :: (ofDescription (Text.unrows (next :: rs)) ++ b) := by
        simp [Text.unrows, List.intercalate_cons_cons, ofDescription]
      have hnone : ¬ Swallows (ofDescription r) x := fun h => hother r h.mem
      rw [hsplit, swallows_append_cons rfl, or_iff_right hnone]
      exact ih (List.cons_ne_nil _ _) hrest

/-- **A description swallows the first row of what is behind it.** -/
theorem swallows_description {rs : List (List Char)} (hne : rs ≠ [])
    (hrows : ∀ row ∈ rs, row.head? = some '#' ∧ '\n' ∉ row) (hx : x.2 ≠ .description)
    (a b : Traced) :
    Swallows (a ++ ofDescription ('\n' :: Text.unrows rs) ++ b) x ↔
      Swallows a x ∨ x ∈ firstRow b ∨ Swallows b x := by
  have hcut : a ++ ofDescription ('\n' :: Text.unrows rs) ++ b =
      a ++ ('\n', .description) :: (ofDescription (Text.unrows rs) ++ b) := by
    simp [ofDescription]
  rw [hcut, swallows_append_cons rfl, swallows_comments hne hrows hx]

/-! ### A source with descriptions -/

theorem mem_firstRow_append : x ∈ firstRow (a ++ b) ↔
    x ∈ firstRow a ∨ (∀ y ∈ a, isInner y) ∧ x ∈ firstRow b := by
  rcases inner_or_exists_cut a with h | ⟨row, feed, rest, rfl, hrow, hfeed⟩
  · have hall : firstRow a = a := List.takeWhile_eq_self_iff.2 h
    rw [firstRow_append_of_inner h, List.mem_append, hall]
    exact or_congr_right (and_iff_right h).symm
  · have hnot : ¬ ∀ y ∈ row ++ feed :: rest, isInner y := fun h => by
      simp [h feed (by simp)] at hfeed
    rw [List.append_assoc, firstRow_append_of_inner hrow, firstRow_append_of_inner hrow,
      List.cons_append, firstRow_cons_feed hfeed, firstRow_cons_feed hfeed]
    exact (or_iff_left fun h => hnot h.1).symm

/-- A source with descriptions inserted, from an offset of the source on. -/
def described (s : Traced) (p : Nat) (insertions : List (Nat × List Char)) : Traced :=
  Text.insertFrom s p (insertions.map fun e => (e.1, ofDescription e.2))

/-- What stands behind the places where something is inserted, up to the ends of the rows. -/
def BehindInsertions (s : Traced) (insertions : List (Nat × List Char)) (x : Char × Origin) :
    Prop :=
  ∃ e ∈ insertions, e.2 ≠ [] ∧ x ∈ firstRow (s.drop e.1)

section Described

variable {s : Traced} {p q : Nat} {d : List Char} {insertions : List (Nat × List Char)}

theorem described_cons (s : Traced) (p q : Nat) (d : List Char)
    (insertions : List (Nat × List Char)) :
    described s p ((q, d) :: insertions) =
      (s.drop p).take (q - p) ++ ofDescription d ++ described s q insertions :=
  rfl

/-- Inserting nothing leaves the source going on. -/
theorem described_cons_nil
    (hsorted : (p :: ((q, ([] : List Char)) :: insertions).map Prod.fst).Pairwise (· ≤ ·)) :
    described s p ((q, []) :: insertions) = described s p insertions := by
  obtain ⟨hp, hq⟩ := List.pairwise_cons.1 hsorted
  have hafter : ∀ e ∈ insertions.map fun e => (e.1, ofDescription e.2), q ≤ e.1 := by
    intro e he
    obtain ⟨e', he', rfl⟩ := List.mem_map.1 he
    exact (List.pairwise_cons.1 hq).1 e'.1 (List.mem_map_of_mem he')
  rw [described_cons, described, described,
    Text.insertFrom_eq_append (hp q List.mem_cons_self) hafter]
  simp [ofDescription]

theorem behindInsertions_cons : BehindInsertions s ((q, d) :: insertions) x ↔
    d ≠ [] ∧ x ∈ firstRow (s.drop q) ∨ BehindInsertions s insertions x := by
  simp [BehindInsertions]

/-- Where nothing is inserted, nothing stands behind it. -/
theorem behindInsertions_cons_nil :
    BehindInsertions s ((q, []) :: insertions) x ↔ BehindInsertions s insertions x := by
  simp [behindInsertions_cons]

/-- The first row of a source is cut short by the first description in it, behind which the rest of
the row stands. -/
theorem mem_firstRow_described (hsorted : (p :: insertions.map Prod.fst).Pairwise (· ≤ ·))
    (hd : ∀ e ∈ insertions, OnCommentRows e.2) :
    x ∈ firstRow (described s p insertions) ∨ BehindInsertions s insertions x ↔
      x ∈ firstRow (s.drop p) ∨ BehindInsertions s insertions x := by
  induction insertions generalizing p with
  | nil => rfl
  | cons e insertions ih =>
    obtain ⟨q, d⟩ := e
    obtain ⟨hp, hq⟩ := List.pairwise_cons.1 hsorted
    obtain ⟨hhere, hrest⟩ := List.forall_mem_cons.1 hd
    cases hhere with
    | none =>
      rw [described_cons_nil hsorted, behindInsertions_cons_nil]
      exact ih (hsorted.sublist (by simp)) hrest
    | @rows rs hne hrows =>
      have hrow : x ∈ firstRow (s.drop p) ↔ x ∈ firstRow ((s.drop p).take (q - p)) ∨
          (∀ y ∈ (s.drop p).take (q - p), isInner y) ∧ x ∈ firstRow (s.drop q) := by
        rw [← mem_firstRow_append, Text.take_append_drop_of_le (hp q List.mem_cons_self)]
      have hcut : firstRow (ofDescription ('\n' :: Text.unrows rs) ++ described s q insertions) =
          [] := firstRow_cons_feed rfl _
      have hdescribed : '\n' :: Text.unrows rs ≠ [] := List.cons_ne_nil _ _
      rw [described_cons, behindInsertions_cons, hrow, List.append_assoc, mem_firstRow_append, hcut,
        and_iff_right hdescribed, List.mem_nil_iff, and_false, or_false, or_assoc]
      exact or_congr_right ⟨.inr, fun h => h.elim (fun h => .inl h.2) id⟩

/-- **What descriptions swallow** is what stands behind them in the source, up to the ends of the
rows. -/
theorem swallows_described (hs : ∀ y ∈ s, y.2 ≠ .description)
    (hsorted : (p :: insertions.map Prod.fst).Pairwise (· ≤ ·))
    (hd : ∀ e ∈ insertions, OnCommentRows e.2) (hx : x.2 ≠ .description) :
    Swallows (described s p insertions) x ↔ BehindInsertions s insertions x := by
  induction insertions generalizing p with
  | nil =>
    have hnone : ¬ Swallows (described s p []) x :=
      not_swallows_of_source fun y hy => hs y (List.mem_of_mem_drop hy)
    simpa [BehindInsertions] using hnone
  | cons e insertions ih =>
    obtain ⟨q, d⟩ := e
    obtain ⟨hp, hq⟩ := List.pairwise_cons.1 hsorted
    obtain ⟨hhere, hrest⟩ := List.forall_mem_cons.1 hd
    cases hhere with
    | none =>
      rw [described_cons_nil hsorted, behindInsertions_cons_nil]
      exact ih (hsorted.sublist (by simp)) hrest
    | @rows rs hne hrows =>
      have hcopied : ¬ Swallows ((s.drop p).take (q - p)) x := not_swallows_of_source fun y hy =>
        hs y (List.mem_of_mem_drop (List.mem_of_mem_take hy))
      have hdescribed : '\n' :: Text.unrows rs ≠ [] := List.cons_ne_nil _ _
      rw [described_cons, swallows_description hne hrows hx, ih hq hrest, or_iff_right hcopied,
        behindInsertions_cons, and_iff_right hdescribed]
      exact mem_firstRow_described hq hrest

/-- Without the descriptions the source is left. -/
theorem filter_described (hs : ∀ y ∈ s, y.2 ≠ .description)
    (hsorted : (p :: insertions.map Prod.fst).Pairwise (· ≤ ·)) :
    (described s p insertions).filter (fun y => y.2 ≠ .description) = s.drop p := by
  have hkept : ∀ t : Traced, (∀ y ∈ t, y ∈ s) → t.filter (fun y => y.2 ≠ .description) = t :=
    fun t ht => List.filter_eq_self.2 fun y hy => by simpa using hs y (ht y hy)
  induction insertions generalizing p with
  | nil => exact hkept _ fun y => List.mem_of_mem_drop
  | cons e insertions ih =>
    obtain ⟨q, d⟩ := e
    obtain ⟨hp, hq⟩ := List.pairwise_cons.1 hsorted
    have hdropped : (ofDescription d).filter (fun y => y.2 ≠ .description) = [] :=
      List.filter_eq_nil_iff.2 fun y hy => by simpa using eq_description_of_mem_ofDescription hy
    rw [described_cons, List.filter_append, List.filter_append, hdropped, List.append_nil, ih hq,
      hkept _ fun y hy => List.mem_of_mem_drop (List.mem_of_mem_take hy),
      Text.take_append_drop_of_le (hp q List.mem_cons_self)]

theorem plain_described (s : Traced) (p : Nat) (insertions : List (Nat × List Char)) :
    plain (described s p insertions) = Text.insertFrom (plain s) p insertions := by
  have hplain : (fun e : Nat × Traced => (e.1, plain e.2)) ∘
      (fun e : Nat × List Char => (e.1, ofDescription e.2)) = id := by
    funext e
    simp [plain_ofDescription]
  have hmap : List.map (fun e : Nat × Traced => (e.1, plain e.2))
      (insertions.map fun e => (e.1, ofDescription e.2)) = insertions := by
    rw [List.map_map, hplain, List.map_id]
  rw [plain, described, Text.map_insertFrom]
  exact congrArg (Text.insertFrom (s.map (·.1)) p) hmap

end Described

end Traced
end CompletionPrompt

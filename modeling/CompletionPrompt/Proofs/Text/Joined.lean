import Mathlib.Data.List.Basic
import CompletionPrompt.Proofs.Text.Pieces
import CompletionPrompt.Text.Rows

/-!
# Lists that are read in one way

A text is read in one way when it tells what it was written from. Up to the first of some character
this is so for any text (`append_cons_inj`). Items joined by commas are read in one way where they
can be told apart, an item and what follows it in the list being read in one way (`TellsApart`,
`TellsApart.commaList_inj`); rows are, when each has its row end (`flatMap_feed_inj`), and rows of
one kind are told from those behind them by what makes the kind (`map_append_inj`).
-/

namespace CompletionPrompt
namespace Text

variable {α β : Type} {p : α → Prop} {f : α → List Char}

/-- A text up to the first of some character is read in one way. -/
theorem append_cons_inj {c : α} {x y r r' : List α} (hx : c ∉ x) (hy : c ∉ y)
    (h : x ++ c :: r = y ++ c :: r') : x = y ∧ r = r' := by
  induction x generalizing y with
  | nil =>
    cases y with
    | nil => exact ⟨rfl, (List.cons.inj h).2⟩
    | cons d y => exact absurd ((List.cons.inj h).1 ▸ List.mem_cons_self) hy
  | cons d x ih =>
    cases y with
    | nil => exact absurd ((List.cons.inj h).1 ▸ List.mem_cons_self) hx
    | cons e y =>
      obtain ⟨rfl, htail⟩ := List.cons.inj h
      obtain ⟨rfl, rfl⟩ :=
        ih (List.not_mem_of_not_mem_cons hx) (List.not_mem_of_not_mem_cons hy) htail
      exact ⟨rfl, rfl⟩

/-! ### Lists with commas -/

/-- What may follow an item of a list: nothing, or a comma and more. -/
def EndsItem (r : List Char) : Prop :=
  r = [] ∨ ∃ rest, r = ',' :: rest

/-- Items that are written in a list can be told apart: item and rest are read in one way. -/
def TellsApart (p : α → Prop) (f : α → List Char) : Prop :=
  ∀ a b r r', p a → p b → EndsItem r → EndsItem r' → f a ++ r = f b ++ r' → a = b ∧ r = r'

/-- Items joined by commas and blanks. -/
def commaList (f : α → List Char) (as : List α) : List Char :=
  [',', ' '].intercalate (as.map f)

/-- Items of a list, each with the comma before it. -/
def commaTail (f : α → List Char) (as : List α) : List Char :=
  as.flatMap fun a => ',' :: ' ' :: f a

theorem commaList_cons (f : α → List Char) (a : α) (as : List α) :
    commaList f (a :: as) = f a ++ commaTail f as := by
  induction as generalizing a with
  | nil => simp [commaList, commaTail]
  | cons b as ih =>
    have hne : (b :: as).map f ≠ [] := by simp
    rw [commaList, List.map_cons, List.intercalate_cons_of_ne_nil hne, ← commaList, ih b]
    simp [commaTail]

theorem endsItem_commaTail (f : α → List Char) (as : List α) : EndsItem (commaTail f as) := by
  cases as with
  | nil => exact .inl rfl
  | cons a as => exact .inr ⟨_, rfl⟩

/-- **A list is read in one way** when its items can be told apart. -/
theorem TellsApart.commaTail_inj (h : TellsApart p f) {as bs : List α} (has : ∀ a ∈ as, p a)
    (hbs : ∀ b ∈ bs, p b) (heq : commaTail f as = commaTail f bs) : as = bs := by
  induction as generalizing bs with
  | nil =>
    cases bs with
    | nil => rfl
    | cons b bs => cases heq
  | cons a as ih =>
    cases bs with
    | nil => cases heq
    | cons b bs =>
      obtain ⟨ha, has'⟩ := List.forall_mem_cons.1 has
      obtain ⟨hb, hbs'⟩ := List.forall_mem_cons.1 hbs
      have hrest : f a ++ commaTail f as = f b ++ commaTail f bs := by
        simpa [commaTail] using heq
      obtain ⟨rfl, htail⟩ :=
        h a b _ _ ha hb (endsItem_commaTail f as) (endsItem_commaTail f bs) hrest
      rw [ih has' hbs' htail]

theorem TellsApart.commaList_inj (h : TellsApart p f) (hne : ∀ a, p a → f a ≠ []) {as bs : List α}
    (has : ∀ a ∈ as, p a) (hbs : ∀ b ∈ bs, p b) (heq : commaList f as = commaList f bs) :
    as = bs := by
  cases as with
  | nil =>
    cases bs with
    | nil => rfl
    | cons b bs =>
      rw [commaList_cons] at heq
      exact absurd (List.append_eq_nil_iff.1 heq.symm).1 (hne b (hbs b List.mem_cons_self))
  | cons a as =>
    cases bs with
    | nil =>
      rw [commaList_cons] at heq
      exact absurd (List.append_eq_nil_iff.1 heq).1 (hne a (has a List.mem_cons_self))
    | cons b bs =>
      refine h.commaTail_inj has hbs ?_
      rw [commaList_cons, commaList_cons] at heq
      simpa [commaTail] using heq

/-- Texts without commas can be told apart. -/
theorem tellsApart_of_not_mem (h : ∀ a, p a → ',' ∉ f a) (hinj : ∀ a b, f a = f b → a = b) :
    TellsApart p f := by
  intro a b r r' ha hb hr hr' heq
  have hsame : f a = f b ∧ r = r' := by
    rcases hr with rfl | ⟨rest, rfl⟩
    · rcases hr' with rfl | ⟨rest', rfl⟩
      · simpa using heq
      · exact absurd (by rw [← List.append_nil (f a), heq]; simp) (h a ha)
    · rcases hr' with rfl | ⟨rest', rfl⟩
      · exact absurd (by rw [← List.append_nil (f b), ← heq]; simp) (h b hb)
      · obtain ⟨htext, hrest⟩ := append_cons_inj (h a ha) (h b hb) heq
        exact ⟨htext, by rw [hrest]⟩
  exact ⟨hinj a b hsame.1, hsame.2⟩

theorem not_mem_commaList {c : Char} (hcomma : c ≠ ',') (hblank : c ≠ ' ') {as : List α}
    (has : ∀ a ∈ as, c ∉ f a) : c ∉ commaList f as := by
  intro hmem
  rcases mem_of_mem_intercalate hmem with hgap | ⟨item, hitem, hc⟩
  · simp [hcomma, hblank] at hgap
  · obtain ⟨a, ha, rfl⟩ := List.mem_map.1 hitem
    exact has a ha hc

/-! ### Rows -/

/-- Rows of a text are read in one way when each has its row end. -/
theorem flatMap_feed_inj {rs rs' : List (List Char)} (hrs : ∀ r ∈ rs, '\n' ∉ r)
    (hrs' : ∀ r ∈ rs', '\n' ∉ r) (h : rs.flatMap (· ++ ['\n']) = rs'.flatMap (· ++ ['\n'])) :
    rs = rs' := by
  induction rs generalizing rs' with
  | nil =>
    cases rs' with
    | nil => rfl
    | cons r' rs' => simp at h
  | cons r rs ih =>
    cases rs' with
    | nil => simp at h
    | cons r' rs' =>
      obtain ⟨hr, hrest⟩ := List.forall_mem_cons.1 hrs
      obtain ⟨hr', hrest'⟩ := List.forall_mem_cons.1 hrs'
      simp only [List.flatMap_cons, List.append_assoc, List.singleton_append] at h
      obtain ⟨rfl, htail⟩ := append_cons_inj hr hr' h
      rw [ih hrest hrest' htail]

/-- Rows of a kind come before rows that are not of the kind: where the first kind stops, and what
its rows are written for, is read in one way. -/
theorem map_append_inj {q : β → Prop} {f : α → β} (hinj : ∀ a b, p a → p b → f a = f b → a = b)
    (hq : ∀ a, p a → q (f a)) {as bs : List α} (has : ∀ a ∈ as, p a) (hbs : ∀ b ∈ bs, p b)
    {rest rest' : List β} (hrest : ∀ y ∈ rest, ¬ q y) (hrest' : ∀ y ∈ rest', ¬ q y)
    (h : as.map f ++ rest = bs.map f ++ rest') : as = bs ∧ rest = rest' := by
  induction as generalizing bs with
  | nil =>
    cases bs with
    | nil => exact ⟨rfl, h⟩
    | cons b bs =>
      have hmem : f b ∈ rest := by
        rw [List.map_nil, List.nil_append] at h
        simp [h]
      exact absurd (hq b (hbs b List.mem_cons_self)) (hrest _ hmem)
  | cons a as ih =>
    cases bs with
    | nil =>
      have hmem : f a ∈ rest' := by
        rw [List.map_nil, List.nil_append] at h
        simp [← h]
      exact absurd (hq a (has a List.mem_cons_self)) (hrest' _ hmem)
    | cons b bs =>
      obtain ⟨ha, has'⟩ := List.forall_mem_cons.1 has
      obtain ⟨hb, hbs'⟩ := List.forall_mem_cons.1 hbs
      obtain ⟨hrow, htail⟩ := List.cons.inj h
      obtain rfl := hinj a b ha hb hrow
      obtain ⟨rfl, rfl⟩ := ih has' hbs' htail
      exact ⟨rfl, rfl⟩

theorem unrows_append_feed {rs : List (List Char)} (hne : rs ≠ []) :
    unrows rs ++ ['\n'] = rs.flatMap (· ++ ['\n']) := by
  induction rs with
  | nil => exact absurd rfl hne
  | cons r rs ih =>
    by_cases hrs : rs = []
    · simp [hrs, unrows]
    · rw [unrows, List.intercalate_cons_of_ne_nil hrs, ← unrows, List.append_assoc,
        List.append_assoc, ih hrs]
      simp

end Text
end CompletionPrompt

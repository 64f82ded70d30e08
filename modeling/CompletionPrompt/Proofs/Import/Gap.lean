import CompletionPrompt.Proofs.Import.Search

/-!
# Gaps between the tokens of a statement

Between two tokens of a statement stands a gap: blanks, row ends behind a backslash, and comments
with their row ends (`IsGap`). A search for a keyword passes over a gap with the token behind it,
unless that token is the keyword (`IsGap.search_append`, `IsGap.search_word`), for the keyword is
looked for behind blanks, and what stands behind a blank inside a gap starts no word but those of
comments. It tries the keyword when there is a gap in front of it, since every gap ends with a blank
(`IsGap.search_keyword`).
-/

namespace CompletionPrompt
namespace Import

/-- A character of a token that is written out: a name, a path, or a star. -/
def isTokenChar (c : Char) : Bool :=
  !isNameMargin c && c != ',' && c != '#'

/-- A token that is written out. -/
def IsToken (w : List Char) : Prop :=
  w ≠ [] ∧ ∀ c ∈ w, isTokenChar c = true

instance (w : List Char) : Decidable (IsToken w) :=
  decidable_of_iff (w ≠ [] ∧ w.all isTokenChar = true) (and_congr_right' List.all_eq_true)

/-- What may stand between two tokens: blanks, row ends behind a backslash, and comments of a kind
with their row ends. The language takes only some of the blanks, row ends on their own only inside
brackets, and comments only there. -/
inductive IsGap (kind : List Char → Prop) : List Char → Prop where
  | nil : IsGap kind []
  | blank {c : Char} {g : List Char} (hc : Text.isBlank c = true) (hg : IsGap kind g) :
      IsGap kind (c :: g)
  | rowEnd {c : Char} {g : List Char} (hc : c = '\n' ∨ c = '\r') (hg : IsGap kind g) :
      IsGap kind ('\\' :: c :: g)
  | comment {c : Char} {text g : List Char} (htext : kind ('#' :: text))
      (hrow : ∀ d ∈ text, d ≠ '\n' ∧ d ≠ '\r') (hc : c = '\n' ∨ c = '\r') (hg : IsGap kind g) :
      IsGap kind ('#' :: (text ++ c :: g))

theorem isBlank_of_rowEnd {c : Char} (h : c = '\n' ∨ c = '\r') : Text.isBlank c = true := by
  rcases h with rfl | rfl <;> decide

theorem isTokenChar_of_isIdentifierChar {c : Char} (h : isIdentifierChar c = true) :
    isTokenChar c = true := by
  have hopen := ne_of_isIdentifierChar (d := '(') h (by decide)
  have hclose := ne_of_isIdentifierChar (d := ')') h (by decide)
  have hslash := ne_of_isIdentifierChar (d := '\\') h (by decide)
  have hcomma := ne_of_isIdentifierChar (d := ',') h (by decide)
  have hhash := ne_of_isIdentifierChar (d := '#') h (by decide)
  simp [isTokenChar, isNameMargin, not_isBlank_of_isIdentifierChar h, hopen, hclose, hslash, hcomma,
    hhash]

theorem not_isBlank_of_isTokenChar {c : Char} (h : isTokenChar c = true) :
    Text.isBlank c = false := by
  simp only [isTokenChar, isNameMargin, Bool.and_eq_true, Bool.not_eq_true', Bool.or_eq_false_iff]
    at h
  exact h.1.1.1.1.1

theorem isPathChar_of_isTokenChar {c : Char} (h : isTokenChar c = true) : isPathChar c = true := by
  simp only [isTokenChar, isNameMargin, Bool.and_eq_true, Bool.not_eq_true', Bool.or_eq_false_iff]
    at h
  simp_all [isPathChar]

theorem IsToken.isPath {w : List Char} (h : IsToken w) : IsPath w :=
  ⟨h.1, fun c hc => isPathChar_of_isTokenChar (h.2 c hc)⟩

theorem isTokenChar_of_isBlank {c : Char} (h : Text.isBlank c = true) : isTokenChar c = false := by
  simp [isTokenChar, isNameMargin, h]

theorem IsToken.isWord {w : List Char} (h : IsToken w) : IsWord w :=
  fun c hc => not_isBlank_of_isTokenChar (h.2 c hc)

theorem isToken_from : IsToken "from".toList := by decide

theorem isToken_import : IsToken "import".toList := by decide

theorem isToken_as : IsToken "as".toList := by decide

theorem IsToken.any_head?_append {w : List Char} (h : IsToken w) (s : List Char) :
    (w ++ s).head?.any isTokenChar = true := by
  obtain ⟨c, w, rfl⟩ := List.exists_cons_of_ne_nil h.1
  exact h.2 c List.mem_cons_self

theorem IsIdentifier.isToken {name : String} (h : IsIdentifier name) : IsToken name.toList :=
  ⟨h.ne_nil, fun c hc => isTokenChar_of_isIdentifierChar (h.chars c hc)⟩

/-- Every text starts with a word, maybe an empty one. -/
theorem exists_word_append (t : List Char) : ∃ w v, t = w ++ v ∧ IsWord w ∧ EndsWord v := by
  refine ⟨t.takeWhile (!Text.isBlank ·), t.dropWhile (!Text.isBlank ·),
    List.takeWhile_append_dropWhile.symm, fun c hc => ?_, fun c hc => ?_⟩
  · simpa using List.mem_takeWhile_imp hc
  · simpa using head?_dropWhile (!Text.isBlank ·) t c hc

/-- A word at the start of a text, up to the next blank, is one of its words. -/
theorem mem_words_append {w v : List Char} (hw : IsWord w) (hne : w ≠ []) (hv : EndsWord v) :
    w ∈ Text.words (w ++ v) := by
  have hsplit : w ∈ (w ++ v).splitOnP Text.isBlank := by
    cases v with
    | nil => rw [List.append_nil, List.splitOnP_eq_singleton hw]; exact List.mem_singleton_self w
    | cons b v =>
      rw [List.splitOnP_append_cons_of_forall_mem hw b (hv b rfl)]
      exact List.mem_cons_self
  exact List.mem_filter.2 ⟨hsplit, by simp [hne]⟩

/-- A word behind a blank, up to the next blank, is one of the words of the text. -/
theorem mem_words {c : Char} {u w v : List Char} (hc : Text.isBlank c = true) (hw : IsWord w)
    (hne : w ≠ []) (hv : EndsWord v) : w ∈ Text.words (u ++ c :: (w ++ v)) := by
  rw [Text.words, List.splitOnP_append_cons u _ hc, List.filter_append]
  exact List.mem_append_right _ (mem_words_append hw hne hv)

section Behind

variable {α : Type} {f : List Char → Option α} {k : String}

theorem behindKeyword?_of_blank {c : Char} {s : List Char} (hc : Text.isBlank c = true) :
    behindKeyword? k f (c :: s) = ((after? k s).bind afterBlanks?).bind f := by
  simp [behindKeyword?, afterBlank?, hc, Option.bind_assoc]

theorem behindKeyword?_of_not_blank {c : Char} {s : List Char} (hc : Text.isBlank c = false) :
    behindKeyword? k f (c :: s) = none := by
  simp [behindKeyword?, afterBlank?, hc]

/-- A text does not start with a keyword when its first character is none of a token. -/
theorem bind_after?_of_head? {s : List Char} (hk : IsToken k.toList)
    (hs : ∀ c ∈ s.head?, isTokenChar c = false) :
    (after? k s).bind afterBlanks? = none := by
  rw [← List.nil_append s, bind_after?_afterBlanks?_of_class
    (fun _ => not_isBlank_of_isTokenChar) hk.2 (by simp) hs, if_neg hk.1.symm]

/-- A search for a keyword passes over a text up to a blank, if the keyword is none of its words. -/
theorem search_words {d : Char} {text : List Char} (hk : IsToken k.toList)
    (hwords : k.toList ∉ Text.words text) (hd : Text.isBlank d = true) (s : List Char) :
    search (behindKeyword? k f) (text ++ d :: s) = search (behindKeyword? k f) (d :: s) := by
  refine search_append fun t ht hnil => ?_
  obtain ⟨c, t, rfl⟩ := List.exists_cons_of_ne_nil hnil
  rw [List.cons_append]
  cases hc : Text.isBlank c with
  | false => exact behindKeyword?_of_not_blank hc
  | true =>
    obtain ⟨u, rfl⟩ := ht
    obtain ⟨w, v, rfl, hw, hv⟩ := exists_word_append t
    have hends : EndsWord (v ++ d :: s) := by
      cases v with
      | nil => exact endsWord_cons hd
      | cons b v => exact endsWord_cons (hv b rfl)
    have hother : w ≠ k.toList := by
      rintro rfl
      exact hwords (mem_words hc hw hk.1 hv)
    rw [behindKeyword?_of_blank hc, List.append_assoc,
      bind_after?_afterBlanks? hk.isWord hw hends, if_neg hother, Option.bind_none]

end Behind

namespace IsGap

variable {kind : List Char → Prop} {g : List Char}

theorem of_isBlank (h : ∀ c ∈ g, Text.isBlank c = true) : IsGap kind g := by
  induction g with
  | nil => exact .nil
  | cons c g ih =>
    obtain ⟨hc, hg⟩ := List.forall_mem_cons.1 h
    exact .blank hc (ih hg)

theorem space : IsGap kind [' '] :=
  .blank isBlank_space .nil

theorem eq_or_of_head? (h : IsGap kind g) :
    ∀ c ∈ g.head?, Text.isBlank c = true ∨ c = '\\' ∨ c = '#' := by
  cases h with
  | nil => simp
  | blank hc _ => simp [hc]
  | rowEnd _ _ => simp
  | comment _ _ _ _ => simp

/-- A gap starts with no character of a token. -/
theorem head? (h : IsGap kind g) : ∀ c ∈ g.head?, isTokenChar c = false := by
  intro c hc
  rcases h.eq_or_of_head? c hc with hblank | rfl | rfl
  · exact isTokenChar_of_isBlank hblank
  · decide
  · decide

theorem head?_append (h : IsGap kind g) {s : List Char}
    (hs : ∀ c ∈ s.head?, isTokenChar c = false) : ∀ c ∈ (g ++ s).head?, isTokenChar c = false := by
  cases g with
  | nil => exact hs
  | cons b g => exact h.head?

theorem head?_append_of_ne_nil (h : IsGap kind g) (hne : g ≠ []) (s : List Char) :
    ∀ c ∈ (g ++ s).head?, isTokenChar c = false := by
  obtain ⟨b, g, rfl⟩ := List.exists_cons_of_ne_nil hne
  exact fun c hc => h.head? c hc

/-- A gap holds no comma but those of comments. -/
theorem not_mem (h : IsGap kind g) (hkind : ∀ text, kind text → ',' ∉ text) : ',' ∉ g := by
  induction h with
  | nil => exact List.not_mem_nil
  | blank hc _ ih =>
    rw [List.mem_cons, not_or]
    refine ⟨?_, ih⟩
    rintro rfl
    exact absurd hc (by decide)
  | rowEnd hc _ ih => rcases hc with rfl | rfl <;> simp [ih]
  | comment htext _ hc _ ih =>
    have hcomma := hkind _ htext
    rw [← List.cons_append, List.mem_append, List.mem_cons]
    rcases hc with rfl | rfl <;> simpa [ih] using hcomma

/-- A gap in front of a token is blank where the same text is blanks in front of a token. -/
theorem append_inj (h : IsGap kind g) {g' s s' : List Char}
    (hs : s.head?.any isTokenChar = true) (hg' : ∀ c ∈ g', Text.isBlank c = true)
    (hs' : s'.head?.any isTokenChar = true) (hsame : g ++ s = g' ++ s') : g = g' ∧ s = s' := by
  -- No other character than a blank starts a gap where the other text is blanks and a token.
  have hstart : ∀ {c : Char} {t u : List Char}, isTokenChar c = false → Text.isBlank c = false →
      (∀ d ∈ u, Text.isBlank d = true) → c :: t ≠ u ++ s' := by
    rintro c t (_ | ⟨d, u⟩) htoken hblank hu heq
    · rw [← List.nil_append s', ← heq] at hs'
      simp [htoken] at hs'
    · obtain ⟨rfl, -⟩ := List.cons_eq_cons.1 heq
      rw [hu c List.mem_cons_self] at hblank
      cases hblank
  induction h generalizing g' with
  | nil =>
    cases g' with
    | nil => exact ⟨rfl, hsame⟩
    | cons c g' =>
      rw [List.nil_append] at hsame
      simp [hsame, isTokenChar_of_isBlank (hg' c List.mem_cons_self)] at hs
  | @blank c g hc _ ih =>
    cases g' with
    | nil =>
      rw [List.nil_append] at hsame
      simp [← hsame, isTokenChar_of_isBlank hc] at hs'
    | cons d g' =>
      obtain ⟨rfl, hrest⟩ := List.cons_eq_cons.1 hsame
      obtain ⟨rfl, rfl⟩ := ih (List.forall_mem_cons.1 hg').2 hrest
      exact ⟨rfl, rfl⟩
  | rowEnd _ _ _ => exact absurd hsame (hstart (by decide) (by decide) hg')
  | comment _ _ _ _ _ => exact absurd hsame (hstart (by decide) (by decide) hg')

section Search

variable {α : Type} {f : List Char → Option α} {k : String}

/-- **A gap ends with a blank,** and a search for a keyword that is no word of a comment passes over
all that stands before it. -/
theorem eq_nil_or_concat (h : IsGap kind g) (hk : IsToken k.toList)
    (hkind : ∀ text, kind text → k.toList ∉ Text.words text) :
    g = [] ∨ ∃ front b, g = front ++ [b] ∧ Text.isBlank b = true ∧
      ∀ s, search (behindKeyword? k f) (front ++ b :: s) =
        search (behindKeyword? k f) (b :: s) := by
  -- The search passes over a blank with more of a gap behind it.
  have hblank : ∀ {c front b s}, IsGap kind (front ++ [b]) → Text.isBlank c = true →
      search (behindKeyword? k f) (c :: (front ++ b :: s)) =
        search (behindKeyword? k f) (front ++ b :: s) := by
    intro c front b s hg hc
    have hhead : ∀ d ∈ (front ++ b :: s).head?, isTokenChar d = false := by
      rw [List.append_cons]
      intro d hd
      refine hg.head? d ?_
      cases front <;> simpa using hd
    refine search_cons_of_none ?_
    rw [behindKeyword?_of_blank hc, bind_after?_of_head? hk hhead, Option.bind_none]
  induction h with
  | nil => exact .inl rfl
  | @blank c g hc hg ih =>
    right
    rcases ih with rfl | ⟨front, b, rfl, hb, hpass⟩
    · exact ⟨[], c, rfl, hc, fun s => rfl⟩
    · refine ⟨c :: front, b, rfl, hb, fun s => ?_⟩
      rw [List.cons_append, hblank hg hc, hpass]
  | @rowEnd c g hc hg ih =>
    right
    have hc : Text.isBlank c = true := isBlank_of_rowEnd hc
    have hslash : Text.isBlank '\\' = false := by decide
    rcases ih with rfl | ⟨front, b, rfl, hb, hpass⟩
    · refine ⟨['\\'], c, rfl, hc, fun s => ?_⟩
      exact search_cons_of_none (behindKeyword?_of_not_blank hslash)
    · refine ⟨'\\' :: c :: front, b, rfl, hb, fun s => ?_⟩
      rw [List.cons_append, search_cons_of_none (behindKeyword?_of_not_blank hslash),
        List.cons_append, hblank hg hc, hpass]
  | @comment c text g htext hrow hc hg ih =>
    right
    have hc : Text.isBlank c = true := isBlank_of_rowEnd hc
    have htext : ∀ s, search (behindKeyword? k f) ('#' :: (text ++ c :: s)) =
        search (behindKeyword? k f) (c :: s) := fun s =>
      search_words hk (hkind _ htext) hc s
    rcases ih with rfl | ⟨front, b, rfl, hb, hpass⟩
    · exact ⟨'#' :: text, c, rfl, hc, fun s => htext s⟩
    · refine ⟨'#' :: (text ++ c :: front), b, by simp, hb, fun s => ?_⟩
      rw [List.cons_append, List.append_assoc, List.cons_append, htext, hblank hg hc, hpass]

/-- A search passes over a gap before a text that does not start with the keyword. -/
theorem search_append (h : IsGap kind g) (hk : IsToken k.toList)
    (hkind : ∀ text, kind text → k.toList ∉ Text.words text) {s : List Char}
    (hs : (after? k s).bind afterBlanks? = none) :
    search (behindKeyword? k f) (g ++ s) = search (behindKeyword? k f) s := by
  rcases h.eq_nil_or_concat (f := f) hk hkind with rfl | ⟨front, b, rfl, hb, hpass⟩
  · rfl
  · rw [List.append_assoc, List.singleton_append, hpass, search_cons_of_none]
    rw [behindKeyword?_of_blank hb, hs, Option.bind_none]

/-- A search passes over a gap before a text that does not start with a token. -/
theorem search_append_of_head? (h : IsGap kind g) (hk : IsToken k.toList)
    (hkind : ∀ text, kind text → k.toList ∉ Text.words text) {s : List Char}
    (hs : ∀ c ∈ s.head?, isTokenChar c = false) :
    search (behindKeyword? k f) (g ++ s) = search (behindKeyword? k f) s :=
  h.search_append hk hkind (bind_after?_of_head? hk hs)

/-- **A search passes over a gap and a token that is not the keyword.** -/
theorem search_word (h : IsGap kind g) (hk : IsToken k.toList)
    (hkind : ∀ text, kind text → k.toList ∉ Text.words text) {w s : List Char}
    (hw : IsToken w) (hother : w ≠ k.toList)
    (hs : ∀ c ∈ s.head?, isTokenChar c = false) :
    search (behindKeyword? k f) (g ++ (w ++ s)) = search (behindKeyword? k f) s := by
  rw [h.search_append hk hkind, search_behindKeyword?_append hw.isWord]
  rw [bind_after?_afterBlanks?_of_class (fun _ => not_isBlank_of_isTokenChar) hk.2 hw.2 hs,
    if_neg hother]

/-- **A search tries the keyword where it stands behind a gap,** and goes on behind it. -/
theorem search_keyword (h : IsGap kind g) (hk : IsToken k.toList)
    (hkind : ∀ text, kind text → k.toList ∉ Text.words text) (hgap : g ≠ []) (s : List Char) :
    search (behindKeyword? k f) (g ++ (k.toList ++ s)) =
      ((afterBlanks? s).bind f).or (search (behindKeyword? k f) s) := by
  rcases h.eq_nil_or_concat (f := f) hk hkind with rfl | ⟨front, b, rfl, hb, hpass⟩
  · exact absurd rfl hgap
  · have hhere : behindKeyword? k f (b :: (k.toList ++ s)) = (afterBlanks? s).bind f := by
      rw [behindKeyword?_of_blank hb, after?_eq_some_iff.2 rfl, Option.bind_some]
    rw [List.append_assoc, List.singleton_append, hpass]
    cases hfound : (afterBlanks? s).bind f with
    | some a => exact search_eq_some (hhere.trans hfound)
    | none =>
      rw [search_cons_of_none (hhere.trans hfound), search_behindKeyword?_append hk.isWord,
        Option.none_or]

end Search

end IsGap

end Import
end CompletionPrompt

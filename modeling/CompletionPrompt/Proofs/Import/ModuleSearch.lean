import CompletionPrompt.Proofs.Import.ListSearch

/-!
# Where the module of a statement is found

The tokens of a dotted path are written with a gap in front of each (`gapped`). Behind a `from` they
give the module when blanks stand in front of the first and nothing between them (`IsGlued`): what
is read as the path is a stretch of tokens that touch (`GivesModule.exists_glued`), and no stretch
but all of them leaves the same module.

A `from` at the end of another token gives another module, or none: behind a token of the path
stands less than the path, behind a name a comma, a bracket, or `as`, which is no module
(`neverGives_text`). So the module of a statement is found exactly when its path is glued
(`search_fromModuleHere?_eq_some_iff`).
-/

namespace CompletionPrompt
namespace Import

/-! ### Tokens with gaps -/

/-- Tokens with a gap in front of each. -/
def gapped (tokens : List (List Char × List Char)) : List Char :=
  tokens.flatMap fun t => t.1 ++ t.2

/-- Tokens without their gaps. -/
def glued (tokens : List (List Char × List Char)) : List Char :=
  tokens.flatMap (·.2)

/-- Blanks stand in front of the tokens, and nothing between them. -/
def IsGlued : List (List Char × List Char) → Prop
  | [] => False
  | t :: tokens => IsBlanks t.1 ∧ ∀ u ∈ tokens, u.1 = []

instance : (tokens : List (List Char × List Char)) → Decidable (IsGlued tokens)
  | [] => inferInstanceAs (Decidable False)
  | _ :: _ => inferInstanceAs (Decidable (_ ∧ _))

/-- Behind a `from`, the text gives a module. -/
def GivesModule (module s : List Char) : Prop :=
  ∃ path g h rest, s = g ++ (path ++ (h ++ ("import".toList ++ rest))) ∧ IsBlanks g ∧ IsPath path ∧
    IsBlanks h ∧ dropDots path = module

theorem fromModuleHere?_eq_some_iff_givesModule {s module : List Char} :
    fromModuleHere? s = some module ↔ ∃ t, s = "from".toList ++ t ∧ GivesModule module t := by
  rw [fromModuleHere?_eq_some_iff]
  constructor
  · rintro ⟨path, ⟨g, h, rest, rfl, hg, hpath, hh⟩, rfl⟩
    exact ⟨_, rfl, path, g, h, rest, rfl, hg, hpath, hh, rfl⟩
  · rintro ⟨_, rfl, path, g, h, rest, rfl, hg, hpath, hh, rfl⟩
    exact ⟨path, ⟨g, h, rest, rfl, hg, hpath, hh⟩, rfl⟩

section Glued

variable {kind : List Char → Prop} {tokens : List (List Char × List Char)}
  {module s : List Char}

theorem gapped_cons (t : List Char × List Char) (tokens : List (List Char × List Char))
    (s : List Char) : gapped (t :: tokens) ++ s = t.1 ++ (t.2 ++ (gapped tokens ++ s)) := by
  simp [gapped]

theorem gapped_append (tokens more : List (List Char × List Char)) (s : List Char) :
    gapped (tokens ++ more) ++ s = gapped tokens ++ (gapped more ++ s) := by
  simp [gapped]

theorem glued_append (tokens more : List (List Char × List Char)) :
    glued (tokens ++ more) = glued tokens ++ glued more := by
  simp [glued]

/-- Characters of tokens are read up to the end of a stretch of tokens that touch. -/
theorem exists_run (htokens : ∀ t ∈ tokens, IsGap kind t.1 ∧ IsToken t.2)
    (hs : ∀ c ∈ s.head?, isTokenChar c = false) {w path rest : List Char}
    (hw : ∀ c ∈ w, isTokenChar c = true) (hpath : ∀ c ∈ path, isTokenChar c = true)
    (hrest : ∀ c ∈ rest.head?, isTokenChar c = false)
    (hsame : w ++ (gapped tokens ++ s) = path ++ rest) :
    ∃ front back, tokens = front ++ back ∧ (∀ t ∈ front, t.1 = []) ∧ path = w ++ glued front ∧
      gapped back ++ s = rest := by
  induction tokens generalizing w with
  | nil =>
    obtain ⟨hpath, hrest⟩ := append_inj_of_head? hw hs hpath hrest hsame
    exact ⟨[], [], rfl, List.forall_mem_nil _, by simp [glued, hpath], hrest⟩
  | cons t tokens ih =>
    obtain ⟨⟨hgap, htoken⟩, htokens⟩ := List.forall_mem_cons.1 htokens
    rw [gapped_cons] at hsame
    cases hcase : t.1 with
    | nil =>
      rw [hcase, List.nil_append, ← List.append_assoc] at hsame
      obtain ⟨front, back, rfl, hfront, rfl, hback⟩ :=
        ih htokens (List.forall_mem_append.2 ⟨hw, htoken.2⟩) hsame
      exact ⟨t :: front, back, rfl, List.forall_mem_cons.2 ⟨hcase, hfront⟩, by simp [glued], hback⟩
    | cons c g =>
      have hstart : ∀ d ∈ (t.1 ++ (t.2 ++ (gapped tokens ++ s))).head?, isTokenChar d = false :=
        hgap.head?_append_of_ne_nil (by simp [hcase]) _
      obtain ⟨hpath, hrest⟩ := append_inj_of_head? hw hstart hpath hrest hsame
      refine ⟨[], t :: tokens, rfl, List.forall_mem_nil _, by simp [glued, hpath], ?_⟩
      rw [gapped_cons, hrest]

/-- **A module is read off tokens that touch.** -/
theorem GivesModule.exists_glued (h : GivesModule module (gapped tokens ++ s))
    (hmodule : ∀ c ∈ module, isTokenChar c = true) (hne : tokens ≠ [])
    (htokens : ∀ t ∈ tokens, IsGap kind t.1 ∧ IsToken t.2)
    (hs : ∀ c ∈ s.head?, isTokenChar c = false) :
    ∃ front back g rest, tokens = front ++ back ∧ IsGlued front ∧ dropDots (glued front) = module ∧
      gapped back ++ s = g ++ ("import".toList ++ rest) ∧ IsBlanks g := by
  obtain ⟨path, g, g', rest, hsame, hg, hpath, hg', rfl⟩ := h
  have hpathToken : ∀ c ∈ path, isTokenChar c = true :=
    forall_mem_of_dropDots (p := (isTokenChar · = true)) (by decide) hmodule
  obtain ⟨t, tokens, rfl⟩ := List.exists_cons_of_ne_nil hne
  obtain ⟨⟨hgap, htoken⟩, htokens⟩ := List.forall_mem_cons.1 htokens
  rw [gapped_cons] at hsame
  have hread : IsToken path := ⟨hpath.1, hpathToken⟩
  obtain ⟨hblank, hsame⟩ :=
    hgap.append_inj (htoken.any_head?_append _) hg.2 (hread.any_head?_append _) hsame
  obtain ⟨front, back, rfl, hfront, rfl, hback⟩ := exists_run htokens hs htoken.2 hpathToken
    (fun c hc => isTokenChar_of_isBlank (isBlank_of_mem_head? hg' c hc)) hsame
  exact ⟨t :: front, back, g', rest, rfl, ⟨hblank ▸ hg, hfront⟩, by simp [glued], hback, hg'⟩

/-- Behind a gap stands no module, where no token follows. -/
theorem not_givesModule_gap {g : List Char} (hg : IsGap kind g)
    (hmodule : ∀ c ∈ module, isTokenChar c = true)
    (hs : ∀ c ∈ (s.dropWhile Text.isBlank).head?, isTokenChar c = false) :
    ¬ GivesModule module (g ++ s) := by
  have hstart : ∀ c ∈ ((g ++ s).dropWhile Text.isBlank).head?, isTokenChar c = false := by
    induction hg with
    | nil => exact hs
    | blank hc _ ih => rwa [List.cons_append, List.dropWhile_cons_of_pos hc]
    | rowEnd _ _ _ =>
      rw [List.cons_append, List.dropWhile_cons_of_neg (by decide)]
      exact forall_mem_head?_cons (by decide)
    | comment _ _ _ _ _ =>
      rw [List.cons_append, List.dropWhile_cons_of_neg (by decide)]
      exact forall_mem_head?_cons (by decide)
  rintro ⟨path, b, h, rest, hsame, hb, hpath, -, rfl⟩
  have hpathToken : ∀ c ∈ path, isTokenChar c = true :=
    forall_mem_of_dropDots (p := (isTokenChar · = true)) (by decide) hmodule
  obtain ⟨c, path, rfl⟩ := List.exists_cons_of_ne_nil hpath.1
  have hc := hpathToken c List.mem_cons_self
  rw [hsame, dropWhile_append_of_head? hb.2 (not_isBlank_of_isPath hpath)] at hstart
  rw [hstart c rfl] at hc
  cases hc

end Glued

/-! ### Where no module is found -/

/-- From no place on does a text give the module of a `from`. -/
def NeverGives (module s : List Char) : Prop :=
  ∀ here, here <:+ s → fromModuleHere? here ≠ some module

section Never

variable {kind : List Char → Prop} {module s w g : List Char}

theorem neverGives_nil : NeverGives module [] := by
  intro here hhere
  have hnone : fromModuleHere? [] = none := rfl
  rw [List.suffix_nil.1 hhere, hnone]
  simp

theorem neverGives_append (hs : NeverGives module s)
    (hw : ∀ t, t <:+ w → t ≠ [] → fromModuleHere? (t ++ s) ≠ some module) :
    NeverGives module (w ++ s) := by
  induction w with
  | nil => exact hs
  | cons c w ih =>
    intro here hhere
    rcases List.suffix_cons_iff.1 hhere with rfl | hhere
    · exact hw (c :: w) List.suffix_rfl (List.cons_ne_nil c w)
    · exact ih (fun t ht => hw t (ht.trans (List.suffix_cons c w))) here hhere

theorem fromModuleHere?_cons_eq_none {c : Char} (hc : c ≠ 'f') (s : List Char) :
    fromModuleHere? (c :: s) = none := by
  have hfrom : after? "from" (c :: s) = none := by
    cases hafter : after? "from" (c :: s) with
    | none => rfl
    | some t => exact absurd (List.cons_eq_cons.1 (after?_eq_some_iff.1 hafter)).1 hc
  simp [fromModuleHere?, hfrom]

theorem neverGives_cons {c : Char} (hc : c ≠ 'f') (hs : NeverGives module s) :
    NeverGives module (c :: s) := by
  refine neverGives_append (w := [c]) hs fun t ht hne => ?_
  rcases List.suffix_cons_iff.1 ht with rfl | ht
  · rw [List.singleton_append, fromModuleHere?_cons_eq_none hc]
    simp
  · exact absurd (List.suffix_nil.1 ht) hne

/-- A `from` is read where it ends a stretch of a class that no blank is of. -/
theorem givesModule_of_append {p : Char → Bool} (hp : ∀ c, p c = true → Text.isBlank c = false)
    (hfrom : ∀ c ∈ "from".toList, p c = true) {t : List Char} (ht : ∀ c ∈ t, p c = true)
    (hs : ∀ c ∈ s.head?, p c = false) (h : fromModuleHere? (t ++ s) = some module) :
    t = "from".toList ∧ GivesModule module s := by
  obtain ⟨u, hsame, hu⟩ := fromModuleHere?_eq_some_iff_givesModule.1 h
  have hblank : ∀ c ∈ u.head?, p c = false := by
    obtain ⟨path, g, h, rest, rfl, hg, -⟩ := hu
    intro c hc
    cases hpc : p c with
    | false => rfl
    | true =>
      have hnot := hp c hpc
      rw [isBlank_of_mem_head? hg c hc] at hnot
      cases hnot
  obtain ⟨rfl, rfl⟩ := append_inj_of_head? ht hs hfrom hblank hsame
  exact ⟨rfl, hu⟩

/-- No module is found from a place in a token, unless it ends with `from` and the module stands
behind it. -/
theorem neverGives_token (hs : NeverGives module s) (hw : ∀ c ∈ w, isTokenChar c = true)
    (hhead : ∀ c ∈ s.head?, isTokenChar c = false)
    (hbehind : "from".toList <:+ w → ¬ GivesModule module s) : NeverGives module (w ++ s) := by
  refine neverGives_append hs fun t ht _ hfound => ?_
  obtain ⟨rfl, hgives⟩ := givesModule_of_append (fun _ => not_isBlank_of_isTokenChar)
    isToken_from.2 (fun c hc => hw c (ht.subset hc)) hhead hfound
  exact hbehind ht hgives

/-- Every place of a text is in a word of it, or before a blank. -/
theorem exists_mem_words {u v : List Char} (hw : IsWord w) (hne : w ≠ []) (hv : EndsWord v) :
    ∃ x ∈ Text.words (u ++ (w ++ v)), w <:+ x := by
  induction u with
  | nil =>
    exact ⟨w, mem_words_append hw hne hv, List.suffix_rfl⟩
  | cons c u ih =>
    obtain ⟨x, hx, hsuffix⟩ := ih
    obtain ⟨hx, hnonempty⟩ := List.mem_filter.1 hx
    rw [Text.words, List.cons_append, List.splitOnP_cons_eq_if_modifyHead]
    split
    · exact ⟨x, List.mem_filter.2 ⟨List.mem_cons_of_mem _ hx, hnonempty⟩, hsuffix⟩
    · obtain ⟨first, others, hsplit⟩ :=
        List.exists_cons_of_ne_nil (List.splitOnP_ne_nil Text.isBlank (u ++ (w ++ v)))
      rw [hsplit] at hx ⊢
      rcases List.mem_cons.1 hx with rfl | hx
      · exact ⟨c :: x, by simp, hsuffix.trans (List.suffix_cons c x)⟩
      · exact ⟨x, List.mem_filter.2 ⟨List.mem_cons_of_mem _ hx, hnonempty⟩, hsuffix⟩

/-- No module is found from a place in a gap, if no word of a comment ends with `from`. -/
theorem neverGives_gap (hg : IsGap kind g)
    (hkind : ∀ text, kind text → ∀ x ∈ Text.words text, ¬ "from".toList <:+ x)
    (hs : NeverGives module s) : NeverGives module (g ++ s) := by
  have hblank : ∀ {c : Char}, Text.isBlank c = true → c ≠ 'f' := by
    rintro c hc rfl
    exact absurd hc (by decide)
  induction hg with
  | nil => exact hs
  | blank hc _ ih => exact neverGives_cons (hblank hc) ih
  | rowEnd hc _ ih =>
    exact neverGives_cons (by decide) (neverGives_cons (hblank (isBlank_of_rowEnd hc)) ih)
  | @comment c text g htext _ hc _ ih =>
    have hc : Text.isBlank c = true := isBlank_of_rowEnd hc
    have hrow : NeverGives module (c :: (g ++ s)) := neverGives_cons (hblank hc) ih
    rw [List.cons_append, List.append_assoc, List.cons_append]
    refine neverGives_cons (by decide) (neverGives_append hrow fun t ht hne hfound => ?_)
    obtain ⟨u, rfl⟩ := ht
    obtain ⟨w, v, rfl, hw, hv⟩ := exists_word_append t
    have hends : EndsWord (v ++ c :: (g ++ s)) := by
      cases v with
      | nil => exact endsWord_cons hc
      | cons b v => exact endsWord_cons (hv b rfl)
    rw [List.append_assoc] at hfound
    obtain ⟨rfl, -⟩ := givesModule_of_append (p := (!Text.isBlank ·)) (by simp)
      (by simpa [IsWord] using isToken_from.isWord) (by simpa [IsWord] using hw)
      (by simpa [EndsWord] using hends) hfound
    obtain ⟨x, hx, hsuffix⟩ : ∃ x ∈ Text.words (('#' :: u) ++ ("from".toList ++ v)),
        "from".toList <:+ x := exists_mem_words hw (by decide) hv
    exact hkind _ htext x hx hsuffix

/-! ### Behind the path -/

theorem isTokenChar_head?_of_dropWhile
    (hs : ∀ c ∈ (s.dropWhile Text.isBlank).head?, isTokenChar c = false) :
    ∀ c ∈ s.head?, isTokenChar c = false := by
  intro c hc
  cases hblank : Text.isBlank c with
  | true => exact isTokenChar_of_isBlank hblank
  | false =>
    cases s with
    | nil => cases hc
    | cons d s =>
      obtain rfl := Option.some.inj hc
      rw [List.dropWhile_cons_of_neg (by simp [hblank])] at hs
      exact hs d rfl

/-- Behind a name and before its `as` stands no module, for `as` is none. -/
theorem not_givesModule_as {before : List Char} (hbefore : IsGap kind before)
    (hmodule : ∀ c ∈ module, isTokenChar c = true) (has : module ≠ "as".toList)
    (hs : ∀ c ∈ s.head?, isTokenChar c = false) :
    ¬ GivesModule module (before ++ ("as".toList ++ s)) := by
  intro hgives
  have htokens : ∀ t ∈ [(before, "as".toList)], IsGap kind t.1 ∧ IsToken t.2 :=
    List.forall_mem_singleton.2 ⟨hbefore, isToken_as⟩
  have htext : before ++ ("as".toList ++ s) = gapped [(before, "as".toList)] ++ s := by
    rw [gapped_cons]
    rfl
  rw [htext] at hgives
  obtain ⟨front, back, -, -, hcut, hglued, hdots, -⟩ :=
    hgives.exists_glued hmodule (by simp) htokens hs
  cases front with
  | nil => exact hglued.elim
  | cons t front =>
    obtain ⟨rfl, hrest⟩ := List.cons_eq_cons.1 hcut
    obtain ⟨rfl, -⟩ := List.append_eq_nil_iff.1 hrest.symm
    exact has hdots.symm

/-- No module but `as` is found from a place in a name, its alias and its gaps. -/
theorem neverGives_name {n : WrittenName} {post : List Char} (hn : n.IsWritten kind)
    (hkind : ∀ text, kind text → ∀ x ∈ Text.words text, ¬ "from".toList <:+ x)
    (hmodule : ∀ c ∈ module, isTokenChar c = true) (has : module ≠ "as".toList)
    (hhead : ∀ c ∈ (post.dropWhile Text.isBlank).head?, isTokenChar c = false)
    (hpost : NeverGives module post) : NeverGives module (n.text ++ post) := by
  have htrail : ∀ c ∈ (n.trail ++ post).head?, isTokenChar c = false :=
    hn.trail.head?_append (isTokenChar_head?_of_dropWhile hhead)
  have hrest : NeverGives module (n.trail ++ post) := neverGives_gap hn.trail hkind hpost
  have hends : ¬ GivesModule module (n.trail ++ post) :=
    not_givesModule_gap hn.trail hmodule hhead
  rw [WrittenName.text, WrittenName.tail]
  simp only [List.append_assoc]
  refine neverGives_gap hn.lead hkind ?_
  cases ha : n.asName with
  | none =>
    rw [Option.elim_none, List.nil_append]
    exact neverGives_token hrest hn.name.2 htrail fun _ => hends
  | some a =>
    obtain ⟨hbefore, hbeforene, hbehind, hbehindne, hid⟩ := hn.asName a ha
    have halias : NeverGives module (a.name.toList ++ (n.trail ++ post)) :=
      neverGives_token hrest hid.isToken.2 htrail fun _ => hends
    have hkeyword : NeverGives module
        ("as".toList ++ (a.behind ++ (a.name.toList ++ (n.trail ++ post)))) :=
      neverGives_token (neverGives_gap hbehind hkind halias) isToken_as.2
        (hbehind.head?_append_of_ne_nil hbehindne _) fun hfrom => absurd hfrom (by decide)
    rw [Option.elim_some, WrittenAlias.text]
    simp only [List.append_assoc]
    exact neverGives_token (neverGives_gap hbefore hkind hkeyword) hn.name.2
      (hbefore.head?_append_of_ne_nil hbeforene _) fun _ =>
        not_givesModule_as hbefore hmodule has (hbehind.head?_append_of_ne_nil hbehindne _)

theorem neverGives_namesText {names : List WrittenName} {post : List Char}
    (hnames : ∀ n ∈ names, n.IsWritten kind)
    (hkind : ∀ text, kind text → ∀ x ∈ Text.words text, ¬ "from".toList <:+ x)
    (hmodule : ∀ c ∈ module, isTokenChar c = true) (has : module ≠ "as".toList)
    (hhead : ∀ c ∈ (post.dropWhile Text.isBlank).head?, isTokenChar c = false)
    (hpost : NeverGives module post) : NeverGives module (namesText names ++ post) := by
  induction names with
  | nil => exact hpost
  | cons n names ih =>
    obtain ⟨hn, hnames⟩ := List.forall_mem_cons.1 hnames
    cases names with
    | nil =>
      rw [namesText_singleton]
      exact neverGives_name hn hkind hmodule has hhead hpost
    | cons m names =>
      rw [namesText_cons_cons, List.append_assoc, List.cons_append]
      refine neverGives_name hn hkind hmodule has ?_ (neverGives_cons (by decide) (ih hnames))
      rw [List.dropWhile_cons_of_neg (by decide)]
      exact forall_mem_head?_cons (by decide)

/-- **In a list no module is found but `as`.** -/
theorem neverGives_text {l : WrittenList} (hl : l.IsWritten kind)
    (hkind : ∀ text, kind text → ∀ x ∈ Text.words text, ¬ "from".toList <:+ x)
    (hmodule : ∀ c ∈ module, isTokenChar c = true) (has : module ≠ "as".toList) :
    NeverGives module l.text := by
  have hbehind : NeverGives module l.behind := by
    rw [← List.append_nil l.behind]
    exact neverGives_gap (IsGap.of_isBlank hl.behind) hkind neverGives_nil
  have hclose : NeverGives module (')' :: l.behind) := neverGives_cons (by decide) hbehind
  have hclosing : NeverGives module l.closing ∧
      ∀ c ∈ (l.closing.dropWhile Text.isBlank).head?, isTokenChar c = false := by
    rw [WrittenList.closing]
    cases hbrackets : l.brackets with
    | none =>
      rw [Option.elim_none, List.dropWhile_eq_nil_iff.2 hl.behind]
      exact ⟨hbehind, by simp⟩
    | some b =>
      rw [Option.elim_some]
      cases htrailing : b.trailing with
      | none =>
        rw [Option.elim_none, List.nil_append, List.dropWhile_cons_of_neg (by decide)]
        exact ⟨hclose, forall_mem_head?_cons (by decide)⟩
      | some g =>
        rw [Option.elim_some, List.cons_append, List.dropWhile_cons_of_neg (by decide)]
        refine ⟨neverGives_cons (by decide) ?_, forall_mem_head?_cons (by decide)⟩
        exact neverGives_gap (hl.trailing b hbrackets g htrailing) hkind hclose
  have hnames : NeverGives module (namesText l.names ++ l.closing) :=
    neverGives_namesText hl.names hkind hmodule has hclosing.2 hclosing.1
  rw [WrittenList.text, WrittenList.opening]
  cases hbrackets : l.brackets with
  | none => exact hnames
  | some b =>
    rw [Option.elim_some, List.append_assoc]
    exact neverGives_gap (hl.before b hbrackets) (fun _ h => h.elim)
      (neverGives_cons (by decide) hnames)

end Never

/-! ### The module of a statement -/

section Statement

variable {tokens : List (List Char × List Char)} {before list : List Char}

/-- What stands behind the path, up to the end of the word `import`, is one more token. -/
theorem gapped_import (tokens : List (List Char × List Char)) (before list : List Char) :
    gapped tokens ++ (before ++ ("import".toList ++ list)) =
      gapped (tokens ++ [(before, "import".toList ++ list.takeWhile isTokenChar)]) ++
        list.dropWhile isTokenChar := by
  rw [gapped_append, gapped_cons, List.append_assoc]
  simp [gapped, List.takeWhile_append_dropWhile]

theorem isTokenChar_glued (htokens : ∀ t ∈ tokens, IsToken t.2) :
    ∀ c ∈ glued tokens, isTokenChar c = true := by
  intro c hc
  obtain ⟨t, ht, hc⟩ := List.mem_flatMap.1 hc
  exact (htokens t ht).2 c hc

theorem glued_ne_nil (hne : tokens ≠ []) (htokens : ∀ t ∈ tokens, IsToken t.2) :
    glued tokens ≠ [] := by
  obtain ⟨t, tokens, rfl⟩ := List.exists_cons_of_ne_nil hne
  intro hnil
  exact (htokens t List.mem_cons_self).1 (List.append_eq_nil_iff.1 hnil).1

theorem IsGlued.ne_nil (h : IsGlued tokens) : tokens ≠ [] := by
  rintro rfl
  exact h.elim

/-- Glued tokens are the blanks in front of them and the tokens. -/
theorem IsGlued.gapped_append {t : List Char × List Char} (h : IsGlued (t :: tokens))
    (s : List Char) : gapped (t :: tokens) ++ s = t.1 ++ (glued (t :: tokens) ++ s) := by
  have htokens : gapped tokens = glued tokens := by
    have hmap : tokens.map (fun u => u.1 ++ u.2) = tokens.map (·.2) :=
      List.map_congr_left fun u hu => by rw [h.2 u hu, List.nil_append]
    rw [gapped, glued, List.flatMap_def, List.flatMap_def, hmap]
  rw [gapped_cons, htokens]
  simp [glued]

/-- The tokens of a path and what stands behind it up to the end of the word `import`. -/
theorem forall_mem_import (htokens : ∀ t ∈ tokens, IsGap (fun _ => False) t.1 ∧ IsToken t.2)
    (hbefore : IsGap (fun _ => False) before) :
    ∀ t ∈ tokens ++ [(before, "import".toList ++ list.takeWhile isTokenChar)],
      IsGap (fun _ => False) t.1 ∧ IsToken t.2 := by
  refine List.forall_mem_append.2 ⟨htokens, List.forall_mem_singleton.2 ⟨hbefore, by simp, ?_⟩⟩
  exact List.forall_mem_append.2
    ⟨isToken_import.2, fun c hc => List.mem_takeWhile_imp hc⟩

/-- **A module is given by tokens of the path that touch,** or by those and `import`. -/
theorem GivesModule.exists_cut {module : List Char}
    (hgives : GivesModule module (gapped tokens ++ (before ++ ("import".toList ++ list))))
    (hmodule : ∀ c ∈ module, isTokenChar c = true)
    (htokens : ∀ t ∈ tokens, IsGap (fun _ => False) t.1 ∧ IsToken t.2)
    (hbefore : IsGap (fun _ => False) before) :
    (∃ front back g rest, tokens = front ++ back ∧ IsGlued front ∧ dropDots (glued front) = module ∧
        gapped back ++ (before ++ ("import".toList ++ list)) = g ++ ("import".toList ++ rest) ∧
        IsBlanks g) ∨
      (IsGlued (tokens ++ [(before, "import".toList ++ list.takeWhile isTokenChar)]) ∧
        dropDots (glued tokens ++ ("import".toList ++ list.takeWhile isTokenChar)) = module) := by
  rw [gapped_import] at hgives
  obtain ⟨front, back, g, rest, hcut, hglued, hdots, htext, hg⟩ :=
    hgives.exists_glued hmodule (by simp) (forall_mem_import htokens hbefore)
      (head?_dropWhile isTokenChar list)
  rcases List.eq_nil_or_concat back with rfl | ⟨back, t, rfl⟩
  · rw [List.append_nil] at hcut
    rw [← hcut] at hglued hdots
    rw [glued_append] at hdots
    exact .inr ⟨hglued, by simpa [glued] using hdots⟩
  · rw [List.concat_eq_append] at hcut htext
    rw [← List.append_assoc] at hcut
    obtain ⟨hfront, hlast⟩ := List.append_inj' hcut rfl
    refine .inl ⟨front, back, g, rest, hfront, hglued, hdots, ?_, hg⟩
    rw [gapped_import, hlast, htext]

/-- What gives the module from behind the `from` is all of the path, glued. -/
theorem isGlued_of_givesModule (hne : tokens ≠ [])
    (htokens : ∀ t ∈ tokens, IsGap (fun _ => False) t.1 ∧ IsToken t.2)
    (hbefore : IsGap (fun _ => False) before)
    (hgives : GivesModule (dropDots (glued tokens))
      (gapped tokens ++ (before ++ ("import".toList ++ list)))) :
    IsGlued tokens ∧ IsBlanks before := by
  have htoken : ∀ t ∈ tokens, IsToken t.2 := fun t ht => (htokens t ht).2
  have hmodule : ∀ c ∈ dropDots (glued tokens), isTokenChar c = true := fun c hc =>
    isTokenChar_glued htoken c ((dropDots_suffix _).subset hc)
  rcases hgives.exists_cut hmodule htokens hbefore with
    ⟨front, back, g, rest, rfl, hglued, hdots, htext, hg⟩ | ⟨-, hdots⟩
  · cases back with
    | nil =>
      rw [List.append_nil]
      obtain ⟨rfl, -⟩ := hbefore.append_inj rfl hg.2 rfl htext
      exact ⟨hglued, hg⟩
    | cons t back =>
      -- The next token would start with a dot, but it starts `import`.
      obtain ⟨⟨hgap, hword⟩, -⟩ :=
        List.forall_mem_cons.1 (List.forall_mem_append.1 htokens).2
      obtain ⟨c, w, hcons⟩ := List.exists_cons_of_ne_nil hword.1
      rw [glued_append] at hdots
      have hfront : glued front ≠ [] :=
        glued_ne_nil hglued.ne_nil fun t ht => htoken t (List.mem_append_left _ ht)
      have hdot : c = '.' := eq_of_dropDots_append hfront hdots.symm c (by simp [glued, hcons])
      rw [gapped_cons, hcons] at htext
      have hc : isTokenChar c = true := hword.2 c (hcons ▸ List.mem_cons_self)
      obtain ⟨-, hsame⟩ := hgap.append_inj (by simpa using hc) hg.2 rfl htext
      have himport : c = 'i' := (List.cons_eq_cons.1 hsame).1
      exact absurd (hdot.symm.trans himport) (by decide)
  · have hdot := eq_of_dropDots_append (glued_ne_nil hne htoken) hdots 'i' rfl
    exact absurd hdot (by decide)

/-- Behind a `from` that ends a part of the path, too little of it is left to give the module. -/
theorem not_givesModule_behind {front back : List (List Char × List Char)}
    (htokens : ∀ t ∈ front ++ back, IsGap (fun _ => False) t.1 ∧ IsToken t.2)
    (hbefore : IsGap (fun _ => False) before) (hne : before ≠ [])
    (hfrom : "from".toList <:+ glued front)
    (hlist : ¬ "from".toList <:+ "import".toList ++ list.takeWhile isTokenChar) :
    ¬ GivesModule (dropDots (glued (front ++ back)))
      (gapped back ++ (before ++ ("import".toList ++ list))) := by
  intro hgives
  have hmodule : ∀ c ∈ dropDots (glued (front ++ back)), isTokenChar c = true := fun c hc =>
    isTokenChar_glued (fun t ht => (htokens t ht).2) c ((dropDots_suffix _).subset hc)
  -- The module ends with the `from` and all the tokens behind it.
  have hsuffix : "from".toList ++ glued back <:+ dropDots (glued (front ++ back)) := by
    obtain ⟨u, hu⟩ := hfrom
    rw [glued_append, ← hu, List.append_assoc]
    exact suffix_dropDots_append (by decide) u _
  rcases hgives.exists_cut hmodule (fun t ht => htokens t (List.mem_append_right _ ht)) hbefore with
    ⟨stretch, others, -, -, rfl, -, hdots, -⟩ | ⟨hglued, hdots⟩
  · have hlong := hsuffix.length_le
    have hshort := (dropDots_suffix (glued stretch)).length_le
    rw [hdots] at hshort
    rw [glued_append stretch] at hlong
    simp at hlong
    omega
  · cases back with
    | nil =>
      rw [← hdots] at hsuffix
      exact hlist (by simpa [glued, dropDots] using hsuffix)
    | cons t back =>
      exact hne (hglued.2 _ (List.mem_append_right back (List.mem_singleton_self _)))

/-- From no place in the path does a text give the module, if none does behind a `from` in it. -/
theorem neverGives_gapped {kind : List Char → Prop} {module s : List Char}
    (done : List (List Char × List Char))
    (hkind : ∀ text, kind text → ∀ x ∈ Text.words text, ¬ "from".toList <:+ x)
    (htokens : ∀ t ∈ tokens, IsGap kind t.1 ∧ IsToken t.2)
    (hhead : ∀ c ∈ s.head?, isTokenChar c = false) (hs : NeverGives module s)
    (hbehind : ∀ front back, tokens = front ++ back → "from".toList <:+ glued (done ++ front) →
      ¬ GivesModule module (gapped back ++ s)) : NeverGives module (gapped tokens ++ s) := by
  induction tokens generalizing done with
  | nil => exact hs
  | cons t tokens ih =>
    obtain ⟨⟨hgap, htoken⟩, htokens⟩ := List.forall_mem_cons.1 htokens
    have hrest : NeverGives module (gapped tokens ++ s) := by
      refine ih (done ++ [t]) htokens fun front back hcut hfrom => ?_
      exact hbehind (t :: front) back (by rw [hcut]; rfl) (by simpa [glued] using hfrom)
    rw [gapped_cons]
    refine neverGives_gap hgap hkind (neverGives_append hrest fun u hu _ hfound => ?_)
    obtain ⟨v, hsame, hgives⟩ := fromModuleHere?_eq_some_iff_givesModule.1 hfound
    have hblank : ∀ c ∈ v.head?, isTokenChar c = false := by
      obtain ⟨path, g, h, rest, rfl, hg, -⟩ := hgives
      exact fun c hc => isTokenChar_of_isBlank (isBlank_of_mem_head? hg c hc)
    obtain ⟨front, back, rfl, -, hfrom, rfl⟩ := exists_run htokens hhead
      (fun c hc => htoken.2 c (hu.subset hc)) isToken_from.2 hblank hsame
    refine hbehind (t :: front) back rfl ?_ hgives
    obtain ⟨x, hx⟩ := hu
    exact ⟨glued done ++ x, by simp [glued, ← hx, hfrom]⟩

/-- **When the module of a statement is found:** when blanks stand around its path, and nothing
between the tokens of it. -/
theorem search_fromModuleHere?_eq_some_iff (hne : tokens ≠ [])
    (htokens : ∀ t ∈ tokens, IsGap (fun _ => False) t.1 ∧ IsToken t.2)
    (hbefore : IsGap (fun _ => False) before)
    (hfrom : before = [] → ∀ front, front <+: tokens → ¬ "from".toList <:+ glued front)
    (himport : ¬ "from".toList <:+ "import".toList ++ list.takeWhile isTokenChar)
    (hlist : NeverGives (dropDots (glued tokens)) list) :
    search fromModuleHere?
        ("from".toList ++ (gapped tokens ++ (before ++ ("import".toList ++ list)))) =
          some (dropDots (glued tokens)) ↔
      IsGlued tokens ∧ IsBlanks before := by
  have hstatement := gapped_import tokens before list
  have hlistRest : NeverGives (dropDots (glued tokens)) (list.dropWhile isTokenChar) :=
    fun here hhere => hlist here (hhere.trans (List.dropWhile_suffix _))
  -- From a place behind the first `from`, the module is not found.
  have hnever : NeverGives (dropDots (glued tokens))
      (gapped tokens ++ (before ++ ("import".toList ++ list))) := by
    rw [hstatement]
    refine neverGives_gapped [] (fun _ h => h.elim) (forall_mem_import htokens hbefore)
      (head?_dropWhile isTokenChar list) hlistRest fun front back hcut hends => ?_
    rw [List.nil_append] at hends
    rcases List.eq_nil_or_concat back with rfl | ⟨back, t, rfl⟩
    · rw [List.append_nil] at hcut
      rw [← hcut, glued_append] at hends
      have hlast : glued [(before, "import".toList ++ list.takeWhile isTokenChar)] =
          "import".toList ++ list.takeWhile isTokenChar := by
        simp [glued]
      rw [hlast] at hends
      have hlength : "from".toList.length ≤
          ("import".toList ++ list.takeWhile isTokenChar).length := by
        rw [List.length_append]
        exact Nat.le_add_right_of_le (by decide)
      exact absurd (List.suffix_of_suffix_length_le hends (List.suffix_append _ _) hlength) himport
    · rw [List.concat_eq_append, ← List.append_assoc] at hcut
      obtain ⟨rfl, hlast⟩ := List.append_inj' hcut rfl
      rw [List.concat_eq_append, ← hlast, ← gapped_import]
      exact not_givesModule_behind htokens hbefore
        (fun hnil => hfrom hnil front (List.prefix_append front back) hends) hends himport
  constructor
  · intro hfound
    obtain ⟨here, hhere, hfound, -⟩ := search_eq_some_iff.1 hfound
    have hinside : NeverGives (dropDots (glued tokens))
        ("rom".toList ++ (gapped tokens ++ (before ++ ("import".toList ++ list)))) :=
      neverGives_cons (by decide) (neverGives_cons (by decide) (neverGives_cons (by decide) hnever))
    rcases List.suffix_cons_iff.1 hhere with hwhole | hhere
    · obtain ⟨t, hsame, hgives⟩ := fromModuleHere?_eq_some_iff_givesModule.1 hfound
      have hrest : "from".toList ++ (gapped tokens ++ (before ++ ("import".toList ++ list))) =
          "from".toList ++ t := hwhole.symm.trans hsame
      obtain rfl := List.append_cancel_left hrest
      exact isGlued_of_givesModule hne htokens hbefore hgives
    · exact absurd hfound (hinside here hhere)
  · rintro ⟨hglued, hblanks⟩
    obtain ⟨t, tokens, rfl⟩ := List.exists_cons_of_ne_nil hne
    have hpath : IsToken (glued (t :: tokens)) :=
      ⟨glued_ne_nil hne fun u hu => (htokens u hu).2,
        isTokenChar_glued fun u hu => (htokens u hu).2⟩
    refine search_eq_some (fromModuleHere?_eq_some_iff.2 ⟨glued (t :: tokens),
      ⟨t.1, before, list, ?_, hglued.1, hpath.isPath, hblanks⟩, rfl⟩)
    rw [hglued.gapped_append]

end Statement

end Import
end CompletionPrompt

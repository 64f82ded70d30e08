import CompletionPrompt.Proofs.Import.NameList

/-!
# Searches in a list of names

A search for a keyword finds nothing in a list without it (`WrittenList.search_eq_none`). The search
for an alias tries the alias of each name in turn (`search_text`). An alias is read back when blanks
alone stand between it and its `as`, and a blank, a comma or a bracket behind it
(`aliasBehind?_eq_some_iff`); else nothing is read there, or a text that is no name. So the first
alias of a list is the one that is found when it is written like that, and only then, unless it
stands in the list again (`WrittenList.search_alias`).
-/

namespace CompletionPrompt
namespace Import

/-- The alias that stands behind an `as`. -/
def aliasBehind? (s : List Char) : Option (List Char) :=
  (afterBlanks? s).bind fun s => (run? isNameChar s).map (·.1)

/-- The first alias of a list, and the gap behind it. -/
def firstAlias? (names : List WrittenName) : Option (WrittenAlias × List Char) :=
  names.findSome? fun n => n.asName.map (·, n.trail)

/-- The aliases of a list. -/
def aliases (names : List WrittenName) : List String :=
  names.filterMap fun n => n.asName.map (·.name)

/-- An alias may be read back: blanks stand in front of it, and a blank behind it or nothing. -/
def IsReadableAlias (a : WrittenAlias × List Char) : Prop :=
  IsBlanks a.1.behind ∧ EndsWord a.2

instance (a : WrittenAlias × List Char) : Decidable (IsReadableAlias a) :=
  inferInstanceAs (Decidable (_ ∧ _))

theorem exists_of_mem_firstAlias? {names : List WrittenName} {a : WrittenAlias × List Char}
    (ha : a ∈ firstAlias? names) : ∃ n ∈ names, a.1 ∈ n.asName ∧ a.2 = n.trail := by
  obtain ⟨n, hn, ha⟩ := List.exists_of_findSome?_eq_some ha
  obtain ⟨b, hb, rfl⟩ := Option.map_eq_some_iff.1 ha
  exact ⟨n, hn, hb, rfl⟩

theorem map_name_firstAlias? (names : List WrittenName) :
    (firstAlias? names).map (·.1.name) =
      (names.map fun n => (n.name, n.asName.map (·.name))).findSome? (·.2) := by
  induction names with
  | nil => rfl
  | cons n names ih =>
    rw [List.map_cons, List.findSome?_cons, firstAlias?, List.findSome?_cons]
    cases n.asName with
    | none => exact ih
    | some a => rfl

theorem isTokenChar_eq_false_of_isNameChar {c : Char} (h : isNameChar c = false) :
    isTokenChar c = false := by
  cases hc : isTokenChar c with
  | false => rfl
  | true =>
    simp only [isTokenChar, isNameMargin, Bool.and_eq_true, Bool.not_eq_true', Bool.or_eq_false_iff]
      at hc
    simp_all [isNameChar]

section Search

variable {kind : List Char → Prop} {n : WrittenName} {a : WrittenAlias} {names : List WrittenName}
  {trail post : List Char}

/-! ### Other keywords -/

/-- A search passes over a name that is not its keyword. -/
theorem search_text_of_other {α : Type} {f : List Char → Option α} {k : String}
    (hn : n.IsWritten kind) (hk : IsToken k.toList)
    (hkind : ∀ text, kind text → k.toList ∉ Text.words text) (has : k ≠ "as")
    (hother : n.name ≠ k ∧ ∀ a ∈ n.asName, a.name ≠ k)
    (hpost : ∀ c ∈ post.head?, isTokenChar c = false) :
    search (behindKeyword? k f) (n.text ++ post) = search (behindKeyword? k f) post := by
  have hne : ∀ {name : String}, name ≠ k → name.toList ≠ k.toList := fun h hsame =>
    h (String.toList_inj.1 hsame)
  have htrail : ∀ c ∈ (n.trail ++ post).head?, isTokenChar c = false := hn.trail.head?_append hpost
  rw [WrittenName.text, WrittenName.tail]
  simp only [List.append_assoc]
  cases ha : n.asName with
  | none =>
    rw [Option.elim_none, List.nil_append,
      hn.lead.search_word hk hkind hn.name (hne hother.1) htrail,
      hn.trail.search_append_of_head? hk hkind hpost]
  | some a =>
    obtain ⟨hbefore, hbeforene, hbehind, hbehindne, hid⟩ := hn.asName a ha
    rw [Option.elim_some, WrittenAlias.text]
    simp only [List.append_assoc]
    rw [hn.lead.search_word hk hkind hn.name (hne hother.1)
        (hbefore.head?_append_of_ne_nil hbeforene _),
      hbefore.search_word hk hkind (by decide) (hne has.symm)
        (hbehind.head?_append_of_ne_nil hbehindne _),
      hbehind.search_word hk hkind hid.isToken (hne (hother.2 a ha)) htrail,
      hn.trail.search_append_of_head? hk hkind hpost]

theorem search_namesText_of_other {α : Type} {f : List Char → Option α} {k : String}
    (hnames : ∀ n ∈ names, n.IsWritten kind) (hk : IsToken k.toList)
    (hkind : ∀ text, kind text → k.toList ∉ Text.words text) (has : k ≠ "as")
    (hother : ∀ n ∈ names, n.name ≠ k ∧ ∀ a ∈ n.asName, a.name ≠ k)
    (hpost : ∀ c ∈ post.head?, isTokenChar c = false) :
    search (behindKeyword? k f) (namesText names ++ post) = search (behindKeyword? k f) post := by
  induction names with
  | nil => rfl
  | cons n names ih =>
    obtain ⟨hn, hnames⟩ := List.forall_mem_cons.1 hnames
    obtain ⟨hnother, hother⟩ := List.forall_mem_cons.1 hother
    cases names with
    | nil => rw [namesText_singleton, search_text_of_other hn hk hkind has hnother hpost]
    | cons m names =>
      rw [namesText_cons_cons, List.append_assoc, List.cons_append,
        search_text_of_other hn hk hkind has hnother (forall_mem_head?_cons (by decide)),
        search_cons_of_none (behindKeyword?_of_not_blank (by decide)), ih hnames hother]

/-! ### The alias of a name -/

/-- Behind an `as` stands the alias, or a text that is no name. -/
theorem eq_or_exists_of_aliasBehind? (hbehind : IsGap kind a.behind) (hid : IsIdentifier a.name)
    (htrail : IsGap kind trail) (hpost : ∀ c ∈ post.head?, isNameChar c = false) {x : List Char}
    (hx : aliasBehind? (a.behind ++ (a.name.toList ++ (trail ++ post))) = some x) :
    (x = a.name.toList ∧ IsReadableAlias (a, trail)) ∨ ∃ c ∈ x, isTokenChar c = false := by
  obtain ⟨s, hs, hrun⟩ := Option.bind_eq_some_iff.1 hx
  obtain ⟨g, hsame, hg, -⟩ := afterBlanks?_eq_some_iff.1 hs
  obtain ⟨⟨y, rest⟩, hread, rfl⟩ := Option.map_eq_some_iff.1 hrun
  obtain ⟨rfl, hne, -, hrest⟩ := run?_eq_some_iff.1 hread
  obtain ⟨c, y, rfl⟩ := List.exists_cons_of_ne_nil hne
  cases hc : isTokenChar c with
  | false => exact .inr ⟨c, List.mem_cons_self, hc⟩
  | true =>
    obtain ⟨rfl, hread'⟩ :=
      hbehind.append_inj (hid.isToken.any_head?_append _) hg.2 (by simpa using hc) hsame
    -- The alias is read to its end, and nothing more if a blank, a comma or a bracket follows.
    have hends : rest = trail ++ post → EndsWord trail := by
      rintro rfl d hd
      have hstop : isNameChar d = false := by
        refine hrest d ?_
        cases trail with
        | nil => cases hd
        | cons e trail => exact hd
      rcases htrail.eq_or_of_head? d hd with hblank | rfl | rfl
      · exact hblank
      · exact absurd hstop (by decide)
      · exact absurd hstop (by decide)
    rcases List.append_eq_append_iff.1 hread' with ⟨more, hmore, hbehind⟩ | ⟨less, hless, hbehind⟩
    · cases more with
      | nil =>
        rw [List.append_nil] at hmore
        exact .inl ⟨hmore, hg, hends hbehind.symm⟩
      | cons d more =>
        have hd := htrail.head?_append (fun c hc => isTokenChar_eq_false_of_isNameChar (hpost c hc))
          d (by rw [hbehind]; rfl)
        exact .inr ⟨d, hmore ▸ by simp, hd⟩
    · cases less with
      | nil =>
        rw [List.append_nil] at hless
        exact .inl ⟨hless.symm, hg, hends hbehind⟩
      | cons d less =>
        have hstop := hrest d (by rw [hbehind]; rfl)
        rw [hid.isNameChar d (hless ▸ by simp)] at hstop
        cases hstop

/-- **When an alias is read back.** -/
theorem aliasBehind?_eq_some_iff (hbehind : IsGap kind a.behind) (hid : IsIdentifier a.name)
    (htrail : IsGap kind trail) (hpost : ∀ c ∈ post.head?, isNameChar c = false) :
    aliasBehind? (a.behind ++ (a.name.toList ++ (trail ++ post))) = some a.name.toList ↔
      IsReadableAlias (a, trail) := by
  constructor
  · intro hread
    rcases eq_or_exists_of_aliasBehind? hbehind hid htrail hpost hread with ⟨-, h⟩ | ⟨c, hc, hother⟩
    · exact h
    · rw [hid.isToken.2 c hc] at hother
      cases hother
  · rintro ⟨hblanks, hends⟩
    have hrest : ∀ c ∈ (trail ++ post).head?, isNameChar c = false := by
      intro c hc
      cases trail with
      | nil => exact hpost c hc
      | cons b trail =>
        have hb := hends b rfl
        obtain rfl : b = c := by simpa using hc
        simp [isNameChar, hb]
    have hstart : ∀ c ∈ (a.name.toList ++ (trail ++ post)).head?, Text.isBlank c = false := by
      obtain ⟨c, cs, hcons⟩ := List.exists_cons_of_ne_nil hid.ne_nil
      simpa [hcons] using hid.isWord c (hcons ▸ List.mem_cons_self)
    rw [aliasBehind?, afterBlanks?_eq_some_iff.2 ⟨a.behind, rfl, hblanks, hstart⟩, Option.bind_some,
      run?_append hid.ne_nil hid.isNameChar hrest]
    rfl

/-- **The search tries the alias of a name,** and goes on behind it. -/
theorem search_text (hn : n.IsWritten kind)
    (hkind : ∀ text, kind text → "as".toList ∉ Text.words text)
    (hpost : ∀ c ∈ post.head?, isTokenChar c = false) :
    search asNameHere? (n.text ++ post) =
      (n.asName.bind fun a => aliasBehind? (a.behind ++ (a.name.toList ++ (n.trail ++ post)))).or
        (search asNameHere? post) := by
  have hother : n.name.toList ≠ "as".toList := fun h => hn.name_ne (String.toList_inj.1 h)
  have htrail : ∀ c ∈ (n.trail ++ post).head?, isTokenChar c = false := hn.trail.head?_append hpost
  rw [WrittenName.text, WrittenName.tail, asNameHere?_eq]
  simp only [List.append_assoc]
  cases ha : n.asName with
  | none =>
    rw [Option.elim_none, List.nil_append,
      hn.lead.search_word isToken_as hkind hn.name hother htrail,
      hn.trail.search_append_of_head? isToken_as hkind hpost]
    rfl
  | some a =>
    obtain ⟨hbefore, hne, hbehind, -, hid⟩ := hn.asName a ha
    have hkeyword : a.name.toList ≠ "as".toList := fun h =>
      hid.not_keyword (String.toList_inj.1 h ▸ by decide)
    rw [Option.elim_some, WrittenAlias.text]
    simp only [List.append_assoc]
    rw [hn.lead.search_word isToken_as hkind hn.name hother (hbefore.head?_append_of_ne_nil hne _),
      hbefore.search_keyword isToken_as hkind hne,
      hbehind.search_word isToken_as hkind hid.isToken hkeyword htrail,
      hn.trail.search_append_of_head? isToken_as hkind hpost]
    rfl

/-! ### The aliases of a list -/

/-- The search tries the alias of the first name, and goes on in the rest of the list. -/
theorem exists_search_namesText_cons (names : List WrittenName) (hn : n.IsWritten kind)
    (hkind : ∀ text, kind text → "as".toList ∉ Text.words text)
    (hpost : ∀ c ∈ post.head?, isNameChar c = false) :
    ∃ post', (∀ c ∈ post'.head?, isNameChar c = false) ∧
      search asNameHere? (namesText (n :: names) ++ post) =
        (n.asName.bind fun a => aliasBehind? (a.behind ++ (a.name.toList ++ (n.trail ++ post')))).or
          (search asNameHere? (namesText names ++ post)) := by
  cases names with
  | nil =>
    refine ⟨post, hpost, ?_⟩
    rw [namesText_singleton,
      search_text hn hkind fun c hc => isTokenChar_eq_false_of_isNameChar (hpost c hc)]
    rfl
  | cons m names =>
    refine ⟨',' :: (namesText (m :: names) ++ post), forall_mem_head?_cons (by decide), ?_⟩
    have hcomma : search asNameHere? (',' :: (namesText (m :: names) ++ post)) =
        search asNameHere? (namesText (m :: names) ++ post) := by
      rw [asNameHere?_eq]
      exact search_cons_of_none (behindKeyword?_of_not_blank (by decide))
    rw [namesText_cons_cons, List.append_assoc, List.cons_append,
      search_text hn hkind (forall_mem_head?_cons (by decide)), hcomma]

/-- In a list is found one of its aliases, or a text that is no name. -/
theorem mem_or_exists_of_search (hnames : ∀ n ∈ names, n.IsWritten kind)
    (hkind : ∀ text, kind text → "as".toList ∉ Text.words text)
    (hpost : ∀ c ∈ post.head?, isNameChar c = false) (hnone : search asNameHere? post = none)
    {x : List Char} (hx : search asNameHere? (namesText names ++ post) = some x) :
    (∃ name ∈ aliases names, x = name.toList) ∨ ∃ c ∈ x, isTokenChar c = false := by
  induction names with
  | nil =>
    rw [show namesText [] ++ post = post from rfl, hnone] at hx
    cases hx
  | cons n names ih =>
    obtain ⟨hn, hnames⟩ := List.forall_mem_cons.1 hnames
    obtain ⟨post', hpost', hsearch⟩ := exists_search_namesText_cons names hn hkind hpost
    rw [hsearch, Option.or_eq_some_iff] at hx
    rcases hx with hhere | ⟨-, hrest⟩
    · obtain ⟨a, ha, hread⟩ := Option.bind_eq_some_iff.1 hhere
      obtain ⟨-, -, hbehind, -, hid⟩ := hn.asName a ha
      rcases eq_or_exists_of_aliasBehind? hbehind hid hn.trail hpost' hread with ⟨rfl, -⟩ | hother
      · exact .inl ⟨a.name, List.mem_filterMap.2 ⟨n, List.mem_cons_self, by simp [ha]⟩, rfl⟩
      · exact .inr hother
    · rcases ih hnames hrest with ⟨name, hname, rfl⟩ | hother
      · obtain ⟨m, hm, hname⟩ := List.mem_filterMap.1 hname
        exact .inl ⟨name, List.mem_filterMap.2 ⟨m, List.mem_cons_of_mem n hm, hname⟩, rfl⟩
      · exact .inr hother

/-- **When the first alias of a list is read back.** It is when it may be, and else never, if it
does not stand in the list again. -/
theorem search_namesText (hnames : ∀ n ∈ names, n.IsWritten kind)
    (hkind : ∀ text, kind text → "as".toList ∉ Text.words text)
    (hpost : ∀ c ∈ post.head?, isNameChar c = false) (hnone : search asNameHere? post = none) :
    (firstAlias? names = none → search asNameHere? (namesText names ++ post) = none) ∧
      ∀ first ∈ firstAlias? names,
        (IsReadableAlias first →
          search asNameHere? (namesText names ++ post) = some first.1.name.toList) ∧
        (first.1.name ∉ (aliases names).tail →
          search asNameHere? (namesText names ++ post) = some first.1.name.toList →
            IsReadableAlias first) := by
  induction names with
  | nil => simp [firstAlias?, namesText, hnone]
  | cons n names ih =>
    obtain ⟨hn, hnames⟩ := List.forall_mem_cons.1 hnames
    obtain ⟨post', hpost', hsearch⟩ := exists_search_namesText_cons names hn hkind hpost
    rw [hsearch, firstAlias?, List.findSome?_cons, aliases, List.filterMap_cons]
    cases ha : n.asName with
    | none => exact ih hnames
    | some a =>
      obtain ⟨-, -, hbehind, -, hid⟩ := hn.asName a ha
      have hread := aliasBehind?_eq_some_iff hbehind hid hn.trail hpost'
      refine ⟨by simp, fun first hfirst => ?_⟩
      obtain rfl : (a, n.trail) = first := by simpa using hfirst
      refine ⟨fun h => ?_, fun hunique hfound => ?_⟩
      · rw [Option.bind_some, hread.2 h, Option.some_or]
      · rw [Option.bind_some, Option.or_eq_some_iff] at hfound
        rcases hfound with hhere | ⟨-, hrest⟩
        · exact hread.1 hhere
        · -- Farther on stand other aliases only.
          rcases mem_or_exists_of_search hnames hkind hpost hnone hrest with
            ⟨name, hname, hsame⟩ | ⟨c, hc, hother⟩
          · exact absurd (String.toList_inj.1 hsame ▸ hname) hunique
          · rw [hid.isToken.2 c hc] at hother
            cases hother

/-! ### A list with its brackets -/

namespace WrittenList

variable {α : Type} {f : List Char → Option α} {k : String} {l : WrittenList}

theorem search_opening (hl : l.IsWritten kind) (hk : IsToken k.toList) (s : List Char) :
    search (behindKeyword? k f) (l.opening ++ s) = search (behindKeyword? k f) s := by
  rw [opening]
  cases hbrackets : l.brackets with
  | none => rfl
  | some b =>
    have hopen : ∀ c ∈ ('(' :: s).head?, isTokenChar c = false := forall_mem_head?_cons (by decide)
    rw [Option.elim_some, List.append_assoc, List.singleton_append,
      (hl.before b hbrackets).search_append_of_head? hk (fun _ h => h.elim) hopen]
    exact search_cons_of_none (behindKeyword?_of_not_blank (by decide))

theorem search_closing (hl : l.IsWritten kind) (hk : IsToken k.toList)
    (hkind : ∀ text, kind text → k.toList ∉ Text.words text) :
    search (behindKeyword? k f) l.closing = none := by
  have hbehind : search (behindKeyword? k f) l.behind = none := by
    rw [← List.append_nil l.behind,
      (IsGap.of_isBlank hl.behind).search_append_of_head? hk hkind (by simp)]
    rfl
  have hclose : search (behindKeyword? k f) (')' :: l.behind) = none := by
    rw [search_cons_of_none (behindKeyword?_of_not_blank (by decide)), hbehind]
  rw [closing]
  cases hbrackets : l.brackets with
  | none => exact hbehind
  | some b =>
    rw [Option.elim_some]
    cases htrailing : b.trailing with
    | none => exact hclose
    | some g =>
      have hg : IsGap kind g := hl.trailing b hbrackets g htrailing
      rw [Option.elim_some, List.cons_append,
        search_cons_of_none (behindKeyword?_of_not_blank (by decide)),
        hg.search_append_of_head? hk hkind (forall_mem_head?_cons (by decide)), hclose]

theorem isNameChar_closing (hl : l.IsWritten kind) :
    ∀ c ∈ l.closing.head?, isNameChar c = false := by
  rw [closing]
  cases hbrackets : l.brackets with
  | none =>
    intro c hc
    simp [isNameChar, hl.behind c (List.mem_of_mem_head? hc)]
  | some b =>
    rw [Option.elim_some]
    cases b.trailing <;> exact forall_mem_head?_cons (by decide)

/-- **A search finds nothing in a list without its keyword.** -/
theorem search_eq_none (hl : l.IsWritten kind) (hk : IsToken k.toList)
    (hkind : ∀ text, kind text → k.toList ∉ Text.words text) (has : k ≠ "as")
    (hother : ∀ n ∈ l.names, n.name ≠ k ∧ ∀ a ∈ n.asName, a.name ≠ k) :
    search (behindKeyword? k f) l.text = none := by
  have hclosing : ∀ c ∈ l.closing.head?, isTokenChar c = false := fun c hc =>
    isTokenChar_eq_false_of_isNameChar (isNameChar_closing hl c hc)
  rw [text, search_opening hl hk,
    search_namesText_of_other hl.names hk hkind has hother hclosing, search_closing hl hk hkind]

/-- The names and the first alias of a list may be read back. -/
structure IsReadable (l : WrittenList) : Prop where
  names : ∀ n ∈ l.names, n.IsReadable
  first : ∀ a ∈ firstAlias? l.names, IsReadableAlias a

instance (l : WrittenList) : Decidable l.IsReadable :=
  decidable_of_iff ((∀ n ∈ l.names, n.IsReadable) ∧ ∀ a ∈ firstAlias? l.names, IsReadableAlias a)
    ⟨fun ⟨hnames, hfirst⟩ => ⟨hnames, hfirst⟩, fun ⟨hnames, hfirst⟩ => ⟨hnames, hfirst⟩⟩

/-- **When the first alias of a list is found.** -/
theorem search_alias (hl : l.IsWritten kind)
    (hkind : ∀ text, kind text → "as".toList ∉ Text.words text) :
    (firstAlias? l.names = none → search asNameHere? l.text = none) ∧
      ∀ first ∈ firstAlias? l.names,
        (IsReadableAlias first → search asNameHere? l.text = some first.1.name.toList) ∧
        (first.1.name ∉ (aliases l.names).tail →
          search asNameHere? l.text = some first.1.name.toList → IsReadableAlias first) := by
  have hnone : search asNameHere? l.closing = none := by
    rw [asNameHere?_eq, search_closing hl isToken_as hkind]
  have htext : search asNameHere? l.text = search asNameHere? (namesText l.names ++ l.closing) := by
    rw [text, asNameHere?_eq, search_opening hl isToken_as]
  rw [htext]
  exact search_namesText hl.names hkind (isNameChar_closing hl) hnone

theorem IsReadable.search_alias (h : l.IsReadable) (hl : l.IsWritten kind)
    (hkind : ∀ text, kind text → "as".toList ∉ Text.words text) :
    search asNameHere? l.text = (firstAlias? l.names).map (·.1.name.toList) := by
  obtain ⟨hnone, hsome⟩ := WrittenList.search_alias hl hkind
  cases hfirst : firstAlias? l.names with
  | none => exact hnone hfirst
  | some first => exact (hsome first hfirst).1 (h.first first hfirst)

end WrittenList

end Search

end Import
end CompletionPrompt

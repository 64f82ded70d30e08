import Mathlib.Data.List.TakeDrop
import Mathlib.Data.List.TakeWhile
import CompletionPrompt.Import.Statement
import CompletionPrompt.Proofs.Text.Pieces

/-!
# Statements that import one module

An import statement is read by search in its text. On texts made of words with blanks between them a
search is followed word by word: a keyword with a blank behind it stands only where it is all that
is left of a word (`bind_after?_afterBlanks?`). So the searches for the bound name and for a list
pass over every word that is not their keyword, since they want a blank before it
(`search_behindKeyword?_append`). The search for the module of a `from` statement wants none, and
finds its keyword at the end of any word (`search_fromModuleHere?_append`).

A module and a name that are written as a statement are therefore read back, unless the module ends
with `from` and the name starts with `import`, where the `as` between them is taken for the module
(`parse?_plain_iff`).
-/

namespace CompletionPrompt
namespace Import

/-! ### Names in statements -/

/-- The words that cannot be names. -/
def keywords : List String :=
  ["False", "None", "True", "and", "as", "assert", "async", "await", "break", "class", "continue",
    "def", "del", "elif", "else", "except", "finally", "for", "from", "global", "if", "import",
    "in", "is", "lambda", "nonlocal", "not", "or", "pass", "raise", "return", "try", "while",
    "with", "yield"]

/-- May a name start with the character? Every character outside ASCII that is not white space
may stand in a name here; the language takes some of these only. -/
def isIdentifierStart (c : Char) : Bool :=
  c.isAlpha || c == '_' || (128 ≤ c.toNat && !Text.isBlank c)

/-- May a name hold the character? -/
def isIdentifierChar (c : Char) : Bool :=
  isIdentifierStart c || c.isDigit

/-- A name that can be bound. -/
structure IsIdentifier (name : String) : Prop where
  start : name.toList.head?.any isIdentifierStart = true
  chars : ∀ c ∈ name.toList, isIdentifierChar c = true
  not_keyword : name ∉ keywords

instance (name : String) : Decidable (IsIdentifier name) :=
  decidable_of_iff (name.toList.head?.any isIdentifierStart = true ∧
      name.toList.all isIdentifierChar = true ∧ name ∉ keywords)
    ⟨fun ⟨hstart, hchars, hkeyword⟩ => ⟨hstart, List.all_eq_true.1 hchars, hkeyword⟩,
      fun ⟨hstart, hchars, hkeyword⟩ => ⟨hstart, List.all_eq_true.2 hchars, hkeyword⟩⟩

/-- The dotted path of a module: what stands between its dots are names. -/
def IsModulePath (path : String) : Prop :=
  ∀ name ∈ path.toList.splitOn '.', IsIdentifier (String.ofList name)

instance (path : String) : Decidable (IsModulePath path) :=
  inferInstanceAs (Decidable (∀ name ∈ path.toList.splitOn '.', _))

theorem isAlpha_iff_toNat {c : Char} :
    c.isAlpha = true ↔
      'A'.toNat ≤ c.toNat ∧ c.toNat ≤ 'Z'.toNat ∨ 'a'.toNat ≤ c.toNat ∧ c.toNat ≤ 'z'.toNat := by
  have halpha : c.isAlpha = (decide ('A'.val ≤ c.val ∧ c.val ≤ 'Z'.val) ||
      (decide ('a'.val ≤ c.val) && decide (c.val ≤ 'z'.val))) := rfl
  rw [halpha, Bool.or_eq_true, Bool.and_eq_true, decide_eq_true_eq, decide_eq_true_eq,
    decide_eq_true_eq]
  rfl

theorem not_isBlank_of_isIdentifierChar {c : Char} (h : isIdentifierChar c = true) :
    Text.isBlank c = false := by
  simp only [isIdentifierChar, isIdentifierStart, Bool.or_eq_true, Bool.and_eq_true, beq_iff_eq,
    isAlpha_iff_toNat, Char.isDigit_iff_toNat] at h
  rcases h with (((hupper | hlower) | rfl) | hother) | hdigit
  · grind [Text.isBlank]
  · grind [Text.isBlank]
  · decide
  · simpa using hother.2
  · grind [Text.isBlank]

theorem ne_of_isIdentifierChar {c d : Char} (h : isIdentifierChar c = true)
    (hd : isIdentifierChar d = false) : c ≠ d := by
  rintro rfl
  rw [h] at hd
  cases hd

theorem isNameChar_of_isIdentifierChar {c : Char} (h : isIdentifierChar c = true) :
    isNameChar c = true := by
  have hcomma := ne_of_isIdentifierChar (d := ',') h (by decide)
  have hopen := ne_of_isIdentifierChar (d := '(') h (by decide)
  have hclose := ne_of_isIdentifierChar (d := ')') h (by decide)
  simp [isNameChar, not_isBlank_of_isIdentifierChar h, hcomma, hopen, hclose]

theorem isPathChar_of_isNameChar {c : Char} (h : isNameChar c = true) : isPathChar c = true := by
  simp only [isNameChar, Bool.and_eq_true] at h
  simpa only [isPathChar, Bool.and_eq_true] using h.1.1

/-- A text without blanks. -/
def IsWord (w : List Char) : Prop :=
  ∀ c ∈ w, Text.isBlank c = false

instance (w : List Char) : Decidable (IsWord w) :=
  decidable_of_iff (w.all (!Text.isBlank ·) = true) (by simp [IsWord])

theorem isWord_of_isNameChar {w : List Char} (h : ∀ c ∈ w, isNameChar c = true) : IsWord w := by
  intro c hc
  have hc := h c hc
  simp only [isNameChar, Bool.and_eq_true] at hc
  simpa using hc.1.1.1

namespace IsIdentifier

variable {name : String}

theorem ne_nil (h : IsIdentifier name) : name.toList ≠ [] := by
  intro hnil
  have hstart := h.start
  simp [hnil] at hstart

theorem isNameChar (h : IsIdentifier name) : ∀ c ∈ name.toList, isNameChar c = true :=
  fun c hc => isNameChar_of_isIdentifierChar (h.chars c hc)

theorem isWord (h : IsIdentifier name) : IsWord name.toList :=
  isWord_of_isNameChar h.isNameChar

end IsIdentifier

namespace IsModulePath

variable {path : String}

/-- A path holds dots and the characters of names. -/
theorem eq_or_isIdentifierChar (h : IsModulePath path) {c : Char} (hc : c ∈ path.toList) :
    c = '.' ∨ isIdentifierChar c = true := by
  have hjoined : ['.'].intercalate (path.toList.splitOn '.') = path.toList :=
    List.intercalate_splitOn '.'
  rw [← hjoined] at hc
  rcases Text.mem_intercalate_iff.1 hc with ⟨name, hname, hc⟩ | ⟨rfl, -⟩
  · exact .inr ((h name hname).chars c (by simpa using hc))
  · exact .inl rfl

theorem isNameChar (h : IsModulePath path) : ∀ c ∈ path.toList, isNameChar c = true := by
  intro c hc
  rcases h.eq_or_isIdentifierChar hc with rfl | hc
  · decide
  · exact isNameChar_of_isIdentifierChar hc

theorem isWord (h : IsModulePath path) : IsWord path.toList :=
  isWord_of_isNameChar h.isNameChar

/-- A path is not empty, and it starts with a name. -/
theorem exists_cons (h : IsModulePath path) : ∃ c cs, path.toList = c :: cs ∧ c ≠ '.' := by
  cases hpath : path.toList with
  | nil =>
    have hempty := h [] (by simp [hpath])
    exact absurd rfl hempty.ne_nil
  | cons c cs =>
    refine ⟨c, cs, rfl, ?_⟩
    rintro rfl
    have hempty := h [] (by simp [hpath, List.splitOn_cons_eq_if_modifyHead])
    exact absurd rfl hempty.ne_nil

end IsModulePath

/-! ### Words and blanks -/

/-- A text that a word may end before: it is empty, or starts with a blank. -/
def EndsWord (rest : List Char) : Prop :=
  ∀ c ∈ rest.head?, Text.isBlank c = true

instance (rest : List Char) : Decidable (EndsWord rest) :=
  decidable_of_iff (rest.head?.all Text.isBlank = true) (by cases rest <;> simp [EndsWord])

theorem endsWord_nil : EndsWord [] := by
  simp [EndsWord]

theorem isBlank_space : Text.isBlank ' ' = true := by
  decide

theorem endsWord_cons {b : Char} {rest : List Char} (hb : Text.isBlank b = true) :
    EndsWord (b :: rest) := by
  simp [EndsWord, hb]

theorem endsWord_space (rest : List Char) : EndsWord (' ' :: rest) :=
  endsWord_cons isBlank_space

theorem after?_eq_some_iff {k : String} {s t : List Char} :
    after? k s = some t ↔ s = k.toList ++ t := by
  rw [after?]
  split
  · rename_i hprefix
    obtain ⟨t', rfl⟩ := List.isPrefixOf_iff_prefix.1 hprefix
    rw [← String.length_toList, List.drop_left, Option.some.injEq, List.append_cancel_left_eq]
  · rename_i hprefix
    refine ⟨fun h => (by cases h), fun h => absurd ?_ hprefix⟩
    exact List.isPrefixOf_iff_prefix.2 ⟨t, h.symm⟩

theorem afterBlanks?_eq_none {s : List Char} (h : ∀ c ∈ s.head?, Text.isBlank c = false) :
    afterBlanks? s = none := by
  cases s with
  | nil => rfl
  | cons c s => simp [afterBlanks?, h c rfl]

/-- A word behind one blank is what follows the blanks. -/
theorem afterBlanks?_cons {b : Char} {w rest : List Char} (hb : Text.isBlank b = true)
    (hw : IsWord w) (hne : w ≠ []) : afterBlanks? (b :: (w ++ rest)) = some (w ++ rest) := by
  obtain ⟨c, w, rfl⟩ := List.exists_cons_of_ne_nil hne
  have hc := hw c List.mem_cons_self
  simp [afterBlanks?, hb, hc]

/-- **A keyword with a blank behind it is all of a word,** where a word is made of characters of a
class and ends before one that is not of the class. -/
theorem bind_after?_afterBlanks?_of_class {p : Char → Bool}
    (hp : ∀ c, p c = true → Text.isBlank c = false) {k : String} {w rest : List Char}
    (hk : ∀ c ∈ k.toList, p c = true) (hw : ∀ c ∈ w, p c = true)
    (hrest : ∀ c ∈ rest.head?, p c = false) :
    (after? k (w ++ rest)).bind afterBlanks? =
      if w = k.toList then afterBlanks? rest else none := by
  split
  · rename_i hsame
    rw [after?_eq_some_iff.2 (by rw [hsame]), Option.bind_some]
  · rename_i hother
    cases hafter : after? k (w ++ rest) with
    | none => rfl
    | some t =>
      rw [Option.bind_some]
      rcases List.append_eq_append_iff.1 (after?_eq_some_iff.1 hafter) with
        ⟨a, hkw, hrest'⟩ | ⟨a, hwk, ht⟩
      · -- The keyword goes on where the word ends.
        cases a with
        | nil => exact absurd (by simpa using hkw.symm) hother
        | cons c a =>
          have hother := hrest c (by simp [hrest'])
          rw [hk c (by simp [hkw])] at hother
          cases hother
      · -- The word goes on where the keyword ends.
        cases a with
        | nil => exact absurd (by simpa using hwk) hother
        | cons c a =>
          refine afterBlanks?_eq_none fun d hd => ?_
          obtain rfl : c = d := by simpa [ht] using hd
          exact hp c (hw c (by simp [hwk]))

theorem bind_after?_afterBlanks? {k : String} {w rest : List Char} (hk : IsWord k.toList)
    (hw : IsWord w) (hrest : EndsWord rest) :
    (after? k (w ++ rest)).bind afterBlanks? =
      if w = k.toList then afterBlanks? rest else none := by
  refine bind_after?_afterBlanks?_of_class (p := (!Text.isBlank ·)) ?_ ?_ ?_ ?_
  · exact fun c hc => by simpa using hc
  · exact fun c hc => by simpa using hk c hc
  · exact fun c hc => by simpa using hw c hc
  · exact fun c hc => by simpa using hrest c hc

theorem run?_append {p : Char → Bool} {w rest : List Char} (hne : w ≠ []) (hw : ∀ c ∈ w, p c)
    (hrest : ∀ c ∈ rest.head?, p c = false) : run? p (w ++ rest) = some (w, rest) := by
  have htake : rest.takeWhile p = [] := by
    cases rest with
    | nil => rfl
    | cons c rest => simp [hrest c rfl]
  have hdrop : rest.dropWhile p = rest := by
    cases rest with
    | nil => rfl
    | cons c rest => simp [hrest c rfl]
  rw [run?, List.span_eq_takeWhile_dropWhile, List.takeWhile_append_of_pos hw,
    List.dropWhile_append_of_pos hw, htake, hdrop]
  simp [hne]

/-! ### Searching word by word -/

section Search

variable {α : Type} {f : List Char → Option α} {g : List Char → Option α} {k : String}
  {b : Char} {w rest : List Char}

theorem search_eq_some {s : List Char} {a : α} (h : f s = some a) : search f s = some a := by
  cases s <;> simp [search, h]

theorem search_cons_of_none {c : Char} {s : List Char} (h : f (c :: s) = none) :
    search f (c :: s) = search f s := by
  rw [search, h]

/-- A search passes over a word when nothing is found from a place in it. -/
theorem search_append (h : ∀ t, t <:+ w → t ≠ [] → f (t ++ rest) = none) :
    search f (w ++ rest) = search f rest := by
  induction w with
  | nil => rfl
  | cons c w ih =>
    have hhere : f (c :: w ++ rest) = none := h _ List.suffix_rfl (List.cons_ne_nil c w)
    rw [List.cons_append] at hhere ⊢
    rw [search_cons_of_none hhere]
    exact ih fun t ht => h t (ht.trans (List.suffix_cons c w))

/-- What stands behind a blank and a keyword, with blanks after it. -/
def behindKeyword? (k : String) (g : List Char → Option α) (s : List Char) : Option α := do
  let s ← afterBlank? s
  let s ← after? k s
  let s ← afterBlanks? s
  g s

theorem behindKeyword?_cons (hk : IsWord k.toList) (hb : Text.isBlank b = true) (hw : IsWord w)
    (hrest : EndsWord rest) :
    behindKeyword? k g (b :: (w ++ rest)) =
      if w = k.toList then (afterBlanks? rest).bind g else none := by
  have hbehind : behindKeyword? k g (b :: (w ++ rest)) =
      ((after? k (w ++ rest)).bind afterBlanks?).bind g := by
    simp [behindKeyword?, afterBlank?, hb, Option.bind_assoc]
  rw [hbehind, bind_after?_afterBlanks? hk hw hrest]
  split <;> rfl

theorem search_behindKeyword?_append (hw : IsWord w) :
    search (behindKeyword? k g) (w ++ rest) = search (behindKeyword? k g) rest := by
  refine search_append fun t ht hne => ?_
  obtain ⟨c, t, rfl⟩ := List.exists_cons_of_ne_nil hne
  have hc := hw c (ht.subset List.mem_cons_self)
  simp [behindKeyword?, afterBlank?, hc]

/-- **The search for a keyword passes over every other word.** -/
theorem search_behindKeyword?_cons (hk : IsWord k.toList) (hb : Text.isBlank b = true)
    (hw : IsWord w) (hrest : EndsWord rest) (hother : w ≠ k.toList) :
    search (behindKeyword? k g) (b :: (w ++ rest)) = search (behindKeyword? k g) rest := by
  have hhere : behindKeyword? k g (b :: (w ++ rest)) = none := by
    rw [behindKeyword?_cons hk hb hw hrest, if_neg hother]
  rw [search_cons_of_none hhere, search_behindKeyword?_append hw]

end Search

theorem asNameHere?_eq :
    asNameHere? = behindKeyword? "as" fun s => (run? isNameChar s).map (·.1) := by
  funext s
  simp only [asNameHere?, behindKeyword?, Option.map_eq_bind]
  rfl

theorem namesHere?_eq : namesHere? = behindKeyword? "import" some := by
  funext s
  simp [namesHere?, behindKeyword?]

/-- What stands behind a `from` and blanks: a module, blanks and `import`. -/
def moduleBehindFrom? (s : List Char) : Option (List Char) := do
  let (path, s) ← run? isPathChar s
  let s ← afterBlanks? s
  let _ ← after? "import" s
  return dropDots path

theorem fromModuleHere?_append {w rest : List Char} (hw : IsWord w) (hrest : EndsWord rest) :
    fromModuleHere? (w ++ rest) =
      if w = "from".toList then (afterBlanks? rest).bind moduleBehindFrom? else none := by
  have hbehind : fromModuleHere? (w ++ rest) =
      ((after? "from" (w ++ rest)).bind afterBlanks?).bind moduleBehindFrom? := by
    rw [Option.bind_assoc]
    rfl
  rw [hbehind, bind_after?_afterBlanks? (by decide) hw hrest]
  split <;> rfl

/-- **A `from` is found at the end of any word:** the search passes over a word that does not end
with it, and over one after which no module and `import` stand. -/
theorem search_fromModuleHere?_append {w rest : List Char} (hw : IsWord w) (hrest : EndsWord rest)
    (hbehind : "from".toList <:+ w → (afterBlanks? rest).bind moduleBehindFrom? = none) :
    search fromModuleHere? (w ++ rest) = search fromModuleHere? rest := by
  refine search_append fun t ht _ => ?_
  rw [fromModuleHere?_append (fun c hc => hw c (ht.subset hc)) hrest]
  split
  · rename_i hfrom
    exact hbehind (hfrom ▸ ht)
  · rfl

theorem search_fromModuleHere?_cons {b : Char} {s : List Char} (hb : Text.isBlank b = true) :
    search fromModuleHere? (b :: s) = search fromModuleHere? s := by
  have hhere : fromModuleHere? ([] ++ b :: s) = none := by
    rw [fromModuleHere?_append (by decide) (endsWord_cons hb), if_neg (by decide)]
  exact search_cons_of_none hhere

/-- The first word that ends with `from` gives the module, when there is one behind it. -/
theorem search_fromModuleHere?_eq_some {v rest module : List Char} (hv : IsWord v)
    (hrest : EndsWord rest) (hbehind : (afterBlanks? rest).bind moduleBehindFrom? = some module) :
    search fromModuleHere? (v ++ ("from".toList ++ rest)) = some module := by
  have hfrom : IsWord "from".toList := by decide
  rw [search_append]
  · refine search_eq_some ?_
    rw [fromModuleHere?_append hfrom hrest, if_pos rfl, hbehind]
  · -- From a place before it, more than the keyword is left of the word.
    intro t ht hne
    have hword : IsWord (t ++ "from".toList) := fun c hc =>
      (List.mem_append.1 hc).elim (fun hc => hv c (ht.subset hc)) (hfrom c)
    rw [← List.append_assoc, fromModuleHere?_append hword hrest, if_neg]
    simpa using hne

/-! ### A module and a name -/

section Plain

variable {path name : String}

theorem IsModulePath.ne_of_not_isModulePath (h : IsModulePath path) {word : String}
    (hword : ¬ IsModulePath word) : path.toList ≠ word.toList := by
  intro hsame
  exact hword (String.toList_inj.1 hsame ▸ h)

theorem toList_plain : ("import " ++ path).toList =
    "import".toList ++ ' ' :: (path.toList ++ []) := by
  simp

theorem toList_aliased : ("import " ++ path ++ " as " ++ name).toList =
    "import".toList ++
      ' ' :: (path.toList ++ ' ' :: ("as".toList ++ ' ' :: (name.toList ++ []))) := by
  simp

/-- With ` as ` between them, the end of a module and the start of a name spell `from as import`. -/
def SpellsFromImport (path name : String) : Prop :=
  "from".toList <:+ path.toList ∧ "import".toList <+: name.toList

instance (path name : String) : Decidable (SpellsFromImport path name) :=
  inferInstanceAs (Decidable (_ ∧ _))

/-- The module of an `import` at the start is all of the path behind it. -/
theorem search_importModuleHere? (hpath : IsModulePath path) {rest : List Char}
    (hrest : EndsWord rest) :
    search importModuleHere? ("import".toList ++ ' ' :: (path.toList ++ rest)) =
      some path.toList := by
  obtain ⟨c, cs, hcons, hdot⟩ := hpath.exists_cons
  have hblanks : afterBlanks? (' ' :: (path.toList ++ rest)) = some (path.toList ++ rest) :=
    afterBlanks?_cons isBlank_space hpath.isWord (by simp [hcons])
  have hrun : run? isPathChar (path.toList ++ rest) = some (path.toList, rest) := by
    refine run?_append (by simp [hcons])
      (fun c hc => isPathChar_of_isNameChar (hpath.isNameChar c hc)) fun c hc => ?_
    simp [isPathChar, hrest c hc]
  have hdots : dropDots path.toList = path.toList := by
    rw [hcons, dropDots]
    rintro d ds ⟨rfl, -⟩
    exact hdot rfl
  refine search_eq_some ?_
  simp only [importModuleHere?, Option.bind_eq_bind]
  rw [after?_eq_some_iff.2 rfl, Option.bind_some, hblanks, Option.bind_some, hrun]
  simp [hdots]

/-- Between a `from` and a name stands the module `as`, if the name starts with `import`. -/
theorem moduleBehindFrom?_as (hname : IsIdentifier name) :
    moduleBehindFrom? ("as".toList ++ ' ' :: (name.toList ++ [])) =
      if "import".toList <+: name.toList then some "as".toList else none := by
  have hrun : run? isPathChar ("as".toList ++ ' ' :: (name.toList ++ [])) =
      some ("as".toList, ' ' :: (name.toList ++ [])) :=
    run?_append (by decide) (List.all_eq_true.1 (by decide))
      (by simp [isPathChar, isBlank_space])
  have hblanks : afterBlanks? (' ' :: (name.toList ++ [])) = some (name.toList ++ []) :=
    afterBlanks?_cons isBlank_space hname.isWord hname.ne_nil
  simp only [moduleBehindFrom?, Option.bind_eq_bind]
  rw [hrun, Option.bind_some, hblanks, Option.bind_some, List.append_nil]
  split
  · rename_i hprefix
    obtain ⟨t, ht⟩ := hprefix
    rw [after?_eq_some_iff.2 ht.symm]
    rfl
  · rename_i hprefix
    cases hafter : after? "import" name.toList with
    | none => rfl
    | some t => exact absurd ⟨t, (after?_eq_some_iff.1 hafter).symm⟩ hprefix

/-- The module of a `from` is found in a statement only behind the end of the path. -/
theorem search_fromModuleHere?_aliased (hpath : IsModulePath path) (hname : IsIdentifier name) :
    search fromModuleHere? ("import " ++ path ++ " as " ++ name).toList =
      if SpellsFromImport path name then some "as".toList else none := by
  have hbehind : (afterBlanks? (' ' :: ("as".toList ++ ' ' :: (name.toList ++ [])))).bind
      moduleBehindFrom? = if "import".toList <+: name.toList then some "as".toList else none := by
    rw [afterBlanks?_cons isBlank_space (by decide) (by decide), Option.bind_some,
      moduleBehindFrom?_as hname]
  rw [toList_aliased, search_fromModuleHere?_append (by decide) (endsWord_space _)
    (fun hfrom => absurd hfrom (by decide)), search_fromModuleHere?_cons isBlank_space]
  by_cases hspells : SpellsFromImport path name
  · rw [if_pos hspells]
    obtain ⟨⟨v, hv⟩, himport⟩ := hspells
    rw [if_pos himport] at hbehind
    rw [← hv, List.append_assoc]
    exact search_fromModuleHere?_eq_some
      (fun c hc => hpath.isWord c (hv ▸ List.mem_append_left _ hc)) (endsWord_space _) hbehind
  · rw [if_neg hspells, search_fromModuleHere?_append hpath.isWord (endsWord_space _),
      search_fromModuleHere?_cons isBlank_space,
      search_fromModuleHere?_append (by decide) (endsWord_space _),
      search_fromModuleHere?_cons isBlank_space,
      search_fromModuleHere?_append hname.isWord endsWord_nil]
    · rfl
    · exact fun _ => rfl
    · exact fun hfrom => absurd hfrom (by decide)
    · intro hfrom
      rw [hbehind, if_neg fun himport => hspells ⟨hfrom, himport⟩]

theorem search_fromModuleHere?_plain (hpath : IsModulePath path) :
    search fromModuleHere? ("import " ++ path).toList = none := by
  rw [toList_plain, search_fromModuleHere?_append (by decide) (endsWord_space _)
    (fun hfrom => absurd hfrom (by decide)), search_fromModuleHere?_cons isBlank_space,
    search_fromModuleHere?_append hpath.isWord endsWord_nil fun _ => rfl]
  rfl

theorem search_asNameHere?_aliased (hpath : IsModulePath path) (hname : IsIdentifier name) :
    search asNameHere? ("import " ++ path ++ " as " ++ name).toList = some name.toList := by
  have hkeyword : IsWord "as".toList := by decide
  have hother : path.toList ≠ "as".toList := hpath.ne_of_not_isModulePath (by decide)
  have hrun : run? isNameChar (name.toList ++ []) = some (name.toList, []) :=
    run?_append hname.ne_nil hname.isNameChar (by simp)
  rw [toList_aliased, asNameHere?_eq, search_behindKeyword?_append (by decide),
    search_behindKeyword?_cons hkeyword isBlank_space hpath.isWord (endsWord_space _) hother]
  refine search_eq_some ?_
  rw [behindKeyword?_cons hkeyword isBlank_space hkeyword (endsWord_space _), if_pos rfl,
    afterBlanks?_cons isBlank_space hname.isWord hname.ne_nil, Option.bind_some, hrun]
  rfl

theorem search_asNameHere?_plain (hpath : IsModulePath path) :
    search asNameHere? ("import " ++ path).toList = none := by
  have hother : path.toList ≠ "as".toList := hpath.ne_of_not_isModulePath (by decide)
  rw [toList_plain, asNameHere?_eq, search_behindKeyword?_append (by decide),
    search_behindKeyword?_cons (by decide) isBlank_space hpath.isWord endsWord_nil hother]
  rfl

/-- No list of names stands in a statement that binds a module to a name. -/
theorem search_namesHere?_aliased (hpath : IsModulePath path) (hname : IsIdentifier name) :
    search namesHere? ("import " ++ path ++ " as " ++ name).toList = none := by
  have hkeyword : IsWord "import".toList := by decide
  have hother : path.toList ≠ "import".toList := hpath.ne_of_not_isModulePath (by decide)
  have hdiffers : name.toList ≠ "import".toList := fun hsame =>
    hname.not_keyword (String.toList_inj.1 hsame ▸ by decide)
  rw [toList_aliased, namesHere?_eq, search_behindKeyword?_append hkeyword,
    search_behindKeyword?_cons hkeyword isBlank_space hpath.isWord (endsWord_space _) hother,
    search_behindKeyword?_cons hkeyword isBlank_space (by decide) (endsWord_space _) (by decide),
    search_behindKeyword?_cons hkeyword isBlank_space hname.isWord endsWord_nil hdiffers]
  rfl

theorem parse?_of_module {statement module : String} {span : Span}
    (hmodule : moduleAndNames? statement.toList = some (module.toList, [])) :
    parse? statement span =
      some (unresolved module
        (String.ofList ((search asNameHere? statement.toList).getD module.toList)) statement
        span) := by
  simp [parse?, hmodule, unresolved]

theorem parse?_plain (hpath : IsModulePath path) (span : Span) :
    parse? ("import " ++ path) span = some (unresolved path path ("import " ++ path) span) := by
  have hmodule : moduleAndNames? ("import " ++ path).toList = some (path.toList, []) := by
    rw [moduleAndNames?, search_fromModuleHere?_plain hpath, toList_plain,
      search_importModuleHere? hpath endsWord_nil]
    rfl
  rw [parse?_of_module hmodule, search_asNameHere?_plain hpath, Option.getD_none,
    String.ofList_toList]

/-- A statement that binds a module to a name has one of two readings. -/
theorem parse?_aliased (hpath : IsModulePath path) (hname : IsIdentifier name) (span : Span) :
    parse? ("import " ++ path ++ " as " ++ name) span =
      some (unresolved (if SpellsFromImport path name then "as" else path) name
        ("import " ++ path ++ " as " ++ name) span) := by
  have hmodule : moduleAndNames? ("import " ++ path ++ " as " ++ name).toList =
      some ((if SpellsFromImport path name then "as" else path).toList, []) := by
    rw [moduleAndNames?, search_fromModuleHere?_aliased hpath hname]
    by_cases hspells : SpellsFromImport path name
    · rw [if_pos hspells, if_pos hspells, search_namesHere?_aliased hpath hname]
      rfl
    · rw [if_neg hspells, if_neg hspells, toList_aliased,
        search_importModuleHere? hpath (endsWord_space _)]
      rfl
  rw [parse?_of_module hmodule, search_asNameHere?_aliased hpath hname, Option.getD_some,
    String.ofList_toList]

/-- **When a module and a name are read back.** A module that is imported under no other name always
is. One that is imported under a name is read back unless it ends with `from` and the name starts
with `import`; then the word `as` between them is read as the module. The name is read back in any
case, and no names are listed. -/
theorem parse?_plain_iff (hpath : IsModulePath path) (hname : IsIdentifier name) (span : Span) :
    let plain := "import " ++ path
    let aliased := "import " ++ path ++ " as " ++ name
    parse? plain span = some (unresolved path path plain span) ∧
      (parse? aliased span = some (unresolved path name aliased span) ↔
        ¬ SpellsFromImport path name) ∧
      (SpellsFromImport path name →
        parse? aliased span = some (unresolved "as" name aliased span)) := by
  intro plain aliased
  have haliased : parse? aliased span =
      some (unresolved (if SpellsFromImport path name then "as" else path) name aliased span) :=
    parse?_aliased hpath hname span
  refine ⟨parse?_plain hpath span, ⟨?_, ?_⟩, ?_⟩
  · intro hread hspells
    rw [haliased, if_pos hspells] at hread
    have hmodule : "as" = path := congrArg Import.module (Option.some.inj hread)
    exact absurd (hmodule ▸ hpath) (by decide)
  · intro hfree
    rw [haliased, if_neg hfree]
  · intro hspells
    rw [haliased, if_pos hspells]

/-- A module that ends with `from` is read back when the name does not start with `import`. -/
theorem parse?_plain_of_other_name :
    let aliased := "import pkg.xfrom as x"
    IsModulePath "pkg.xfrom" ∧ IsIdentifier "x" ∧
      ¬ SpellsFromImport "pkg.xfrom" "x" ∧
      parse? aliased ⟨0, 0, 0, 21⟩ =
        some (unresolved "pkg.xfrom" "x" aliased ⟨0, 0, 0, 21⟩) := by
  have hpath : IsModulePath "pkg.xfrom" := by decide
  have hname : IsIdentifier "x" := by decide
  have hfree : ¬ SpellsFromImport "pkg.xfrom" "x" := by decide
  exact ⟨hpath, hname, hfree, (parse?_plain_iff hpath hname ⟨0, 0, 0, 21⟩).2.1.2 hfree⟩

/-- Not every module is read back: here `from as import` is found in the statement. -/
theorem parse?_aliased_ne_of_from_import :
    let aliased := "import xfrom as importer"
    IsModulePath "xfrom" ∧ IsIdentifier "importer" ∧
      parse? aliased ⟨0, 0, 0, 0⟩ = some (unresolved "as" "importer" aliased ⟨0, 0, 0, 0⟩) ∧
      parse? aliased ⟨0, 0, 0, 0⟩ ≠
        some (unresolved "xfrom" "importer" aliased ⟨0, 0, 0, 0⟩) := by
  decide +kernel

end Plain

end Import
end CompletionPrompt

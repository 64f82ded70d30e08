import Mathlib.Data.List.Infix
import CompletionPrompt.Declarations
import CompletionPrompt.Proofs.Import.Search
import CompletionPrompt.Proofs.Text.Place

/-!
# Where declared names stand

A name that is listed as a function stands at the start of a row behind `def`, with an opening
bracket behind it (`exists_of_mem_functionsFrom`); one that is listed as a class stands on a row
behind `class` (`exists_of_mem_classesFrom`). Blanks may stand between the keyword and the name, but
need not. So a listed name is declared, or it is the end of a longer word that starts a row
(`listed_names_declared_or_fused`); and a class may be the beginning of a longer name.
-/

namespace CompletionPrompt
namespace Declarations

/-- One or more characters of a declared name. -/
def IsName (name : List Char) : Prop :=
  name ≠ [] ∧ ∀ c ∈ name, isNameChar c = true

instance (name : List Char) : Decidable (IsName name) :=
  decidable_of_iff (name ≠ [] ∧ name.all isNameChar = true) (and_congr_right' List.all_eq_true)

theorem not_isBlank_of_isNameChar {c : Char} (h : isNameChar c = true) :
    Text.isBlank c = false := by
  refine Import.not_isBlank_of_isIdentifierChar ?_
  simp only [isNameChar, Char.isAlphanum, Bool.or_eq_true, decide_eq_true_eq] at h
  rcases h with (halpha | hdigit) | rfl
  · simp [Import.isIdentifierChar, Import.isIdentifierStart, halpha]
  · simp [Import.isIdentifierChar, hdigit]
  · decide

/-- A name behind a keyword, with blanks or none between them. -/
theorem nameAfter?_eq_some_iff {word : String} {s name rest : List Char} :
    nameAfter? word s = some (name, rest) ↔
      ∃ gap, s = word.toList ++ (gap ++ (name ++ rest)) ∧ (∀ c ∈ gap, Text.isBlank c = true) ∧
        IsName name ∧ ∀ c ∈ rest.head?, isNameChar c = false := by
  simp only [nameAfter?, Option.bind_eq_some_iff, Import.after?_eq_some_iff,
    Import.run?_eq_some_iff]
  constructor
  · rintro ⟨t, rfl, ht, hne, hname, hrest⟩
    refine ⟨t.takeWhile Text.isBlank, ?_, fun c hc => List.mem_takeWhile_imp hc, ⟨hne, hname⟩,
      hrest⟩
    rw [← ht, List.takeWhile_append_dropWhile]
  · rintro ⟨gap, rfl, hgap, hname, hrest⟩
    refine ⟨_, rfl, Import.dropWhile_append_of_head? hgap fun c hc => ?_, hname.1, hname.2, hrest⟩
    obtain ⟨d, name, rfl⟩ := List.exists_cons_of_ne_nil hname.1
    obtain rfl : d = c := by simpa using hc
    exact not_isBlank_of_isNameChar (hname.2 d List.mem_cons_self)

/-- No name goes on in front of an opening bracket with blanks before it. -/
theorem not_isNameChar_of_bracket {behind : List Char}
    (hbehind : ∀ c ∈ behind, Text.isBlank c = true) (rest : List Char) :
    ∀ c ∈ (behind ++ '(' :: rest).head?, isNameChar c = false := by
  intro c hc
  cases behind with
  | nil =>
    obtain rfl : '(' = c := by simpa using hc
    decide
  | cons b behind =>
    obtain rfl : b = c := by simpa using hc
    refine Bool.eq_false_iff.2 fun hc => ?_
    have hblank := hbehind b List.mem_cons_self
    rw [not_isBlank_of_isNameChar hc] at hblank
    cases hblank

/-- Blanks in front of an opening bracket are dropped. -/
theorem dropWhile_append_bracket {behind : List Char}
    (hbehind : ∀ c ∈ behind, Text.isBlank c = true) (rest : List Char) :
    (behind ++ '(' :: rest).dropWhile Text.isBlank = '(' :: rest :=
  Import.dropWhile_append_of_head? hbehind (Import.forall_mem_head?_cons (by decide))

/-- A function is `def`, blanks or none, a name, blanks or none, and an opening bracket. -/
theorem functionHere?_eq_some_iff {s name rest : List Char} :
    functionHere? s = some (name, rest) ↔
      ∃ gap behind, s = "def".toList ++ (gap ++ (name ++ (behind ++ '(' :: rest))) ∧
        (∀ c ∈ gap, Text.isBlank c = true) ∧ IsName name ∧
        ∀ c ∈ behind, Text.isBlank c = true := by
  constructor
  · intro h
    simp only [functionHere?] at h
    split at h
    · cases h
    · rename_i found t hfound
      split at h
      · rename_i hbracket
        obtain ⟨rfl, rfl⟩ := Prod.mk.inj (Option.some.inj h)
        obtain ⟨gap, rfl, hgap, hname, -⟩ := nameAfter?_eq_some_iff.1 hfound
        refine ⟨gap, t.takeWhile Text.isBlank, ?_, hgap, hname,
          fun c hc => List.mem_takeWhile_imp hc⟩
        rw [← hbracket, List.takeWhile_append_dropWhile]
      · cases h
  · rintro ⟨gap, behind, rfl, hgap, hname, hbehind⟩
    have hfound : nameAfter? "def" ("def".toList ++ (gap ++ (name ++ (behind ++ '(' :: rest)))) =
        some (name, behind ++ '(' :: rest) :=
      nameAfter?_eq_some_iff.2 ⟨gap, rfl, hgap, hname, not_isNameChar_of_bracket hbehind rest⟩
    simp only [functionHere?, hfound, dropWhile_append_bracket hbehind]

/-! ### The places of listed names -/

/-- The source has the function at the start of a row, with `gap` between the keyword and the
name. -/
def HasFunction (source gap name : List Char) : Prop :=
  ∃ before behind after,
    source = before ++ ("def".toList ++ (gap ++ (name ++ (behind ++ '(' :: after)))) ∧
      Text.lastRow before = [] ∧ (∀ c ∈ gap, Text.isBlank c = true) ∧ IsName name ∧
      ∀ c ∈ behind, Text.isBlank c = true

/-- The source has the class on a row, with `gap` between the keyword and the name and `behind` on
the row behind the name. -/
def HasClass (source gap name behind : List Char) : Prop :=
  "class".toList ++ (gap ++ (name ++ behind)) ∈ Text.rows source ∧
    (∀ c ∈ gap, Text.isBlank c = true) ∧ IsName name ∧ ∀ c ∈ behind.head?, isNameChar c = false

theorem exists_of_mem_functionsFrom {skip : Nat} {fresh : Bool} {s name : List Char}
    (h : name ∈ functionsFrom skip fresh s) :
    ∃ before here rest, s = before ++ here ∧
      (before = [] ∧ fresh = true ∨ before.getLast? = some '\n') ∧
      functionHere? here = some (name, rest) := by
  -- A place after the first is fresh when the character before it is a line feed.
  have hstep : ∀ (c : Char) (before : List Char),
      before = [] ∧ decide (c = '\n') = true ∨ before.getLast? = some '\n' →
        (c :: before).getLast? = some '\n' := by
    rintro c before (⟨rfl, hc⟩ | hlast)
    · simpa using hc
    · simp [List.getLast?_cons, hlast]
  fun_induction functionsFrom skip fresh s with
  | case1 => simp at h
  | case2 skip _ c s ih =>
    obtain ⟨before, here, rest, rfl, hfresh, hhere⟩ := ih h
    exact ⟨c :: before, here, rest, rfl, .inr (hstep c before hfresh), hhere⟩
  | case3 fresh c s found rest hfound ih =>
    split at hfound
    · rename_i hfresh
      rcases List.mem_cons.1 h with rfl | h
      · exact ⟨[], c :: s, rest, rfl, .inl ⟨rfl, hfresh⟩, hfound⟩
      · obtain ⟨before, here, rest, rfl, hlast | hlast, hhere⟩ := ih h
        · exact absurd hlast.2 (by simp)
        · exact ⟨c :: before, here, rest, rfl, .inr (hstep c before (.inr hlast)), hhere⟩
    · cases hfound
  | case4 fresh c s _ ih =>
    obtain ⟨before, here, rest, rfl, hfresh, hhere⟩ := ih h
    exact ⟨c :: before, here, rest, rfl, .inr (hstep c before hfresh), hhere⟩

/-- A class stands behind `class` on a row, and its methods in the rows below. -/
theorem exists_of_mem_classesFrom {indentation : List Char} {includePrivate : Bool}
    {known rows : List (List Char)} {e : List Char × List (List Char)}
    (h : e ∈ classesFrom indentation includePrivate known rows) :
    ∃ row below rest, row :: below <:+ rows ∧ nameAfter? "class" row = some (e.1, rest) ∧
      e.2 = methodsIn indentation includePrivate below := by
  fun_induction classesFrom indentation includePrivate known rows with
  | case1 => simp at h
  | case2 _ _ _ _ _ _ _ ih =>
    obtain ⟨row, below, rest, hrow, hclass⟩ := ih h
    exact ⟨row, below, rest, hrow.trans (List.suffix_cons _ _), hclass⟩
  | case3 _ row below _ rest hname _ ih =>
    rcases List.mem_cons.1 h with rfl | h
    · exact ⟨row, below, rest, List.suffix_rfl, hname, rfl⟩
    · obtain ⟨row, below, rest, hrow, hclass⟩ := ih h
      exact ⟨row, below, rest, hrow.trans (List.suffix_cons _ _), hclass⟩
  | case4 _ _ _ _ ih =>
    obtain ⟨row, below, rest, hrow, hclass⟩ := ih h
    exact ⟨row, below, rest, hrow.trans (List.suffix_cons _ _), hclass⟩

/-- **A listed function stands at the start of a row,** between `def` and an opening bracket. -/
theorem exists_hasFunction {indentation source name : String} {includePrivate : Bool}
    (h : name ∈ (ofSource indentation includePrivate source).functions) :
    ∃ gap, HasFunction source.toList gap name.toList := by
  obtain ⟨chars, hchars, rfl⟩ := List.mem_map.1 h
  obtain ⟨before, here, rest, hsource, hrow, hhere⟩ := exists_of_mem_functionsFrom hchars
  obtain ⟨gap, behind, rfl, hgap, hname, hbehind⟩ := functionHere?_eq_some_iff.1 hhere
  rw [String.toList_ofList]
  refine ⟨gap, before, behind, rest, hsource, Text.lastRow_eq_nil_iff.2 ?_, hgap, hname, hbehind⟩
  exact hrow.imp_left And.left

/-- **A listed class stands on a row behind `class`.** -/
theorem exists_hasClass {indentation source : String} {includePrivate : Bool}
    {e : String × List String}
    (h : e ∈ (ofSource indentation includePrivate source).classes) :
    ∃ gap behind, HasClass source.toList gap e.1.toList behind := by
  obtain ⟨⟨chars, methods⟩, hchars, rfl⟩ := List.mem_map.1 h
  obtain ⟨row, below, rest, hrow, hhere, -⟩ := exists_of_mem_classesFrom hchars
  obtain ⟨gap, rfl, hgap, hname, hrest⟩ := nameAfter?_eq_some_iff.1 hhere
  rw [String.toList_ofList]
  exact ⟨gap, rest, hrow.subset List.mem_cons_self, hgap, hname, hrest⟩

/-! ### Declared names -/

/-- The source declares the function: at the start of a row stand `def`, one or more blanks, the
name, blanks or none, and an opening bracket. -/
def DeclaresFunction (source name : List Char) : Prop :=
  ∃ gap, gap ≠ [] ∧ HasFunction source gap name

/-- The source declares the class: at the start of a row stand `class`, one or more blanks and the
name, which does not go on behind them. -/
def DeclaresClass (source name : List Char) : Prop :=
  ∃ gap behind, gap ≠ [] ∧ (∀ c ∈ behind.head?, Import.isIdentifierChar c = false) ∧
    HasClass source gap name behind

/-- **A listed name is declared, or it is part of a longer word.** A function is declared unless it
is the end of a word that starts with `def` at the start of a row. A class is declared unless it is
the end of a word that starts with `class` at the start of a row, or the part of a name before its
first character outside ASCII. -/
theorem listed_names_declared_or_fused (indentation source : String) (includePrivate : Bool) :
    let d := ofSource indentation includePrivate source
    (∀ name ∈ d.functions,
      DeclaresFunction source.toList name.toList ∨ HasFunction source.toList [] name.toList) ∧
    ∀ e ∈ d.classes,
      DeclaresClass source.toList e.1.toList ∨
      (∃ behind, HasClass source.toList [] e.1.toList behind) ∨
      ∃ gap c behind, HasClass source.toList gap e.1.toList (c :: behind) ∧
        128 ≤ c.toNat ∧ Text.isBlank c = false := by
  intro d
  constructor
  · intro name hname
    obtain ⟨gap, hgap⟩ := exists_hasFunction hname
    by_cases hempty : gap = []
    · exact .inr (hempty ▸ hgap)
    · exact .inl ⟨gap, hempty, hgap⟩
  · intro e he
    obtain ⟨gap, behind, hclass⟩ := exists_hasClass he
    by_cases hempty : gap = []
    · exact .inr (.inl ⟨behind, hempty ▸ hclass⟩)
    by_cases hends : ∀ c ∈ behind.head?, Import.isIdentifierChar c = false
    · exact .inl ⟨gap, behind, hempty, hends, hclass⟩
    · -- What goes on behind the longest name of ASCII characters is not ASCII.
      right; right
      cases behind with
      | nil => simp at hends
      | cons c behind =>
        have hc : isNameChar c = false := hclass.2.2.2 c rfl
        refine ⟨gap, c, behind, hclass, ?_⟩
        simp only [isNameChar, Char.isAlphanum, Bool.or_eq_false_iff, decide_eq_false_iff_not] at hc
        simpa [Import.isIdentifierChar, Import.isIdentifierStart, hc] using hends

theorem isSome_afterBlank?_of_gap {word : String} {gap s : List Char} (hne : gap ≠ [])
    (hgap : ∀ c ∈ gap, Text.isBlank c = true) :
    ((Import.after? word (word.toList ++ (gap ++ s))).bind Import.afterBlank?).isSome = true := by
  obtain ⟨b, gap, rfl⟩ := List.exists_cons_of_ne_nil hne
  rw [Import.after?_eq_some_iff.2 rfl, Option.bind_some, List.cons_append, Import.afterBlank?,
    if_pos (hgap b List.mem_cons_self), Option.isSome_some]

/-- Not every listed name is declared: here a call and an assignment are listed. -/
theorem listed_names_not_declared :
    let source := "define(x)\nclassify = 1\n"
    ofSource "    " false source = ⟨["ine"], [("ify", [])]⟩ ∧
      ¬ DeclaresFunction source.toList "ine".toList ∧
      ¬ DeclaresClass source.toList "ify".toList := by
  intro source
  refine ⟨by decide +kernel, ?_, ?_⟩
  · rintro ⟨gap, hne, before, behind, after, hsource, -, hgap, -⟩
    have hnowhere : ∀ t ∈ source.toList.tails,
        ((Import.after? "def" t).bind Import.afterBlank?).isSome = false := by decide +kernel
    have hhere := hnowhere _ ((List.mem_tails _ _).2 ⟨before, hsource.symm⟩)
    rw [isSome_afterBlank?_of_gap hne hgap] at hhere
    cases hhere
  · rintro ⟨gap, behind, hne, -, hrow, hgap, -⟩
    have hnowhere : ∀ row ∈ Text.rows source.toList,
        ((Import.after? "class" row).bind Import.afterBlank?).isSome = false := by decide +kernel
    have hhere := hnowhere _ hrow
    rw [isSome_afterBlank?_of_gap hne hgap] at hhere
    cases hhere

end Declarations
end CompletionPrompt

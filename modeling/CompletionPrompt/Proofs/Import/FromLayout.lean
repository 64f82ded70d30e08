import CompletionPrompt.Proofs.Import.FromStatement
import CompletionPrompt.Proofs.Import.ModuleSearch

/-!
# The layout of a statement

A `from` statement says which dots and which path stand behind its `from`, and which names behind
its `import` (`FromImport`). It is written with gaps between these tokens (`FromLayout`), and says
the same whatever the gaps are. What is read back does depend on them. The module is found when
blanks stand around the path and nothing inside it; the list is found when a blank stands behind
`import`; a name of it when no comment stands before it, and a blank or margin behind it; the first
alias when blanks alone stand in front of it, and a blank, a comma or a bracket behind it
(`FromLayout.IsReadable`).

A statement that is laid out like that gives back all it says, with comments or without
(`FromLayout.Writes.isReadFrom`). Laid out in any other way it does not, if its comments hold no
keyword and its first alias is no other name in it (`FromLayout.Writes.isReadable`). So two layouts
of a statement agree only if both of them are read, or by chance (`parse?_layouts_agree`).
-/

namespace CompletionPrompt
namespace Import

/-- What a `from` statement says: the dots in front of its path, the parts of the path, and the
names with their aliases. -/
structure FromImport where
  dots : Nat
  path : List String
  names : List (String × Option String)

namespace FromImport

/-- The statement is one of the language. -/
structure IsGrammatical (s : FromImport) : Prop where
  path : ∀ part ∈ s.path, IsIdentifier part
  dots : s.path = [] → s.dots ≠ 0
  names_ne : s.names ≠ []
  names : s.names = [("*", none)] ∨ ∀ n ∈ s.names, IsIdentifier n.1 ∧ ∀ a ∈ n.2, IsIdentifier a

/-- The tokens between `from` and `import`. -/
def moduleTokens (s : FromImport) : List (List Char) :=
  List.replicate s.dots ['.'] ++ (s.path.map String.toList).intersperse ['.']

/-- The module without its dots; a module of dots alone keeps one. -/
def module (s : FromImport) : String :=
  if s.path = [] then "." else ".".intercalate s.path

/-- The first alias, or else the module. -/
def asName (s : FromImport) : String :=
  (s.names.findSome? (·.2)).getD s.module

/-- The statement is read back from a text. -/
def IsReadFrom (s : FromImport) (text : List Char) (span : Span) : Prop :=
  ∃ i, parse? (String.ofList text) span = some i ∧ i.module = s.module ∧ i.asName = s.asName ∧
    i.imported = s.names.map (·.1)

/-- The first alias is neither the module nor another alias. -/
def TellsAlias (s : FromImport) : Prop :=
  ∀ a ∈ s.names.findSome? (·.2), a ≠ s.module ∧ a ∉ (s.names.filterMap (·.2)).tail

end FromImport

/-- A `from` statement as it is written: the tokens of its path, each with the gap in front of it,
the gap in front of `import`, and the list behind it. -/
structure FromLayout where
  path : List (List Char × List Char)
  before : List Char
  list : WrittenList

namespace FromLayout

def text (l : FromLayout) : List Char :=
  "from".toList ++ (gapped l.path ++ (l.before ++ ("import".toList ++ l.list.text)))

/-- The layout has the tokens of the statement, and gaps between them where the language wants
some, with comments of a kind. -/
structure Writes (kind : List Char → Prop) (l : FromLayout) (s : FromImport) : Prop where
  path : l.path.map (·.2) = s.moduleTokens
  gaps : ∀ t ∈ l.path, IsGap (fun _ => False) t.1
  first : s.dots = 0 → ∀ t ∈ l.path.head?, t.1 ≠ []
  before : IsGap (fun _ => False) l.before
  before_ne : s.path ≠ [] → l.before ≠ []
  names : l.list.names.map (fun n => (n.name, n.asName.map (·.name))) = s.names
  list : l.list.IsWritten kind
  lead : l.list.brackets = none → s.names ≠ [("*", none)] → ∀ n ∈ l.list.names.head?, n.lead ≠ []

/-- The gaps are such that all that the statement says is read back. -/
structure IsReadable (l : FromLayout) : Prop where
  path : IsGlued l.path
  before : IsBlanks l.before
  behind : StartsBlank l.list.text
  list : l.list.IsReadable

instance (l : FromLayout) : Decidable l.IsReadable :=
  decidable_of_iff
    (IsGlued l.path ∧ IsBlanks l.before ∧ StartsBlank l.list.text ∧ l.list.IsReadable)
    ⟨fun ⟨hpath, hbefore, hbehind, hlist⟩ => ⟨hpath, hbefore, hbehind, hlist⟩,
      fun ⟨hpath, hbefore, hbehind, hlist⟩ => ⟨hpath, hbefore, hbehind, hlist⟩⟩

end FromLayout

/-- The comment holds no comma and no word `as`. -/
def IsQuiet (comment : List Char) : Prop :=
  ',' ∉ comment ∧ "as".toList ∉ Text.words comment

instance (comment : List Char) : Decidable (IsQuiet comment) :=
  inferInstanceAs (Decidable (_ ∧ _))

/-- The comment holds no comma, no word `as` or `import`, and no word that ends with `from`. -/
def IsStill (comment : List Char) : Prop :=
  IsQuiet comment ∧ "import".toList ∉ Text.words comment ∧
    ∀ word ∈ Text.words comment, ¬ "from".toList <:+ word

/-! ### What a statement says -/

theorem mem_intersperse {α : Type} {x sep : α} {l : List α} (h : x ∈ l.intersperse sep) :
    x = sep ∨ x ∈ l := by
  induction l with
  | nil => cases h
  | cons a l ih =>
    cases l with
    | nil => exact .inr h
    | cons b l =>
      rw [List.intersperse_cons_cons] at h
      rcases List.mem_cons.1 h with rfl | h
      · exact .inr List.mem_cons_self
      · rcases List.mem_cons.1 h with rfl | h
        · exact .inl rfl
        · exact (ih h).imp_right (List.mem_cons_of_mem a)

namespace FromImport.IsGrammatical

variable {s : FromImport}

theorem isModulePath (hs : s.IsGrammatical) (hpath : s.path ≠ []) :
    IsModulePath (".".intercalate s.path) := by
  have hdot : ".".toList = ['.'] := rfl
  have hparts : ∀ part ∈ s.path.map String.toList, '.' ∉ part := by
    intro part hpart hmem
    obtain ⟨name, hname, rfl⟩ := List.mem_map.1 hpart
    exact absurd ((hs.path name hname).chars _ hmem) (by decide)
  intro name hname
  rw [String.toList_intercalate, hdot, List.splitOn_intercalate '.' hparts (by simpa using hpath)]
    at hname
  obtain ⟨part, hpart, rfl⟩ := List.mem_map.1 hname
  rw [String.ofList_toList]
  exact hs.path part hpart

/-- No word that is neither a path nor a dot is the module. -/
theorem module_ne (hs : s.IsGrammatical) {word : String} (hword : ¬ IsModulePath word)
    (hdot : word ≠ ".") : s.module ≠ word := by
  rintro rfl
  rw [FromImport.module] at hword hdot
  split at hword
  · rename_i hnil
    exact hdot (if_pos hnil)
  · rename_i hpath
    exact hword (hs.isModulePath hpath)

theorem isToken (hs : s.IsGrammatical) : ∀ t ∈ s.moduleTokens, IsToken t := by
  have hdot : IsToken ['.'] := by decide
  intro t ht
  rcases List.mem_append.1 ht with ht | ht
  · rwa [List.eq_of_mem_replicate ht]
  · rcases mem_intersperse ht with rfl | ht
    · exact hdot
    · obtain ⟨part, hpart, rfl⟩ := List.mem_map.1 ht
      exact (hs.path part hpart).isToken

theorem moduleTokens_ne_nil (hs : s.IsGrammatical) : s.moduleTokens ≠ [] := by
  intro hnil
  obtain ⟨hdots, hparts⟩ := List.append_eq_nil_iff.1 hnil
  have hpath : s.path = [] := by
    cases hcase : s.path with
    | nil => rfl
    | cons part path => cases path <;> simp [hcase] at hparts
  exact hs.dots hpath ((List.replicate_eq_nil_iff _).1 hdots)

theorem flatten_moduleTokens (s : FromImport) :
    s.moduleTokens.flatten =
      List.replicate s.dots '.' ++ (".".intercalate s.path).toList := by
  have hdot : ".".toList = ['.'] := rfl
  rw [moduleTokens, List.flatten_append, List.flatten_replicate_singleton,
    String.toList_intercalate, hdot]
  rfl

/-- The tokens between `from` and `import` leave the module. -/
theorem dropDots_flatten (hs : s.IsGrammatical) :
    dropDots s.moduleTokens.flatten = s.module.toList := by
  rw [flatten_moduleTokens, FromImport.module]
  split
  · rename_i hpath
    obtain ⟨n, hn⟩ := Nat.exists_eq_succ_of_ne_zero (hs.dots hpath)
    rw [hpath, hn]
    exact (congrArg dropDots (List.append_nil _)).trans (dropDots_replicate n)
  · rename_i hpath
    exact (hs.isModulePath hpath).dropDots s.dots

end FromImport.IsGrammatical

/-! ### What a layout gives back -/

namespace FromLayout.Writes

variable {kind : List Char → Prop} {l : FromLayout} {s : FromImport}

theorem glued_path (h : l.Writes kind s) : glued l.path = s.moduleTokens.flatten := by
  rw [glued, List.flatMap_def, h.path]

theorem isToken (h : l.Writes kind s) (hs : s.IsGrammatical) :
    ∀ t ∈ l.path, IsGap (fun _ => False) t.1 ∧ IsToken t.2 := by
  intro t ht
  exact ⟨h.gaps t ht, hs.isToken t.2 (h.path ▸ List.mem_map_of_mem ht)⟩

theorem path_ne_nil (h : l.Writes kind s) (hs : s.IsGrammatical) : l.path ≠ [] := by
  intro hnil
  have hpath := h.path
  rw [hnil] at hpath
  exact hs.moduleTokens_ne_nil hpath.symm

theorem isToken_glued (h : l.Writes kind s) (hs : s.IsGrammatical) : IsToken (glued l.path) :=
  ⟨glued_ne_nil (h.path_ne_nil hs) fun t ht => (h.isToken hs t ht).2,
    isTokenChar_glued fun t ht => (h.isToken hs t ht).2⟩

theorem dropDots_glued (h : l.Writes kind s) (hs : s.IsGrammatical) :
    dropDots (glued l.path) = s.module.toList := by
  rw [h.glued_path, hs.dropDots_flatten]

/-- The path is no word that is neither a path nor a dot. -/
theorem glued_ne (h : l.Writes kind s) (hs : s.IsGrammatical) {word : String}
    (hword : ¬ IsModulePath word) (hdots : dropDots word.toList = word.toList) (hdot : word ≠ ".") :
    glued l.path ≠ word.toList := by
  intro hsame
  have hmodule := h.dropDots_glued hs
  rw [hsame, hdots] at hmodule
  exact hs.module_ne hword hdot (String.toList_inj.1 hmodule.symm)

theorem glued_ne_import (h : l.Writes kind s) (hs : s.IsGrammatical) :
    glued l.path ≠ "import".toList :=
  h.glued_ne hs (by decide) (by decide) (by decide)

theorem glued_ne_as (h : l.Writes kind s) (hs : s.IsGrammatical) : glued l.path ≠ "as".toList :=
  h.glued_ne hs (by decide) (by decide) (by decide)

/-- A glued path with blanks around it makes a statement of known parts. -/
theorem exists_text_eq (hpath : IsGlued l.path) :
    ∃ blanks, IsBlanks blanks ∧ l.text = fromText blanks (glued l.path) l.before l.list.text := by
  obtain ⟨t, path, hcons⟩ := List.exists_cons_of_ne_nil hpath.ne_nil
  rw [hcons] at hpath
  refine ⟨t.1, hpath.1, ?_⟩
  rw [text, fromText, hcons, hpath.gapped_append]

/-- Each name of a layout is a name of the statement. -/
theorem mem_names (h : l.Writes kind s) {n : WrittenName} (hn : n ∈ l.list.names) :
    (n.name, n.asName.map (·.name)) ∈ s.names :=
  h.names ▸ List.mem_map_of_mem (f := fun n : WrittenName => (n.name, n.asName.map (·.name))) hn

theorem map_name_firstAlias? (h : l.Writes kind s) :
    (firstAlias? l.list.names).map (·.1.name) = s.names.findSome? (·.2) := by
  rw [Import.map_name_firstAlias?, h.names]

theorem aliases_names (h : l.Writes kind s) : aliases l.list.names = s.names.filterMap (·.2) := by
  rw [← h.names, List.filterMap_map]
  rfl

/-- **A readable layout gives back all that the statement says.** -/
theorem isReadFrom (h : l.Writes IsQuiet s) (hs : s.IsGrammatical) (hread : l.IsReadable)
    (span : Span) : s.IsReadFrom l.text span := by
  obtain ⟨blanks, hblanks, htext⟩ := exists_text_eq hread.path
  have hnames : listedNames l.list.text = l.list.names.map (·.name.toList) :=
    (WrittenList.listedNames_eq_iff h.list fun _ hquiet => hquiet.1).2 hread.list.names
  have hasName : search asNameHere? l.list.text =
      (s.names.findSome? (·.2)).map String.toList := by
    rw [hread.list.search_alias h.list fun _ hquiet => hquiet.2, ← h.map_name_firstAlias?,
      Option.map_map]
    rfl
  rw [FromImport.IsReadFrom, htext]
  refine ⟨_, parse?_from hblanks (h.isToken_glued hs) (h.glued_ne_import hs) (h.glued_ne_as hs)
    hread.before hread.behind span, ?_, ?_, ?_⟩
  · simp [unresolved, h.dropDots_glued hs]
  · rw [FromImport.asName, hasName]
    cases s.names.findSome? (·.2) <;> simp [unresolved, h.dropDots_glued hs]
  · rw [hnames, ← h.names]
    simp

/-! ### What a layout has to be -/

/-- A list starts with no character of a token, unless it is a star. -/
theorem head?_text (h : l.Writes kind s) :
    (∀ c ∈ l.list.text.head?, isTokenChar c = false) ∨
      ∃ t, l.list.text = '*' :: t ∧ ∀ c ∈ t.head?, isTokenChar c = false := by
  obtain ⟨n, names, hcons⟩ := List.exists_cons_of_ne_nil h.list.names_ne
  have hn : n.IsWritten kind := h.list.names n (hcons ▸ List.mem_cons_self)
  rw [WrittenList.text, WrittenList.opening]
  cases hbrackets : l.list.brackets with
  | some b =>
    rw [Option.elim_some, List.append_assoc]
    exact .inl ((h.list.before b hbrackets).head?_append (forall_mem_head?_cons (by decide)))
  | none =>
    rw [Option.elim_none, List.nil_append]
    by_cases hlead : n.lead = []
    · right
      have hstar : s.names = [("*", none)] := by
        by_contra hother
        exact h.lead hbrackets hother n (by rw [hcons]; rfl) hlead
      have hnames := h.names
      rw [hstar, hcons, List.map_cons, List.cons_eq_cons, List.map_eq_nil_iff, Prod.mk.injEq,
        Option.map_eq_none_iff] at hnames
      obtain ⟨⟨hname, hnone⟩, rfl⟩ := hnames
      have hclosing : ∀ c ∈ l.list.closing.head?, isTokenChar c = false := fun c hc =>
        isTokenChar_eq_false_of_isNameChar (WrittenList.isNameChar_closing h.list c hc)
      refine ⟨n.trail ++ l.list.closing, ?_, hn.trail.head?_append hclosing⟩
      rw [hcons, namesText_singleton, WrittenName.text, WrittenName.tail, hlead, hname, hnone]
      simp
    · obtain ⟨rest, hrest⟩ : ∃ rest, namesText l.list.names ++ l.list.closing = n.lead ++ rest := by
        rw [hcons]
        cases names with
        | nil => exact ⟨_, by rw [namesText_singleton, WrittenName.text, List.append_assoc]⟩
        | cons m names =>
          exact ⟨_, by rw [namesText_cons_cons, WrittenName.text, List.append_assoc,
            List.append_assoc]⟩
      rw [hrest]
      exact .inl (hn.lead.head?_append_of_ne_nil hlead rest)

/-- No `from` ends the word `import` and what touches it. -/
theorem not_suffix_import (h : l.Writes kind s) :
    ¬ "from".toList <:+ "import".toList ++ l.list.text.takeWhile isTokenChar := by
  have hnil : ∀ {t : List Char}, (∀ c ∈ t.head?, isTokenChar c = false) →
      t.takeWhile isTokenChar = [] := by
    intro t ht
    cases t with
    | nil => rfl
    | cons c t => rw [List.takeWhile_cons_of_neg (by simp [ht c rfl])]
  rcases h.head?_text with hhead | ⟨t, htext, ht⟩
  · rw [hnil hhead]
    decide
  · rw [htext, List.takeWhile_cons_of_pos (by decide), hnil ht]
    decide

/-- Behind a path without gaps stands no `from`. -/
theorem not_suffix_glued (h : l.Writes kind s) (hnil : l.before = [])
    (front : List (List Char × List Char)) (hfront : front <+: l.path) :
    ¬ "from".toList <:+ glued front := by
  have hpath : s.path = [] := by
    by_contra hne
    exact h.before_ne hne hnil
  intro hfrom
  obtain ⟨t, ht, hmem⟩ := List.mem_flatMap.1 (hfrom.subset (by decide : 'f' ∈ "from".toList))
  have htoken : t.2 ∈ s.moduleTokens := h.path ▸ List.mem_map_of_mem (hfront.subset ht)
  rw [FromImport.moduleTokens, hpath, List.map_nil, List.intersperse_nil, List.append_nil] at htoken
  rw [List.eq_of_mem_replicate htoken] at hmem
  exact absurd hmem (by decide)

/-- No name or alias of a statement is a word that is no name. -/
theorem names_ne (h : l.Writes kind s) (hs : s.IsGrammatical) {word : String} (hstar : word ≠ "*")
    (hword : ¬ IsIdentifier word) :
    ∀ n ∈ l.list.names, n.name ≠ word ∧ ∀ a ∈ n.asName, a.name ≠ word := by
  intro n hn
  have hmem := h.mem_names hn
  rcases hs.names with hnames | hnames
  · rw [hnames, List.mem_singleton, Prod.mk.injEq, Option.map_eq_none_iff] at hmem
    rw [hmem.1, hmem.2]
    exact ⟨hstar.symm, by simp⟩
  · obtain ⟨hname, halias⟩ := hnames _ hmem
    refine ⟨fun hsame => hword (hsame ▸ hname), fun a ha hsame => hword (hsame ▸ ?_)⟩
    exact halias a.name (by rw [ha]; rfl)

/-- **Where the module is found:** the path is glued, with blanks around it. -/
theorem search_module_iff (h : l.Writes IsStill s) (hs : s.IsGrammatical) :
    search fromModuleHere? l.text = some s.module.toList ↔
      IsGlued l.path ∧ IsBlanks l.before := by
  have hmodule : ∀ c ∈ dropDots (glued l.path), isTokenChar c = true := fun c hc =>
    (h.isToken_glued hs).2 c ((dropDots_suffix _).subset hc)
  have has : dropDots (glued l.path) ≠ "as".toList := by
    rw [h.dropDots_glued hs]
    exact fun hsame => hs.module_ne (by decide) (by decide) (String.toList_inj.1 hsame)
  rw [← h.dropDots_glued hs]
  exact search_fromModuleHere?_eq_some_iff (h.path_ne_nil hs) (h.isToken hs) h.before
    h.not_suffix_glued h.not_suffix_import
    (neverGives_text h.list (fun _ hstill => hstill.2.2) hmodule has)

/-- A list without a blank in front of it is not found. -/
theorem search_names_of_not_startsBlank (h : l.Writes IsStill s) (hs : s.IsGrammatical)
    (hpath : IsGlued l.path) (hbefore : IsBlanks l.before) (hbehind : ¬ StartsBlank l.list.text) :
    search namesHere? l.text = none := by
  have hgap : IsGap (fun _ => False) l.before := IsGap.of_isBlank hbefore.2
  have hnone : afterBlanks? l.list.text = none := by
    refine afterBlanks?_eq_none fun c hc => ?_
    cases hblank : Text.isBlank c with
    | false => rfl
    | true => exact absurd (by simp [StartsBlank, Option.mem_def.1 hc, hblank]) hbehind
  have hlist : search (behindKeyword? "import" some) l.list.text = none :=
    WrittenList.search_eq_none h.list isToken_import (fun _ hstill => hstill.2.1) (by decide)
      (h.names_ne hs (by decide) (by decide))
  obtain ⟨blanks, hblanks, htext⟩ := exists_text_eq hpath
  rw [htext, namesHere?_eq,
    search_behindKeyword?_fromText isToken_import hblanks (h.isToken_glued hs)
      (h.glued_ne_import hs) hbefore,
    hgap.search_keyword isToken_import (fun _ h => h.elim) hbefore.1, hnone, hlist]
  rfl

/-- **A layout that gives back all that the statement says is readable.** -/
theorem isReadable {span : Span} (h : l.Writes IsStill s) (hs : s.IsGrammatical)
    (htells : s.TellsAlias) (hread : s.IsReadFrom l.text span) : l.IsReadable := by
  obtain ⟨i, hparse, hmodule, hasName, himported⟩ := hread
  obtain ⟨⟨module, names⟩, hfound, rfl⟩ := Option.map_eq_some_iff.1 hparse
  rw [String.toList_ofList] at hfound hasName
  have hmodule : module = s.module.toList := by
    rw [← hmodule]
    exact (String.toList_ofList).symm
  have himported : names = l.list.names.map (·.name.toList) := by
    have himported : names.map String.ofList = l.list.names.map (·.name) := by
      rw [← h.names, List.map_map] at himported
      exact himported
    have htoList := congrArg (List.map String.toList) himported
    simpa [Function.comp_def] using htoList
  have hnames_ne : names ≠ [] := by
    rw [himported]
    simpa using h.list.names_ne
  -- The names are not found without the module.
  obtain ⟨hsearch, hnames⟩ : search fromModuleHere? l.text = some module ∧
      ((search namesHere? l.text).map listedNames).getD [] = names := by
    rw [moduleAndNames?] at hfound
    split at hfound
    · rename_i found hsearch
      obtain ⟨rfl, hnames⟩ := Prod.mk.inj (Option.some.inj hfound)
      exact ⟨hsearch, hnames⟩
    · obtain ⟨_, -, hnil⟩ := Option.map_eq_some_iff.1 hfound
      exact absurd (Prod.mk.inj hnil).2.symm hnames_ne
  obtain ⟨hpath, hbefore⟩ := (h.search_module_iff hs).1 (hmodule ▸ hsearch)
  have hbehind : StartsBlank l.list.text := by
    by_contra hbehind
    rw [h.search_names_of_not_startsBlank hs hpath hbefore hbehind] at hnames
    exact hnames_ne hnames.symm
  obtain ⟨blanks, hblanks, htext⟩ := exists_text_eq hpath
  have hglued := h.isToken_glued hs
  refine ⟨hpath, hbefore, hbehind, ?_, fun first hfirst => ?_⟩
  · rw [htext, search_namesHere?_fromText hblanks hglued (h.glued_ne_import hs) hbefore hbehind,
      Option.map_some, Option.getD_some, listedNames_dropWhile, himported] at hnames
    exact (WrittenList.listedNames_eq_iff h.list fun _ hstill => hstill.1.1).1 hnames
  · have hname : s.names.findSome? (·.2) = some first.1.name := by
      rw [← h.map_name_firstAlias?, Option.mem_def.1 hfirst]
      rfl
    obtain ⟨hnemodule, hunique⟩ := htells first.1.name hname
    rw [htext, search_asNameHere?_fromText hblanks hglued (h.glued_ne_as hs) hbefore hbehind,
      FromImport.asName, hname, Option.getD_some, hmodule] at hasName
    have hasName : String.ofList ((search asNameHere? l.list.text).getD s.module.toList) =
        first.1.name := hasName
    refine ((WrittenList.search_alias h.list fun _ hstill => hstill.1.2).2 first hfirst).2
      (h.aliases_names ▸ hunique) ?_
    cases hsearchAlias : search asNameHere? l.list.text with
    | none =>
      rw [hsearchAlias, Option.getD_none, String.ofList_toList] at hasName
      exact absurd hasName.symm hnemodule
    | some x =>
      rw [hsearchAlias, Option.getD_some] at hasName
      rw [← hasName, String.toList_ofList]

end FromLayout.Writes

/-! ### Two layouts -/

/-- Two texts give records with the same module, bound name and names. -/
def ReadAlike (text text' : List Char) (span span' : Span) : Prop :=
  ∃ i i', parse? (String.ofList text) span = some i ∧ parse? (String.ofList text') span' = some i' ∧
    i.module = i'.module ∧ i.asName = i'.asName ∧ i.imported = i'.imported

/-- **When two layouts of a statement are read alike.** Those that are readable are, and give back
all that the statement says, whatever their comments say without a comma or an `as`. A layout that
is not readable is read in another way than the readable ones, if its comments hold no keyword and
the first alias of the statement is not its module or another alias. -/
theorem parse?_layouts_agree {s : FromImport} (hs : s.IsGrammatical) {l l' : FromLayout}
    (hl : l.Writes IsQuiet s) (hread : l.IsReadable) (span span' : Span) :
    s.IsReadFrom l.text span ∧
      (l'.Writes IsQuiet s → l'.IsReadable → ReadAlike l.text l'.text span span') ∧
      (l'.Writes IsStill s → s.TellsAlias → ReadAlike l.text l'.text span span' →
        l'.IsReadable) := by
  obtain ⟨i, hparse, hmodule, hasName, himported⟩ : s.IsReadFrom l.text span :=
    hl.isReadFrom hs hread span
  refine ⟨hl.isReadFrom hs hread span, fun hl' hread' => ?_, fun hl' htells halike => ?_⟩
  · obtain ⟨i', hparse', hmodule', hasName', himported'⟩ := hl'.isReadFrom hs hread' span'
    exact ⟨i, i', hparse, hparse', hmodule.trans hmodule'.symm, hasName.trans hasName'.symm,
      himported.trans himported'.symm⟩
  · obtain ⟨j, i', hj, hparse', hsameModule, hsameAs, hsameNames⟩ := halike
    obtain rfl : i = j := Option.some.inj (hparse.symm.trans hj)
    exact hl'.isReadable hs htells ⟨i', hparse', hsameModule.symm.trans hmodule,
      hsameAs.symm.trans hasName, hsameNames.symm.trans himported⟩

/-- On one row, and over three with a comment. -/
theorem parse?_layouts_agree_over_rows :
    let s : FromImport := ⟨1, ["a"], [("b", some "c")]⟩
    let l : FromLayout := ⟨[([' '], ['.']), ([], ['a'])], [' '],
      ⟨[⟨[' '], "b", some ⟨[' '], [' '], "c"⟩, []⟩], none, []⟩⟩
    let l' : FromLayout := ⟨[([' '], ['.']), ([], ['a'])], [' '],
      ⟨[⟨"\n  ".toList, "b", some ⟨" # import x\n  ".toList, [' '], "c"⟩, ['\n']⟩],
        some ⟨[' '], none⟩, []⟩⟩
    String.ofList l.text = "from .a import b as c" ∧
      String.ofList l'.text = "from .a import (\n  b # import x\n  as c\n)" ∧
      s.IsGrammatical ∧ l.Writes IsQuiet s ∧ l.IsReadable ∧ l'.Writes IsQuiet s ∧ l'.IsReadable ∧
      ReadAlike l.text l'.text ⟨0, 0, 0, 21⟩ ⟨0, 0, 3, 1⟩ := by
  intro s l l'
  have hs : s.IsGrammatical := ⟨by decide, by decide, by decide, by decide⟩
  have hcomment : IsGap IsQuiet " # import x\n  ".toList :=
    .blank (by decide) (@IsGap.comment IsQuiet '\n' " import x".toList "  ".toList (by decide)
      (by simp) (.inl rfl) (IsGap.of_isBlank (List.all_eq_true.1 (by decide))))
  have hidentifier : IsIdentifier "c" := by decide
  have hgaps : ∀ t ∈ [([' '], ['.']), ([], ['a'])], IsGap (fun _ => False) t.1 := by
    simpa using ⟨IsGap.space, IsGap.nil⟩
  have hl : l.Writes IsQuiet s := by
    refine ⟨by decide, hgaps, by decide, IsGap.space, by decide, by decide, ?_, by decide⟩
    refine ⟨by decide, List.forall_mem_singleton.2 ?_, by simp [l], by simp [l], by simp [l]⟩
    exact ⟨by decide, by decide, IsGap.space, .nil, by simpa using ⟨IsGap.space, hidentifier⟩⟩
  have hl' : l'.Writes IsQuiet s := by
    refine ⟨by decide, hgaps, by decide, IsGap.space, by decide, by decide, ?_, by simp [l']⟩
    refine ⟨by decide, List.forall_mem_singleton.2 ?_, by simpa [l'] using IsGap.space,
      by simp [l'], by simp [l']⟩
    exact ⟨by decide, by decide, IsGap.of_isBlank (List.all_eq_true.1 (by decide)),
      IsGap.of_isBlank (List.all_eq_true.1 (by decide)),
      by simpa using ⟨hcomment, IsGap.space, hidentifier⟩⟩
  have hread : l.IsReadable := by decide
  have hread' : l'.IsReadable := by decide
  exact ⟨by decide, by decide, hs, hl, hread, hl', hread',
    (parse?_layouts_agree hs hl hread ⟨0, 0, 0, 21⟩ ⟨0, 0, 3, 1⟩).2.1 hl' hread'⟩

/-- Not all layouts agree: a list that stands in brackets right behind `import` is not found. -/
theorem parse?_layouts_differ_at_bracket :
    let s : FromImport := ⟨0, ["a"], [("b", none)]⟩
    let layout (gap : List Char) : FromLayout :=
      ⟨[([' '], ['a'])], [' '], ⟨[⟨[], "b", none, []⟩], some ⟨gap, none⟩, []⟩⟩
    String.ofList (layout [' ']).text = "from a import (b)" ∧
      String.ofList (layout []).text = "from a import(b)" ∧ s.IsGrammatical ∧
      (layout [' ']).Writes (fun _ => False) s ∧ (layout []).Writes (fun _ => False) s ∧
      ¬ ReadAlike (layout [' ']).text (layout []).text ⟨0, 0, 0, 0⟩ ⟨0, 0, 0, 0⟩ := by
  intro s layout
  have hs : s.IsGrammatical := ⟨by decide, by decide, by decide, by decide⟩
  have hwrites : ∀ gap, IsGap (fun _ => False) gap → (layout gap).Writes (fun _ => False) s := by
    intro gap hgap
    refine ⟨rfl, List.forall_mem_singleton.2 IsGap.space, by simp [layout], IsGap.space,
      by simp [layout], rfl, ?_, by simp [layout]⟩
    refine ⟨by simp [layout], List.forall_mem_singleton.2 ?_, by simpa [layout] using hgap,
      by simp [layout], by simp [layout]⟩
    exact ⟨by decide, by decide, .nil, .nil, by simp⟩
  refine ⟨by decide, by decide, hs, hwrites _ IsGap.space, hwrites _ .nil, ?_⟩
  rintro ⟨i, i', hi, hi', -, -, himported⟩
  have hfound : (parse? "from a import (b)" ⟨0, 0, 0, 0⟩).map (·.imported) = some ["b"] := by
    decide +kernel
  have hlost : (parse? "from a import(b)" ⟨0, 0, 0, 0⟩).map (·.imported) = some [] := by
    decide +kernel
  have htext : String.ofList (layout [' ']).text = "from a import (b)" := by decide
  have htext' : String.ofList (layout []).text = "from a import(b)" := by decide
  rw [htext] at hi
  rw [htext'] at hi'
  rw [hi, Option.map_some, himported] at hfound
  rw [hi', Option.map_some, hfound] at hlost
  cases hlost

end Import
end CompletionPrompt

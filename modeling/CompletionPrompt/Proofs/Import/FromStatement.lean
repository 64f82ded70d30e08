import CompletionPrompt.Proofs.Import.ListSearch

/-!
# Statements that import names from a module

A `from` statement whose parts stand where the searches look for them is read part by part
(`parse?_from`): the module without its dots, the names of the list, and the alias that is found in
the list, for none is found before it.

A list that is written plainly has one space on each side of an `as`, blanks behind each comma, and
maybe brackets with blanks around them and a last comma (`WritesList`). So a statement with such a
list gives back its module, its names and its first alias (`parse?_from_plain`), whatever keywords
the names in it hold.
-/

namespace CompletionPrompt
namespace Import

/-- A text that starts with a blank. -/
def StartsBlank (s : List Char) : Prop :=
  s.head?.any Text.isBlank = true

instance (s : List Char) : Decidable (StartsBlank s) :=
  inferInstanceAs (Decidable (_ = _))

theorem StartsBlank.exists_cons {s : List Char} (h : StartsBlank s) :
    ∃ c t, s = c :: t ∧ Text.isBlank c = true := by
  cases s with
  | nil => cases h
  | cons c t => exact ⟨c, t, rfl, by simpa [StartsBlank] using h⟩

theorem StartsBlank.head? {s : List Char} (h : StartsBlank s) :
    ∀ c ∈ s.head?, isTokenChar c = false := by
  obtain ⟨c, t, rfl, hc⟩ := h.exists_cons
  simpa using isTokenChar_of_isBlank hc

/-! ### Part by part -/

section Parts

variable {before dotted behind list : List Char}

/-- What a `from` statement is made of: `from`, the dotted path, `import` and a list. -/
def fromText (before dotted behind list : List Char) : List Char :=
  "from".toList ++ (before ++ (dotted ++ (behind ++ ("import".toList ++ list))))

theorem search_fromModuleHere?_fromText (hbefore : IsBlanks before) (hdotted : IsToken dotted)
    (hbehind : IsBlanks behind) :
    search fromModuleHere? (fromText before dotted behind list) = some (dropDots dotted) :=
  search_eq_some (fromModuleHere?_eq_some_iff.2
    ⟨dotted, ⟨before, behind, list, rfl, hbefore, hdotted.isPath, hbehind⟩, rfl⟩)

/-- A search for a keyword behind a `from` statement's `from` passes over the path. -/
theorem search_behindKeyword?_fromText {α : Type} {k : String} {f : List Char → Option α}
    (hk : IsToken k.toList) (hbefore : IsBlanks before) (hdotted : IsToken dotted)
    (hother : dotted ≠ k.toList) (hbehind : IsBlanks behind) :
    search (behindKeyword? k f) (fromText before dotted behind list) =
      search (behindKeyword? k f) (behind ++ ("import".toList ++ list)) := by
  have hgap : IsGap (fun _ => False) before := IsGap.of_isBlank hbefore.2
  rw [fromText, search_behindKeyword?_append (by decide), hgap.search_word hk (by simp) hdotted
    hother]
  exact fun c hc => isTokenChar_of_isBlank (isBlank_of_mem_head? hbehind c hc)

theorem search_namesHere?_fromText (hbefore : IsBlanks before) (hdotted : IsToken dotted)
    (hother : dotted ≠ "import".toList) (hbehind : IsBlanks behind) (hlist : StartsBlank list) :
    search namesHere? (fromText before dotted behind list) =
      some (list.dropWhile Text.isBlank) := by
  have hgap : IsGap (fun _ => False) behind := IsGap.of_isBlank hbehind.2
  obtain ⟨c, t, rfl, hc⟩ := hlist.exists_cons
  rw [namesHere?_eq, search_behindKeyword?_fromText isToken_import hbefore hdotted hother hbehind,
    hgap.search_keyword isToken_import (by simp) hbehind.1, afterBlanks?, if_pos hc,
    List.dropWhile_cons_of_pos hc]
  rfl

theorem search_asNameHere?_fromText (hbefore : IsBlanks before) (hdotted : IsToken dotted)
    (hother : dotted ≠ "as".toList) (hbehind : IsBlanks behind) (hlist : StartsBlank list) :
    search asNameHere? (fromText before dotted behind list) = search asNameHere? list := by
  have hgap : IsGap (fun _ => False) behind := IsGap.of_isBlank hbehind.2
  rw [asNameHere?_eq, search_behindKeyword?_fromText isToken_as hbefore hdotted hother hbehind]
  exact hgap.search_word isToken_as (by simp) isToken_import (by decide) hlist.head?

theorem listedNames_dropWhile (s : List Char) :
    listedNames (s.dropWhile Text.isBlank) = listedNames s := by
  have hmargin : ∀ c ∈ s.takeWhile Text.isBlank, isNameMargin c = true := fun c hc => by
    simp [isNameMargin, List.mem_takeWhile_imp hc]
  rw [← listedNames_append_of_isNameMargin hmargin, List.takeWhile_append_dropWhile]

/-- **A `from` statement is read part by part.** -/
theorem parse?_from (hbefore : IsBlanks before) (hdotted : IsToken dotted)
    (himport : dotted ≠ "import".toList) (has : dotted ≠ "as".toList) (hbehind : IsBlanks behind)
    (hlist : StartsBlank list) (span : Span) :
    let statement := String.ofList (fromText before dotted behind list)
    parse? statement span =
      some { unresolved (String.ofList (dropDots dotted))
          (String.ofList ((search asNameHere? list).getD (dropDots dotted))) statement span with
        imported := (listedNames list).map String.ofList } := by
  intro statement
  have hmodule : moduleAndNames? statement.toList =
      some (dropDots dotted, listedNames list) := by
    rw [String.toList_ofList, moduleAndNames?,
      search_fromModuleHere?_fromText hbefore hdotted hbehind,
      search_namesHere?_fromText hbefore hdotted himport hbehind hlist]
    simp [listedNames_dropWhile]
  rw [parse?, hmodule, String.toList_ofList,
    search_asNameHere?_fromText hbefore hdotted has hbehind hlist]
  rfl

end Parts

/-! ### A dotted path -/

section Dotted

variable {path : String}

theorem IsModulePath.isTokenChar (h : IsModulePath path) :
    ∀ c ∈ path.toList, isTokenChar c = true := by
  intro c hc
  rcases h.eq_or_isIdentifierChar hc with rfl | hc
  · decide
  · exact isTokenChar_of_isIdentifierChar hc

theorem IsModulePath.isToken (h : IsModulePath path) (dots : Nat) :
    IsToken (List.replicate dots '.' ++ path.toList) := by
  obtain ⟨c, cs, hcons, -⟩ := h.exists_cons
  refine ⟨by simp [hcons], fun d hd => ?_⟩
  rcases List.mem_append.1 hd with hd | hd
  · rw [List.eq_of_mem_replicate hd]
    decide
  · exact h.isTokenChar d hd

theorem IsModulePath.dropDots (h : IsModulePath path) (dots : Nat) :
    dropDots (List.replicate dots '.' ++ path.toList) = path.toList := by
  obtain ⟨c, cs, hcons, hc⟩ := h.exists_cons
  rw [hcons, dropDots_replicate_append dots hc]

/-- A path with dots in front of it is no word that is not a path. -/
theorem IsModulePath.replicate_append_ne (h : IsModulePath path) (dots : Nat) {word : String}
    (hdot : word.toList.head? ≠ some '.') (hword : ¬ IsModulePath word) :
    List.replicate dots '.' ++ path.toList ≠ word.toList := by
  cases dots with
  | zero => exact h.ne_of_not_isModulePath hword
  | succ dots =>
    intro hsame
    rw [← hsame] at hdot
    exact hdot rfl

end Dotted

/-! ### Lists that are written plainly -/

/-- A name of a list, with its alias if it has one. -/
def itemText (item : String × Option String) : List Char :=
  item.1.toList ++ item.2.elim [] fun asName => " as ".toList ++ asName.toList

/-- The text is the items with a comma and blanks between them. -/
inductive WritesItems : List (String × Option String) → List Char → Prop where
  | last (item : String × Option String) : WritesItems [item] (itemText item)
  | cons (item : String × Option String) {items : List (String × Option String)}
      {blanks text : List Char} (hblanks : ∀ c ∈ blanks, Text.isBlank c = true)
      (htext : WritesItems items text) :
      WritesItems (item :: items) (itemText item ++ ',' :: (blanks ++ text))

/-- The text is the items, or the items in brackets, with blanks around them and maybe a last
comma. -/
inductive WritesList (items : List (String × Option String)) : List Char → Prop where
  | plain {text : List Char} (htext : WritesItems items text) : WritesList items text
  | bracketed {before opened text closed comma behind : List Char}
      (hbefore : ∀ c ∈ before, Text.isBlank c = true)
      (hopened : ∀ c ∈ opened, Text.isBlank c = true) (htext : WritesItems items text)
      (hclosed : ∀ c ∈ closed, Text.isBlank c = true)
      (hcomma : comma = [] ∨ ∃ blanks, comma = ',' :: blanks ∧ ∀ c ∈ blanks, Text.isBlank c = true)
      (hbehind : ∀ c ∈ behind, Text.isBlank c = true) :
      WritesList items (before ++ '(' :: (opened ++ (text ++ (closed ++ (comma ++ ')' :: behind)))))

/-- A name and its alias as they are written with one space on each side of `as`. -/
def WrittenName.plain (lead trail : List Char) (item : String × Option String) : WrittenName where
  lead := lead
  name := item.1
  asName := item.2.map fun name => { before := [' '], behind := [' '], name }
  trail := trail

section Plain

variable {kind : List Char → Prop} {items : List (String × Option String)}
  {item : String × Option String} {lead trail text : List Char}

theorem WrittenName.plain_text :
    (WrittenName.plain lead trail item).text = lead ++ (itemText item ++ trail) := by
  obtain ⟨name, asName⟩ := item
  cases asName <;> simp [plain, WrittenName.text, tail, WrittenAlias.text, itemText]

theorem WrittenName.plain_isWritten (hitem : IsIdentifier item.1 ∧ ∀ a ∈ item.2, IsIdentifier a)
    (hlead : ∀ c ∈ lead, Text.isBlank c = true) (htrail : ∀ c ∈ trail, Text.isBlank c = true) :
    (WrittenName.plain lead trail item).IsWritten kind where
  name := hitem.1.isToken
  name_ne := fun hname => by
    have hname : item.1 = "as" := hname
    exact hitem.1.not_keyword (hname ▸ by decide)
  lead := IsGap.of_isBlank hlead
  trail := IsGap.of_isBlank htrail
  asName := by
    simpa [plain, IsGap.space] using hitem.2

theorem WrittenName.plain_endsName (htrail : ∀ c ∈ trail, Text.isBlank c = true) :
    EndsName (WrittenName.plain lead trail item).tail := by
  obtain ⟨name, asName⟩ := item
  cases asName with
  | none =>
    refine .inl fun c hc => ?_
    simp [isNameMargin, htrail c (by simpa [plain, tail] using hc)]
  | some a => exact .inr (by simp [plain, tail, WrittenAlias.text, EndsWord]; decide)

theorem WrittenName.plain_isBlanks :
    ∀ a ∈ (WrittenName.plain lead trail item).asName, IsBlanks a.behind := by
  intro a ha
  obtain ⟨name, -, rfl⟩ := Option.map_eq_some_iff.1 ha
  exact (by decide : IsBlanks [' '])

theorem WrittenName.plain_item :
    ((WrittenName.plain lead trail item).name,
      (WrittenName.plain lead trail item).asName.map (·.name)) = item := by
  obtain ⟨name, asName⟩ := item
  cases asName <;> rfl

theorem endsWord_of_forall {s : List Char} (hs : ∀ c ∈ s, Text.isBlank c = true) : EndsWord s :=
  fun c hc => hs c (List.mem_of_mem_head? hc)

/-- Items with blanks around them are written name by name. -/
theorem WritesItems.exists_names (htext : WritesItems items text) {pre post : List Char}
    (hpre : ∀ c ∈ pre, Text.isBlank c = true) (hpost : ∀ c ∈ post, Text.isBlank c = true) :
    ∃ names : List WrittenName, names ≠ [] ∧ namesText names = pre ++ (text ++ post) ∧
      names.map (fun n => (n.name, n.asName.map (·.name))) = items ∧
      ∀ n ∈ names, ∃ lead trail, ∃ item ∈ items, n = WrittenName.plain lead trail item ∧
        (∀ c ∈ lead, Text.isBlank c = true) ∧ ∀ c ∈ trail, Text.isBlank c = true := by
  induction htext generalizing pre with
  | last item =>
    refine ⟨[.plain pre post item], by simp, ?_, ?_, fun n hn => ?_⟩
    · rw [namesText_singleton, WrittenName.plain_text]
    · rw [List.map_singleton, WrittenName.plain_item]
    · obtain rfl := List.mem_singleton.1 hn
      exact ⟨pre, post, item, List.mem_singleton_self item, rfl, hpre, hpost⟩
  | @cons item items blanks text hblanks _ ih =>
    obtain ⟨names, hne, htext, hitems, hplain⟩ := ih hblanks
    refine ⟨.plain pre [] item :: names, by simp, ?_, ?_, ?_⟩
    · obtain ⟨m, names, rfl⟩ := List.exists_cons_of_ne_nil hne
      rw [namesText_cons_cons, htext, WrittenName.plain_text]
      simp
    · rw [List.map_cons, WrittenName.plain_item, hitems]
    · refine List.forall_mem_cons.2 ⟨⟨pre, [], item, List.mem_cons_self, rfl, hpre, by simp⟩, ?_⟩
      intro n hn
      obtain ⟨lead, trail, other, hother, hplain⟩ := hplain n hn
      exact ⟨lead, trail, other, List.mem_cons_of_mem item hother, hplain⟩

/-- A list of items, with nothing but blanks around them and the brackets, is read back. -/
theorem WrittenList.of_plain {l : WrittenList}
    (hitems : ∀ i ∈ items, IsIdentifier i.1 ∧ ∀ a ∈ i.2, IsIdentifier a) (hne : l.names ≠ [])
    (hnames : ∀ n ∈ l.names, ∃ lead trail, ∃ item ∈ items, n = WrittenName.plain lead trail item ∧
      (∀ c ∈ lead, Text.isBlank c = true) ∧ ∀ c ∈ trail, Text.isBlank c = true)
    (hbefore : ∀ b ∈ l.brackets, ∀ c ∈ b.before, Text.isBlank c = true)
    (htrailing : ∀ b ∈ l.brackets, ∀ g ∈ b.trailing, ∀ c ∈ g, Text.isBlank c = true)
    (hbehind : ∀ c ∈ l.behind, Text.isBlank c = true) : l.IsWritten kind ∧ l.IsReadable := by
  constructor
  · refine ⟨hne, fun n hn => ?_, fun b hb => IsGap.of_isBlank (hbefore b hb),
      fun b hb g hg => IsGap.of_isBlank (htrailing b hb g hg), hbehind⟩
    obtain ⟨lead, trail, item, hitem, rfl, hlead, htrail⟩ := hnames n hn
    exact WrittenName.plain_isWritten (hitems item hitem) hlead htrail
  · refine ⟨fun n hn => ?_, fun a ha => ?_⟩
    · obtain ⟨lead, trail, item, -, rfl, hlead, htrail⟩ := hnames n hn
      exact ⟨fun c hc => by simp [isNameMargin, hlead c hc], WrittenName.plain_endsName htrail⟩
    · obtain ⟨n, hn, ha, hbehind⟩ := exists_of_mem_firstAlias? ha
      obtain ⟨lead, trail, item, -, rfl, -, htrail⟩ := hnames n hn
      exact ⟨WrittenName.plain_isBlanks _ ha, hbehind ▸ endsWord_of_forall htrail⟩

theorem WritesList.exists_written {list : List Char} (hlist : WritesList items list)
    (hitems : ∀ i ∈ items, IsIdentifier i.1 ∧ ∀ a ∈ i.2, IsIdentifier a) :
    ∃ l : WrittenList, l.text = ' ' :: list ∧
      l.names.map (fun n => (n.name, n.asName.map (·.name))) = items ∧ l.IsWritten kind ∧
      l.IsReadable := by
  cases hlist with
  | plain htext =>
    obtain ⟨names, hne, htext, hnames, hplain⟩ :=
      htext.exists_names (List.forall_mem_singleton.2 isBlank_space) (List.forall_mem_nil _)
    refine ⟨⟨names, none, []⟩, ?_, hnames,
      WrittenList.of_plain hitems hne hplain (by simp) (by simp) (by simp)⟩
    simpa [WrittenList.text, WrittenList.opening, WrittenList.closing] using htext
  | @bracketed before opened text closed comma behind hbefore hopened htext hclosed hcomma
      hbehind =>
    obtain ⟨names, hne, htext, hnames, hplain⟩ := htext.exists_names hopened hclosed
    have hbefore : ∀ c ∈ ' ' :: before, Text.isBlank c = true :=
      List.forall_mem_cons.2 ⟨isBlank_space, hbefore⟩
    rcases hcomma with rfl | ⟨blanks, rfl, hblanks⟩
    · refine ⟨⟨names, some ⟨' ' :: before, none⟩, behind⟩, ?_, hnames,
        WrittenList.of_plain hitems hne hplain ?_ (by simp) hbehind⟩
      · simp [WrittenList.text, WrittenList.opening, WrittenList.closing, htext]
      · simpa using hbefore
    · refine ⟨⟨names, some ⟨' ' :: before, some blanks⟩, behind⟩, ?_, hnames,
        WrittenList.of_plain hitems hne hplain ?_ ?_ hbehind⟩
      · simp [WrittenList.text, WrittenList.opening, WrittenList.closing, htext]
      · simpa using hbefore
      · simpa using hblanks

/-- **A plainly written statement gives back what it imports:** its module without the dots in front
of it, its names in order, and its first alias, or else the module. -/
theorem parse?_from_plain (dots : Nat) {path : String} (hpath : IsModulePath path)
    (hitems : ∀ i ∈ items, IsIdentifier i.1 ∧ ∀ a ∈ i.2, IsIdentifier a) {list : List Char}
    (hlist : WritesList items list) (span : Span) :
    let statement := "from " ++ String.ofList (List.replicate dots '.') ++ path ++ " import " ++
      String.ofList list
    parse? statement span =
      some { unresolved path ((items.findSome? (·.2)).getD path) statement span with
        imported := items.map (·.1) } := by
  intro statement
  obtain ⟨l, htext, hnames, hwritten, hreadable⟩ :
      ∃ l : WrittenList, l.text = ' ' :: list ∧
        l.names.map (fun n => (n.name, n.asName.map (·.name))) = items ∧
        l.IsWritten (fun _ => False) ∧ l.IsReadable := hlist.exists_written hitems
  have hstatement : statement = String.ofList
      (fromText [' '] (List.replicate dots '.' ++ path.toList) [' '] l.text) := by
    rw [← String.toList_inj, htext]
    simp [statement, fromText]
  have hspace : IsBlanks [' '] := by decide
  have hlisted : listedNames l.text = l.names.map (·.name.toList) :=
    (WrittenList.listedNames_eq_iff hwritten (by simp)).2 hreadable.names
  have hasName : search asNameHere? l.text = (items.findSome? (·.2)).map String.toList := by
    rw [hreadable.search_alias hwritten (by simp), ← hnames, ← map_name_firstAlias?,
      Option.map_map]
    rfl
  have hblank : StartsBlank l.text := by
    rw [htext]
    exact isBlank_space
  have hitemNames : (l.names.map (·.name.toList)).map String.ofList = items.map (·.1) := by
    rw [← hnames]
    simp
  rw [hstatement, parse?_from hspace (hpath.isToken dots)
    (hpath.replicate_append_ne dots (by decide) (by decide))
    (hpath.replicate_append_ne dots (by decide) (by decide)) hspace hblank, hpath.dropDots,
    hlisted, hasName, hitemNames]
  cases items.findSome? (·.2) <;> simp

/-- Names that hold keywords, in brackets over three rows. -/
theorem parse?_from_plain_of_keywords :
    let statement := "from ..pkg.fromage import (\n  imports as basis,\n  asimport,\n)"
    IsModulePath "pkg.fromage" ∧
      (∀ i ∈ [("imports", some "basis"), ("asimport", none)],
        IsIdentifier i.1 ∧ ∀ a ∈ i.2, IsIdentifier a) ∧
      WritesList [("imports", some "basis"), ("asimport", none)]
        "(\n  imports as basis,\n  asimport,\n)".toList ∧
      parse? statement ⟨0, 0, 3, 1⟩ =
        some { unresolved "pkg.fromage" "basis" statement ⟨0, 0, 3, 1⟩ with
          imported := ["imports", "asimport"] } := by
  have hpath : IsModulePath "pkg.fromage" := by decide
  have hitems : ∀ i ∈ [("imports", some "basis"), ("asimport", none)],
      IsIdentifier i.1 ∧ ∀ a ∈ i.2, IsIdentifier a := by decide
  have hnames : WritesItems [("imports", some "basis"), ("asimport", none)]
      "imports as basis,\n  asimport".toList :=
    @WritesItems.cons ("imports", some "basis") [("asimport", none)] "\n  ".toList
      "asimport".toList (List.all_eq_true.1 (by decide)) (.last ("asimport", none))
  have hlist : WritesList [("imports", some "basis"), ("asimport", none)]
      "(\n  imports as basis,\n  asimport,\n)".toList :=
    @WritesList.bracketed _ [] "\n  ".toList "imports as basis,\n  asimport".toList []
      ",\n".toList [] (List.forall_mem_nil _) (List.all_eq_true.1 (by decide)) hnames
      (List.forall_mem_nil _)
      (.inr ⟨['\n'], rfl, List.all_eq_true.1 (by decide)⟩) (List.forall_mem_nil _)
  exact ⟨hpath, hitems, hlist, parse?_from_plain 2 hpath hitems hlist ⟨0, 0, 3, 1⟩⟩

end Plain

end Import
end CompletionPrompt

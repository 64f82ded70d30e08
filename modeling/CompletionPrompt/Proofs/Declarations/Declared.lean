import Mathlib.Data.List.Nodup
import CompletionPrompt.Proofs.Declarations.Listed

/-!
# Declared names are listed

A row declares a function where it starts with `def`, one or more blanks, a name, blanks or none and
an opening bracket (`declaredFunction?_eq_some_iff`), and a class where it starts with `class`, one
or more blanks and a name (`declaredClass?_eq_some_iff`). A name is made of ASCII letters, digits
and underscores here, so that every ASCII identifier is one.

The scan for functions lets blanks go over row ends, and what it finds does not overlap. But
nothing that it finds takes up the start of a declaration: from no place inside of it a function is
declared (`declaredFunction?_append_eq_none`). So the declared functions are listed, in order and as
often as they are declared (`declaredFrom_sublist`). Classes are listed in the order of the first
rows that name them (`pairwise_firstClassRow`), the last row aside.
-/

namespace CompletionPrompt
namespace Declarations

/-! ### Declarations at the start of a text -/

/-- The name behind a keyword and one or more blanks, and what follows it. -/
def declaredName? (word : String) (s : List Char) : Option (List Char × List Char) :=
  ((Import.after? word s).bind Import.afterBlanks?).bind (Import.run? isNameChar)

/-- The function that a text declares at its start. -/
def declaredFunction? (s : List Char) : Option (List Char) :=
  (declaredName? "def" s).bind fun (name, rest) =>
    if (rest.dropWhile Text.isBlank).head? = some '(' then some name else none

/-- The class that a row declares. -/
def declaredClass? (row : List Char) : Option (List Char) :=
  (declaredName? "class" row).map (·.1)

/-- The class that a row names: what stands behind `class`, and behind blanks if there are any. -/
def namedClass? (row : List Char) : Option (List Char) :=
  (nameAfter? "class" row).map (·.1)

theorem declaredName?_eq_some_iff {word : String} {s name rest : List Char} :
    declaredName? word s = some (name, rest) ↔
      ∃ gap, s = word.toList ++ (gap ++ (name ++ rest)) ∧ Import.IsBlanks gap ∧ IsName name ∧
        ∀ c ∈ rest.head?, isNameChar c = false := by
  simp only [declaredName?, Option.bind_eq_some_iff, Import.after?_eq_some_iff,
    Import.afterBlanks?_eq_some_iff, Import.run?_eq_some_iff]
  constructor
  · rintro ⟨_, ⟨_, rfl, gap, rfl, hgap, -⟩, rfl, hne, hname, hrest⟩
    exact ⟨gap, rfl, hgap, ⟨hne, hname⟩, hrest⟩
  · rintro ⟨gap, rfl, hgap, hname, hrest⟩
    obtain ⟨c, name, rfl⟩ := List.exists_cons_of_ne_nil hname.1
    have hblank : ∀ d ∈ (c :: name ++ rest).head?, Text.isBlank d = false :=
      Import.forall_mem_head?_cons (not_isBlank_of_isNameChar (hname.2 c List.mem_cons_self))
    exact ⟨_, ⟨_, rfl, gap, rfl, hgap, hblank⟩, rfl, hname.1, hname.2, hrest⟩

/-- What is declared behind a keyword is found behind it. -/
theorem nameAfter?_of_declaredName? {word : String} {s : List Char} {found : List Char × List Char}
    (h : declaredName? word s = some found) : nameAfter? word s = some found := by
  obtain ⟨gap, hs, hgap, hname, hrest⟩ := declaredName?_eq_some_iff.1 h
  exact nameAfter?_eq_some_iff.2 ⟨gap, hs, hgap.2, hname, hrest⟩

/-- **A declared function** stands behind `def` and one or more blanks, in front of an opening
bracket. -/
theorem declaredFunction?_eq_some_iff {s name : List Char} :
    declaredFunction? s = some name ↔
      ∃ gap behind after, s = "def".toList ++ (gap ++ (name ++ (behind ++ '(' :: after))) ∧
        Import.IsBlanks gap ∧ IsName name ∧ ∀ c ∈ behind, Text.isBlank c = true := by
  simp only [declaredFunction?, Option.bind_eq_some_iff, Prod.exists, declaredName?_eq_some_iff]
  constructor
  · rintro ⟨found, rest, ⟨gap, rfl, hgap, hname, -⟩, hbracket⟩
    split at hbracket
    · rename_i hhead
      obtain rfl := Option.some.inj hbracket
      obtain ⟨after, hafter⟩ := List.head?_eq_some_iff.1 hhead
      refine ⟨gap, rest.takeWhile Text.isBlank, after, ?_, hgap, hname,
        fun c hc => List.mem_takeWhile_imp hc⟩
      rw [← hafter, List.takeWhile_append_dropWhile]
    · cases hbracket
  · rintro ⟨gap, behind, after, rfl, hgap, hname, hbehind⟩
    refine ⟨name, _, ⟨gap, rfl, hgap, hname, not_isNameChar_of_bracket hbehind after⟩, ?_⟩
    rw [dropWhile_append_bracket hbehind, List.head?_cons, if_pos rfl]

/-- **A declared class** stands behind `class` and one or more blanks. -/
theorem declaredClass?_eq_some_iff {row name : List Char} :
    declaredClass? row = some name ↔
      ∃ gap rest, row = "class".toList ++ (gap ++ (name ++ rest)) ∧ Import.IsBlanks gap ∧
        IsName name ∧ ∀ c ∈ rest.head?, isNameChar c = false := by
  simp only [declaredClass?, Option.map_eq_some_iff, Prod.exists, exists_and_right, exists_eq_right,
    declaredName?_eq_some_iff]
  exact exists_comm

/-- A row names the class that it declares. -/
theorem namedClass?_of_declaredClass? {row name : List Char} (h : declaredClass? row = some name) :
    namedClass? row = some name := by
  obtain ⟨⟨_, rest⟩, hfound, rfl⟩ := Option.map_eq_some_iff.1 h
  rw [namedClass?, nameAfter?_of_declaredName? hfound, Option.map_some]

/-! ### No match takes up a declaration -/

/-- A declared function is one that the scan finds. -/
theorem functionHere?_of_declaredFunction? {s name : List Char}
    (h : declaredFunction? s = some name) : ∃ rest, functionHere? s = some (name, rest) := by
  obtain ⟨gap, behind, after, hs, hgap, hname, hbehind⟩ := declaredFunction?_eq_some_iff.1 h
  exact ⟨after, functionHere?_eq_some_iff.2 ⟨gap, behind, hs, hgap.2, hname, hbehind⟩⟩

/-- What a text declares at its start does not hang on what follows the text. -/
theorem declaredFunction?_append {s name : List Char} (h : declaredFunction? s = some name)
    (t : List Char) : declaredFunction? (s ++ t) = some name := by
  obtain ⟨gap, behind, after, rfl, hgap, hname, hbehind⟩ := declaredFunction?_eq_some_iff.1 h
  exact declaredFunction?_eq_some_iff.2
    ⟨gap, behind, after ++ t, by simp, hgap, hname, hbehind⟩

theorem declaredFunction?_eq_none_of_head? {s : List Char} (h : s.head? ≠ some 'd') :
    declaredFunction? s = none := by
  refine Option.eq_none_iff_forall_ne_some.2 fun name hname => h ?_
  obtain ⟨gap, behind, after, rfl, -⟩ := declaredFunction?_eq_some_iff.1 hname
  rfl

/-- The end of a name in front of an opening bracket declares nothing: were it `def`, a name would
have to follow and not a bracket. -/
theorem declaredFunction?_name_append {name behind rest : List Char}
    (hname : ∀ c ∈ name, isNameChar c = true) (hbehind : ∀ c ∈ behind, Text.isBlank c = true) :
    declaredFunction? (name ++ (behind ++ '(' :: rest)) = none := by
  have hword := Import.bind_after?_afterBlanks?_of_class (k := "def")
    (fun c hc => not_isBlank_of_isNameChar hc) (List.all_eq_true.1 (by decide)) hname
    (not_isNameChar_of_bracket hbehind rest)
  rw [declaredFunction?, declaredName?, hword]
  split
  · cases hafter : Import.afterBlanks? (behind ++ '(' :: rest) with
    | none => rfl
    | some t =>
      obtain ⟨gap, hgap, hblanks, ht⟩ := Import.afterBlanks?_eq_some_iff.1 hafter
      obtain ⟨-, rfl⟩ := Import.append_inj_of_head? hbehind
        (Import.forall_mem_head?_cons (by decide)) hblanks.2 ht hgap
      rfl
  · rfl

/-! ### The scan for functions -/

/-- The functions declared at starts of rows, whatever rows a declaration goes over; `fresh` says
whether the text starts a row. -/
def declaredFrom : Bool → List Char → List (List Char)
  | _, [] => []
  | fresh, c :: cs =>
    (if fresh then declaredFunction? (c :: cs) else none).toList ++ declaredFrom (c = '\n') cs

/-- Does a row start behind a text? `fresh` says whether one starts in front of it. -/
def freshAfter (fresh : Bool) (s : List Char) : Bool :=
  s.foldl (fun _ c => c = '\n') fresh

@[simp] theorem freshAfter_nil (fresh : Bool) : freshAfter fresh [] = fresh := rfl

@[simp] theorem freshAfter_cons (fresh : Bool) (c : Char) (s : List Char) :
    freshAfter fresh (c :: s) = freshAfter (c = '\n') s := rfl

@[simp] theorem freshAfter_append (fresh : Bool) (s t : List Char) :
    freshAfter fresh (s ++ t) = freshAfter (freshAfter fresh s) t :=
  List.foldl_append

/-- A stretch with no declaration in it is passed over. -/
theorem declaredFrom_append {s t : List Char} (fresh : Bool)
    (h : ∀ here, here <:+ s → here ≠ [] → declaredFunction? (here ++ t) = none) :
    declaredFrom fresh (s ++ t) = declaredFrom (freshAfter fresh s) t := by
  induction s generalizing fresh with
  | nil => rfl
  | cons c s ih =>
    have hhere : declaredFunction? (c :: (s ++ t)) = none :=
      h _ List.suffix_rfl (List.cons_ne_nil c s)
    have hnone : (if fresh then declaredFunction? (c :: (s ++ t)) else none) = none := by
      split
      · exact hhere
      · rfl
    rw [List.cons_append, declaredFrom, hnone, freshAfter_cons]
    exact ih _ fun here hsuffix => h here (hsuffix.trans (List.suffix_cons c s))

/-- No declaration starts with another character than its first. -/
theorem declaredFrom_append_of_not_mem {s : List Char} (fresh : Bool) (hs : 'd' ∉ s)
    (t : List Char) : declaredFrom fresh (s ++ t) = declaredFrom (freshAfter fresh s) t := by
  refine declaredFrom_append fresh fun here hsuffix hne => ?_
  obtain ⟨c, here, rfl⟩ := List.exists_cons_of_ne_nil hne
  refine declaredFunction?_eq_none_of_head? fun hhead => hs (hsuffix.subset ?_)
  rw [List.cons_append, List.head?_cons, Option.some.injEq] at hhead
  exact hhead ▸ List.mem_cons_self

/-- **What the scan finds takes up no other declaration:** behind the first character of a match,
the next declaration comes after the match. -/
theorem declaredFrom_of_functionHere? {c : Char} {cs name rest : List Char}
    (h : functionHere? (c :: cs) = some (name, rest)) :
    c ≠ '\n' ∧ ∃ matched, cs = matched ++ rest ∧
      ∀ fresh, declaredFrom fresh cs = declaredFrom (freshAfter fresh matched) rest := by
  obtain ⟨gap, behind, hs, hgap, hname, hbehind⟩ := functionHere?_eq_some_iff.1 h
  have hblank : ∀ {g : List Char}, (∀ d ∈ g, Text.isBlank d = true) → 'd' ∉ g := fun hg hd =>
    absurd (hg 'd' hd) (by decide)
  have hfront : 'd' ∉ "ef".toList ++ gap := fun hd => by
    rcases List.mem_append.1 hd with hd | hd
    · exact absurd hd (by decide)
    · exact hblank hgap hd
  have hback : 'd' ∉ behind ++ ['('] := fun hd => by
    rcases List.mem_append.1 hd with hd | hd
    · exact hblank hbehind hd
    · exact absurd hd (by decide)
  obtain ⟨rfl, rfl⟩ : c = 'd' ∧ cs = "ef".toList ++ gap ++ (name ++ (behind ++ ['('] ++ rest)) := by
    simpa using hs
  refine ⟨by decide, "ef".toList ++ gap ++ (name ++ (behind ++ ['('])), by simp, fun fresh => ?_⟩
  have hpass : ∀ here, here <:+ name → here ≠ [] →
      declaredFunction? (here ++ (behind ++ ['('] ++ rest)) = none := fun here hsuffix _ => by
    rw [List.append_assoc, List.singleton_append]
    exact declaredFunction?_name_append (fun d hd => hname.2 d (hsuffix.subset hd)) hbehind
  rw [declaredFrom_append_of_not_mem fresh hfront, declaredFrom_append _ hpass,
    declaredFrom_append_of_not_mem _ hback]
  simp only [freshAfter_append]

/-- What is declared at a place is what is found there. -/
theorem declaredHere_sublist (fresh : Bool) (s : List Char) :
    (if fresh then declaredFunction? s else none).toList.Sublist
      ((if fresh then functionHere? s else none).map (·.1)).toList := by
  split
  · cases hname : declaredFunction? s with
    | none => exact List.nil_sublist _
    | some name =>
      obtain ⟨rest, hrest⟩ := functionHere?_of_declaredFunction? hname
      rw [hrest]
      exact List.Sublist.refl [name]
  · exact List.Sublist.refl []

/-- **The scan misses no declared function,** from any place on that it goes on from. -/
theorem declaredFrom_sublist (skip : Nat) (fresh : Bool) (s : List Char) :
    (declaredFrom (freshAfter fresh (s.take skip)) (s.drop skip)).Sublist
      (functionsFrom skip fresh s) := by
  fun_induction functionsFrom skip fresh s with
  | case1 => simp [declaredFrom]
  | case2 skip fresh c cs ih => exact ih
  | case3 fresh c cs name rest hfound ih =>
    have hhere := declaredHere_sublist fresh (c :: cs)
    rw [hfound] at hhere
    split at hfound
    · obtain ⟨hc, matched, rfl, hrest⟩ := declaredFrom_of_functionHere? hfound
      have hlength : (matched ++ rest).length - rest.length = matched.length := by simp
      rw [hlength, List.take_left, List.drop_left, ← hrest] at ih
      rw [List.take_zero, List.drop_zero, freshAfter_nil, declaredFrom, decide_eq_false hc, hlength]
      exact hhere.append ih
    · cases hfound
  | case4 fresh c cs hnone ih =>
    have hhere := declaredHere_sublist fresh (c :: cs)
    rw [hnone] at hhere
    rw [List.take_zero, List.drop_zero, freshAfter_nil, declaredFrom]
    exact hhere.append ih

/-- The functions that rows declare, each on its own row, are declared at starts of rows. -/
theorem filterMap_rows_sublist (fresh : Bool) (s : List Char) :
    ((if fresh then Text.rows s else (Text.rows s).tail).filterMap declaredFunction?).Sublist
      (declaredFrom fresh s) := by
  induction s generalizing fresh with
  | nil => cases fresh <;> exact List.Sublist.refl []
  | cons c s ih =>
    have hbelow : ((Text.rows (c :: s)).tail.filterMap declaredFunction?).Sublist
        (declaredFrom (c = '\n') s) := by
      simpa [Text.tail_rows_cons] using ih (c = '\n')
    cases fresh with
    | false => exact hbelow
    | true =>
      rw [if_pos rfl, ← Text.firstRow_cons_tail, declaredFrom, if_pos rfl]
      cases hname : declaredFunction? (Text.firstRow (c :: s)) with
      | none =>
        rw [List.filterMap_cons_none hname]
        exact hbelow.trans (List.sublist_append_right _ _)
      | some name =>
        obtain ⟨t, ht⟩ := Text.firstRow_prefix (c :: s)
        have hhere := declaredFunction?_append hname t
        rw [ht] at hhere
        rw [List.filterMap_cons_some hname, hhere]
        exact hbelow.cons_cons name

/-- **The functions that rows declare are listed,** in order and as often as they are declared. -/
theorem declaredFunctions_sublist (indentation source : String) (includePrivate : Bool) :
    (((Text.rows source.toList).filterMap declaredFunction?).map String.ofList).Sublist
      (ofSource indentation includePrivate source).functions :=
  ((filterMap_rows_sublist true source.toList).trans
    (declaredFrom_sublist 0 true source.toList)).map String.ofList

/-! ### The scan for classes -/

variable {indentation row name : List Char} {includePrivate : Bool} {known rows : List (List Char)}

/-- The last row is not counted. -/
theorem classesFrom_singleton : classesFrom indentation includePrivate known [row] = [] := by
  unfold classesFrom
  split <;> simp [classesFrom]

/-- A row that names no class, or a known one. -/
theorem classesFrom_cons_of_known (h : ∀ name, namedClass? row = some name → name ∈ known) :
    classesFrom indentation includePrivate known (row :: rows) =
      classesFrom indentation includePrivate known rows := by
  rw [classesFrom]
  split
  · rename_i found rest hfound
    rw [if_pos]
    simpa using .inr (h found (by simp [namedClass?, hfound]))
  · rfl

/-- A row that names a new class, in front of others. -/
theorem classesFrom_cons_of_new (hne : rows ≠ []) (hname : namedClass? row = some name)
    (hnew : name ∉ known) :
    classesFrom indentation includePrivate known (row :: rows) =
      (name, methodsIn indentation includePrivate rows) ::
        classesFrom indentation includePrivate (name :: known) rows := by
  obtain ⟨⟨_, rest⟩, hfound, rfl⟩ := Option.map_eq_some_iff.1 hname
  rw [classesFrom, hfound]
  simp [hne, hnew]

/-- A row names a new class, or else no class or a known one. -/
theorem known_or_new (known : List (List Char)) (row : List Char) :
    (∀ n, namedClass? row = some n → n ∈ known) ∨ ∃ n, namedClass? row = some n ∧ n ∉ known := by
  by_cases h : ∀ n, namedClass? row = some n → n ∈ known
  · exact .inl h
  · push Not at h
    exact .inr h

/-- **A class is listed** when a row other than the last names it and it is not known before. -/
theorem mem_classesFrom_iff :
    name ∈ (classesFrom indentation includePrivate known rows).map (·.1) ↔
      name ∉ known ∧ ∃ row ∈ rows.dropLast, namedClass? row = some name := by
  induction rows generalizing known with
  | nil => simp [classesFrom]
  | cons row rows ih =>
    by_cases hne : rows = []
    · simp [hne, classesFrom_singleton]
    rw [List.dropLast_cons_of_ne_nil hne, List.exists_mem_cons_iff]
    rcases known_or_new known row with hknown | ⟨n, hn, hnew⟩
    · rw [classesFrom_cons_of_known hknown, ih]
      exact and_congr_right fun hnew => (or_iff_right fun h => hnew (hknown name h)).symm
    · rw [classesFrom_cons_of_new hne hn hnew, List.map_cons, List.mem_cons, ih, hn,
        Option.some.injEq, List.mem_cons]
      by_cases hsame : name = n
      · simp [hsame, hnew]
      · simp [hsame, Ne.symm hsame]

/-- The number of the first row other than the last that names a class. -/
def firstClassRow (rows : List (List Char)) (name : List Char) : Nat :=
  rows.dropLast.findIdx fun row => namedClass? row = some name

theorem firstClassRow_cons (hne : rows ≠ []) :
    firstClassRow (row :: rows) name =
      if namedClass? row = some name then 0 else firstClassRow rows name + 1 := by
  simp [firstClassRow, List.dropLast_cons_of_ne_nil hne, List.findIdx_cons, cond_eq_ite]

/-- A row that names none of some classes leaves their order as it is. -/
theorem pairwise_firstClassRow_cons {names : List (List Char)} (hne : rows ≠ [])
    (h : names.Pairwise fun a b => firstClassRow rows a < firstClassRow rows b)
    (hother : ∀ n ∈ names, namedClass? row ≠ some n) :
    names.Pairwise fun a b => firstClassRow (row :: rows) a < firstClassRow (row :: rows) b := by
  refine h.imp_of_mem fun ha hb hlt => ?_
  rw [firstClassRow_cons hne, firstClassRow_cons hne, if_neg (hother _ ha), if_neg (hother _ hb)]
  omega

/-- **Classes are listed in the order of the first rows that name them.** -/
theorem pairwise_firstClassRow :
    ((classesFrom indentation includePrivate known rows).map (·.1)).Pairwise fun a b =>
      firstClassRow rows a < firstClassRow rows b := by
  induction rows generalizing known with
  | nil => exact .nil
  | cons row rows ih =>
    by_cases hne : rows = []
    · rw [hne, classesFrom_singleton]
      exact .nil
    rcases known_or_new known row with hknown | ⟨n, hn, hnew⟩
    · rw [classesFrom_cons_of_known hknown]
      exact pairwise_firstClassRow_cons hne ih fun n hn hrow =>
        (mem_classesFrom_iff.1 hn).1 (hknown n hrow)
    · have hother : ∀ m ∈ (classesFrom indentation includePrivate (n :: known) rows).map (·.1),
          namedClass? row ≠ some m := fun m hm hrow => by
        obtain rfl := Option.some.inj (hn.symm.trans hrow)
        exact (mem_classesFrom_iff.1 hm).1 List.mem_cons_self
      rw [classesFrom_cons_of_new hne hn hnew, List.map_cons, List.pairwise_cons]
      refine ⟨fun m hm => ?_, pairwise_firstClassRow_cons hne ih hother⟩
      rw [firstClassRow_cons hne, firstClassRow_cons hne, if_pos hn, if_neg (hother m hm)]
      omega

theorem nodup_classesFrom :
    ((classesFrom indentation includePrivate known rows).map (·.1)).Nodup :=
  pairwise_firstClassRow.imp (S := (· ≠ ·)) fun hlt hsame =>
    Nat.ne_of_lt hlt (congrArg (firstClassRow rows) hsame)

theorem classNames_ofSource (indentation source : String) (includePrivate : Bool) :
    (ofSource indentation includePrivate source).classes.map (·.1) =
      ((classesFrom indentation.toList includePrivate [] (Text.rows source.toList)).map (·.1)).map
        String.ofList := by
  simp [ofSource, Function.comp_def]

theorem nodup_classNames (indentation source : String) (includePrivate : Bool) :
    ((ofSource indentation includePrivate source).classes.map (·.1)).Nodup := by
  rw [classNames_ofSource]
  exact nodup_classesFrom.map fun _ _ h => String.ofList_injective h

/-- **No declared name is missed.** The functions that rows declare are listed in order and as often
as they are declared, perhaps with others between them. The classes that rows other than the last
declare are listed, and those that are listed are named by such rows. Each class is listed once, and
the classes come in the order of the first such rows that name them. -/
theorem declared_names_listed (indentation source : String) (includePrivate : Bool) :
    let d := ofSource indentation includePrivate source
    let rows := Text.rows source.toList
    ((rows.filterMap declaredFunction?).map String.ofList).Sublist d.functions ∧
      (rows.dropLast.filterMap declaredClass?).map String.ofList ⊆ d.classes.map (·.1) ∧
      d.classes.map (·.1) ⊆ (rows.dropLast.filterMap namedClass?).map String.ofList ∧
      (d.classes.map (·.1)).Nodup ∧
      (d.classes.map (·.1)).Pairwise fun a b =>
        firstClassRow rows a.toList < firstClassRow rows b.toList := by
  intro d rows
  have hnames := classNames_ofSource indentation source includePrivate
  have hordered : (d.classes.map (·.1)).Pairwise fun a b =>
      firstClassRow rows a.toList < firstClassRow rows b.toList := by
    rw [hnames, List.pairwise_map]
    simpa only [String.toList_ofList] using pairwise_firstClassRow
  refine ⟨declaredFunctions_sublist indentation source includePrivate, ?_, ?_,
    nodup_classNames indentation source includePrivate, hordered⟩
  · rw [hnames]
    refine List.map_subset _ fun name hname => ?_
    obtain ⟨row, hrow, hdeclared⟩ := List.mem_filterMap.1 hname
    exact mem_classesFrom_iff.2
      ⟨List.not_mem_nil, row, hrow, namedClass?_of_declaredClass? hdeclared⟩
  · rw [hnames]
    exact List.map_subset _ fun name hname =>
      List.mem_filterMap.2 (mem_classesFrom_iff.1 hname).2

/-- A function of the word `def` swallows no declaration below it, and a class on the last row is
not counted. -/
example : ofSource "    " false "def\ndef f (x):\nclass A:\nclass B\nclass A:\nclass C" =
    ⟨["f"], [("A", []), ("B", [])]⟩ := by decide +kernel

end Declarations
end CompletionPrompt

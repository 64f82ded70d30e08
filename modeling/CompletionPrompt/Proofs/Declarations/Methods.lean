import CompletionPrompt.Proofs.Declarations.Declared

/-!
# Methods stay in their class

The methods of a class are read from the rows below it, down to the first row that is not blank and
starts neither with the indentation nor with a number sign. Such a row ends the body of every class
above it (`EndsBody`), so the methods of these classes do not hang on what stands below it
(`listsClass_of_endsBody`). Where the indentation is made of spaces and tabs, the row of a class and
the row where a function at the top level starts are such rows (`endsBody_of_declaration`).
-/

namespace CompletionPrompt
namespace Declarations

/-! ### Methods -/

/-- A row that ends the body of every class above it. -/
def EndsBody (indentation row : List Char) : Prop :=
  Text.allBlank row = false ∧ indentation.isPrefixOf row = false ∧ row.head? ≠ some '#'

instance (indentation row : List Char) : Decidable (EndsBody indentation row) :=
  inferInstanceAs (Decidable (_ ∧ _ ∧ _))

/-- The method that a row declares: the function behind one level of indentation. -/
def methodOn? (indentation row : List Char) : Option (List Char) :=
  if indentation.isPrefixOf row then
    (functionHere? (row.drop indentation.length)).map (·.1)
  else none

/-- A class is listed once, with these methods. -/
def ListsClass (d : Declarations) (name : String) (methods : List String) : Prop :=
  ∀ others, (name, others) ∈ d.classes ↔ others = methods

variable {indentation row name : List Char} {includePrivate : Bool}
  {known above body below : List (List Char)}

theorem methodOn?_eq_some_iff :
    methodOn? indentation row = some name ↔
      ∃ gap behind rest,
        row = indentation ++ ("def".toList ++ (gap ++ (name ++ (behind ++ '(' :: rest)))) ∧
          (∀ c ∈ gap, Text.isBlank c = true) ∧ IsName name ∧
          ∀ c ∈ behind, Text.isBlank c = true := by
  rw [methodOn?]
  split
  · rename_i hprefix
    obtain ⟨here, rfl⟩ := Text.isPrefixOf_eq_true_iff.1 hprefix
    rw [List.drop_left, Option.map_eq_some_iff]
    constructor
    · rintro ⟨⟨_, rest⟩, hhere, rfl⟩
      obtain ⟨gap, behind, rfl, h⟩ := functionHere?_eq_some_iff.1 hhere
      exact ⟨gap, behind, rest, rfl, h⟩
    · rintro ⟨gap, behind, rest, hrow, h⟩
      rw [List.append_cancel_left hrow]
      exact ⟨(name, rest), functionHere?_eq_some_iff.2 ⟨gap, behind, rfl, h⟩, rfl⟩
  · rename_i hprefix
    refine ⟨fun h => (by cases h), ?_⟩
    rintro ⟨gap, behind, rest, rfl, -⟩
    exact absurd (Text.isPrefixOf_eq_true_iff.2 ⟨_, rfl⟩) hprefix

/-- The methods of a class are declared on the rows of its body, in order. -/
theorem methodsIn_sublist (rows : List (List Char)) :
    (methodsIn indentation includePrivate rows).Sublist (rows.filterMap (methodOn? indentation)) :=
  List.filter_sublist.trans ((List.takeWhile_sublist _).filterMap _)

/-- **A row that ends the body ends the search for methods,** whatever follows. -/
theorem methodsIn_append_cons (h : EndsBody indentation row) :
    methodsIn indentation includePrivate (body ++ row :: below) =
      methodsIn indentation includePrivate body := by
  obtain ⟨hblank, hindented, hcomment⟩ := h
  rw [methodsIn, methodsIn, List.takeWhile_append, List.takeWhile_cons_of_neg]
  · split
    · rename_i hall
      rw [List.append_nil, (List.takeWhile_prefix _).eq_of_length hall]
    · rfl
  · simp [hblank, hindented, hcomment]

/-- The row of a class, and the row where a function at the top level starts, end the body of the
classes above them. -/
theorem endsBody_of_declaration (hne : indentation ≠ [])
    (hindentation : ∀ c ∈ indentation, c = ' ' ∨ c = '\t')
    (hrow : "class".toList <+: row ∨ "def".toList <+: row) : EndsBody indentation row := by
  obtain ⟨c, rest, rfl, hc⟩ : ∃ c rest, row = c :: rest ∧ (c = 'c' ∨ c = 'd') := by
    rcases hrow with ⟨rest, rfl⟩ | ⟨rest, rfl⟩
    · exact ⟨'c', _, rfl, .inl rfl⟩
    · exact ⟨'d', _, rfl, .inr rfl⟩
  obtain ⟨d, indentation, rfl⟩ := List.exists_cons_of_ne_nil hne
  have hd := hindentation d List.mem_cons_self
  rcases hc with rfl | rfl <;> rcases hd with rfl | rfl <;>
    simp [EndsBody, Text.allBlank, Text.isBlank, List.isPrefixOf]

/-! ### Classes -/

/-- A class is listed where it is first named, with the methods of the rows below. -/
theorem mem_classesFrom_of_first (hnew : name ∉ known)
    (hfirst : ∀ r ∈ above, namedClass? r ≠ some name) (hrow : namedClass? row = some name)
    (hne : below ≠ []) :
    (name, methodsIn indentation includePrivate below) ∈
      classesFrom indentation includePrivate known (above ++ row :: below) := by
  induction above generalizing known with
  | nil =>
    rw [List.nil_append, classesFrom_cons_of_new hne hrow hnew]
    exact List.mem_cons_self
  | cons r above ih =>
    obtain ⟨hr, hfirst⟩ := List.forall_mem_cons.1 hfirst
    rw [List.cons_append]
    rcases known_or_new known r with hknown | ⟨n, hn, hnknown⟩
    · rw [classesFrom_cons_of_known hknown]
      exact ih hnew hfirst
    · rw [classesFrom_cons_of_new (List.append_ne_nil_of_right_ne_nil _ (List.cons_ne_nil _ _)) hn
        hnknown]
      have hother : name ≠ n := fun hsame => hr (hsame ▸ hn)
      exact List.mem_cons_of_mem _ (ih (by simp [hother, hnew]) hfirst)

/-- **A class is listed with the methods of its body,** whatever stands below the row that ends the
body. -/
theorem listsClass_of_endsBody {indentation source : String} {stop : List Char}
    (hsource : Text.rows source.toList = above ++ row :: (body ++ stop :: below))
    (hfirst : ∀ r ∈ above, namedClass? r ≠ some name) (hrow : namedClass? row = some name)
    (hstop : EndsBody indentation.toList stop) :
    ListsClass (ofSource indentation includePrivate source) (String.ofList name)
      ((methodsIn indentation.toList includePrivate body).map String.ofList) := by
  have hmem : (String.ofList name,
      (methodsIn indentation.toList includePrivate body).map String.ofList) ∈
        (ofSource indentation includePrivate source).classes := by
    have hlisted : (name, methodsIn indentation.toList includePrivate (body ++ stop :: below)) ∈
        classesFrom indentation.toList includePrivate []
          (above ++ row :: (body ++ stop :: below)) :=
      mem_classesFrom_of_first List.not_mem_nil hfirst hrow
        (List.append_ne_nil_of_right_ne_nil body (List.cons_ne_nil stop below))
    rw [← hsource, methodsIn_append_cons hstop] at hlisted
    exact List.mem_map_of_mem hlisted
  intro others
  constructor
  · intro hothers
    have hsame := List.inj_on_of_nodup_map (nodup_classNames indentation source includePrivate)
      hothers hmem rfl
    exact (Prod.mk.inj hsame).2
  · rintro rfl
    exact hmem

/-- **Methods stay in their class.** Let the indentation be made of spaces and tabs. Where two
sources agree on all rows down to one that ends a body, the classes named above that row are listed
with the same methods. And the methods of a class are declared on the rows between the first row
that names it and the next row of a class or of a function at the top level, in order. -/
theorem methods_stay_in_class {indentation : String} (hne : indentation ≠ "")
    (hindentation : ∀ c ∈ indentation.toList, c = ' ' ∨ c = '\t') (includePrivate : Bool) :
    (∀ {source other : String} {above below below' : List (List Char)} {stop : List Char},
      Text.rows source.toList = above ++ stop :: below →
      Text.rows other.toList = above ++ stop :: below' →
      EndsBody indentation.toList stop →
      ∀ row ∈ above, ∀ name ∈ namedClass? row, ∃ methods,
        ListsClass (ofSource indentation includePrivate source) (String.ofList name) methods ∧
        ListsClass (ofSource indentation includePrivate other) (String.ofList name) methods) ∧
    ∀ {source : String} {above body below : List (List Char)} {row next name : List Char},
      Text.rows source.toList = above ++ row :: (body ++ next :: below) →
      namedClass? row = some name → (∀ r ∈ above, namedClass? r ≠ some name) →
      "class".toList <+: next ∨ "def".toList <+: next →
      ∃ methods,
        ListsClass (ofSource indentation includePrivate source) (String.ofList name) methods ∧
        methods.Sublist ((body.filterMap (methodOn? indentation.toList)).map String.ofList) := by
  constructor
  · intro source other above below below' stop hsource hother hstop row hrow name hname
    obtain ⟨first, hfind⟩ := Option.isSome_iff_exists.1
      (List.find?_isSome (p := fun r => namedClass? r = some name).2
        ⟨row, hrow, by simpa using hname⟩)
    obtain ⟨hfirst, front, body, rfl, hfront⟩ := List.find?_eq_some_iff_append.1 hfind
    have hnamed : namedClass? first = some name := by simpa using hfirst
    have hbefore : ∀ r ∈ front, namedClass? r ≠ some name := by simpa using hfront
    rw [List.append_assoc, List.cons_append] at hsource hother
    exact ⟨_, listsClass_of_endsBody hsource hbefore hnamed hstop,
      listsClass_of_endsBody hother hbefore hnamed hstop⟩
  · intro source above body below row next name hsource hrow hfirst hnext
    have hempty : indentation.toList ≠ [] := fun h => hne (String.toList_eq_nil_iff.1 h)
    have hstop := endsBody_of_declaration hempty hindentation hnext
    exact ⟨_, listsClass_of_endsBody hsource hfirst hrow hstop,
      (methodsIn_sublist body).map String.ofList⟩

/-- A blank row and a comment without indentation are inside a class; the row of the next class ends
it, whatever that class has below. -/
theorem methods_stay_in_class_across_comment :
    let indentation := "    "
    let above := ["class A:", "    def f(self):", "", "# or", "    def g(self):"].map String.toList
    let source := "class A:\n    def f(self):\n\n# or\n    def g(self):\nclass B:\n    def f(self):"
    let other := "class A:\n    def f(self):\n\n# or\n    def g(self):\nclass B:\n    def h(self):"
    indentation ≠ "" ∧ (∀ c ∈ indentation.toList, c = ' ' ∨ c = '\t') ∧
      Text.rows source.toList = above ++ "class B:".toList :: ["    def f(self):".toList] ∧
      Text.rows other.toList = above ++ "class B:".toList :: ["    def h(self):".toList] ∧
      EndsBody indentation.toList "class B:".toList ∧
      (∃ methods, ListsClass (ofSource indentation false source) "A" methods ∧
        ListsClass (ofSource indentation false other) "A" methods) ∧
      ∃ methods, ListsClass (ofSource indentation false source) "A" methods ∧
        methods.Sublist (((above.drop 1).filterMap (methodOn? indentation.toList)).map
          String.ofList) := by
  intro indentation above source other
  have hne : indentation ≠ "" := by decide
  have hindentation : ∀ c ∈ indentation.toList, c = ' ' ∨ c = '\t' := by simp [indentation]
  have hsource : Text.rows source.toList =
      above ++ "class B:".toList :: ["    def f(self):".toList] := by decide +kernel
  have hother : Text.rows other.toList =
      above ++ "class B:".toList :: ["    def h(self):".toList] := by decide +kernel
  have hclass : Text.rows source.toList = [] ++ "class A:".toList ::
      (above.drop 1 ++ "class B:".toList :: ["    def f(self):".toList]) := by decide +kernel
  have hstop : EndsBody indentation.toList "class B:".toList := by decide
  have hname : namedClass? "class A:".toList = some "A".toList := by decide
  have hstay := methods_stay_in_class hne hindentation false
  exact ⟨hne, hindentation, hsource, hother, hstop,
    hstay.1 hsource hother hstop _ List.mem_cons_self _ hname,
    hstay.2 hclass hname (by simp) (.inl ⟨" B:".toList, rfl⟩)⟩

end Declarations
end CompletionPrompt

import CompletionPrompt.Proofs.Effect.Unpacking
import CompletionPrompt.Proofs.Text.Joined

/-!
# What a description tells

The description of an effect is rows, each with its row end (`toList_describe`): a head with one row
for each class, one row for all functions and one row for all other objects, where there are any.
Different effects have different descriptions, as long as names hold nothing that the description
puts between them (`describe_unambiguous`).

Names are told apart in a list by its commas, and so are functions with the names of their
parameters and other objects with those of their types. A row of a class holds neither a bracket nor
a colon, and the rows behind it hold one of these, so the rows tell what is listed
(`Listing.rows_inj`).
-/

namespace CompletionPrompt

/-! ### Plain names -/

/-- A name that can be told from what a description puts around it: it is not empty, and it holds no
white space, comma, colon or bracket. -/
def IsPlainName (name : String) : Prop :=
  name.toList ≠ [] ∧ ∀ c ∈ name.toList, Text.isBlank c = false ∧ c ∉ [',', ':', '(', ')']

instance (name : String) : Decidable (IsPlainName name) :=
  decidable_of_iff (name.toList ≠ [] ∧ name.toList.all
      (fun c => !Text.isBlank c && [',', ':', '(', ')'].all (c != ·)) = true)
    (by simp [IsPlainName])

theorem IsPlainName.not_mem {name : String} (h : IsPlainName name) {c : Char}
    (hc : c ∈ [' ', '\n', ',', ':', '(', ')']) : c ∉ name.toList := by
  intro hmem
  obtain ⟨hblank, hmark⟩ := h.2 c hmem
  rcases List.mem_cons.1 hc with rfl | hc
  · exact absurd hblank (by decide)
  · rcases List.mem_cons.1 hc with rfl | hc
    · exact absurd hblank (by decide)
    · exact hmark hc

/-- All that a binding names besides its members is plain: methods, parameters, or the type. -/
def Binding.HasPlainNames : Binding → Prop
  | .type names | .function names => ∀ name ∈ names, IsPlainName name
  | .module _ => True
  | .object typeName => IsPlainName typeName

instance : DecidablePred Binding.HasPlainNames
  | .type names | .function names => inferInstanceAs (Decidable (∀ name ∈ names, _))
  | .module _ => inferInstanceAs (Decidable True)
  | .object typeName => inferInstanceAs (Decidable (IsPlainName typeName))

/-- All names in a namespace are plain, at any depth. -/
def Namespace.HasPlainNames (ns : Namespace) : Prop :=
  ∀ e ∈ ns.members, (∀ name ∈ e.names, IsPlainName name) ∧ e.binding.HasPlainNames

instance (ns : Namespace) : Decidable ns.HasPlainNames :=
  inferInstanceAs (Decidable (∀ e ∈ ns.members, _))

namespace Effect

open Text

/-! ### What is listed -/

/-- What a description lists: classes with the methods that are shown, functions with their
parameters, and other objects with their types. -/
structure Listing where
  classes : List (String × List String)
  functions : List (String × List String)
  others : List (String × String)
deriving DecidableEq, Repr

/-- What the description of an effect lists. -/
def listing (e : Effect) : Listing where
  classes := e.objects.filterMap fun
    | (name, .type methods) => some (name, methods.filter (isShown e.includePrivate))
    | _ => none
  functions := e.objects.filterMap fun
    | (name, .function params) => some (name, params)
    | _ => none
  others := e.objects.filterMap fun
    | (_, .type _) | (_, .function _) => none
    | (name, b) => some (name, b.typeName)

/-- The row of a class. -/
def classRow (c : String × List String) : List Char :=
  " - ".toList ++ c.1.toList ++ " with functions ".toList ++ commaList String.toList c.2

/-- A function with its parameters. -/
def functionText (f : String × List String) : List Char :=
  f.1.toList ++ "(".toList ++ commaList String.toList f.2 ++ ")".toList

/-- An object with its type. -/
def otherText (o : String × String) : List Char :=
  o.1.toList ++ ": ".toList ++ o.2.toList

/-- The row of all functions. -/
def functionsRow (asName : String) (fs : List (String × List String)) : List Char :=
  asName.toList ++ " adds the functions ".toList ++ commaList functionText fs

/-- The row of all other objects, which may not be the first row. -/
def othersRow (asName : String) (also : Bool) (os : List (String × String)) : List Char :=
  asName.toList ++ " ".toList ++ (if also then "also " else "").toList ++
    "adds the objects: ".toList ++ commaList otherText os

/-- The row of all other objects, where there are any. -/
def otherRows (asName : String) (also : Bool) (os : List (String × String)) : List (List Char) :=
  if os = [] then [] else [othersRow asName also os]

/-- The rows after those for classes. -/
def lastRows (asName : String) (also : Bool) (fs : List (String × List String))
    (os : List (String × String)) : List (List Char) :=
  if fs = [] then otherRows asName also os
  else functionsRow asName fs :: otherRows asName true os

/-- The row above those for classes. -/
def classesRow (asName : String) : List Char :=
  asName.toList ++ " adds the following classes:".toList

/-- The rows of a description. -/
def Listing.rows (asName : String) (l : Listing) : List (List Char) :=
  if l.classes = [] then lastRows asName false l.functions l.others
  else
    classesRow asName :: (l.classes.map classRow ++ lastRows asName true l.functions l.others)

theorem classes_eq (e : Effect) : e.classes = e.listing.classes.map (String.ofList ∘ classRow) := by
  rw [classes, listing, List.map_filterMap]
  refine List.filterMap_congr fun ⟨name, b⟩ _ => ?_
  cases b <;> simp [describeClass, classRow, commaList, ← String.toList_inj]

theorem functions_eq (e : Effect) :
    e.functions = e.listing.functions.map (String.ofList ∘ functionText) := by
  rw [functions, listing, List.map_filterMap]
  refine List.filterMap_congr fun ⟨name, b⟩ _ => ?_
  cases b <;> simp [describeFunction, functionText, commaList, ← String.toList_inj]

theorem others_eq (e : Effect) : e.others = e.listing.others.map (String.ofList ∘ otherText) := by
  rw [others, listing, List.map_filterMap]
  refine List.filterMap_congr fun ⟨name, b⟩ _ => ?_
  cases b <;> simp [otherText, ← String.toList_inj]

/-- **A description is its rows,** each with its row end. -/
theorem toList_describe (e : Effect) :
    e.describe.toList = (e.listing.rows e.asName).flatMap (· ++ ['\n']) := by
  have hrows (hne : e.listing.classes ≠ []) :
      unrows (e.listing.classes.map classRow) ++ ['\n'] = _ :=
    unrows_append_feed (by simpa using hne)
  simp only [describe, Listing.rows, lastRows, otherRows, List.isEmpty_iff, Bool.and_eq_true,
    classes_eq, functions_eq, others_eq, List.map_eq_nil_iff]
  by_cases hclasses : e.listing.classes = [] <;> by_cases hfunctions : e.listing.functions = [] <;>
    by_cases hothers : e.listing.others = [] <;>
    simp [hclasses, hfunctions, hothers, classesRow, functionsRow, othersRow, commaList,
      String.toList_intercalate, Function.comp_def, ← hrows, unrows]

/-! ### Plain listings -/

/-- The names of a class and its methods, or of a function and its parameters, are plain. -/
def IsPlainItem (c : String × List String) : Prop :=
  IsPlainName c.1 ∧ ∀ name ∈ c.2, IsPlainName name

/-- All names in a listing are plain. -/
structure Listing.IsPlain (l : Listing) : Prop where
  classes : ∀ c ∈ l.classes, IsPlainItem c
  functions : ∀ f ∈ l.functions, IsPlainItem f
  others : ∀ o ∈ l.others, IsPlainName o.1 ∧ IsPlainName o.2

theorem isPlainName_intercalate {names : List String} (hne : names ≠ [])
    (h : ∀ name ∈ names, IsPlainName name) : IsPlainName (".".intercalate names) := by
  rw [IsPlainName, String.toList_intercalate]
  constructor
  · obtain ⟨name, names, rfl⟩ := List.exists_cons_of_ne_nil hne
    have hname := (h name List.mem_cons_self).1
    cases names <;> simp [hname]
  · intro c hc
    rcases mem_of_mem_intercalate hc with hgap | ⟨chars, hchars, hc⟩
    · obtain rfl := List.mem_singleton.1 hgap
      decide
    · obtain ⟨name, hname, rfl⟩ := List.mem_map.1 hchars
      exact (h name hname).2 c hc

/-- Names are plain after modules are unpacked. -/
theorem hasPlainNames_of_mem_objects {asName : String} {impact : Namespace} {includePrivate : Bool}
    (hplain : impact.HasPlainNames) {o : String × Binding}
    (ho : o ∈ (ofImpact asName impact includePrivate).objects) :
    IsPlainName o.1 ∧ o.2.HasPlainNames := by
  obtain ⟨d, -, -, -, hreached⟩ := unpack_eq_reached includePrivate impact
  rw [ofImpact, hreached] at ho
  obtain ⟨e, he, rfl⟩ := List.mem_map.1 ho
  have hleads := (mem_reached_iff.1 he).1
  obtain ⟨hnames, hbinding⟩ := hplain e (Namespace.mem_members_iff.2 hleads)
  exact ⟨isPlainName_intercalate hleads.ne_nil.2 hnames, hbinding⟩

theorem isPlain_listing {asName : String} {impact : Namespace} (includePrivate : Bool)
    (hplain : impact.HasPlainNames) : (ofImpact asName impact includePrivate).listing.IsPlain where
  classes c hc := by
    obtain ⟨⟨name, b⟩, ho, hb⟩ := List.mem_filterMap.1 hc
    obtain ⟨hname, hbinding⟩ := hasPlainNames_of_mem_objects hplain ho
    cases b with
    | type methods =>
      cases hb
      exact ⟨hname, fun method hm => hbinding method (List.mem_filter.1 hm).1⟩
    | _ => cases hb
  functions f hf := by
    obtain ⟨⟨name, b⟩, ho, hb⟩ := List.mem_filterMap.1 hf
    obtain ⟨hname, hbinding⟩ := hasPlainNames_of_mem_objects hplain ho
    cases b with
    | function params =>
      cases hb
      exact ⟨hname, hbinding⟩
    | _ => cases hb
  others o ho := by
    obtain ⟨⟨name, b⟩, ho, hb⟩ := List.mem_filterMap.1 ho
    obtain ⟨hname, hbinding⟩ := hasPlainNames_of_mem_objects hplain ho
    cases b with
    | module members =>
      cases hb
      exact ⟨hname, (by decide : IsPlainName "module")⟩
    | object typeName =>
      cases hb
      exact ⟨hname, hbinding⟩
    | _ => cases hb

/-! ### Rows of plain listings -/

/-- Names are told apart in a list. -/
theorem tellsApart_names : TellsApart IsPlainName String.toList :=
  tellsApart_of_not_mem (fun _ hname => hname.not_mem (by decide)) fun _ _ => String.toList_inj.1

theorem commaList_names_inj {names names' : List String} (h : ∀ name ∈ names, IsPlainName name)
    (h' : ∀ name ∈ names', IsPlainName name)
    (heq : commaList String.toList names = commaList String.toList names') : names = names' :=
  tellsApart_names.commaList_inj (fun _ hname => hname.1) h h' heq

theorem not_mem_names {names : List String} (h : ∀ name ∈ names, IsPlainName name) {c : Char}
    (hc : c ∈ ['\n', ':', '(', ')']) : c ∉ commaList String.toList names := by
  refine not_mem_commaList ?_ ?_ fun name hname => (h name hname).not_mem ?_
  · rintro rfl
    exact absurd hc (by decide)
  · rintro rfl
    exact absurd hc (by decide)
  · exact (by decide : ['\n', ':', '(', ')'] ⊆ [' ', '\n', ',', ':', '(', ')']) hc

/-- A class is read in one way from its row. -/
theorem classRow_inj {c c' : String × List String} (h : IsPlainItem c) (h' : IsPlainItem c')
    (heq : classRow c = classRow c') : c = c' := by
  obtain ⟨name, methods⟩ := c
  obtain ⟨name', methods'⟩ := c'
  have heq : name.toList ++ ' ' :: ("with functions ".toList ++ commaList String.toList methods) =
      name'.toList ++ ' ' :: ("with functions ".toList ++ commaList String.toList methods') := by
    simpa [classRow] using heq
  obtain ⟨hname, hlist⟩ :=
    append_cons_inj (h.1.not_mem (by decide)) (h'.1.not_mem (by decide)) heq
  have hmethods := commaList_names_inj h.2 h'.2 (List.append_cancel_left hlist)
  exact Prod.ext (String.toList_inj.1 hname) hmethods

/-- Functions are told apart in a list: the names of the parameters stand between brackets. -/
theorem tellsApart_functionText : TellsApart IsPlainItem functionText := by
  intro f f' r r' h h' _ _ heq
  obtain ⟨name, params⟩ := f
  obtain ⟨name', params'⟩ := f'
  have heq : name.toList ++ '(' :: (commaList String.toList params ++ ')' :: r) =
      name'.toList ++ '(' :: (commaList String.toList params' ++ ')' :: r') := by
    simpa [functionText] using heq
  obtain ⟨hname, hlist⟩ :=
    append_cons_inj (h.1.not_mem (by decide)) (h'.1.not_mem (by decide)) heq
  obtain ⟨hparams, hrest⟩ :=
    append_cons_inj (not_mem_names h.2 (by decide)) (not_mem_names h'.2 (by decide)) hlist
  exact ⟨Prod.ext (String.toList_inj.1 hname) (commaList_names_inj h.2 h'.2 hparams), hrest⟩

/-- Objects are told apart in a list by the commas between them. -/
theorem tellsApart_otherText :
    TellsApart (fun o : String × String => IsPlainName o.1 ∧ IsPlainName o.2) otherText := by
  intro o o' r r' h h' hr hr' heq
  have heq : o.1.toList ++ ':' :: ' ' :: (o.2.toList ++ r) =
      o'.1.toList ++ ':' :: ' ' :: (o'.2.toList ++ r') := by
    simpa [otherText] using heq
  obtain ⟨hname, htype⟩ :=
    append_cons_inj (h.1.not_mem (by decide)) (h'.1.not_mem (by decide)) heq
  obtain ⟨htype, hrest⟩ :=
    tellsApart_names o.2 o'.2 r r' h.2 h'.2 hr hr' (List.cons.inj htype).2
  exact ⟨Prod.ext (String.toList_inj.1 hname) htype, hrest⟩

theorem functionText_ne_nil (f : String × List String) : functionText f ≠ [] := by
  simp [functionText]

theorem otherText_ne_nil (o : String × String) : otherText o ≠ [] := by
  simp [otherText]

/-! ### Sections -/

section Sections

variable {asName : String} {also : Bool} {fs fs' : List (String × List String)}
  {os os' : List (String × String)}

theorem otherRows_inj (hos : ∀ o ∈ os, IsPlainName o.1 ∧ IsPlainName o.2)
    (hos' : ∀ o ∈ os', IsPlainName o.1 ∧ IsPlainName o.2)
    (heq : otherRows asName also os = otherRows asName also os') : os = os' := by
  rw [otherRows, otherRows] at heq
  split at heq <;> split at heq
  · simp_all
  · cases heq
  · cases heq
  · have hlist := List.append_cancel_left (List.cons.inj heq).1
    exact tellsApart_otherText.commaList_inj (fun o _ => otherText_ne_nil o) hos hos' hlist

/-- Functions are not mistaken for other objects. -/
theorem functionsRow_cons_ne_otherRows {rest : List (List Char)} :
    functionsRow asName fs :: rest ≠ otherRows asName also os := by
  rw [otherRows]
  split
  · simp
  · cases also <;> simp [functionsRow, othersRow]

/-- The rows after those for classes are read in one way. -/
theorem lastRows_inj (hfs : ∀ f ∈ fs, IsPlainItem f) (hfs' : ∀ f ∈ fs', IsPlainItem f)
    (hos : ∀ o ∈ os, IsPlainName o.1 ∧ IsPlainName o.2)
    (hos' : ∀ o ∈ os', IsPlainName o.1 ∧ IsPlainName o.2)
    (heq : lastRows asName also fs os = lastRows asName also fs' os') : fs = fs' ∧ os = os' := by
  rw [lastRows, lastRows] at heq
  split at heq <;> split at heq
  · exact ⟨by simp_all, otherRows_inj hos hos' heq⟩
  · exact absurd heq.symm functionsRow_cons_ne_otherRows
  · exact absurd heq functionsRow_cons_ne_otherRows
  · obtain ⟨hrow, hrest⟩ := List.cons.inj heq
    have hlist := List.append_cancel_left hrow
    exact ⟨tellsApart_functionText.commaList_inj (fun f _ => functionText_ne_nil f) hfs hfs' hlist,
      otherRows_inj hos hos' hrest⟩

/-- Classes are not mistaken for functions or other objects. -/
theorem classesRow_cons_ne_lastRows {rest : List (List Char)} :
    classesRow asName :: rest ≠ lastRows asName false fs os := by
  rw [lastRows]
  split
  · rw [otherRows]
    split
    · simp
    · simp [classesRow, othersRow]
  · simp [classesRow, functionsRow]

/-- The rows after those for classes hold a bracket or a colon. -/
theorem marked_of_mem_lastRows {row : List Char} (h : row ∈ lastRows asName also fs os) :
    ¬ ('(' ∉ row ∧ ':' ∉ row) := by
  have hothers (also : Bool) {row : List Char} (h : row ∈ otherRows asName also os) :
      ':' ∈ row := by
    rw [otherRows] at h
    split at h
    · cases h
    · rw [List.mem_singleton.1 h]
      simp [othersRow]
  rw [lastRows] at h
  split at h
  · exact fun hrow => hrow.2 (hothers also h)
  · rename_i hne
    rcases List.mem_cons.1 h with rfl | h
    · obtain ⟨f, fs, rfl⟩ := List.exists_cons_of_ne_nil hne
      exact fun hrow => hrow.1 (by simp [functionsRow, commaList_cons, functionText])
    · exact fun hrow => hrow.2 (hothers true h)

end Sections

theorem unmarked_classRow {c : String × List String} (h : IsPlainItem c) :
    '(' ∉ classRow c ∧ ':' ∉ classRow c := by
  constructor
  · have hname := h.1.not_mem (c := '(') (by decide)
    have hmethods := not_mem_names h.2 (c := '(') (by decide)
    simp [classRow, hname, hmethods]
  · have hname := h.1.not_mem (c := ':') (by decide)
    have hmethods := not_mem_names h.2 (c := ':') (by decide)
    simp [classRow, hname, hmethods]

/-- **Rows are read in one way** when all names are plain. -/
theorem Listing.rows_inj {asName : String} {l l' : Listing} (h : l.IsPlain) (h' : l'.IsPlain)
    (heq : l.rows asName = l'.rows asName) : l = l' := by
  have hfields (hclasses : l.classes = l'.classes)
      (hlast : l.functions = l'.functions ∧ l.others = l'.others) : l = l' := by
    cases l
    cases l'
    simp_all
  rw [rows, rows] at heq
  split at heq <;> split at heq
  · exact hfields (by simp_all) (lastRows_inj h.functions h'.functions h.others h'.others heq)
  · exact absurd heq.symm classesRow_cons_ne_lastRows
  · exact absurd heq classesRow_cons_ne_lastRows
  · obtain ⟨hclasses, hlast⟩ := map_append_inj (fun _ _ => classRow_inj)
      (fun _ => unmarked_classRow) h.classes h'.classes (fun _ => marked_of_mem_lastRows)
      (fun _ => marked_of_mem_lastRows) (List.cons.inj heq).2
    exact hfields hclasses (lastRows_inj h.functions h'.functions h.others h'.others hlast)

/-- A row of names around a text holds no row end when the text holds none. -/
theorem IsPlainItem.newline_not_mem {c : String × List String} (h : IsPlainItem c)
    {text : List Char} (htext : '\n' ∉ text) :
    '\n' ∉ c.1.toList ++ text ++ commaList String.toList c.2 := by
  have hname := h.1.not_mem (c := '\n') (by decide)
  have hnames := not_mem_names h.2 (c := '\n') (by decide)
  simp [htext, hname, hnames]

section RowEnds

variable {asName : String} {l : Listing}

theorem newline_not_mem_functionsRow (hname : '\n' ∉ asName.toList) (h : l.IsPlain) :
    '\n' ∉ functionsRow asName l.functions := by
  have hlist : '\n' ∉ commaList functionText l.functions := by
    refine not_mem_commaList (by decide) (by decide) fun f hf => ?_
    have hf := (h.functions f hf).newline_not_mem (by decide : '\n' ∉ "(".toList)
    rw [functionText, List.mem_append, not_or]
    exact ⟨hf, by decide⟩
  simp [functionsRow, hname, hlist]

theorem newline_not_mem_othersRow (hname : '\n' ∉ asName.toList) (h : l.IsPlain) (also : Bool) :
    '\n' ∉ othersRow asName also l.others := by
  have hlist : '\n' ∉ commaList otherText l.others := by
    refine not_mem_commaList (by decide) (by decide) fun o ho => ?_
    obtain ⟨hobject, htype⟩ := h.others o ho
    simp [otherText, hobject.not_mem (c := '\n') (by decide),
      htype.not_mem (c := '\n') (by decide)]
  cases also <;> simp [othersRow, hname, hlist]

theorem newline_not_mem_lastRows (hname : '\n' ∉ asName.toList) (h : l.IsPlain) {also : Bool}
    {row : List Char} (hrow : row ∈ lastRows asName also l.functions l.others) : '\n' ∉ row := by
  have hothers (also : Bool) (hrow : row ∈ otherRows asName also l.others) : '\n' ∉ row := by
    rw [otherRows] at hrow
    split at hrow
    · cases hrow
    · rw [List.mem_singleton.1 hrow]
      exact newline_not_mem_othersRow hname h also
  rw [lastRows] at hrow
  split at hrow
  · exact hothers also hrow
  · rcases List.mem_cons.1 hrow with rfl | hrow
    · exact newline_not_mem_functionsRow hname h
    · exact hothers true hrow

/-- No row of a plain listing holds a row end. -/
theorem Listing.IsPlain.newline_not_mem (h : l.IsPlain) (hname : '\n' ∉ asName.toList)
    {row : List Char} (hrow : row ∈ l.rows asName) : '\n' ∉ row := by
  rw [rows] at hrow
  split at hrow
  · exact newline_not_mem_lastRows hname h hrow
  · rcases List.mem_cons.1 hrow with rfl | hrow
    · simp [classesRow, hname]
    · rcases List.mem_append.1 hrow with hrow | hrow
      · obtain ⟨c, hc, rfl⟩ := List.mem_map.1 hrow
        have hc := (h.classes c hc).newline_not_mem 
          (by decide : '\n' ∉ " with functions ".toList)
        simpa [classRow] using hc
      · exact newline_not_mem_lastRows hname h hrow

end RowEnds

/-! ### Nothing to describe -/

theorem Listing.rows_eq_nil (asName : String) {l : Listing} :
    l.rows asName = [] ↔ l.classes = [] ∧ l.functions = [] ∧ l.others = [] := by
  simp only [rows, lastRows, otherRows]
  split <;> split <;> split <;> simp_all

/-- Every object is listed. -/
theorem listing_eq_nil {e : Effect} :
    e.listing.classes = [] ∧ e.listing.functions = [] ∧ e.listing.others = [] ↔
      e.objects = [] := by
  constructor
  · rintro ⟨hclasses, hfunctions, hothers⟩
    refine List.eq_nil_iff_forall_not_mem.2 fun ⟨name, b⟩ ho => ?_
    have hclass := List.filterMap_eq_nil_iff.1 hclasses _ ho
    have hfunction := List.filterMap_eq_nil_iff.1 hfunctions _ ho
    have hother := List.filterMap_eq_nil_iff.1 hothers _ ho
    cases b <;> simp_all
  · intro hnil
    simp [listing, hnil]

theorem describe_eq_empty {e : Effect} : e.describe = "" ↔ e.objects = [] := by
  rw [← listing_eq_nil, ← Listing.rows_eq_nil e.asName, ← String.toList_inj,
    toList_describe]
  cases e.listing.rows e.asName <;> simp

/-- **Descriptions are unambiguous.** Two effects under one name without a row end, with the same
choice whether private names are shown and with plain names, have equal descriptions just when the
same classes with the same shown methods, the same functions with the same parameters and the same
other objects with the same types are listed, each in the same order. A description is empty just
when no object is left of the impact. -/
theorem describe_unambiguous {asName : String} (hname : '\n' ∉ asName.toList)
    (includePrivate : Bool) {impact impact' : Namespace} (hplain : impact.HasPlainNames)
    (hplain' : impact'.HasPlainNames) :
    let e := ofImpact asName impact includePrivate
    let e' := ofImpact asName impact' includePrivate
    (e.describe = e'.describe ↔ e.listing = e'.listing) ∧ (e.describe = "" ↔ e.objects = []) := by
  intro e e'
  have hlisting : e.listing.IsPlain := isPlain_listing includePrivate hplain
  have hlisting' : e'.listing.IsPlain := isPlain_listing includePrivate hplain'
  refine ⟨?_, describe_eq_empty⟩
  rw [← String.toList_inj, toList_describe, toList_describe]
  constructor
  · intro htext
    have hrows := flatMap_feed_inj (fun _ => hlisting.newline_not_mem hname)
      (fun _ => hlisting'.newline_not_mem hname) htext
    exact Listing.rows_inj hlisting hlisting' hrows
  · intro hsame
    exact congrArg (fun l : Listing => (l.rows asName).flatMap (· ++ ['\n'])) hsame

/-- A parameter is not mistaken for one more function, nor two classes for one that has a method. -/
theorem describe_tells_parameter_from_function :
    let impact : Namespace := ⟨[("f", .function ["a", "b"]), ("C", .type ["m", "_p"])]⟩
    let impact' : Namespace :=
      ⟨[("f", .function ["a"]), ("b", .function []), ("C", .type ["m"])]⟩
    '\n' ∉ "lib".toList ∧ impact.HasPlainNames ∧ impact'.HasPlainNames ∧
      (ofImpact "lib" impact false).describe ≠ (ofImpact "lib" impact' false).describe := by
  intro impact impact'
  have hname : '\n' ∉ "lib".toList := by decide
  have hplain : impact.HasPlainNames := by decide
  have hplain' : impact'.HasPlainNames := by decide
  have hlisting :
      (ofImpact "lib" impact false).listing ≠ (ofImpact "lib" impact' false).listing := by decide
  exact ⟨hname, hplain, hplain',
    fun htext => hlisting ((describe_unambiguous hname false hplain hplain').1.1 htext)⟩

end Effect
end CompletionPrompt

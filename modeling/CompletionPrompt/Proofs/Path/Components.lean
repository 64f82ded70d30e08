import CompletionPrompt.Path
import CompletionPrompt.Proofs.Text.Pieces

/-!
# The components of joined and cut paths

A path keeps its text, and what is said of it is said of its components. Cutting the text after a
component leaves the components up to there (`marks_take`), so the ancestors of a path are its cuts,
innermost first (`components_ancestors`), and its parent lacks the last component
(`components_parent`). Putting a relative path after another puts its components after those of the
other (`components_join`), and a single name stays the last component (`IsName.marks_join`).
-/

namespace CompletionPrompt
namespace Path

deriving instance ReflBEq, LawfulBEq for Component

/-- The components that pieces between slashes name, away from the start of a path. -/
def named (pieces : List (List Char)) : List Component :=
  pieces.filterMap (component? false)

theorem named_append (ps qs : List (List Char)) : named (ps ++ qs) = named ps ++ named qs :=
  List.filterMap_append

theorem named_singleton {piece : List Char} {k : Component} (h : component? false piece = some k) :
    named [piece] = [k] :=
  List.filterMap_cons_some h

/-- The number of characters that pieces take, with a slash after each. -/
def width : List (List Char) → Nat
  | [] => 0
  | piece :: pieces => piece.length + 1 + width pieces

@[simp] theorem width_nil : width [] = 0 := rfl

@[simp] theorem width_cons (piece : List Char) (pieces : List (List Char)) :
    width (piece :: pieces) = piece.length + 1 + width pieces := rfl

theorem width_eq {pieces : List (List Char)} (h : pieces ≠ []) :
    width pieces = (['/'].intercalate pieces).length + 1 := by
  induction pieces with
  | nil => exact absurd rfl h
  | cons piece pieces ih =>
    cases pieces with
    | nil => simp
    | cons next pieces =>
      rw [width_cons, ih (List.cons_ne_nil next pieces),
        List.intercalate_cons_of_ne_nil (List.cons_ne_nil next pieces)]
      simp only [List.length_append, List.length_singleton]
      omega

/-! ### Marks of pieces -/

theorem marksFrom_append (atStart : Bool) (start : Nat) (ps qs : List (List Char)) :
    marksFrom atStart start (ps ++ qs) =
      marksFrom atStart start ps ++ marksFrom (atStart && ps.isEmpty) (start + width ps) qs := by
  induction ps generalizing atStart start with
  | nil => simp [marksFrom]
  | cons piece ps ih =>
    simp only [List.cons_append, marksFrom, ih, Bool.false_and, List.append_assoc,
      List.isEmpty_cons, Bool.and_false, width_cons, Nat.add_assoc]

theorem map_component_marksFrom (start : Nat) (pieces : List (List Char)) :
    (marksFrom false start pieces).map (·.component) = named pieces := by
  induction pieces generalizing start with
  | nil => rfl
  | cons piece pieces ih =>
    simp only [marksFrom, List.map_append, ih, named, List.filterMap_cons]
    cases component? false piece <;> simp

/-- Each mark belongs to a piece, at whose end it stands. -/
theorem exists_piece_of_marksFrom {atStart : Bool} {start : Nat} {pieces : List (List Char)}
    {before after : List Mark} {m : Mark}
    (h : marksFrom atStart start pieces = before ++ m :: after) :
    ∃ ps piece qs, pieces = ps ++ piece :: qs ∧ m.stop + 1 = start + width (ps ++ [piece]) ∧
      marksFrom atStart start (ps ++ [piece]) = before ++ [m] := by
  induction pieces generalizing atStart start before with
  | nil => simp [marksFrom] at h
  | cons piece pieces ih =>
    -- The mark is the one of the first piece, or one of a piece after it.
    have hlater : ∀ {before},
        marksFrom false (start + piece.length + 1) pieces = before ++ m :: after →
        ∃ ps p qs, piece :: pieces = (piece :: ps) ++ p :: qs ∧
          m.stop + 1 = start + width (piece :: ps ++ [p]) ∧
          marksFrom false (start + piece.length + 1) (ps ++ [p]) = before ++ [m] := by
      intro before hbefore
      obtain ⟨ps, p, qs, rfl, hstop, hmarks⟩ := ih hbefore
      refine ⟨ps, p, qs, rfl, ?_, hmarks⟩
      rw [hstop, List.cons_append, width_cons]
      omega
    cases hpiece : component? atStart piece with
    | none =>
      simp only [marksFrom, hpiece, Option.map_none, Option.toList_none, List.nil_append] at h
      obtain ⟨ps, p, qs, heq, hstop, hmarks⟩ := hlater h
      refine ⟨piece :: ps, p, qs, heq, hstop, ?_⟩
      simpa [marksFrom, hpiece] using hmarks
    | some k =>
      simp only [marksFrom, hpiece, Option.map_some, Option.toList_some] at h
      cases before with
      | nil =>
        obtain ⟨rfl, -⟩ := List.cons.inj h
        refine ⟨[], piece, pieces, rfl, by simp [Nat.add_assoc], ?_⟩
        simp [marksFrom, hpiece]
      | cons first before =>
        obtain ⟨rfl, hrest⟩ := List.cons.inj h
        obtain ⟨ps, p, qs, heq, hstop, hmarks⟩ := hlater hrest
        refine ⟨piece :: ps, p, qs, heq, hstop, ?_⟩
        simpa [marksFrom, hpiece] using hmarks

/-! ### Marks of paths -/

/-- The characters of a path are its pieces with slashes between them. -/
theorem intercalate_pieces (p : Path) : ['/'].intercalate (p.chars.splitOn '/') = p.chars :=
  List.intercalate_splitOn '/'

@[simp] theorem chars_ofChars (s : List Char) : (ofChars s).chars = s := by
  simp [chars, ofChars]

@[simp] theorem ofChars_chars (p : Path) : ofChars p.chars = p := by
  simp [chars, ofChars]

theorem marks_ofChars (s : List Char) :
    (ofChars s).marks =
      (if s.head? = some '/' then [⟨.root, 1⟩] else []) ++ marksFrom true 0 (s.splitOn '/') := by
  simp [marks, isAbsolute]

/-- Cut at the end of a piece, joined pieces are the pieces up to there. -/
theorem take_intercalate {ps : List (List Char)} (hps : ps ≠ []) (qs : List (List Char))
    {stop : Nat} (hstop : stop + 1 = width ps) :
    (['/'].intercalate (ps ++ qs)).take stop = ['/'].intercalate ps := by
  have hlength : stop = (['/'].intercalate ps).length := by
    have := width_eq hps
    omega
  by_cases hqs : qs = []
  · rw [hqs, List.append_nil, hlength, List.take_length]
  · rw [Text.intercalate_append hps hqs, hlength, List.take_left]

/-- Cut at the end of a piece, the text of a path falls into the pieces up to there. -/
theorem splitOn_take {p : Path} {ps qs : List (List Char)} (hps : ps ≠ [])
    (hpieces : p.chars.splitOn '/' = ps ++ qs) {stop : Nat} (hstop : stop + 1 = width ps) :
    (p.chars.take stop).splitOn '/' = ps := by
  have hcut : p.chars.take stop = ['/'].intercalate ps := by
    rw [← p.intercalate_pieces, hpieces, take_intercalate hps qs hstop]
  rw [hcut, List.splitOn_intercalate '/' (fun piece hmem => ?_) hps]
  exact Text.not_mem_of_mem_splitOn (s := p.chars) (hpieces ▸ List.mem_append_left qs hmem)

/-- **Cut after a component, a path has the components up to there.** -/
theorem marks_take {p : Path} {before after : List Mark} {m : Mark}
    (h : p.marks = before ++ m :: after) :
    (ofChars (p.chars.take m.stop)).marks = before ++ [m] := by
  -- A mark of a piece; what stands before it is the root or nothing.
  have hpiece : ∀ {front}, marksFrom true 0 (p.chars.splitOn '/') = front ++ m :: after →
      (ofChars (p.chars.take m.stop)).marks =
        (if p.isAbsolute then [⟨.root, 1⟩] else []) ++ (front ++ [m]) := by
    intro front hfront
    obtain ⟨ps, piece, qs, hpieces, hstop, hmarks⟩ := exists_piece_of_marksFrom hfront
    rw [Nat.zero_add] at hstop
    have hsplit : (p.chars.take m.stop).splitOn '/' = ps ++ [piece] :=
      splitOn_take (by simp) (by simpa using hpieces : _ = (ps ++ [piece]) ++ qs) hstop
    have hpos : m.stop ≠ 0 := by
      intro hzero
      rw [hzero] at hstop
      cases ps with
      | cons first ps =>
        simp only [List.cons_append, width_cons] at hstop
        have hlast : width (ps ++ [piece]) = _ := width_eq (by simp)
        omega
      | nil =>
        have hempty : piece = [] := by simpa using hstop
        simp [hempty, marksFrom, component?] at hmarks
    rw [marks_ofChars, hsplit, hmarks, List.head?_take, if_neg hpos]
    simp [isAbsolute]
  rw [marks] at h
  by_cases habs : p.isAbsolute
  · rw [if_pos habs] at h
    cases before with
    | nil =>
      obtain ⟨rfl, -⟩ := List.cons.inj h
      obtain ⟨rest, hrest⟩ : ∃ rest, p.chars = '/' :: rest := by
        simpa [isAbsolute, List.head?_eq_some_iff] using habs
      rw [hrest, marks_ofChars]
      rfl
    | cons root front =>
      obtain ⟨rfl, hfront⟩ := List.cons.inj h
      rw [hpiece hfront, if_pos habs]
      rfl
  · rw [if_neg habs] at h
    rw [hpiece h, if_neg habs]
    rfl

/-! ### Absolute paths -/

theorem isAbsolute_ofChars (s : List Char) :
    (ofChars s).isAbsolute = true ↔ s.head? = some '/' := by
  simp [isAbsolute]

theorem chars_ne_nil {p : Path} (h : p.isAbsolute = true) : p.chars ≠ [] := by
  rintro hnil
  simp [isAbsolute, hnil] at h

/-- No piece names the root. -/
theorem component?_ne_root (atStart : Bool) (piece : List Char) :
    component? atStart piece ≠ some .root := by
  unfold component?
  repeat' split
  all_goals simp

/-- Each mark has the component that a piece names. -/
theorem exists_piece_of_mem_marksFrom {atStart : Bool} {start : Nat} {pieces : List (List Char)}
    {m : Mark} (h : m ∈ marksFrom atStart start pieces) :
    ∃ first, ∃ piece ∈ pieces, component? first piece = some m.component := by
  induction pieces generalizing atStart start with
  | nil => simp [marksFrom] at h
  | cons piece pieces ih =>
    rcases List.mem_append.1 (by simpa only [marksFrom] using h) with hfirst | hrest
    · obtain ⟨k, hk, rfl⟩ : ∃ k, component? atStart piece = some k ∧
          Mark.mk k (start + piece.length) = m := by
        simpa using hfirst
      exact ⟨atStart, piece, List.mem_cons_self, hk⟩
    · obtain ⟨first, piece', hmem, hk⟩ := ih hrest
      exact ⟨first, piece', List.mem_cons_of_mem piece hmem, hk⟩

/-- A path is absolute when its components start with the root. -/
theorem isAbsolute_iff {p : Path} :
    p.isAbsolute = true ↔ p.components.head? = some .root := by
  by_cases habs : p.isAbsolute = true
  · simp [components, marks, habs]
  · refine iff_of_false habs fun hroot => ?_
    simp only [components, marks, habs, List.head?_map] at hroot
    obtain ⟨m, hm, hm'⟩ := Option.map_eq_some_iff.1 hroot
    obtain ⟨first, piece, -, hk⟩ := exists_piece_of_mem_marksFrom (List.mem_of_mem_head? hm)
    exact component?_ne_root first piece (hm' ▸ hk)

/-- The components of an absolute path are the root and what its pieces name. -/
theorem components_of_isAbsolute {p : Path} (h : p.isAbsolute = true) :
    p.components = .root :: named (p.chars.splitOn '/') := by
  obtain ⟨rest, hrest⟩ : ∃ rest, p.chars = '/' :: rest := by
    simpa [isAbsolute, List.head?_eq_some_iff] using h
  rw [components, marks, if_pos h, hrest, List.splitOn_cons_eq_if_modifyHead]
  simpa [marksFrom, component?, named] using map_component_marksFrom 1 (rest.splitOn '/')

theorem length_components_ne_zero {p : Path} (h : p.isAbsolute = true) :
    p.components.length ≠ 0 := by
  rw [components_of_isAbsolute h]
  exact Nat.succ_ne_zero _

/-- Below the root, a component of an absolute path is what one of its pieces names. -/
theorem mem_named_of_mem_drop {p : Path} (h : p.isAbsolute = true) {n : Nat} (hn : n ≠ 0)
    {k : Component} (hk : k ∈ p.components.drop n) : k ∈ named (p.chars.splitOn '/') := by
  rw [components_of_isAbsolute h] at hk
  cases n with
  | zero => exact absurd rfl hn
  | succ n => exact List.mem_of_mem_drop (by simpa using hk)

/-- A component is written as the piece that names it. -/
theorem toList_text_of_component? {atStart : Bool} {piece : List Char} {k : Component}
    (h : component? atStart piece = some k) : k.text.toList = piece := by
  unfold component? at h
  repeat' split at h
  all_goals simp at h
  all_goals
    subst h
    simp_all [Component.text]

/-- What a component is written with, its path holds. -/
theorem mem_chars_of_mem_components {p : Path} {k : Component} (h : k ∈ p.components) {c : Char}
    (hc : c ∈ k.text.toList) : c ∈ p.chars := by
  obtain ⟨m, hm, rfl⟩ := List.mem_map.1 h
  rcases List.mem_append.1 hm with hroot | hpiece
  · by_cases habs : p.isAbsolute = true
    · obtain rfl : m = ⟨.root, 1⟩ := by simpa [habs] using hroot
      obtain rfl : c = '/' := by simpa [Component.text] using hc
      exact List.mem_of_mem_head? (by simpa [isAbsolute] using habs)
    · simp [habs] at hroot
  · obtain ⟨first, piece, hmem, hk⟩ := exists_piece_of_mem_marksFrom hpiece
    rw [toList_text_of_component? hk] at hc
    exact Text.mem_of_mem_splitOn hmem hc

theorem mem_components_of_fileName? {p : Path} {name : String} (h : p.fileName? = some name) :
    .normal name ∈ p.components := by
  unfold fileName? at h
  split at h
  · rename_i name' stop hlast
    obtain rfl := Option.some.inj h
    exact List.mem_map.2 ⟨_, List.mem_of_getLast? hlast, rfl⟩
  · cases h

theorem ne_nil_of_component? {atStart : Bool} {piece : List Char} {k : Component}
    (h : component? atStart piece = some k) : piece ≠ [] := by
  rintro rfl
  simp [component?] at h

/-- What pieces name is written as one of them. -/
theorem text_mem_of_mem_named {pieces : List (List Char)} {k : Component} (h : k ∈ named pieces) :
    k.text.toList ∈ pieces ∧ component? false k.text.toList = some k := by
  obtain ⟨piece, hpiece, hk⟩ := List.mem_filterMap.1 h
  rw [toList_text_of_component? hk]
  exact ⟨hpiece, hk⟩

/-- Components that pieces name are named by their texts. -/
theorem named_map_text {ks : List Component} {pieces : List (List Char)}
    (h : ∀ k ∈ ks, k ∈ named pieces) : named (ks.map (·.text.toList)) = ks := by
  induction ks with
  | nil => rfl
  | cons k ks ih =>
    have hself := (text_mem_of_mem_named (h k List.mem_cons_self)).2
    rw [List.map_cons, named, List.filterMap_cons_some hself]
    exact congrArg (k :: ·) (ih fun k' hk' => h k' (List.mem_cons_of_mem k hk'))

/-! ### Ancestors -/

/-- The number of components that no ancestor lacks. -/
def leastCut (p : Path) : Nat :=
  if p.isAbsolute then 1 else 0

theorem length_components (p : Path) : p.components.length = p.marks.length :=
  List.length_map _

theorem leastCut_le (p : Path) : p.leastCut ≤ p.components.length := by
  rw [leastCut, length_components, marks]
  split <;> simp

theorem components_take {p : Path} {k : Nat} (hk : k < p.marks.length) :
    (ofChars (p.chars.take p.marks[k].stop)).components = p.components.take (k + 1) := by
  have hsplit : p.marks = p.marks.take k ++ p.marks[k] :: p.marks.drop (k + 1) := by
    rw [List.getElem_cons_drop, List.take_append_drop]
  rw [components, marks_take hsplit, components, ← List.map_take,
    List.take_succ_eq_append_getElem hk]

/-- The proper ancestors of a path are its cuts. -/
theorem components_ancestorStops (p : Path) :
    p.ancestorStops.map (fun stop => (ofChars (p.chars.take stop)).components) =
      (List.range' p.leastCut (p.components.length - p.leastCut)).map (p.components.take ·) := by
  rw [length_components]
  by_cases habs : p.isAbsolute = true
  · refine List.ext_getElem (by simp [ancestorStops, leastCut, habs]) fun k hk _ => ?_
    have hlt : k < p.marks.length := by
      simp [ancestorStops, habs] at hk
      omega
    simp only [ancestorStops, leastCut, habs, if_true, List.getElem_map, List.getElem_dropLast,
      List.getElem_range']
    rw [components_take hlt, Nat.one_mul, Nat.add_comm]
  · refine List.ext_getElem (by simp [ancestorStops, leastCut, habs]) fun k hk _ => ?_
    have hlt : k < p.marks.length := by simpa [ancestorStops, habs] using hk
    simp only [ancestorStops, leastCut, habs, List.getElem_map, List.getElem_dropLast,
      List.getElem_range']
    cases k with
    | zero => simp [components, marks_ofChars, marksFrom, component?]
    | succ k => simpa using components_take (Nat.lt_of_succ_lt hlt)

/-- **The ancestors of a path are its cuts, innermost first:** from the whole of it to the root of
an absolute path, and to nothing of a relative one. -/
theorem components_ancestors (p : Path) :
    p.ancestors.map components =
      ((List.range' p.leastCut (p.components.length + 1 - p.leastCut)).map
        (p.components.take ·)).reverse := by
  have hle := p.leastCut_le
  have hlast : p.leastCut + (p.components.length - p.leastCut) = p.components.length := by omega
  rw [show p.components.length + 1 - p.leastCut = p.components.length - p.leastCut + 1 by omega,
    List.range'_1_concat, hlast, List.map_append, List.reverse_append, ← components_ancestorStops]
  simp [ancestors, Function.comp_def]

/-- The parent of a path lacks the last component. -/
theorem components_parent {p q : Path} (h : p.parent? = some q) :
    q.components = p.components.dropLast := by
  obtain ⟨stop, hstop, rfl⟩ := Option.map_eq_some_iff.1 h
  have hlast := congrArg List.getLast? (components_ancestorStops p)
  rw [List.getLast?_map, hstop, Option.map_some, List.getLast?_map] at hlast
  cases hcount : p.components.length - p.leastCut with
  | zero => simp [hcount] at hlast
  | succ n =>
    rw [hcount, List.range'_1_concat, List.getLast?_concat, Option.map_some] at hlast
    rw [Option.some.inj hlast, List.dropLast_eq_take,
      show p.leastCut + n = p.components.length - 1 by omega]

theorem isSome_parent? {p : Path} :
    p.parent?.isSome = true ↔ p.leastCut < p.components.length := by
  have hlength := congrArg List.length (components_ancestorStops p)
  simp only [List.length_map, List.length_range'] at hlength
  rw [parent?, Option.isSome_map, Option.isSome_iff_ne_none, ne_eq, List.getLast?_eq_none_iff,
    ← ne_eq, ← List.length_pos_iff]
  omega

/-! ### Joined paths -/

/-- What follows a slash has the components that its pieces name. -/
theorem marks_append_slash {a : List Char} (ha : a ≠ []) (b : List Char) :
    (ofChars (a ++ '/' :: b)).marks =
      (ofChars a).marks ++ marksFrom false (a.length + 1) (b.splitOn '/') := by
  have hwidth : width (a.splitOn '/') = a.length + 1 := by
    rw [width_eq (List.splitOn_ne_nil '/' a), List.intercalate_splitOn]
  have hhead : (a ++ '/' :: b).head? = a.head? := by
    cases a with
    | nil => exact absurd rfl ha
    | cons c a => rfl
  rw [marks_ofChars, marks_ofChars, hhead, List.splitOn_append_cons_self, marksFrom_append, hwidth]
  simp [List.isEmpty_eq_false_iff.2 (List.splitOn_ne_nil '/' a)]

/-- The characters of a relative path after another. -/
theorem chars_join {base p : Path} (hp : p.isAbsolute = false) :
    (base.join p).chars =
      base.chars ++ (if base.chars = [] ∨ base.chars.getLast? = some '/' then [] else ['/']) ++
        p.chars := by
  simp [join, hp]

/-- **A relative path after another has its components behind those of the other.** -/
theorem marks_join {base p : Path} (hbase : base.chars ≠ []) (hp : p.isAbsolute = false) :
    (base.join p).marks =
      base.marks ++ marksFrom false ((base.join p).chars.length - p.chars.length)
        (p.chars.splitOn '/') := by
  have hjoin : (base.join p).chars =
      base.chars ++ (if base.chars.getLast? = some '/' then [] else ['/']) ++ p.chars := by
    simp [chars_join hp, hbase]
  have heq : base.join p = ofChars (base.join p).chars := (ofChars_chars _).symm
  rw [heq, chars_ofChars, hjoin]
  by_cases hslash : base.chars.getLast? = some '/'
  · obtain ⟨a, ha⟩ := List.getLast?_eq_some_iff.1 hslash
    have hbase' : base = ofChars (a ++ ['/']) := by rw [← ha, ofChars_chars]
    rw [if_pos hslash, List.append_nil, ha, List.append_assoc, hbase']
    by_cases hnil : a = []
    · subst hnil
      simp [marks_ofChars, List.splitOn_cons_eq_if_modifyHead, marksFrom, component?]
    · rw [List.singleton_append, marks_append_slash hnil, marks_append_slash hnil]
      have hcount : (a ++ '/' :: p.chars).length - p.chars.length = a.length + 1 := by
        simp only [List.length_append, List.length_cons]
        omega
      rw [hcount]
      simp [marksFrom, component?]
  · rw [if_neg hslash, List.append_assoc, List.singleton_append, marks_append_slash hbase,
      ofChars_chars]
    congr 2
    simp only [List.length_append, List.length_cons]
    omega

theorem components_join {base p : Path} (hbase : base.chars ≠ []) (hp : p.isAbsolute = false) :
    (base.join p).components = base.components ++ named (p.chars.splitOn '/') := by
  rw [components, marks_join hbase hp, List.map_append, map_component_marksFrom]
  rfl

/-- Pieces that hold something, joined by slashes and put after a path, name its last components. -/
theorem components_join_pieces {base : Path} (hbase : base.chars ≠ []) {pieces : List (List Char)}
    (hne : pieces ≠ []) (hpieces : ∀ piece ∈ pieces, piece ≠ [] ∧ '/' ∉ piece) :
    (base.join (ofChars (['/'].intercalate pieces))).components =
      base.components ++ named pieces := by
  have hsplit : (['/'].intercalate pieces).splitOn '/' = pieces :=
    List.splitOn_intercalate '/' (fun piece hmem => (hpieces piece hmem).2) hne
  have hrelative : (ofChars (['/'].intercalate pieces)).isAbsolute = false := by
    refine Bool.eq_false_iff.2 fun habs => ?_
    obtain ⟨rest, hrest⟩ := List.head?_eq_some_iff.1 ((isAbsolute_ofChars _).1 habs)
    rw [hrest, List.splitOn_cons_eq_if_modifyHead, if_pos (beq_self_eq_true _)] at hsplit
    exact (hpieces [] (hsplit ▸ List.mem_cons_self)).1 rfl
  rw [components_join hbase hrelative, chars_ofChars, hsplit]

/-- Behind an absolute path, a path has its own components and no more before them. -/
theorem exists_components_join {base : Path} (hbase : base.isAbsolute = true) (p : Path) :
    ∃ above, above.length ≤ base.components.length ∧
      (base.join p).components = above ++ named (p.chars.splitOn '/') := by
  by_cases hp : p.isAbsolute = true
  · refine ⟨[.root], ?_, ?_⟩
    · rw [components_of_isAbsolute hbase]
      exact Nat.succ_le_succ (Nat.zero_le _)
    · rw [join, if_pos hp, components_of_isAbsolute hp]
      rfl
  · exact ⟨base.components, Nat.le_refl _, components_join (chars_ne_nil hbase) (by simpa using hp)⟩

/-- A text is a name: it is not empty, holds no slash, and is neither `.` nor `..`. -/
structure IsName (name : List Char) : Prop where
  ne_nil : name ≠ []
  ne_current : name ≠ ['.']
  ne_parent : name ≠ ['.', '.']
  not_mem : '/' ∉ name

namespace IsName

variable {name : List Char}

theorem component?_eq (h : IsName name) (atStart : Bool) :
    component? atStart name = some (.normal (String.ofList name)) := by
  simp [component?, h.ne_nil, h.ne_current, h.ne_parent]

theorem isAbsolute_eq_false (h : IsName name) : (ofChars name).isAbsolute = false := by
  refine Bool.eq_false_iff.2 fun habs => h.not_mem ?_
  exact List.mem_of_mem_head? ((isAbsolute_ofChars name).1 habs)

theorem marksFrom_eq (h : IsName name) (atStart : Bool) (start : Nat) :
    marksFrom atStart start (name.splitOn '/') =
      [⟨.normal (String.ofList name), start + name.length⟩] := by
  simp [List.splitOn_eq_singleton h.not_mem, marksFrom, h.component?_eq]

/-- **A name after a path is its last component,** which ends where the text does. -/
theorem marks_join (h : IsName name) (base : Path) :
    (base.join (ofChars name)).marks =
      base.marks ++
        [⟨.normal (String.ofList name), (base.join (ofChars name)).chars.length⟩] := by
  by_cases hbase : base.chars = []
  · have hjoin : base.join (ofChars name) = ofChars name := by
      simp [join, h.isAbsolute_eq_false, hbase]
    have hnone : base.marks = [] := by
      rw [← ofChars_chars base, hbase, marks_ofChars]
      rfl
    have hhead : name.head? ≠ some '/' := fun hhead =>
      Bool.eq_false_iff.1 h.isAbsolute_eq_false ((isAbsolute_ofChars name).2 hhead)
    rw [hjoin, hnone, marks_ofChars, if_neg hhead, h.marksFrom_eq]
    simp
  · have hle : name.length ≤ (base.join (ofChars name)).chars.length := by
      rw [chars_join h.isAbsolute_eq_false, List.length_append, chars_ofChars]
      exact Nat.le_add_left _ _
    rw [Path.marks_join hbase h.isAbsolute_eq_false, chars_ofChars, h.marksFrom_eq,
      Nat.sub_add_cancel hle]

theorem components_join (h : IsName name) (base : Path) :
    (base.join (ofChars name)).components =
      base.components ++ [.normal (String.ofList name)] := by
  rw [components, h.marks_join, List.map_append]
  rfl

theorem namesFolder_join (h : IsName name) (base : Path) :
    (base.join (ofChars name)).namesFolder = false := by
  simp [namesFolder, h.marks_join]

theorem fileName?_join (h : IsName name) (base : Path) :
    (base.join (ofChars name)).fileName? = some (String.ofList name) := by
  simp [fileName?, h.marks_join]

end IsName

end Path
end CompletionPrompt

import CompletionPrompt.Proofs.Import.Gap

/-!
# Lists of names as they are written

A list of names is written name by name with commas between them: each name with a gap before and
behind it, and maybe with an alias (`WrittenName`), and maybe all of them in brackets with a last
comma (`WrittenList`). Cut at the commas, an item gives its name when nothing but margin stands
before it, and what stands behind it is margin too or starts with a blank; behind a comment it gives
nothing (`listedNames_text_iff`). So the names of a list are read back exactly when each of them is
written like that (`WrittenList.listedNames_eq_iff`).
-/

namespace CompletionPrompt
namespace Import

/-- An alias as it is written: a gap, `as`, another gap, and the alias. -/
structure WrittenAlias where
  before : List Char
  behind : List Char
  name : String

/-- A name of a list as it is written: a gap, the name, its alias if it has one, and a gap. -/
structure WrittenName where
  lead : List Char
  name : String
  asName : Option WrittenAlias
  trail : List Char

def WrittenAlias.text (a : WrittenAlias) : List Char :=
  a.before ++ ("as".toList ++ (a.behind ++ a.name.toList))

namespace WrittenName

/-- What stands behind the name, up to the next comma or the end of the list. -/
def tail (n : WrittenName) : List Char :=
  n.asName.elim [] WrittenAlias.text ++ n.trail

def text (n : WrittenName) : List Char :=
  n.lead ++ (n.name.toList ++ n.tail)

/-- The name and its gaps are such as a statement may hold, with comments of a kind. -/
structure IsWritten (kind : List Char → Prop) (n : WrittenName) : Prop where
  name : IsToken n.name.toList
  name_ne : n.name ≠ "as"
  lead : IsGap kind n.lead
  trail : IsGap kind n.trail
  asName : ∀ a ∈ n.asName, IsGap kind a.before ∧ a.before ≠ [] ∧ IsGap kind a.behind ∧
    a.behind ≠ [] ∧ IsIdentifier a.name

end WrittenName

/-- Names as they are written, with commas between them. -/
def namesText (names : List WrittenName) : List Char :=
  [','].intercalate (names.map WrittenName.text)

theorem namesText_singleton (n : WrittenName) : namesText [n] = n.text := by
  simp [namesText]

theorem namesText_cons_cons (n m : WrittenName) (names : List WrittenName) :
    namesText (n :: m :: names) = n.text ++ ',' :: namesText (m :: names) := by
  rw [namesText, List.map_cons, List.map_cons, List.intercalate_cons_cons]
  simp [namesText]

/-! ### The name of an item -/

/-- Margin at the end of an item is left out. -/
theorem itemName_append_of_isNameMargin (s : List Char) {post : List Char}
    (hpost : ∀ c ∈ post, isNameMargin c = true) : itemName (s ++ post) = itemName s := by
  rw [itemName, itemName, Text.trimBoth, Text.trimBoth, List.dropWhile_append]
  split
  · rename_i hempty
    rw [List.dropWhile_eq_nil_iff.2 hpost, List.isEmpty_iff.1 hempty]
  · rw [Text.dropEndWhile_append_of_forall _ hpost]

theorem itemName_of_isNameMargin {s : List Char} (hs : ∀ c ∈ s, isNameMargin c = true) :
    itemName s = [] := by
  rw [← List.nil_append s, itemName_append_of_isNameMargin [] hs]
  rfl

theorem not_isBlank_of_not_isNameMargin {c : Char} (h : isNameMargin c = false) :
    Text.isBlank c = false := by
  simp only [isNameMargin, Bool.or_eq_false_iff] at h
  exact h.1.1.1

/-- The name of an item is what stands behind its margin, up to the next blank or the margin at its
end. -/
theorem itemName_append {lead name tail : List Char} (hlead : ∀ c ∈ lead, isNameMargin c = true)
    (hne : name ≠ []) (hname : ∀ c ∈ name, isNameMargin c = false) :
    itemName (lead ++ (name ++ tail)) =
      name ++ (Text.dropEndWhile isNameMargin tail).takeWhile (!Text.isBlank ·) := by
  obtain ⟨c, cs, rfl⟩ := List.exists_cons_of_ne_nil hne
  have hc := hname c List.mem_cons_self
  have hblank : ∀ d ∈ c :: cs, Text.isBlank d = false := fun d hd =>
    not_isBlank_of_not_isNameMargin (hname d hd)
  have hlast : ∀ d ∈ (c :: cs).getLast?, isNameMargin d = false := fun d hd =>
    hname d (List.mem_of_getLast? hd)
  rw [itemName, Text.trimBoth, dropWhile_append_of_head? hlead (by simpa using hc),
    Text.dropEndWhile_append tail hlast, Text.firstWord, List.cons_append,
    List.dropWhile_cons_of_neg (by simp [hblank c]), ← List.cons_append,
    List.takeWhile_append_of_pos fun d hd => by simp [hblank d hd]]

/-- A text that the name of an item may end before: it is margin, or starts with a blank. -/
def EndsName (tail : List Char) : Prop :=
  (∀ c ∈ tail, isNameMargin c = true) ∨ EndsWord tail

instance (tail : List Char) : Decidable (EndsName tail) :=
  decidable_of_iff (tail.all isNameMargin = true ∨ EndsWord tail)
    (or_congr_left List.all_eq_true)

/-- **When the name of an item is read back.** -/
theorem itemName_append_eq_iff {lead name tail : List Char}
    (hlead : ∀ c ∈ lead, isNameMargin c = true) (hne : name ≠ [])
    (hname : ∀ c ∈ name, isNameMargin c = false) :
    itemName (lead ++ (name ++ tail)) = name ↔ EndsName tail := by
  rw [itemName_append hlead hne hname, List.append_right_eq_self]
  obtain ⟨t, htail, ht⟩ := Text.exists_dropEndWhile_append isNameMargin tail
  cases hcut : Text.dropEndWhile isNameMargin tail with
  | nil =>
    rw [hcut, List.nil_append] at htail
    exact iff_of_true rfl (.inl (htail ▸ ht))
  | cons c s =>
    rw [hcut] at htail
    have hmargin : ¬ ∀ d ∈ tail, isNameMargin d = true := by
      intro hall
      have hnil : Text.dropEndWhile isNameMargin tail = [] := by
        rw [← List.nil_append tail, Text.dropEndWhile_append_of_forall [] hall]
        rfl
      rw [hnil] at hcut
      cases hcut
    have hends : EndsWord tail ↔ Text.isBlank c = true := by
      rw [htail]
      simp [EndsWord]
    rw [EndsName, or_iff_right hmargin, hends]
    simp

/-! ### The names of a list -/

theorem listedNames_append_comma (a s : List Char) :
    listedNames (a ++ ',' :: s) = listedNames a ++ listedNames s := by
  rw [listedNames, List.splitOn_append_cons_self, List.map_append, List.filter_append]
  rfl

theorem listedNames_of_not_mem {a : List Char} (ha : ',' ∉ a) :
    listedNames a =
      [itemName a].filter fun name => !name.isEmpty && name.head? != some '#' := by
  rw [listedNames, List.splitOn_eq_singleton ha]
  rfl

/-- An item that starts with a character of a token gives a name. -/
theorem listedNames_of_head? {a : List Char} (ha : ',' ∉ a)
    (hstart : (itemName a).head?.any isTokenChar = true) : listedNames a = [itemName a] := by
  rw [listedNames_of_not_mem ha, List.filter_eq_self.2]
  intro item hitem
  obtain rfl := List.mem_singleton.1 hitem
  obtain ⟨c, hc⟩ : ∃ c, (itemName a).head? = some c := by
    cases hhead : (itemName a).head? with
    | none => simp [hhead] at hstart
    | some c => exact ⟨c, rfl⟩
  have hhash : c ≠ '#' := by
    rintro rfl
    rw [hc] at hstart
    exact absurd hstart (by decide)
  have hne : itemName a ≠ [] := by
    intro hnil
    simp [hnil] at hc
  simp [hc, hhash, hne]

/-- An item that starts with a comment gives no name. -/
theorem listedNames_comment {lead s : List Char} (hlead : ∀ c ∈ lead, isNameMargin c = true)
    (hcomma : ',' ∉ lead ++ '#' :: s) : listedNames (lead ++ '#' :: s) = [] := by
  have hname := @itemName_append lead ['#'] s hlead (by simp)
    (List.forall_mem_singleton.2 (by decide))
  rw [List.singleton_append] at hname
  rw [listedNames_of_not_mem hcomma, hname]
  rfl

theorem listedNames_cons {c : Char} (hc : isNameMargin c = true) (s : List Char) :
    listedNames (c :: s) = listedNames s := by
  have hcomma : (c == ',') = false := by
    refine beq_eq_false_iff_ne.2 ?_
    rintro rfl
    exact absurd hc (by decide)
  have hname : ∀ t, itemName (c :: t) = itemName t := fun t => by
    rw [itemName, Text.trimBoth, List.dropWhile_cons_of_pos hc]
    rfl
  obtain ⟨first, others, hs⟩ := List.exists_cons_of_ne_nil (List.splitOn_ne_nil ',' s)
  rw [listedNames, List.splitOn_cons_eq_if_modifyHead, hcomma, listedNames, hs]
  simp [hname]

/-- Margin in front of a list is left out. -/
theorem listedNames_append_of_isNameMargin {lead : List Char}
    (hlead : ∀ c ∈ lead, isNameMargin c = true) (s : List Char) :
    listedNames (lead ++ s) = listedNames s := by
  induction lead with
  | nil => rfl
  | cons c lead ih =>
    obtain ⟨hc, hlead⟩ := List.forall_mem_cons.1 hlead
    rw [List.cons_append, listedNames_cons hc, ih hlead]

section Names

variable {kind : List Char → Prop} {n : WrittenName} {names : List WrittenName}
  {g post : List Char}

/-- A gap is margin up to its end or its first comment. -/
theorem IsGap.isNameMargin_or (h : IsGap kind g) :
    (∀ c ∈ g, isNameMargin c = true) ∨
      ∃ lead rest, g = lead ++ '#' :: rest ∧ ∀ c ∈ lead, isNameMargin c = true := by
  have hcons : ∀ {c : Char} {g : List Char}, isNameMargin c = true →
      ((∀ c ∈ g, isNameMargin c = true) ∨
        ∃ lead rest, g = lead ++ '#' :: rest ∧ ∀ c ∈ lead, isNameMargin c = true) →
      (∀ d ∈ c :: g, isNameMargin d = true) ∨
        ∃ lead rest, c :: g = lead ++ '#' :: rest ∧ ∀ d ∈ lead, isNameMargin d = true := by
    rintro c g hc (hg | ⟨lead, rest, rfl, hlead⟩)
    · exact .inl (List.forall_mem_cons.2 ⟨hc, hg⟩)
    · exact .inr ⟨c :: lead, rest, rfl, List.forall_mem_cons.2 ⟨hc, hlead⟩⟩
  induction h with
  | nil => exact .inl (List.forall_mem_nil _)
  | blank hc _ ih => exact hcons (by simp [isNameMargin, hc]) ih
  | rowEnd hc _ ih =>
    exact hcons (by decide) (hcons (by simp [isNameMargin, isBlank_of_rowEnd hc]) ih)
  | @comment c text g _ _ _ _ _ => exact .inr ⟨[], text ++ c :: g, rfl, List.forall_mem_nil _⟩

theorem IsGap.isNameMargin (h : IsGap (fun _ => False) g) : ∀ c ∈ g, isNameMargin c = true := by
  induction h with
  | nil => exact List.forall_mem_nil _
  | blank hc _ ih => exact List.forall_mem_cons.2 ⟨by simp [Import.isNameMargin, hc], ih⟩
  | rowEnd hc _ ih =>
    refine List.forall_mem_cons.2 ⟨by decide, List.forall_mem_cons.2 ⟨?_, ih⟩⟩
    simp [Import.isNameMargin, isBlank_of_rowEnd hc]
  | comment htext _ _ _ _ => exact htext.elim

/-- A gap behind the last comma of a list gives no name, with or without comments. -/
theorem listedNames_gap (hg : IsGap kind g) (hkind : ∀ text, kind text → ',' ∉ text)
    (hpost : ∀ c ∈ post, isNameMargin c = true) : listedNames (g ++ post) = [] := by
  have hcomma : ',' ∉ g ++ post := by
    rw [List.mem_append, not_or]
    exact ⟨hg.not_mem hkind, fun h => absurd (hpost _ h) (by decide)⟩
  rcases hg.isNameMargin_or with hmargin | ⟨lead, rest, rfl, hlead⟩
  · rw [listedNames_of_not_mem hcomma, itemName_append_of_isNameMargin g hpost,
      itemName_of_isNameMargin hmargin]
    rfl
  · rw [List.append_assoc, List.cons_append] at hcomma ⊢
    exact listedNames_comment hlead hcomma

theorem WrittenName.IsWritten.not_isNameMargin (hn : n.IsWritten kind) :
    ∀ c ∈ n.name.toList, isNameMargin c = false := by
  intro c hc
  have hc := hn.name.2 c hc
  simp only [isTokenChar, Bool.and_eq_true, Bool.not_eq_true'] at hc
  exact hc.1.1

theorem WrittenName.IsWritten.not_mem (hn : n.IsWritten kind)
    (hkind : ∀ text, kind text → ',' ∉ text) : ',' ∉ n.text := by
  have hname : ',' ∉ n.name.toList := fun h => absurd (hn.name.2 _ h) (by decide)
  have htail : ',' ∉ n.tail := by
    rw [WrittenName.tail, List.mem_append, not_or]
    refine ⟨?_, hn.trail.not_mem hkind⟩
    cases ha : n.asName with
    | none => simp
    | some a =>
      obtain ⟨hbefore, -, hbehind, -, hid⟩ := hn.asName a ha
      have hid : ',' ∉ a.name.toList := fun h => absurd (hid.chars _ h) (by decide)
      simp [WrittenAlias.text, hbefore.not_mem hkind, hbehind.not_mem hkind, hid]
  simp [WrittenName.text, hn.lead.not_mem hkind, hname, htail]

/-- A name may be read back: nothing but margin stands before it, and it ends where a name may
end. -/
def WrittenName.IsReadable (n : WrittenName) : Prop :=
  (∀ c ∈ n.lead, isNameMargin c = true) ∧ EndsName n.tail

instance (n : WrittenName) : Decidable n.IsReadable :=
  decidable_of_iff (n.lead.all isNameMargin = true ∧ EndsName n.tail)
    (and_congr_left' List.all_eq_true)

/-- An item of a list gives its name, another text, or nothing. -/
theorem listedNames_text_iff (hn : n.IsWritten kind) (hkind : ∀ text, kind text → ',' ∉ text) :
    (listedNames n.text).length ≤ 1 ∧
      (listedNames n.text = [n.name.toList] ↔ n.IsReadable) := by
  have hcomma : ',' ∉ n.text := hn.not_mem hkind
  rcases hn.lead.isNameMargin_or with hlead | ⟨lead, rest, hlead, hmargin⟩
  · obtain ⟨c, cs, hcons⟩ := List.exists_cons_of_ne_nil hn.name.1
    have hitem := @itemName_append n.lead n.name.toList n.tail hlead hn.name.1 hn.not_isNameMargin
    have hlisted : listedNames n.text = [itemName n.text] := by
      refine listedNames_of_head? hcomma ?_
      rw [WrittenName.text, hitem, hcons]
      exact hn.name.2 c (hcons ▸ List.mem_cons_self)
    rw [hlisted, List.singleton_inj, WrittenName.IsReadable, and_iff_right hlead,
      WrittenName.text, itemName_append_eq_iff hlead hn.name.1 hn.not_isNameMargin]
    simp
  · -- The comment in front of the name leaves the item out.
    have hnone : listedNames n.text = [] := by
      rw [WrittenName.text, hlead, List.append_assoc, List.cons_append] at hcomma ⊢
      exact listedNames_comment hmargin hcomma
    have hblocked : ¬ n.IsReadable := by
      rintro ⟨hall, -⟩
      exact absurd (hall '#' (by simp [hlead])) (by decide)
    simp [hnone, hblocked]

/-- The names of a list are those of its items, whatever margin stands behind it. -/
theorem listedNames_namesText (hne : names ≠ []) (hnames : ∀ n ∈ names, n.IsWritten kind)
    (hkind : ∀ text, kind text → ',' ∉ text) (hpost : ∀ c ∈ post, isNameMargin c = true) :
    listedNames (namesText names ++ post) = names.flatMap fun n => listedNames n.text := by
  induction names with
  | nil => exact absurd rfl hne
  | cons n names ih =>
    obtain ⟨hn, hnames⟩ := List.forall_mem_cons.1 hnames
    cases names with
    | nil =>
      have hcomma : ',' ∉ n.text := hn.not_mem hkind
      have hpostcomma : ',' ∉ n.text ++ post := by
        rw [List.mem_append, not_or]
        exact ⟨hcomma, fun h => absurd (hpost _ h) (by decide)⟩
      rw [namesText_singleton, listedNames_of_not_mem hpostcomma,
        itemName_append_of_isNameMargin n.text hpost, ← listedNames_of_not_mem hcomma]
      simp
    | cons m names =>
      rw [namesText_cons_cons, List.append_assoc, List.cons_append, listedNames_append_comma,
        ih (by simp) hnames, List.flatMap_cons, List.flatMap_cons, List.flatMap_cons]

theorem length_flatMap_le {α β : Type} {l : List α} {f : α → List β}
    (hf : ∀ a ∈ l, (f a).length ≤ 1) : (l.flatMap f).length ≤ l.length := by
  induction l with
  | nil => simp
  | cons a l ih =>
    obtain ⟨ha, hl⟩ := List.forall_mem_cons.1 hf
    have := ih hl
    rw [List.flatMap_cons, List.length_append, List.length_cons]
    omega

/-- Items that give a text each or nothing give certain texts when each of them does. -/
theorem flatMap_eq_map_iff {α β : Type} {l : List α} {f : α → List β} {g : α → β}
    (hf : ∀ a ∈ l, (f a).length ≤ 1) : l.flatMap f = l.map g ↔ ∀ a ∈ l, f a = [g a] := by
  induction l with
  | nil => simp
  | cons a l ih =>
    obtain ⟨ha, hl⟩ := List.forall_mem_cons.1 hf
    have hshort : (l.flatMap f).length ≤ l.length := length_flatMap_le hl
    rw [List.flatMap_cons, List.map_cons, List.forall_mem_cons, ← ih hl]
    constructor
    · intro hsame
      match hfa : f a, ha with
      | [], _ =>
        have hlength := congrArg List.length hsame
        rw [hfa, List.nil_append, List.length_cons, List.length_map] at hlength
        omega
      | [b], _ =>
        rw [hfa, List.singleton_append, List.cons_eq_cons] at hsame
        exact ⟨by rw [hsame.1], hsame.2⟩
    · rintro ⟨hfa, hrest⟩
      rw [hfa, hrest, List.singleton_append]

/-- **When the names of a list are read back:** when each of them may be. -/
theorem listedNames_namesText_iff (hne : names ≠ []) (hnames : ∀ n ∈ names, n.IsWritten kind)
    (hkind : ∀ text, kind text → ',' ∉ text) (hpost : ∀ c ∈ post, isNameMargin c = true) :
    listedNames (namesText names ++ post) = names.map (·.name.toList) ↔
      ∀ n ∈ names, n.IsReadable := by
  rw [listedNames_namesText hne hnames hkind hpost,
    flatMap_eq_map_iff fun n hn => (listedNames_text_iff (hnames n hn) hkind).1]
  exact forall₂_congr fun n hn => (listedNames_text_iff (hnames n hn) hkind).2

end Names

/-! ### A list with its brackets -/

/-- The brackets around a list: the gap in front of them, and the gap behind a last comma if there
is one. -/
structure Brackets where
  before : List Char
  trailing : Option (List Char)

/-- A list of names as it is written behind `import`, maybe in brackets, and the blanks behind
it. -/
structure WrittenList where
  names : List WrittenName
  brackets : Option Brackets
  behind : List Char

namespace WrittenList

/-- What stands in front of the names. -/
def opening (l : WrittenList) : List Char :=
  l.brackets.elim [] fun b => b.before ++ ['(']

/-- What stands behind the names. -/
def closing (l : WrittenList) : List Char :=
  l.brackets.elim l.behind fun b => b.trailing.elim [] (',' :: ·) ++ ')' :: l.behind

def text (l : WrittenList) : List Char :=
  l.opening ++ (namesText l.names ++ l.closing)

/-- The names and gaps of a list are such as a statement may hold, with comments of a kind; in front
of the brackets stand none. -/
structure IsWritten (kind : List Char → Prop) (l : WrittenList) : Prop where
  names_ne : l.names ≠ []
  names : ∀ n ∈ l.names, n.IsWritten kind
  before : ∀ b ∈ l.brackets, IsGap (fun _ => False) b.before
  trailing : ∀ b ∈ l.brackets, ∀ g ∈ b.trailing, IsGap kind g
  behind : ∀ c ∈ l.behind, Text.isBlank c = true

variable {kind : List Char → Prop} {l : WrittenList}

/-- What stands in front of the names is margin. -/
theorem isNameMargin_opening (hl : l.IsWritten kind) :
    ∀ c ∈ l.opening, isNameMargin c = true := by
  rw [opening]
  cases hbrackets : l.brackets with
  | none => exact List.forall_mem_nil _
  | some b =>
    refine List.forall_mem_append.2 ⟨(hl.before b hbrackets).isNameMargin, ?_⟩
    exact List.forall_mem_singleton.2 (by decide)

/-- **When the names of a list are read back,** in brackets or not, with a last comma or
without. -/
theorem listedNames_eq_iff (hl : l.IsWritten kind) (hkind : ∀ text, kind text → ',' ∉ text) :
    listedNames l.text = l.names.map (·.name.toList) ↔ ∀ n ∈ l.names, n.IsReadable := by
  have hbehind : ∀ c ∈ l.behind, isNameMargin c = true := fun c hc => by
    simp [isNameMargin, hl.behind c hc]
  have hclose : ∀ c ∈ ')' :: l.behind, isNameMargin c = true :=
    List.forall_mem_cons.2 ⟨by decide, hbehind⟩
  rw [text, listedNames_append_of_isNameMargin (isNameMargin_opening hl), closing]
  cases hbrackets : l.brackets with
  | none => exact listedNames_namesText_iff hl.names_ne hl.names hkind hbehind
  | some b =>
    rw [Option.elim_some]
    cases htrailing : b.trailing with
    | none => exact listedNames_namesText_iff hl.names_ne hl.names hkind hclose
    | some g =>
      have hg : IsGap kind g := hl.trailing b hbrackets g htrailing
      have hnames : listedNames (namesText l.names ++ []) = l.names.map (·.name.toList) ↔
          ∀ n ∈ l.names, n.IsReadable :=
        listedNames_namesText_iff hl.names_ne hl.names hkind (List.forall_mem_nil _)
      rw [List.append_nil] at hnames
      rw [Option.elim_some, List.cons_append, listedNames_append_comma,
        listedNames_gap hg hkind hclose, List.append_nil, hnames]

end WrittenList

end Import
end CompletionPrompt

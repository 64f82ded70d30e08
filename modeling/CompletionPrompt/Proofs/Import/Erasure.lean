import CompletionPrompt.Proofs.Source.ImportSpans
import CompletionPrompt.Proofs.Span.Substitution
import CompletionPrompt.Proofs.Text.Erasing
import CompletionPrompt.Import.Resolution

/-!
# What erasing import statements leaves

`Import.eraseMentioning` erases the texts of import statements one after the other, in source order
and wherever they stand. It is meant to give what cutting out those statements gives, less what is
erased elsewhere as well (`Import.cutMentioned`). An erased text may be the start of a statement
further down, `import a` of `import a.b`, and then its own turn finds that statement no more and the
rest of it stays. So the statements bear marks here (`Span.mark`), and what bears a mark at the end
is what is left of them (`Import.fragments`).

Let the statements be set off from what follows them (`Import.StandAlone`), as those of a layout are.
Where no erased occurrence reaches over the edge of a statement, a statement is erased as if it
stood alone: it leaves what the erased texts, in their order, leave of it (`Import.residue`). A
statement leaves nothing when no statement erased before it stands in it (`residue_eq_nil`).
-/

namespace CompletionPrompt

/-! ### Marks on spans -/

namespace Span

/-- The rest of a text from an offset on, with marks on what spans cover; the spans stand in source
order. -/
def markFrom (text : List Char) : Nat → List Span → Text.Marked
  | p, [] => .uniform false (text.drop p)
  | p, s :: spans =>
    .uniform false (Text.stretch text p (Text.offset text s.start)) ++
      (.uniform true (Text.stretch text (Text.offset text s.start) (Text.offset text s.stop)) ++
        markFrom text (Text.offset text s.stop) spans)

/-- A text with marks on what spans cover; the spans stand in source order. -/
def mark (text : List Char) (spans : List Span) : Text.Marked :=
  markFrom text 0 spans

/-- What bears no mark is the text without the spans. -/
theorem outside_markFrom (text : List Char) (p : Nat) (spans : List Span) :
    (markFrom text p spans).outside = substituteFrom text p (spans.map (·, [])) := by
  induction spans generalizing p with
  | nil => simp [markFrom, substituteFrom]
  | cons s spans ih => simp [markFrom, substituteFrom, ih]

variable {text : List Char} {spans : List Span}

theorem plain_markFrom {p : Nat} (hfits : ∀ s ∈ spans, s.Fits text)
    (hpair : spans.Pairwise EndsBefore) (hp : ∀ s ∈ spans, p ≤ Text.offset text s.start) :
    (markFrom text p spans).plain = text.drop p := by
  induction spans generalizing p with
  | nil => simp [markFrom]
  | cons s spans ih =>
    obtain ⟨hbefore, hpair⟩ := List.pairwise_cons.1 hpair
    have hs := hfits s List.mem_cons_self
    have hrest : ∀ t ∈ spans, t.Fits text := fun t ht => hfits t (List.mem_cons_of_mem _ ht)
    have hih := ih hrest hpair fun t ht => (hbefore t ht).offset_le hs (hrest t ht)
    simp only [markFrom, Text.Marked.plain_append, Text.Marked.plain_uniform, hih]
    rw [stretch_append_drop hs.offset_le, stretch_append_drop (hp s List.mem_cons_self)]

theorem plain_mark (hfits : ∀ s ∈ spans, s.Fits text) (hpair : spans.Pairwise EndsBefore) :
    (mark text spans).plain = text :=
  plain_markFrom hfits hpair fun _ _ => Nat.zero_le _

end Span

namespace Source

/-- What a span that stands alone covers, where it starts and what follows it. -/
theorem StandsAlone.stretch_eq {text : List Char} {s : Span} (h : StandsAlone text s) :
    Text.stretch text (Text.offset text s.start) (Text.offset text s.stop) = s.extract text ∧
      (∃ c m, s.extract text = c :: m ∧ isWordChar c = true) ∧
      ∀ c ∈ (text.drop (Text.offset text s.stop)).head?, isWordChar c = false := by
  obtain ⟨a, m, b, rfl, rfl, hstart, hafter⟩ := h
  rw [Span.offset_start_around, Span.offset_stop_around, Span.extract_around, List.drop_left]
  refine ⟨by rw [Text.stretch, List.take_left, List.drop_left], ?_, hafter⟩
  rcases hstart with ⟨rest, rfl⟩ | ⟨rest, rfl⟩
  · exact ⟨'i', "mport".toList ++ rest, rfl, by decide⟩
  · exact ⟨'f', "rom".toList ++ rest, rfl, by decide⟩

/-- What follows a statement that stands alone has no mark. -/
theorem follows_markFrom {text : List Char} {p : Nat} {spans : List Span}
    (halone : ∀ s ∈ spans, StandsAlone text s) (hpair : spans.Pairwise Span.EndsBefore)
    (hp : ∀ s ∈ spans, p ≤ Text.offset text s.start)
    (hfirst : ∀ c ∈ (text.drop p).head?, isWordChar c = false) :
    Text.Follows isWordChar (Span.markFrom text p spans) := by
  have hplain := Span.plain_markFrom (fun s hs => (halone s hs).fits) hpair hp
  intro x hx
  have hchar : isWordChar x.1 = false := by
    refine hfirst x.1 ?_
    rw [← hplain, Text.Marked.plain, List.head?_map, hx]
    rfl
  refine ⟨?_, hchar⟩
  cases spans with
  | nil =>
    obtain ⟨c, -, rfl⟩ := List.mem_map.1 (List.mem_of_mem_head? hx)
    rfl
  | cons s spans =>
    obtain ⟨hcovered, ⟨c, m, hm, hword⟩, -⟩ := (halone s List.mem_cons_self).stretch_eq
    rw [Span.markFrom, hcovered, hm] at hx
    cases hgap : Text.stretch text p (Text.offset text s.start) with
    | nil =>
      -- Nothing between the offset and the statement: its word would stand at the offset.
      rw [hgap] at hx
      obtain rfl := Option.some.inj hx
      exact absurd (hchar.symm.trans hword) Bool.false_ne_true
    | cons d gap =>
      rw [hgap] at hx
      obtain rfl := Option.some.inj hx
      rfl

/-- **A text is woven of the statements that are marked in it.** -/
theorem woven_markFrom {text : List Char} {p : Nat} {spans : List Span}
    (halone : ∀ s ∈ spans, StandsAlone text s) (hpair : spans.Pairwise Span.EndsBefore) :
    Text.Woven isWordChar (Span.markFrom text p spans) (spans.map (·.extract text)) := by
  induction spans generalizing p with
  | nil => exact .unmarked _
  | cons s spans ih =>
    obtain ⟨hbefore, hpair⟩ := List.pairwise_cons.1 hpair
    have hs := halone s List.mem_cons_self
    have hrest : ∀ t ∈ spans, StandsAlone text t := fun t ht => halone t (List.mem_cons_of_mem _ ht)
    obtain ⟨hcovered, ⟨c, m, hm, -⟩, hafter⟩ := hs.stretch_eq
    have hle : ∀ t ∈ spans, Text.offset text s.stop ≤ Text.offset text t.start :=
      fun t ht => (hbefore t ht).offset_le hs.fits (hrest t ht).fits
    rw [Span.markFrom, hcovered]
    exact .marked _ (by rw [hm]; exact List.cons_ne_nil c m)
      (follows_markFrom hrest hpair hle hafter) (ih hrest hpair)

end Source

/-! ### The statements that mention a module -/

namespace Import

section
variable [Source.Parser]

/-- The spans of the import statements of a text that mention one of some modules. -/
def mentionedSpans (modules : List String) (text : List Char) : List Span :=
  (Source.importSpans .wholeSource text).filter fun s =>
    modules.any fun m => Text.occurs m.toList (s.extract text)

/-- The import statements of a text that mention one of some modules, in source order. -/
def mentioned (modules : List String) (text : List Char) : List (List Char) :=
  (mentionedSpans modules text).map (·.extract text)

/-- A text with the import statements cut out that mention one of some modules. -/
def cutMentioned (modules : List String) (text : List Char) : List Char :=
  Span.substitute text ((mentionedSpans modules text).map (·, []))

/-- A text with marks on the import statements that mention one of some modules. -/
def markMentioned (modules : List String) (text : List Char) : Text.Marked :=
  Span.mark text (mentionedSpans modules text)

/-- What erasing leaves, with marks on what is left of the statements. -/
def leftovers (modules : List String) (text : List Char) : Text.Marked :=
  Text.eraseEach (mentioned modules text) (markMentioned modules text)

/-- What erasing leaves of the statements that mention one of some modules. -/
def fragments (modules : List String) (text : List Char) : List Char :=
  (leftovers modules text).inside

/-- What erasing leaves of a text that stands alone. -/
def residue (modules : List String) (text s : List Char) : List Char :=
  (mentioned modules text).foldl (fun s n => Text.eraseAll n s) s

variable (modules : List String) (text : List Char)

theorem eraseMentioning_eq : eraseMentioning modules text = residue modules text text := by
  have hmentioned : ((Source.importStatements .wholeSource text).map (·.2)).filter
      (fun s => modules.any fun m => Text.occurs m.toList s) = mentioned modules text := by
    simp only [Source.importStatements, mentioned, mentionedSpans, List.map_map, List.filter_map]
    rfl
  rw [eraseMentioning, hmentioned, residue]

theorem outside_markMentioned : (markMentioned modules text).outside = cutMentioned modules text :=
  Span.outside_markFrom text 0 _

/-- A statement leaves nothing when no statement erased before it stands in it. -/
theorem residue_eq_nil {earlier later : List (List Char)} {s : List Char}
    (h : mentioned modules text = earlier ++ s :: later)
    (hs : ∀ n ∈ earlier, Text.occurs n s = false) : residue modules text s = [] := by
  have hstays : ∀ ns : List (List Char), (∀ n ∈ ns, Text.occurs n s = false) →
      ns.foldl (fun s n => Text.eraseAll n s) s = s := by
    intro ns hns
    induction ns with
    | nil => rfl
    | cons n ns ih =>
      rw [List.foldl_cons, Text.eraseAll_of_not_occurs (hns n List.mem_cons_self)]
      exact ih fun m hm => hns m (List.mem_cons_of_mem _ hm)
  rw [residue, h, List.foldl_append, hstays earlier hs, List.foldl_cons, Text.eraseAll_self,
    Text.foldl_eraseAll_nil]

/-- The statements that mention a module stand alone. -/
def StandAlone : Prop :=
  ∀ s ∈ mentionedSpans modules text, Source.StandsAlone text s

/-- No erased occurrence reaches over the edge of a statement that mentions a module. -/
def KeepsEdges : Prop :=
  Text.keepsAllEdges (mentioned modules text) (markMentioned modules text) = true

/-- What is erased belongs to statements that mention a module. -/
def TakesNothingElse : Prop :=
  (leftovers modules text).outside = cutMentioned modules text

instance : Decidable (KeepsEdges modules text) :=
  inferInstanceAs (Decidable (_ = _))

instance : Decidable (TakesNothingElse modules text) :=
  inferInstanceAs (Decidable (_ = _))

/-- A statement that stands alone starts with a word. -/
theorem StandAlone.isWordChar {modules : List String} {text : List Char}
    (h : StandAlone modules text) :
    ∀ s ∈ mentioned modules text, ∀ c ∈ s.head?, Source.isWordChar c = true := by
  intro s hs c hc
  obtain ⟨span, hspan, rfl⟩ := List.mem_map.1 hs
  obtain ⟨-, ⟨d, m, hm, hword⟩, -⟩ := (h span hspan).stretch_eq
  rw [hm] at hc
  obtain rfl := Option.some.inj hc
  exact hword

theorem TakesNothingElse.keepsEdges {modules : List String} {text : List Char}
    (h : TakesNothingElse modules text) : KeepsEdges modules text := by
  refine Text.keepsAllEdges_of_outside ?_
  rw [outside_markMentioned, ← h]
  exact Nat.le_refl _

variable [Source.LawfulParser]

theorem mentionedSpans_pairwise : (mentionedSpans modules text).Pairwise Span.EndsBefore :=
  (Source.importSpans_pairwise .wholeSource text).sublist List.filter_sublist

/-- Marks are of no account to what is erased. -/
theorem plain_leftovers : (leftovers modules text).plain = eraseMentioning modules text := by
  have hplain : (markMentioned modules text).plain = text :=
    Span.plain_mark (fun s hs => Source.fits_of_mem_importSpans (List.mem_filter.1 hs).1)
      (mentionedSpans_pairwise modules text)
  rw [leftovers, Text.plain_eraseEach, hplain, eraseMentioning_eq, residue]

variable {modules : List String} {text : List Char}

/-- Where the edges of the statements are kept, each leaves what it leaves alone. -/
theorem fragments_eq (halone : StandAlone modules text) (h : KeepsEdges modules text) :
    fragments modules text = ((mentioned modules text).map (residue modules text)).flatten :=
  ((Source.woven_markFrom halone (mentionedSpans_pairwise modules text)).eraseEach
    halone.isWordChar h).inside_eq

theorem fragments_eq_nil_iff (halone : StandAlone modules text) (h : KeepsEdges modules text) :
    fragments modules text = [] ↔ ∀ s ∈ mentioned modules text, residue modules text s = [] := by
  rw [fragments_eq halone h, List.flatten_eq_nil_iff]
  simp only [List.mem_map, forall_exists_index, and_imp, forall_apply_eq_imp_iff₂]

/-- What is left, when no fragment is, is a part of the text without the statements. -/
theorem sublist_of_fragments_eq_nil (h : fragments modules text = []) :
    (eraseMentioning modules text).Sublist (cutMentioned modules text) := by
  rw [← plain_leftovers, ← Text.Marked.outside_eq_plain h, ← outside_markMentioned]
  exact ((Text.eraseEach_sublist _ _).filter _).map _

/-- A part of the text without the statements that keeps all of it has no room for a fragment. -/
theorem fragments_eq_nil_of_sublist (h : TakesNothingElse modules text)
    (hsub : (eraseMentioning modules text).Sublist (cutMentioned modules text)) :
    fragments modules text = [] := by
  have hlen := hsub.length_le
  have hparts := Text.Marked.length_inside_add_length_outside (leftovers modules text)
  rw [plain_leftovers, h] at hparts
  exact List.length_eq_zero_iff.1 (show (leftovers modules text).inside.length = 0 by omega)

variable (modules text) in
/-- **When erasing leaves no fragment of a statement.** Without a fragment, what is left is a part
of the text without the statements. Let the statements stand alone. Where their edges are kept, there is
no fragment exactly when the erased texts, one after the other, leave nothing of each statement alone;
and where nothing else is erased, what is left is a part of the text without the statements in no other
case. -/
theorem eraseMentioning_sublist_cutMentioned :
    (fragments modules text = [] →
      (eraseMentioning modules text).Sublist (cutMentioned modules text)) ∧
    (StandAlone modules text →
      (KeepsEdges modules text →
        (fragments modules text = [] ↔
          ∀ s ∈ mentioned modules text, residue modules text s = [])) ∧
      (TakesNothingElse modules text →
        ((eraseMentioning modules text).Sublist (cutMentioned modules text) ↔
          ∀ s ∈ mentioned modules text, residue modules text s = []))) := by
  refine ⟨sublist_of_fragments_eq_nil, fun halone => ⟨fragments_eq_nil_iff halone, fun h => ?_⟩⟩
  rw [← fragments_eq_nil_iff halone h.keepsEdges]
  exact ⟨fragments_eq_nil_of_sublist h, sublist_of_fragments_eq_nil⟩

end

/-- The statements of a layout stand alone. -/
theorem standAlone (modules : List String) (text : List Char) : StandAlone modules text :=
  fun _ hs => Source.importSpans_standAlone (List.mem_filter.1 hs).1

/-- The longer statement is erased first. -/
theorem eraseMentioning_sublist_of_longer_first :
    StandAlone ["a"] "import a.b\nx\nimport a\n".toList ∧
      TakesNothingElse ["a"] "import a.b\nx\nimport a\n".toList ∧
      fragments ["a"] "import a.b\nx\nimport a\n".toList = [] ∧
      (eraseMentioning ["a"] "import a.b\nx\nimport a\n".toList).Sublist
        (cutMentioned ["a"] "import a.b\nx\nimport a\n".toList) ∧
      ∀ s ∈ mentioned ["a"] "import a.b\nx\nimport a\n".toList,
        residue ["a"] "import a.b\nx\nimport a\n".toList s = [] := by
  obtain ⟨hsub, hrest⟩ :=
    eraseMentioning_sublist_cutMentioned ["a"] "import a.b\nx\nimport a\n".toList
  obtain ⟨hfragments, hexact⟩ := hrest (standAlone _ _)
  have hkeeps : KeepsEdges ["a"] "import a.b\nx\nimport a\n".toList := by decide +kernel
  have hnothing : TakesNothingElse ["a"] "import a.b\nx\nimport a\n".toList := by decide +kernel
  have halone : ∀ s ∈ mentioned ["a"] "import a.b\nx\nimport a\n".toList,
      residue ["a"] "import a.b\nx\nimport a\n".toList s = [] := by decide +kernel
  have hnone := (hfragments hkeeps).2 halone
  exact ⟨standAlone _ _, hnothing, hnone, hsub hnone, (hexact hnothing).1 (hsub hnone)⟩

/-- The shorter statement is erased first, and of the longer one its end is left. -/
theorem not_eraseMentioning_sublist_of_shorter_first :
    ¬ (eraseMentioning ["a"] "import a\nimport a.b\n".toList).Sublist
      (cutMentioned ["a"] "import a\nimport a.b\n".toList) := by
  decide +kernel

end Import
end CompletionPrompt

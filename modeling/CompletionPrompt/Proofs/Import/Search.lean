import CompletionPrompt.Proofs.Import.PlainStatement

/-!
# What a search finds

A search gives what its pattern gives at the first place where it stands: the longest end of the
text that starts with it (`search_eq_some_iff`). The two patterns for a module are a text that
starts with `from`, blanks, a path, blanks and `import` (`StartsFrom`), and one that starts with
`import`, blanks and a path (`StartsImport`). Of the path, the dots in front are left out, up to the
last character (`dropDots_replicate_append`, `dropDots_replicate`).
-/

namespace CompletionPrompt
namespace Import

/-- One or more blanks. -/
def IsBlanks (g : List Char) : Prop :=
  g ≠ [] ∧ ∀ c ∈ g, Text.isBlank c = true

instance (g : List Char) : Decidable (IsBlanks g) :=
  decidable_of_iff (g ≠ [] ∧ g.all Text.isBlank = true) (and_congr_right' List.all_eq_true)

/-- One or more characters of a dotted path. -/
def IsPath (path : List Char) : Prop :=
  path ≠ [] ∧ ∀ c ∈ path, isPathChar c = true

instance (path : List Char) : Decidable (IsPath path) :=
  decidable_of_iff (path ≠ [] ∧ path.all isPathChar = true) (and_congr_right' List.all_eq_true)

theorem isBlank_of_mem_head? {g s : List Char} (hg : IsBlanks g) :
    ∀ c ∈ (g ++ s).head?, Text.isBlank c = true := by
  obtain ⟨c, g, rfl⟩ := List.exists_cons_of_ne_nil hg.1
  simpa using hg.2 c List.mem_cons_self

/-! ### Parts of a pattern -/

theorem forall_mem_head?_cons {p : Char → Prop} {c : Char} {s : List Char} (hc : p c) :
    ∀ d ∈ (c :: s).head?, p d := by
  rintro d ⟨⟩
  exact hc

theorem head?_dropWhile (p : Char → Bool) (s : List Char) :
    ∀ c ∈ (s.dropWhile p).head?, p c = false := by
  intro c hc
  have hhead := List.head?_dropWhile_not p s
  rw [hc] at hhead
  simpa using hhead

/-- A stretch of characters of a class is dropped, up to the first other character. -/
theorem dropWhile_append_of_head? {p : Char → Bool} {g s : List Char} (hg : ∀ c ∈ g, p c = true)
    (hs : ∀ c ∈ s.head?, p c = false) : (g ++ s).dropWhile p = s := by
  rw [List.dropWhile_append_of_pos hg]
  cases s with
  | nil => rfl
  | cons c s => rw [List.dropWhile_cons_of_neg (by simp [hs c rfl])]

/-- A text is cut in one way into characters of a class and what starts with another. -/
theorem append_inj_of_head? {p : Char → Bool} {g g' s s' : List Char} (hg : ∀ c ∈ g, p c = true)
    (hs : ∀ c ∈ s.head?, p c = false) (hg' : ∀ c ∈ g', p c = true)
    (hs' : ∀ c ∈ s'.head?, p c = false) (hsame : g ++ s = g' ++ s') : g = g' ∧ s = s' := by
  have hrest : s = s' := by
    rw [← dropWhile_append_of_head? hg hs, hsame, dropWhile_append_of_head? hg' hs']
  exact ⟨List.append_cancel_right (hrest ▸ hsame), hrest⟩

/-- **A search finds the first place:** the longest end of the text from which the pattern gives
something. -/
theorem search_eq_some_iff {α : Type} {f : List Char → Option α} {s : List Char} {a : α} :
    search f s = some a ↔ ∃ here, here <:+ s ∧ f here = some a ∧
      ∀ longer, longer <:+ s → here.length < longer.length → f longer = none := by
  induction s with
  | nil =>
    refine ⟨fun h => ⟨[], List.suffix_rfl, h, fun longer hlonger hlt => ?_⟩, ?_⟩
    · simp [List.suffix_nil.1 hlonger] at hlt
    · rintro ⟨here, hhere, hf, -⟩
      rwa [List.suffix_nil.1 hhere] at hf
  | cons c s ih =>
    rw [search]
    split
    · rename_i b hb
      constructor
      · rintro hba
        refine ⟨c :: s, List.suffix_rfl, hb.trans hba, fun longer hlonger hlt => ?_⟩
        exact absurd hlonger.length_le (by omega)
      · rintro ⟨here, hhere, hf, hfirst⟩
        rcases List.suffix_cons_iff.1 hhere with rfl | hhere
        · exact hb.symm.trans hf
        · have hlt : here.length < (c :: s).length := Nat.lt_succ_of_le hhere.length_le
          rw [hfirst _ List.suffix_rfl hlt] at hb
          cases hb
    · rename_i hnone
      rw [ih]
      constructor
      · rintro ⟨here, hhere, hf, hfirst⟩
        refine ⟨here, hhere.trans (List.suffix_cons c s), hf, fun longer hlonger hlt => ?_⟩
        rcases List.suffix_cons_iff.1 hlonger with rfl | hlonger
        · exact hnone
        · exact hfirst longer hlonger hlt
      · rintro ⟨here, hhere, hf, hfirst⟩
        rcases List.suffix_cons_iff.1 hhere with rfl | hhere
        · rw [hnone] at hf
          cases hf
        · exact ⟨here, hhere, hf, fun longer hlonger hlt =>
            hfirst longer (hlonger.trans (List.suffix_cons c s)) hlt⟩

theorem search_eq_none_iff {α : Type} {f : List Char → Option α} {s : List Char} :
    search f s = none ↔ ∀ here, here <:+ s → f here = none := by
  induction s with
  | nil => simp [search]
  | cons c s ih =>
    rw [search]
    split
    · rename_i b hb
      refine ⟨fun h => (by cases h), fun h => ?_⟩
      rw [h _ List.suffix_rfl] at hb
      cases hb
    · rename_i hnone
      rw [ih]
      refine ⟨fun h here hhere => ?_, fun h here hhere => ?_⟩
      · rcases List.suffix_cons_iff.1 hhere with rfl | hhere
        · exact hnone
        · exact h here hhere
      · exact h here (hhere.trans (List.suffix_cons c s))

theorem afterBlanks?_eq_some_iff {s t : List Char} :
    afterBlanks? s = some t ↔
      ∃ g, s = g ++ t ∧ IsBlanks g ∧ ∀ c ∈ t.head?, Text.isBlank c = false := by
  constructor
  · intro h
    cases s with
    | nil => cases h
    | cons c s =>
      rw [afterBlanks?] at h
      split at h
      · rename_i hc
        obtain rfl := Option.some.inj h
        exact ⟨c :: s.takeWhile Text.isBlank, by simp,
          ⟨by simp, List.forall_mem_cons.2 ⟨hc, fun d hd => List.mem_takeWhile_imp hd⟩⟩,
          head?_dropWhile Text.isBlank s⟩
      · cases h
  · rintro ⟨g, rfl, hg, ht⟩
    obtain ⟨c, g, rfl⟩ := List.exists_cons_of_ne_nil hg.1
    rw [List.cons_append, afterBlanks?, if_pos (hg.2 c List.mem_cons_self),
      dropWhile_append_of_head? (fun d hd => hg.2 d (List.mem_cons_of_mem c hd)) ht]

theorem run?_eq_some_iff {p : Char → Bool} {s run rest : List Char} :
    run? p s = some (run, rest) ↔
      s = run ++ rest ∧ run ≠ [] ∧ (∀ c ∈ run, p c = true) ∧ ∀ c ∈ rest.head?, p c = false := by
  constructor
  · intro h
    simp only [run?, List.span_eq_takeWhile_dropWhile] at h
    split at h
    · cases h
    · rename_i hne
      obtain ⟨rfl, rfl⟩ := Prod.mk.inj (Option.some.inj h)
      exact ⟨(List.takeWhile_append_dropWhile).symm, by simpa using hne,
        fun c hc => List.mem_takeWhile_imp hc, head?_dropWhile p s⟩
  · rintro ⟨rfl, hne, hrun, hrest⟩
    exact run?_append hne hrun hrest

/-! ### Dots in front of a path -/

/-- Dots in front of something else are left out. -/
theorem dropDots_replicate_append (n : Nat) {c : Char} (hc : c ≠ '.') (s : List Char) :
    dropDots (List.replicate n '.' ++ c :: s) = c :: s := by
  induction n with
  | zero =>
    rw [List.replicate_zero, List.nil_append, dropDots]
    rintro d ds ⟨rfl, -⟩
    exact hc rfl
  | succ n ih =>
    rw [List.replicate_succ, List.cons_append]
    cases n with
    | zero => rw [List.replicate_zero, List.nil_append] at ih ⊢; rw [dropDots, ih]
    | succ n =>
      rw [List.replicate_succ, List.cons_append] at ih ⊢
      rw [dropDots, ih]

/-- Of dots alone the last is left. -/
theorem dropDots_replicate (n : Nat) : dropDots (List.replicate (n + 1) '.') = ['.'] := by
  induction n with
  | zero => rfl
  | succ n ih =>
    rw [List.replicate_succ] at ih ⊢
    rw [List.replicate_succ, dropDots, ih]

/-- A path is dots and then something else, or dots alone. -/
theorem dots_or_exists_cons (s : List Char) :
    (∃ n c t, s = List.replicate n '.' ++ c :: t ∧ c ≠ '.') ∨
      ∃ n, s = List.replicate n '.' := by
  induction s with
  | nil => exact .inr ⟨0, rfl⟩
  | cons c s ih =>
    by_cases hc : c = '.'
    · subst hc
      rcases ih with ⟨n, d, t, rfl, hd⟩ | ⟨n, rfl⟩
      · exact .inl ⟨n + 1, d, t, rfl, hd⟩
      · exact .inr ⟨n + 1, rfl⟩
    · exact .inl ⟨0, c, s, rfl, hc⟩

/-- What is left of a path without its dots is its end, from any other character on. -/
theorem suffix_dropDots_append {c : Char} (hc : c ≠ '.') (s t : List Char) :
    c :: t <:+ dropDots (s ++ c :: t) := by
  rcases dots_or_exists_cons s with ⟨n, d, u, rfl, hd⟩ | ⟨n, rfl⟩
  · rw [List.append_assoc, List.cons_append, dropDots_replicate_append n hd]
    exact ⟨d :: u, rfl⟩
  · exact ⟨[], (dropDots_replicate_append n hc t).symm⟩

theorem dropDots_suffix (s : List Char) : dropDots s <:+ s := by
  rcases dots_or_exists_cons s with ⟨n, d, u, rfl, hd⟩ | ⟨n, rfl⟩
  · rw [dropDots_replicate_append n hd]
    exact List.suffix_append _ _
  · cases n with
    | zero => exact List.suffix_rfl
    | succ n =>
      rw [dropDots_replicate, List.replicate_succ']
      exact List.suffix_append _ _

/-- Only dots can be added to a path so that the same is left without its dots. -/
theorem eq_of_dropDots_append {s t : List Char} (hs : s ≠ [])
    (hsame : dropDots (s ++ t) = dropDots s) : ∀ c ∈ t.head?, c = '.' := by
  intro c hc
  by_contra hother
  obtain ⟨c, t, rfl⟩ : ∃ d u, t = d :: u := by
    cases t with
    | nil => cases hc
    | cons d u => exact ⟨d, u, rfl⟩
  obtain rfl := Option.some.inj hc
  rcases dots_or_exists_cons s with ⟨n, d, u, rfl, hd⟩ | ⟨n, rfl⟩
  · rw [List.append_assoc, List.cons_append, dropDots_replicate_append n hd,
      dropDots_replicate_append n hd] at hsame
    simp at hsame
  · cases n with
    | zero => exact hs rfl
    | succ n =>
      rw [dropDots_replicate_append _ hother, dropDots_replicate] at hsame
      exact hother (List.cons_eq_cons.1 hsame).1

/-- The dots in front of a path are of the class of what is left. -/
theorem forall_mem_of_dropDots {p : Char → Prop} {s : List Char} (hdot : p '.')
    (h : ∀ c ∈ dropDots s, p c) : ∀ c ∈ s, p c := by
  have hdots : ∀ (n : Nat), ∀ c ∈ List.replicate n '.', p c := fun n c hc =>
    List.eq_of_mem_replicate hc ▸ hdot
  rcases dots_or_exists_cons s with ⟨n, d, u, rfl, hd⟩ | ⟨n, rfl⟩
  · rw [dropDots_replicate_append n hd] at h
    exact List.forall_mem_append.2 ⟨hdots n, h⟩
  · exact hdots n

/-! ### The patterns for a module -/

/-- The text starts with `from`, the path and `import`, with blanks between them. -/
def StartsFrom (path s : List Char) : Prop :=
  ∃ g h rest, s = "from".toList ++ (g ++ (path ++ (h ++ ("import".toList ++ rest)))) ∧
    IsBlanks g ∧ IsPath path ∧ IsBlanks h

/-- The text starts with `import`, blanks and the path. -/
def StartsImport (path s : List Char) : Prop :=
  ∃ g rest, s = "import".toList ++ (g ++ (path ++ rest)) ∧
    IsBlanks g ∧ IsPath path ∧ ∀ c ∈ rest.head?, isPathChar c = false

theorem not_isBlank_of_isPath {path s : List Char} (h : IsPath path) :
    ∀ c ∈ (path ++ s).head?, Text.isBlank c = false := by
  obtain ⟨c, path, rfl⟩ := List.exists_cons_of_ne_nil h.1
  have hc := h.2 c List.mem_cons_self
  simp only [isPathChar, Bool.and_eq_true] at hc
  simpa using hc.1

theorem fromModuleHere?_eq_some_iff {s module : List Char} :
    fromModuleHere? s = some module ↔ ∃ path, StartsFrom path s ∧ module = dropDots path := by
  simp only [fromModuleHere?, Option.bind_eq_bind, Option.bind_eq_some_iff, Option.pure_def,
    Option.some.injEq, after?_eq_some_iff, afterBlanks?_eq_some_iff, Prod.exists,
    run?_eq_some_iff]
  constructor
  · rintro ⟨_, rfl, _, ⟨g, rfl, hg, -⟩, path, _, ⟨rfl, hne, hpath, -⟩, _, ⟨h, rfl, hh, -⟩, rest,
      rfl, rfl⟩
    exact ⟨path, ⟨g, h, rest, rfl, hg, ⟨hne, hpath⟩, hh⟩, rfl⟩
  · rintro ⟨path, ⟨g, h, rest, rfl, hg, hpath, hh⟩, rfl⟩
    refine ⟨_, rfl, _, ⟨g, rfl, hg, not_isBlank_of_isPath hpath⟩, path, _,
      ⟨rfl, hpath.1, hpath.2, fun c hc => ?_⟩, _, ⟨h, rfl, hh, ?_⟩, rest, rfl, rfl⟩
    · simp [isPathChar, isBlank_of_mem_head? hh c hc]
    · simp only [String.reduceToList, List.cons_append, List.head?_cons, Option.mem_some_iff,
        forall_eq']
      decide

theorem importModuleHere?_eq_some_iff {s module : List Char} :
    importModuleHere? s = some module ↔ ∃ path, StartsImport path s ∧ module = dropDots path := by
  simp only [importModuleHere?, Option.bind_eq_bind, Option.bind_eq_some_iff, Option.pure_def,
    Option.some.injEq, after?_eq_some_iff, afterBlanks?_eq_some_iff, Prod.exists,
    run?_eq_some_iff]
  constructor
  · rintro ⟨_, rfl, _, ⟨g, rfl, hg, -⟩, path, rest, ⟨rfl, hne, hpath, hrest⟩, rfl⟩
    exact ⟨path, ⟨g, rest, rfl, hg, ⟨hne, hpath⟩, hrest⟩, rfl⟩
  · rintro ⟨path, ⟨g, rest, rfl, hg, hpath, hrest⟩, rfl⟩
    exact ⟨_, rfl, _, ⟨g, rfl, hg, not_isBlank_of_isPath hpath⟩, path, rest,
      ⟨rfl, hpath.1, hpath.2, hrest⟩, rfl⟩

end Import
end CompletionPrompt

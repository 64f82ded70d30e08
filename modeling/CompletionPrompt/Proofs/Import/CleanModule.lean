import CompletionPrompt.Proofs.Import.Search

/-!
# Modules without dots in front

The module of a statement is a path that is written in it: the first one between `from` and
`import`, and where there is none the first one behind an `import` (`FirstPath`, which
`exists_firstPath` reads off the two searches). It is the path without the dots in front,
so it holds neither blanks nor commas and is never empty. But a path of dots alone keeps its last
dot, and then the module is a dot: it is clean exactly when the path is more than dots
(`parse?_module_clean_iff`).
-/

namespace CompletionPrompt
namespace Import

/-- A module is clean when it is not empty, holds neither blanks nor commas, and does not start with
a dot. -/
structure IsCleanModule (module : String) : Prop where
  ne_empty : module ≠ ""
  chars : ∀ c ∈ module.toList, Text.isBlank c = false ∧ c ≠ ','
  start : module.toList.head? ≠ some '.'

/-- The place is the first one in a text from which the text starts in some way. -/
structure IsFirstPlace (p : List Char → Prop) (s here : List Char) : Prop where
  suffix : here <:+ s
  starts : p here
  first : ∀ longer, longer <:+ s → here.length < longer.length → ¬ p longer

/-- The path that a text writes first as a module: between `from` and `import` if it does so
anywhere, and else behind `import`. -/
inductive FirstPath (s path : List Char) : Prop where
  | between {here : List Char} (hpath : StartsFrom path here)
      (hfirst : IsFirstPlace (fun t => ∃ p, StartsFrom p t) s here) : FirstPath s path
  | behind {here : List Char} (hpath : StartsImport path here)
      (hfirst : IsFirstPlace (fun t => ∃ p, StartsImport p t) s here)
      (hnone : ∀ here, here <:+ s → ∀ p, ¬ StartsFrom p here) : FirstPath s path

theorem StartsFrom.isPath {path s : List Char} (h : StartsFrom path s) : IsPath path := by
  obtain ⟨_, _, _, -, -, hpath, -⟩ := h
  exact hpath

theorem StartsImport.isPath {path s : List Char} (h : StartsImport path s) : IsPath path := by
  obtain ⟨_, _, -, -, hpath, -⟩ := h
  exact hpath

theorem FirstPath.isPath {s path : List Char} (h : FirstPath s path) : IsPath path := by
  cases h with
  | between hpath _ => exact hpath.isPath
  | behind hpath _ _ => exact hpath.isPath

/-- A search whose pattern takes the dots from a path finds the path of the first place. -/
theorem search_eq_some_iff_isFirstPlace {f : List Char → Option (List Char)}
    {starts : List Char → List Char → Prop}
    (hf : ∀ t module, f t = some module ↔ ∃ path, starts path t ∧ module = dropDots path)
    {s module : List Char} :
    search f s = some module ↔ ∃ path here, starts path here ∧
      IsFirstPlace (fun t => ∃ p, starts p t) s here ∧ module = dropDots path := by
  have hnone : ∀ t, f t = none ↔ ¬ ∃ p, starts p t := by
    intro t
    refine ⟨fun h hstarts => ?_, fun h => ?_⟩
    · obtain ⟨p, hp⟩ := hstarts
      rw [(hf t _).2 ⟨p, hp, rfl⟩] at h
      cases h
    · cases hm : f t with
      | none => rfl
      | some m =>
        obtain ⟨p, hp, -⟩ := (hf t m).1 hm
        exact absurd ⟨p, hp⟩ h
  simp only [search_eq_some_iff, hf, hnone]
  constructor
  · rintro ⟨here, hhere, ⟨path, hpath, rfl⟩, hfirst⟩
    exact ⟨path, here, hpath, ⟨hhere, ⟨path, hpath⟩, hfirst⟩, rfl⟩
  · rintro ⟨path, here, hpath, hplace, rfl⟩
    exact ⟨here, hplace.suffix, ⟨path, hpath, rfl⟩, hplace.first⟩

/-- **The module of a statement is its first path, without the dots in front.** -/
theorem exists_firstPath {s module : List Char} {names : List (List Char)}
    (h : moduleAndNames? s = some (module, names)) :
    ∃ path, FirstPath s path ∧ module = dropDots path := by
  simp only [moduleAndNames?] at h
  split at h
  · rename_i hfrom
    obtain ⟨rfl, -⟩ := Prod.mk.inj (Option.some.inj h)
    obtain ⟨path, here, hpath, hfirst, rfl⟩ :=
      (search_eq_some_iff_isFirstPlace fun _ _ => fromModuleHere?_eq_some_iff).1 hfrom
    exact ⟨path, .between hpath hfirst, rfl⟩
  · rename_i hfrom
    obtain ⟨m, himport, hpair⟩ := Option.map_eq_some_iff.1 h
    obtain ⟨rfl, -⟩ := Prod.mk.inj hpair
    obtain ⟨path, here, hpath, hfirst, rfl⟩ :=
      (search_eq_some_iff_isFirstPlace fun _ _ => importModuleHere?_eq_some_iff).1 himport
    refine ⟨path, .behind hpath hfirst fun t ht p hp => ?_, rfl⟩
    have hsome := fromModuleHere?_eq_some_iff.2 ⟨p, hp, rfl⟩
    rw [search_eq_none_iff.1 hfrom t ht] at hsome
    cases hsome

/-- What is left of a path is clean, if something other than dots is. -/
theorem isCleanModule_of_ne_dots {n : Nat} {c : Char} {t : List Char}
    (hpath : IsPath (List.replicate n '.' ++ c :: t)) (hc : c ≠ '.') :
    IsCleanModule (String.ofList (c :: t)) := by
  refine ⟨by simp, fun d hd => ?_, by simpa using hc⟩
  rw [String.toList_ofList] at hd
  have hd := hpath.2 d (List.mem_append_right _ hd)
  simpa [isPathChar] using hd

/-- **When the module of a statement is clean.** Of every statement that is read as an import the
module is its first path without the dots in front of it. It is not empty, holds neither blanks nor
commas, and does not start with a dot, exactly when the path is more than dots. Of a path of dots
alone the last is left, and the module is a dot. -/
theorem parse?_module_clean_iff {statement : String} {span : Span} {i : Import}
    (h : parse? statement span = some i) :
    ∃ path dots, FirstPath statement.toList path ∧
      path = List.replicate dots '.' ++ i.module.toList ∧
      (IsCleanModule i.module ↔ ∃ c ∈ path, c ≠ '.') ∧
      ((∀ c ∈ path, c = '.') → i.module = ".") := by
  obtain ⟨⟨module, names⟩, hmodule, rfl⟩ := Option.map_eq_some_iff.1 h
  obtain ⟨path, hfirst, rfl⟩ := exists_firstPath hmodule
  simp only [unresolved, String.toList_ofList]
  rcases dots_or_exists_cons path with ⟨n, c, t, rfl, hc⟩ | ⟨n, rfl⟩
  · rw [dropDots_replicate_append n hc]
    refine ⟨_, n, hfirst, rfl, iff_of_true (isCleanModule_of_ne_dots hfirst.isPath hc) ?_, ?_⟩
    · exact ⟨c, by simp, hc⟩
    · exact fun hdots => absurd (hdots c (by simp)) hc
  · cases n with
    | zero => exact absurd rfl hfirst.isPath.1
    | succ n =>
      rw [dropDots_replicate]
      refine ⟨_, n, hfirst, by simp [List.replicate_succ'], iff_of_false ?_ ?_, fun _ => rfl⟩
      · exact fun hclean => hclean.start rfl
      · rintro ⟨c, hc, hne⟩
        exact hne (List.eq_of_mem_replicate hc)

/-- The dots in front of a name are left out. -/
theorem parse?_module_clean_of_name :
    let i := { unresolved "pkg.sub" "t" "from ..pkg.sub import x as t" ⟨0, 0, 0, 28⟩ with
      imported := ["x"] }
    parse? "from ..pkg.sub import x as t" ⟨0, 0, 0, 28⟩ = some i ∧ IsCleanModule i.module := by
  intro i
  have hparse : parse? "from ..pkg.sub import x as t" ⟨0, 0, 0, 28⟩ = some i := by decide +kernel
  obtain ⟨path, dots, -, hpath, hclean, -⟩ := parse?_module_clean_iff hparse
  exact ⟨hparse, hclean.2 ⟨'p', by simp [hpath, i, unresolved], by decide⟩⟩

/-- Not every module is clean: of a path of dots alone the last dot is the module. -/
theorem parse?_module_not_clean_of_dots :
    let i := { unresolved "." "." "from . import x" ⟨0, 0, 0, 15⟩ with imported := ["x"] }
    parse? "from . import x" ⟨0, 0, 0, 15⟩ = some i ∧ ¬ IsCleanModule i.module := by
  intro i
  exact ⟨by decide +kernel, fun hclean => hclean.start (by simp [i, unresolved])⟩

end Import
end CompletionPrompt

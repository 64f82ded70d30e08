import CompletionPrompt.Proofs.Host.Files
import CompletionPrompt.Proofs.Import.ModulePath
import CompletionPrompt.Proofs.Import.SearchDirs
import CompletionPrompt.Import.Resolution
import CompletionPrompt.Proofs.Source.ImportSpans

/-!
# Which imports are resolved, and to which files

An import is resolved to a file when some directory of the search has a file for its module and the
innermost of these can be read (`Import.ResolvesTo`); what it becomes is the import with that file
and its text. A source resolves to the import statements that can be resolved, in source order
(`resolveAll_eq`). The innermost file decides alone: when it cannot be read, the import is dropped
whatever stands in the directories above.
-/

namespace CompletionPrompt
namespace Import

/-- The directory that decides about an import: the innermost that has a file for its module. -/
structure Innermost (h : Host) (extension : String) (dirs : List Path) (i : Import) (d : Path) :
    Prop where
  mem : d ∈ dirs
  isFile : h.files.isFile h.currentDir (d.join (modulePath extension i.module)) = true
  inside : ∀ d' ∈ dirs,
    h.files.isFile h.currentDir (d'.join (modulePath extension i.module)) = true →
      d'.components <+: d.components

/-- An import is resolved to the file in the innermost directory, with the file's text. -/
structure ResolvesTo (h : Host) (extension : String) (dirs : List Path) (i j : Import) (d : Path)
    (text : String) : Prop where
  innermost : Innermost h extension dirs i d
  read : h.files.read h.currentDir (d.join (modulePath extension i.module)) = .ok text
  eq : j = i.withResolved (d.join (modulePath extension i.module)) text

variable {h : Host} {extension : String} {dirs : List Path} {i j : Import} {d : Path}

/-- Resolving to a file gives the file and its text, or fails with the fault of reading it. -/
theorem resolveTo_eq (h : Host) (file : Path) (i : Import) :
    i.resolveTo h file =
      match h.files.read h.currentDir file with
      | .ok text => (.ok (), i.withResolved file text)
      | .error fault => (.error (.io fault), { i with filename := none }) := by
  simp only [resolveTo, load, resolvedFilename]
  cases h.files.read h.currentDir file <;> rfl

/-- The first directory with a file is the innermost one. -/
theorem find?_eq_some_iff (hdirs : dirs.Pairwise fun inner outer => outer.Above inner) :
    dirs.find? (fun d => h.files.isFile h.currentDir (d.join (modulePath extension i.module))) =
      some d ↔ Innermost h extension dirs i d := by
  rw [List.find?_eq_some_iff_append]
  constructor
  · rintro ⟨hfile, before, after, rfl, hbefore⟩
    refine ⟨List.mem_append_right _ List.mem_cons_self, hfile, fun d' hd' hfile' => ?_⟩
    rcases List.mem_append.1 hd' with hfirst | hrest
    · exact absurd hfile' (by simpa using hbefore d' hfirst)
    · rcases List.mem_cons.1 hrest with rfl | hlater
      · exact List.prefix_rfl
      · have hpair := (List.pairwise_append.1 hdirs).2.1
        exact ((List.pairwise_cons.1 hpair).1 d' hlater).isPrefix
  · rintro ⟨hmem, hfile, hinside⟩
    obtain ⟨before, after, rfl⟩ := List.append_of_mem hmem
    refine ⟨hfile, before, after, rfl, fun d' hd' => ?_⟩
    -- A directory before it has more components, so it does not stand around it.
    have habove := (List.pairwise_append.1 hdirs).2.2 d' hd' d List.mem_cons_self
    rw [Bool.not_eq_true', Bool.eq_false_iff]
    intro hfile'
    have hle := (hinside d' (List.mem_append_left _ hd') hfile').length_le
    exact absurd habove.length_lt (Nat.not_lt.2 hle)

/-- One directory decides when some directory has a file. -/
theorem exists_innermost_iff (hdirs : dirs.Pairwise fun inner outer => outer.Above inner) :
    (∃ d ∈ dirs, h.files.isFile h.currentDir (d.join (modulePath extension i.module)) = true) ↔
      ∃ d, Innermost h extension dirs i d := by
  rw [← List.find?_isSome, Option.isSome_iff_exists]
  exact exists_congr fun _ => find?_eq_some_iff hdirs

/-- **An import is resolved exactly when the innermost file can be read,** and to that file. -/
theorem resolveIn?_eq_some_iff (hdirs : dirs.Pairwise fun inner outer => outer.Above inner) :
    resolveIn? h extension dirs i = some j ↔ ∃ d text, ResolvesTo h extension dirs i j d text := by
  have hfind : (candidates extension dirs i.module).find? (h.files.isFile h.currentDir) =
      (dirs.find? fun d => h.files.isFile h.currentDir (d.join (modulePath extension i.module))).map
        (·.join (modulePath extension i.module)) := by
    simp only [candidates, List.find?_map, Function.comp_def]
  rw [resolveIn?, hfind]
  cases hfound : dirs.find? fun d =>
      h.files.isFile h.currentDir (d.join (modulePath extension i.module)) with
  | none =>
    refine iff_of_false (by simp) ?_
    rintro ⟨d, text, hresolves⟩
    exact absurd ((find?_eq_some_iff hdirs).2 hresolves.innermost) (by simp [hfound])
  | some d =>
    have hinnermost := (find?_eq_some_iff hdirs).1 hfound
    rw [Option.map_some]
    simp only [resolveTo_eq]
    cases hread : h.files.read h.currentDir (d.join (modulePath extension i.module)) with
    | ok text =>
      constructor
      · rintro ⟨⟩
        exact ⟨d, text, hinnermost, hread, rfl⟩
      · rintro ⟨d', text', hinnermost', hread', rfl⟩
        obtain rfl := Option.some.inj (hfound.symm.trans ((find?_eq_some_iff hdirs).2 hinnermost'))
        obtain rfl := Except.ok.inj (hread.symm.trans hread')
        rfl
    | error fault =>
      refine iff_of_false (by simp) ?_
      rintro ⟨d', text', hinnermost', hread', -⟩
      obtain rfl := Option.some.inj (hfound.symm.trans ((find?_eq_some_iff hdirs).2 hinnermost'))
      exact absurd (hread.symm.trans hread') (by simp)

/-! ### The imports of a source -/

/-- What is left of a list stands in its order. -/
theorem map_filterMap_sublist {α β γ : Type} {f : α → Option β} {g : β → γ} {k : α → γ}
    (hf : ∀ a b, f a = some b → g b = k a) (as : List α) :
    ((as.filterMap f).map g).Sublist (as.map k) := by
  induction as with
  | nil => exact .slnil
  | cons a as ih =>
    cases ha : f a with
    | none => rw [List.filterMap_cons_none ha]; exact .cons _ ih
    | some b =>
      rw [List.filterMap_cons_some ha, List.map_cons, List.map_cons, hf a b ha]
      exact .cons_cons _ ih

theorem span_of_parse? {statement : String} {span : Span} (hi : parse? statement span = some i) :
    i.span = span := by
  obtain ⟨⟨module, names⟩, -, rfl⟩ := Option.map_eq_some_iff.1 hi
  rfl

/-- The import statements of a source come in order and stand apart. -/
theorem statementsOf_pairwise [Source.Parser] [Source.LawfulParser] (text : String) :
    ((statementsOf text).map (·.span)).Pairwise Span.EndsBefore := by
  have hspans : (Source.importStatements .wholeSource text.toList).map (·.1) =
      Source.importSpans .wholeSource text.toList := by
    simp [Source.importStatements, Function.comp_def]
  refine (hspans ▸ Source.importSpans_pairwise .wholeSource text.toList).sublist ?_
  exact map_filterMap_sublist (fun _ _ hi => span_of_parse? hi) _

/-- The directories that are searched for the imports of a file. -/
def dirsFor (h : Host) (path : Path) : List Path :=
  searchDirs (((path.absoluteFrom h.currentDir).parent?).getD Path.empty)

/-- **A source resolves to the imports whose innermost file can be read,** in source order: each
becomes the import with that file and its text, and the others are dropped. One directory decides
where some directory has a file; when that file cannot be read, the import is dropped whatever
stands further out. The file of a module is its names with slashes between them, and the
extension. -/
theorem resolveAll_eq [Source.Parser] [Source.LawfulParser] (h : Host) (extension text : String)
    (path : Path) :
    ∃ f : Import → Option Import,
      resolveAll h extension text path = (statementsOf text).filterMap f ∧
      (∀ i, (∃ d ∈ dirsFor h path,
          h.files.isFile h.currentDir (d.join (modulePath extension i.module)) = true) ↔
        ∃ d, Innermost h extension (dirsFor h path) i d) ∧
      (∀ i j, f i = some j ↔
        ∃ d content, ResolvesTo h extension (dirsFor h path) i j d content) ∧
      (∀ i d, Innermost h extension (dirsFor h path) i d →
        (∀ content, h.files.read h.currentDir (d.join (modulePath extension i.module)) ≠
          .ok content) → f i = none) ∧
      ((resolveAll h extension text path).map (·.span)).Pairwise Span.EndsBefore ∧
      ∀ module : String, '/' ∉ module.toList → (modulePath extension module).chars =
        if moduleNames module = [] then []
        else ['/'].intercalate (moduleNames module) ++
          if extension.isEmpty then [] else '.' :: extension.toList := by
  have hdirs : (dirsFor h path).Pairwise fun inner outer => outer.Above inner :=
    searchDirs_pairwise _
  refine ⟨resolveIn? h extension (dirsFor h path), rfl, fun i => exists_innermost_iff hdirs,
    fun i j => resolveIn?_eq_some_iff hdirs, fun i d hinnermost hread => ?_, ?_,
    fun module hslash => modulePath_eq extension hslash⟩
  · rw [Option.eq_none_iff_forall_ne_some]
    intro j hj
    obtain ⟨d', content, hinnermost', hread', -⟩ := (resolveIn?_eq_some_iff hdirs).1 hj
    have hfound := (find?_eq_some_iff hdirs).2 hinnermost
    have hfound' := (find?_eq_some_iff hdirs).2 hinnermost'
    obtain rfl := Option.some.inj (hfound.symm.trans hfound')
    exact hread content hread'
  · refine (statementsOf_pairwise text).sublist (map_filterMap_sublist (fun i j hj => ?_) _)
    obtain ⟨d, content, -, -, rfl⟩ := (resolveIn?_eq_some_iff hdirs).1 hj
    rfl

/-- A file that cannot be read hides the one above it, and a file above is found where there is no
nearer one. -/
theorem resolveAll_of_unreadable :
    let h : Host :=
      { currentDir := ⟨"/"⟩
        files :=
          ⟨[(["proj"], .directory), (["proj", "pkg"], .directory),
            (["proj", "pkg", "a.py"], .file none), (["proj", "a.py"], .file (some "x = 1")),
            (["proj", "b.py"], .file (some "y = 2"))]⟩
        respond := fun _ => ⟨[], [], .exit 0⟩
        calls := [] }
    let text := "import a\nimport b\n"
    let path : Path := ⟨"/proj/pkg/main.py"⟩
    let a := unresolved "a" "a" "import a" ⟨0, 0, 0, 8⟩
    let b := unresolved "b" "b" "import b" ⟨1, 0, 1, 8⟩
    statementsOf text = [a, b] ∧ h.files.read h.currentDir ⟨"/proj/a.py"⟩ = .ok "x = 1" ∧
      ∃ f : Import → Option Import, resolveAll h "py" text path = [a, b].filterMap f ∧
        f a = none ∧ f b = some (b.withResolved ⟨"/proj/b.py"⟩ "y = 2") := by
  intro h text path a b
  have htext : statementsOf text = [a, b] := by decide +kernel
  have hdirs : dirsFor h path = [⟨"/proj/pkg"⟩, ⟨"/proj"⟩] := by decide +kernel
  have hinner : Innermost h "py" (dirsFor h path) a ⟨"/proj/pkg"⟩ := by
    rw [hdirs]
    exact ⟨by simp, by decide +kernel, by decide +kernel⟩
  have houter : Innermost h "py" (dirsFor h path) b ⟨"/proj"⟩ := by
    rw [hdirs]
    exact ⟨by simp, by decide +kernel, by decide +kernel⟩
  have hread : h.files.read h.currentDir (Path.join ⟨"/proj/pkg"⟩ (modulePath "py" a.module)) =
      .error .notText := by decide +kernel
  obtain ⟨f, hall, -, hresolves, hdrops, -⟩ := resolveAll_eq h "py" text path
  refine ⟨htext, by decide +kernel, f, htext ▸ hall, hdrops a _ hinner fun content => ?_, ?_⟩
  · rw [hread]
    simp
  · exact (hresolves b _).2 ⟨_, "y = 2", houter, by decide +kernel, by decide +kernel⟩

end Import
end CompletionPrompt

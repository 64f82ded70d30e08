import CompletionPrompt.Introspection
import CompletionPrompt.Proofs.Path.Components

/-!
# The path of the driver file

The driver is written into a directory under the name that the configuration has for it. The name
that a usable configuration has is a stem without slashes and dots and the ending `.py`
(`Config.exists_driverStem`), so it is the last component of the path, behind those of the directory
(`Path.IsName.components_join`), and the path is not written as a directory's
(`namesFolder_driverPath`).
-/

namespace CompletionPrompt

/-- The name of the driver file is a plain stem and the ending of Python files. -/
structure Config.DriverStem (c : Config) (stem : List Char) : Prop where
  name_eq : c.driverFileName.toList = stem ++ ".py".toList
  ne_nil : stem ≠ []
  no_slash : '/' ∉ stem
  no_dot : '.' ∉ stem

/-- What stands before the ending of a file name is its stem. -/
theorem Config.eq_append_of_moduleStem? {name stem : List Char}
    (h : moduleStem? name = some stem) : name = stem ++ ".py".toList := by
  obtain ⟨hsuffix, rfl⟩ : ".py".toList.isSuffixOf name = true ∧
      name.take (name.length - ".py".toList.length) = stem := by
    simpa [moduleStem?] using h
  obtain ⟨front, rfl⟩ := List.isSuffixOf_iff_suffix.1 hsuffix
  rw [List.length_append, Nat.add_sub_cancel, List.take_left]

/-- A usable configuration names a driver by a plain stem. -/
theorem Config.exists_driverStem {c : Config} (h : c.problem? = none) :
    ∃ stem, c.DriverStem stem := by
  unfold problem? at h
  split at h
  · cases h
  split at h
  · cases h
  split at h
  · cases h
  rename_i stem hstem
  split at h
  · cases h
  rename_i hplain
  have hplain : isPlainModule stem = true := by simpa using hplain
  simp only [isPlainModule, Bool.and_eq_true, Bool.not_eq_true', List.isEmpty_eq_false_iff,
    List.any_eq_false, Bool.or_eq_true, decide_eq_true_eq, not_or] at hplain
  exact ⟨stem, eq_append_of_moduleStem? hstem, hplain.1, fun hmem => (hplain.2 _ hmem).1.1 rfl,
    fun hmem => (hplain.2 _ hmem).2 rfl⟩

/-- What ends like a Python file is a name, unless there is a slash in it. -/
theorem Path.isName_append_ending {s : List Char} (h : '/' ∉ s) : IsName (s ++ ".py".toList) where
  ne_nil := by simp
  ne_current := fun he => by simpa using congrArg List.length he
  ne_parent := fun he => by simpa using congrArg List.length he
  not_mem := by simpa using h

namespace Config.DriverStem

variable {c : Config} {stem : List Char}

theorem isName (h : c.DriverStem stem) : Path.IsName (stem ++ ".py".toList) :=
  Path.isName_append_ending h.no_slash

theorem path_eq (h : c.DriverStem stem) :
    (⟨c.driverFileName⟩ : Path) = Path.ofChars (stem ++ ".py".toList) := by
  rw [Path.ofChars, ← h.name_eq, String.ofList_toList]

/-- The stem of a driver's file name is all of it before the ending. -/
theorem stemOf_eq (h : c.DriverStem stem) : Path.stemOf (stem ++ ".py".toList) = stem := by
  have hreverse : (stem ++ ".py".toList).reverse = 'y' :: 'p' :: '.' :: stem.reverse := by simp
  rw [Path.stemOf, hreverse]
  simp [h.ne_nil]

end Config.DriverStem

namespace Introspection

/-- The driver file for imports that are described in a directory. -/
def driverPath (c : Config) (currentDir dir : Path) : Path :=
  (dir.absoluteFrom currentDir).join ⟨c.driverFileName⟩

theorem plan_driver (c : Config) (currentDir : Path) (i : Import) (dir : Path) :
    (plan c currentDir i dir).driver = driverPath c currentDir dir := rfl

/-- The directory that a driver is started in. -/
def startDir (c : Config) (currentDir dir : Path) : Path :=
  (moduleName (driverPath c currentDir dir)
    ((c.workingDir.map (·.absoluteFrom currentDir)).getD currentDir)).1

/-- The module name that a driver is started by. -/
def driverModule (c : Config) (currentDir dir : Path) : String :=
  (moduleName (driverPath c currentDir dir)
    ((c.workingDir.map (·.absoluteFrom currentDir)).getD currentDir)).2

/-- A driver is started in the same directory for every import. -/
theorem plan_directory (c : Config) (currentDir : Path) (i : Import) (dir : Path) :
    (plan c currentDir i dir).directory = startDir c currentDir dir := by
  simp only [plan, startDir, driverPath]

theorem plan_module (c : Config) (currentDir : Path) (i : Import) (dir : Path) :
    (plan c currentDir i dir).module = driverModule c currentDir dir := by
  simp only [plan, driverModule, driverPath]

/-- The request for an import that is described in a directory. The import's own statement is to be
executed, on behalf of its file or else of the driver. Its module is looked for from the directory of
that file, or else from the directory of the driver, and from those above. The statement runs as the
driver file does, in the package that the module name of the driver leads through. -/
def requestFor (c : Config) (currentDir : Path) (i : Import) (dir : Path) : Request where
  statement := i.statement
  filename := i.filename.getD (driverPath c currentDir dir)
  searchDirs := searchDirs ((i.filename.bind Path.parent?).getD (dir.absoluteFrom currentDir))
  environment :=
    { Environment.ofFile (driverPath c currentDir dir) with
      package := packageOf? (driverModule c currentDir dir) }
  depth := c.snapshotDepth

/-- **A driver carries the request for its import.** -/
theorem plan_request (c : Config) (currentDir : Path) (i : Import) (dir : Path) :
    (plan c currentDir i dir).request = requestFor c currentDir i dir := by
  simp only [plan, requestFor, driverModule, driverPath]
  cases packageOf? (moduleName ((dir.absoluteFrom currentDir).join ⟨c.driverFileName⟩)
    ((c.workingDir.map (·.absoluteFrom currentDir)).getD currentDir)).2 <;> rfl

/-- A usable configuration does not write the driver as a directory. -/
theorem namesFolder_driverPath {c : Config} (h : c.problem? = none) (currentDir dir : Path) :
    (driverPath c currentDir dir).namesFolder = false := by
  obtain ⟨stem, hstem⟩ := Config.exists_driverStem h
  rw [driverPath, hstem.path_eq, hstem.isName.namesFolder_join]

end Introspection
end CompletionPrompt

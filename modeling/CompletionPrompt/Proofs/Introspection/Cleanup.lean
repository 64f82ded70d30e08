import CompletionPrompt.Prompt
import CompletionPrompt.Proofs.Host.Action
import CompletionPrompt.Proofs.Host.Files
import CompletionPrompt.Proofs.Introspection.DriverPath
import CompletionPrompt.Source.LayoutTree

/-!
# The driver file is gone afterwards

Describing an import writes a driver file and starts a child process on it. However that ends, by
a description or by any failure, the files are afterwards those of before (`keepsFiles_withFile`,
`keepsFiles_describe`), and so are those of a prompt whose imports are described one after the other
(`keepsFiles_build`). Where something already stands at the path of the driver, it is left alone and
no process is started (`run_describe_of_taken`): the failure names the path. A path that puts
slashes after a name is refused for being a directory's, so nothing is written there either, but
that is another failure; a usable configuration has no such driver (`namesFolder_driverPath`).
-/

namespace CompletionPrompt

/-- Something stands under a path that can be a file's. -/
def Files.Taken (fs : Files) (currentDir p : Path) : Prop :=
  p.namesFolder = false ∧ ∃ entry, fs.lookUp currentDir p = .ok entry

namespace Introspection

/-! ### A file while an action runs -/

section WithFile

variable {α : Type} {path : Path} {text : String} {body : Action α} {h : Host}

/-- The action runs beside the new file, which is removed from whatever the action leaves. -/
theorem run_withFile_of_created {files : Files}
    (hnew : h.files.createNew h.currentDir path text = .ok files) :
    (withFile path text body).run h =
      ((body.run { h with files }).1,
        { (body.run { h with files }).2 with
          files := (body.run { h with files }).2.files.remove
            (body.run { h with files }).2.currentDir path }) := by
  show withFile path text body h = _
  simp only [withFile, ExceptT.mk, hnew]
  rfl

/-- Without a new file nothing runs and nothing changes. -/
theorem run_withFile_of_refused {fault : Fault}
    (hnew : h.files.createNew h.currentDir path text = .error fault) :
    (withFile path text body).run h =
      (.error (if fault = .alreadyExists then .driverCollision path else .io fault), h) := by
  show withFile path text body h = _
  simp only [withFile, ExceptT.mk, hnew]
  cases fault <;> rfl

/-- **The file is gone however the action ends,** and it took the place of nothing. -/
theorem keepsFiles_withFile (hbody : body.KeepsFiles) (path : Path) (text : String) :
    (withFile path text body).KeepsFiles := by
  intro h
  rcases hnew : h.files.createNew h.currentDir path text with fault | files
  · rw [run_withFile_of_refused hnew]
    exact .refl h
  · rw [run_withFile_of_created hnew]
    obtain ⟨hdir, hfiles, hrespond, hcalls, hsearch⟩ := hbody { h with files }
    obtain ⟨names, hfree, rfl⟩ := Files.createNew_eq_ok_iff.1 hnew
    refine ⟨hdir, ?_, hrespond, hcalls, hsearch⟩
    rw [hfiles, hdir]
    exact Files.remove_add hfree

end WithFile

/-! ### Descriptions and prompts -/

/-- A description is what the end of the driver's run gives. -/
theorem run_describe (c : Config) (i : Import) (dir : Path) (h : Host) :
    (describe c i dir).run h =
      match (withFile (driverPath c h.currentDir dir)
          (Driver.program (plan c h.currentDir i dir).request)
          (Driver.execute c.python (plan c h.currentDir i dir).directory
            ["-m", (plan c h.currentDir i dir).module])).run h with
      | (.ok response, h') => (conclude c i (plan c h.currentDir i dir) response, h')
      | (.error f, h') => (.error f, h') := by
  rw [describe, Action.run_bind, Action.run_currentDir]
  simp only [Action.run_bind, plan_driver]
  generalize ExceptT.run (withFile _ _ _) h = ended
  rcases ended with ⟨f | response, h'⟩
  · rfl
  · simp only
    cases conclude c i (plan c h.currentDir i dir) response <;> rfl

/-- An import is annotated when it is described, and fails when its description does. -/
theorem run_annotate (c : Config) (dir : Path) (i : Import) (h : Host) :
    (annotate c dir i).run h =
      match (describe c i dir).run h with
      | (.ok text, h') =>
        let comment := if text.isEmpty then "" else commentRows text
        (.ok (if comment.isEmpty then i.statement else i.statement ++ "\n" ++ comment), h')
      | (.error f, h') => (.error f, h') := by
  rw [annotate, Action.run_bind, describeAsComment, Action.run_bind]
  rcases (describe c i dir).run h with ⟨f | text, h'⟩ <;> rfl

theorem keepsFiles_describe (c : Config) (i : Import) (dir : Path) :
    (describe c i dir).KeepsFiles := by
  intro h
  have hrun := keepsFiles_withFile
    (Driver.keepsFiles_execute c.python (plan c h.currentDir i dir).directory
      ["-m", (plan c h.currentDir i dir).module])
    (driverPath c h.currentDir dir) (Driver.program (plan c h.currentDir i dir).request) h
  rw [run_describe]
  split <;> rename_i hend <;> simpa [hend] using hrun

theorem keepsFiles_describeAsComment (c : Config) (i : Import) (dir : Path) :
    (describeAsComment c i dir).KeepsFiles :=
  .bind (keepsFiles_describe c i dir) fun _ => .pure _

theorem keepsFiles_annotate (c : Config) (dir : Path) (i : Import) :
    (annotate c dir i).KeepsFiles :=
  .bind (keepsFiles_describeAsComment c i dir) fun _ => .pure _

variable {c : Config} {dir : Path} {h : Host}

/-- **What stands in the driver's place is left alone,** and no process is started. -/
theorem run_describe_of_taken (i : Import)
    (htaken : h.files.Taken h.currentDir (driverPath c h.currentDir dir)) :
    (describe c i dir).run h = (.error (.driverCollision (driverPath c h.currentDir dir)), h) := by
  obtain ⟨hfolder, entry, hentry⟩ := htaken
  rw [run_describe, run_withFile_of_refused (Files.createNew_eq_alreadyExists hentry hfolder)]
  rfl

theorem run_describeAsComment_of_taken (i : Import)
    (htaken : h.files.Taken h.currentDir (driverPath c h.currentDir dir)) :
    (describeAsComment c i dir).run h =
      (.error (.driverCollision (driverPath c h.currentDir dir)), h) := by
  rw [describeAsComment, Action.run_bind, run_describe_of_taken i htaken]

theorem run_annotate_of_taken (i : Import)
    (htaken : h.files.Taken h.currentDir (driverPath c h.currentDir dir)) :
    (annotate c dir i).run h = (.error (.driverCollision (driverPath c h.currentDir dir)), h) := by
  rw [annotate, Action.run_bind, run_describeAsComment_of_taken i htaken]

end Introspection

namespace Builder

/-- The directory that drivers are written into for a target in a file. -/
def driverDir (currentDir path : Path) : Path :=
  ((path.absoluteFrom currentDir).parent?).getD ⟨"."⟩

theorem run_replacement (b : Builder) (path : Path) (i : Import) (h : Host) :
    (b.replacement .importAnalysis path i).run h =
      (Introspection.annotate b.config (driverDir h.currentDir path) i).run h := by
  rw [replacement, Action.run_bind, Action.run_currentDir]
  rfl

theorem keepsFiles_replacement (b : Builder) (path : Path) (i : Import) :
    (b.replacement .importAnalysis path i).KeepsFiles := by
  intro h
  rw [run_replacement]
  exact Introspection.keepsFiles_annotate _ _ i h

theorem keepsFiles_build [Source.Parser] (b : Builder) (t : Target) (imports : List Import)
    (limit : Nat) :
    (b.build (.replaceOneByOne .importAnalysis) t imports limit).KeepsFiles :=
  .bind
    (.foldlM (fun _ i => .bind (b.keepsFiles_replacement t.path i) fun _ => .pure _) _ _)
    fun _ => .pure _

/-- The first import that is described meets what stands in the driver's place. -/
theorem run_build_of_taken [Source.Parser] (b : Builder) (t : Target) {imports : List Import}
    (limit : Nat) {h : Host} (hne : imports ≠ [])
    (htaken : h.files.Taken h.currentDir
      (Introspection.driverPath b.config h.currentDir (driverDir h.currentDir t.path))) :
    (b.build (.replaceOneByOne .importAnalysis) t imports limit).run h =
      (.error (.driverCollision
        (Introspection.driverPath b.config h.currentDir (driverDir h.currentDir t.path))), h) := by
  obtain ⟨i, rest, horder⟩ : ∃ i rest, Prompt.bottomUp imports = i :: rest := by
    refine List.exists_cons_of_ne_nil fun hnil => hne ?_
    simpa [Prompt.bottomUp] using congrArg List.length hnil
  have hfirst : (b.replacement .importAnalysis t.path i).run h =
      (.error (.driverCollision
        (Introspection.driverPath b.config h.currentDir (driverDir h.currentDir t.path))), h) := by
    rw [run_replacement, Introspection.run_annotate_of_taken i htaken]
  rw [build, replaceOneByOne, Action.run_bind, Prompt.spliceAll, horder,
    Action.run_foldlM_cons_error]
  rw [Action.run_bind, hfirst]

end Builder

namespace Introspection

/-- **A driver file never stays and never takes the place of anything.** Whatever becomes of the
child process, a description, its comment and a prompt over any list of imports leave every file as
it was. What already stands under the driver's path, and not under a path that is written as a
directory's, makes the first description fail with a collision: nothing is started and nothing
changes. A usable configuration does not write the driver as a directory. -/
theorem describe_keeps_files [Source.Parser] (b : Builder) (t : Target) (imports : List Import)
    (limit : Nat) (i : Import) (dir : Path) (h : Host) :
    ((describe b.config i dir).run h).2.files = h.files ∧
    ((describeAsComment b.config i dir).run h).2.files = h.files ∧
    ((b.build (.replaceOneByOne .importAnalysis) t imports limit).run h).2.files = h.files ∧
    (h.files.Taken h.currentDir (driverPath b.config h.currentDir dir) →
      (describe b.config i dir).run h =
        (.error (.driverCollision (driverPath b.config h.currentDir dir)), h) ∧
      (describeAsComment b.config i dir).run h =
        (.error (.driverCollision (driverPath b.config h.currentDir dir)), h)) ∧
    (h.files.Taken h.currentDir
        (driverPath b.config h.currentDir (Builder.driverDir h.currentDir t.path)) →
      imports ≠ [] →
      (b.build (.replaceOneByOne .importAnalysis) t imports limit).run h =
        (.error (.driverCollision
          (driverPath b.config h.currentDir (Builder.driverDir h.currentDir t.path))), h)) ∧
    (b.config.problem? = none →
      ∀ dir, (driverPath b.config h.currentDir dir).namesFolder = false) :=
  ⟨(keepsFiles_describe b.config i dir h).files,
    (keepsFiles_describeAsComment b.config i dir h).files,
    (b.keepsFiles_build t imports limit h).files,
    fun htaken => ⟨run_describe_of_taken i htaken, run_describeAsComment_of_taken i htaken⟩,
    fun htaken hne => b.run_build_of_taken t limit hne htaken,
    fun hproblem dir => namesFolder_driverPath hproblem h.currentDir dir⟩

/-- A file that has the name of the driver stays, and the import is not described. -/
theorem describe_leaves_other_file :
    let i := Import.unresolved "a" "a" "import a" ⟨0, 0, 0, 8⟩
    let t : Target := ⟨⟨"/proj/main.py"⟩, "import a", "def f():"⟩
    let b : Builder := ⟨Config.default, String.length⟩
    let driver : Path := ⟨"/proj/import_probe_tmp.py"⟩
    let h : Host :=
      { currentDir := ⟨"/"⟩
        files := ⟨[(["proj"], .directory), (["proj", "import_probe_tmp.py"], .file (some "x"))]⟩
        respond := fun _ => ⟨[], [], .exit 0⟩
        calls := [] }
    b.config.problem? = none ∧ h.files.Taken h.currentDir driver ∧ driver.namesFolder = false ∧
      (describe b.config i ⟨"/proj"⟩).run h = (.error (.driverCollision driver), h) ∧
      (b.build (.replaceOneByOne .importAnalysis) t [i] 0).run h =
        (.error (.driverCollision driver), h) := by
  intro i t b driver h
  have hproblem : b.config.problem? = none := by decide +kernel
  have hdriver : driverPath b.config h.currentDir ⟨"/proj"⟩ = driver := by decide +kernel
  have hdir : Builder.driverDir h.currentDir t.path = ⟨"/proj"⟩ := by decide +kernel
  have htaken : h.files.Taken h.currentDir driver :=
    ⟨by decide +kernel, .file (some "x"), by decide +kernel⟩
  have hkept := describe_keeps_files b t [i] 0 i ⟨"/proj"⟩ h
  rw [hdir, hdriver] at hkept
  obtain ⟨-, -, -, hdescribe, hbuild, hplain⟩ := hkept
  exact ⟨hproblem, htaken, hdriver ▸ hplain hproblem ⟨"/proj"⟩, (hdescribe htaken).1,
    hbuild htaken (List.cons_ne_nil i [])⟩

/-- An empty name makes the driver's path that of a directory which stands there, and the failure is
no collision. -/
theorem describe_not_collision_of_folder :
    let c := { Config.default with driverFileName := "" }
    let i := Import.unresolved "a" "a" "import a" ⟨0, 0, 0, 8⟩
    let h : Host :=
      { currentDir := ⟨"/"⟩
        files := ⟨[(["proj"], .directory)]⟩
        respond := fun _ => ⟨[], [], .exit 0⟩
        calls := [] }
    h.files.lookUp h.currentDir (driverPath c h.currentDir ⟨"/proj"⟩) = .ok .directory ∧
      ((describe c i ⟨"/proj"⟩).run h).1 = .error (.io .isADirectory) ∧
      ∀ path, ((describe c i ⟨"/proj"⟩).run h).1 ≠ .error (.driverCollision path) := by
  intro c i h
  have hfault : ((describe c i ⟨"/proj"⟩).run h).1 = .error (.io .isADirectory) := by
    decide +kernel
  refine ⟨by decide +kernel, hfault, fun path => ?_⟩
  rw [hfault]
  simp

end Introspection
end CompletionPrompt

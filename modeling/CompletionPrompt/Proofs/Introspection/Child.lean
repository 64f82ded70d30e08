import CompletionPrompt.Proofs.Driver.Command
import CompletionPrompt.Proofs.Introspection.Cleanup
import CompletionPrompt.Proofs.Introspection.ModuleName
import Mathlib.Tactic.MkIffOfInductiveProp

/-!
# The child process of a description

A description starts one child process where a driver can be run (`CanRun`), which is the same for
every import, and what comes of the child is the description (`run_describe_of_canRun`). The child
runs beside the driver and the files of before (`IsChild`). Elsewhere a description fails and starts
nothing (`run_describe_of_not_canRun`).
-/

namespace CompletionPrompt
namespace Introspection

/-- A driver can be run: nothing stands in its place, and the interpreter starts where it does. -/
@[mk_iff]
structure CanRun (c : Config) (dir : Path) (h : Host) : Prop where
  free : ∃ names, h.files.FreeAt h.currentDir (driverPath c h.currentDir dir) names
  startsIn : h.StartsIn c.python (startDir c h.currentDir dir)

/-- A child process that describes an import: the interpreter on the module of the driver, beside
the files of a host and one more, the driver, which is the program for the request of the import. -/
@[mk_iff]
structure IsChild (c : Config) (dir : Path) (h : Host) (i : Import) (call : Call) : Prop where
  command_eq : call.command =
    Driver.command c.python (startDir c h.currentDir dir) ["-m", driverModule c h.currentDir dir]
  files_eq : ∃ names, h.files.FreeAt h.currentDir (driverPath c h.currentDir dir) names ∧
    call.files =
      h.files.add names (.file (some (Driver.program (requestFor c h.currentDir i dir))))

variable {c : Config} {dir : Path} {h h' : Host} {i : Import}

/-- A later state of the host can run what an earlier one can. -/
theorem canRun_later (hlater : h.Later h') : CanRun c dir h' ↔ CanRun c dir h := by
  simp only [canRun_iff, hlater.files, hlater.currentDir, hlater.startsIn_iff]

theorem isChild_later (hlater : h.Later h') {call : Call} :
    IsChild c dir h' i call ↔ IsChild c dir h i call := by
  simp only [isChild_iff, hlater.files, hlater.currentDir]

/-- What the driver is started with holds no NUL when its file can be created. -/
theorem not_mem_driverArguments {names : List String}
    (hfree : h.files.FreeAt h.currentDir (driverPath c h.currentDir dir) names) :
    ∀ t ∈ ["-m", driverModule c h.currentDir dir], '\x00' ∉ t.toList := by
  have hdriver : '\x00' ∉ (driverPath c h.currentDir dir).chars := by
    simpa using (Files.names_eq_ok_iff.1 hfree.names_eq).2.1
  have hmodule : '\x00' ∉ (driverModule c h.currentDir dir).toList := fun hmem =>
    (mem_chars_of_mem_moduleName hmem).elim (by decide) hdriver
  simpa using hmodule

/-- **A description starts one child,** where a driver can be run, and is what comes of it; the
host is as before but for the call. -/
theorem run_describe_of_canRun (hcan : CanRun c dir h) (i : Import) :
    ∃ call, IsChild c dir h i call ∧
      (describe c i dir).run h =
        (conclude c i (plan c h.currentDir i dir) (h.respond h.calls.length),
          { h with calls := h.calls ++ [call] }) := by
  obtain ⟨⟨names, hfree⟩, hstart⟩ := hcan
  have hnew : h.files.createNew h.currentDir (driverPath c h.currentDir dir)
      (Driver.program (requestFor c h.currentDir i dir)) =
      .ok (h.files.add names (.file (some (Driver.program (requestFor c h.currentDir i dir))))) :=
    Files.createNew_eq_ok_iff.2 ⟨names, hfree, rfl⟩
  obtain ⟨place, hplace⟩ := (Host.startsIn_iff (not_mem_driverArguments hfree)).2
    ((Host.startsIn_add hfree.absent).2 hstart)
  refine ⟨⟨_, place, _⟩, ⟨rfl, names, hfree, rfl⟩, ?_⟩
  rw [run_describe, plan_request, plan_directory, plan_module, run_withFile_of_created hnew,
    Driver.run_execute, hplace]
  simp only [Files.remove_add hfree]
  rfl

/-- Where no driver can be run, a description fails and changes nothing. -/
theorem run_describe_of_not_canRun (hcan : ¬ CanRun c dir h) (i : Import) :
    ∃ f, (describe c i dir).run h = (.error f, h) := by
  rw [run_describe, plan_request, plan_directory, plan_module]
  rcases hnew : h.files.createNew h.currentDir (driverPath c h.currentDir dir)
    (Driver.program (requestFor c h.currentDir i dir)) with fault | files
  · rw [run_withFile_of_refused hnew]
    exact ⟨_, rfl⟩
  · obtain ⟨names, hfree, rfl⟩ := Files.createNew_eq_ok_iff.1 hnew
    have hstart : ¬ h.StartsIn c.python (startDir c h.currentDir dir) :=
      fun hstart => hcan ⟨⟨names, hfree⟩, hstart⟩
    obtain ⟨fault, hrun⟩ := Driver.run_execute_of_not_startsIn (not_mem_driverArguments hfree)
      (mt (Host.startsIn_add hfree.absent).1 hstart)
    rw [run_withFile_of_created hnew, hrun]
    simp only [Files.remove_add hfree]
    exact ⟨_, rfl⟩

end Introspection
end CompletionPrompt

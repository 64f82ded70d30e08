import CompletionPrompt.Proofs.Host.Action
import CompletionPrompt.Proofs.Host.Files
import CompletionPrompt.Proofs.Text.Pieces

/-!
# Commands that start the driver

Whether a command starts is decided by the program and the directory: the directory must be there
and the program must be found from it (`Host.StartsIn`). Arguments only matter by the NULs in them,
and there are none in the driver program, which is handed over as an argument: its request is a
literal, and a literal escapes control characters (`not_mem_program`). A new file that is no program
changes nothing (`startsIn_add`). A program with a full path is found alike from every directory, and
so is one with a bare name when the search path has full paths (`Host.FindsAlike`); for such a program
one directory that is there is as good as another (`FindsAlike.startsIn_iff`), which is not so for a
relative path. Running the driver gives the response of a child process where it starts, and is a
failure elsewhere (`run_execute_of_startsIn`, `run_execute_of_not_startsIn`).
-/

namespace CompletionPrompt

/-! ### The driver program as an argument -/

namespace Json

theorem not_mem_fourDigits {n : Nat} (h : n < 32) : '\x00' ∉ fourDigits n := by
  have hall : ∀ n < 32, '\x00' ∉ fourDigits n := by decide +kernel
  exact hall n h

theorem not_mem_escapeChar (c : Char) : '\x00' ∉ escapeChar c := by
  unfold escapeChar
  repeat' split
  all_goals try simp
  · rename_i h
    exact not_mem_fourDigits h
  · rename_i h
    rintro rfl
    exact h (by decide)

/-- A literal holds no NUL. -/
theorem not_mem_literal (s : List Char) : '\x00' ∉ literal s := by
  simp [literal, not_mem_escapeChar]

end Json

namespace Driver

theorem not_mem_toList {c : Char} {s : String} {l : List Char} (h : s = String.ofList l)
    (hl : c ∉ l) : c ∉ s.toList := by
  rwa [h, String.toList_ofList]

theorem not_mem_rowsBefore : ∀ row ∈ rowsBefore ++ [requestStart], '\x00' ∉ row.toList := by
  decide +kernel

theorem not_mem_rowsAfter : ∀ row ∈ rowsAfter, '\x00' ∉ row.toList := by
  unfold rowsAfter
  repeat' refine List.forall_mem_cons.2 ⟨?_, ?_⟩
  -- Two rows are put together from parts; every other row is one text.
  all_goals try exact not_mem_toList rfl (by decide +kernel)
  · simp [marker]
  · simp [unlocatableSignature]
  · simp

theorem not_mem_joined {rows : List String} (h : ∀ row ∈ rows, '\x00' ∉ row.toList) :
    '\x00' ∉ ("\n".intercalate rows).toList := by
  rw [String.toList_intercalate, show "\n".toList = ['\n'] by rfl, Text.mem_intercalate_iff]
  simpa using h

/-- The driver program holds no NUL, whatever it is run for. -/
theorem not_mem_program (r : Request) : '\x00' ∉ (program r).toList := by
  rw [program, String.toList_append, String.toList_append, String.toList_ofList, List.mem_append,
    List.mem_append, not_or, not_or]
  exact ⟨⟨not_mem_joined not_mem_rowsBefore, Json.not_mem_literal _⟩,
    not_mem_joined not_mem_rowsAfter⟩

end Driver

/-! ### Starting programs -/

namespace Host

/-- A program starts in a directory, if its arguments let it. -/
def StartsIn (h : Host) (program : String) (directory : Path) : Prop :=
  ∃ place, h.start? (Driver.command program directory []) = .ok place

variable {h : Host} {program : String} {directory : Path}

/-- What it takes to start a command: nothing with a NUL, a directory that can be entered, and a
program that is found from it. -/
theorem start?_eq_ok_iff {c : Command} {place : Path} :
    h.start? c = .ok place ↔
      (∀ t ∈ c.program :: c.directory.text :: c.arguments, '\x00' ∉ t.toList) ∧
      ∃ names, (h.files.locate h.currentDir c.directory = .ok names ∧
          h.files.enter names = .ok ()) ∧ Files.pathOf names = place ∧
        h.files.findProgram (Files.pathOf names) h.searchPath c.program = .ok () := by
  have hnul : ((c.program :: c.directory.text :: c.arguments).any fun t =>
      t.toList.contains '\x00') = false ↔
      ∀ t ∈ c.program :: c.directory.text :: c.arguments, '\x00' ∉ t.toList := by
    simp only [List.any_eq_false, List.contains_iff_mem]
  rw [← hnul, start?]
  cases (c.program :: c.directory.text :: c.arguments).any fun t => t.toList.contains '\x00'
  case true => simp
  case false =>
    simp only [Bool.false_eq_true, if_false, true_and]
    cases hlocate : h.files.locate h.currentDir c.directory with
    | error fault => simp
    | ok names =>
      cases henter : h.files.enter names with
      | error fault => simp [henter]
      | ok _ =>
        cases hfind : h.files.findProgram (Files.pathOf names) h.searchPath c.program with
        | error fault => simp [henter, hfind]
        | ok _ =>
          simp only [henter, hfind, Except.ok.injEq]
          constructor
          · exact fun hplace => ⟨names, ⟨rfl, henter⟩, hplace, hfind⟩
          · rintro ⟨found, ⟨rfl, -⟩, hplace, -⟩
            exact hplace

/-- Arguments without a NUL start what starts without arguments. -/
theorem start?_command_iff {arguments : List String}
    (hargs : ∀ t ∈ arguments, '\x00' ∉ t.toList) {place : Path} :
    h.start? (Driver.command program directory arguments) = .ok place ↔
      h.start? (Driver.command program directory []) = .ok place := by
  rw [start?_eq_ok_iff, start?_eq_ok_iff]
  refine and_congr_left fun _ => ?_
  simp only [Driver.command, List.forall_mem_cons, List.not_mem_nil]
  exact and_congr_right fun _ => and_congr_right fun _ => iff_of_true hargs (by simp)

/-- Whether a program starts does not depend on its arguments, if they hold no NUL. -/
theorem startsIn_iff {arguments : List String} (hargs : ∀ t ∈ arguments, '\x00' ∉ t.toList) :
    (∃ place, h.start? (Driver.command program directory arguments) = .ok place) ↔
      h.StartsIn program directory :=
  exists_congr fun _ => start?_command_iff hargs

/-- A new file that is no program changes nothing for a program that starts. -/
theorem startsIn_add {new : List String} {text : Option String} (hnew : h.files.entry? new = none) :
    StartsIn { h with files := h.files.add new (.file text) } program directory ↔
      h.StartsIn program directory := by
  refine exists_congr fun place => ?_
  rw [start?_eq_ok_iff, start?_eq_ok_iff]
  have hfile : Entry.file text ≠ .directory := by simp
  have hprogram : ∀ t, Entry.file text ≠ .program t := by simp
  simp only [Files.locate_enter_add hnew hfile, Files.findProgram_add_eq_ok_iff hnew hfile hprogram]

/-- A later state of the host starts what an earlier one starts. -/
theorem Later.startsIn_iff {h' : Host} (hlater : h.Later h') :
    h'.StartsIn program directory ↔ h.StartsIn program directory := by
  simp only [StartsIn, start?, hlater.files, hlater.currentDir, hlater.searchPath]

/-- A directory of the host: a path leads to it, and it can be entered. -/
def HasDirectory (h : Host) (directory : Path) : Prop :=
  ∃ names, h.files.locate h.currentDir directory = .ok names ∧ h.files.enter names = .ok ()

/-- A program that is found alike from every directory: it is given by its full path, or by a bare
name that is only looked for in directories with full paths. -/
def FindsAlike (h : Host) (program : String) : Prop :=
  Path.isAbsolute ⟨program⟩ = true ∨
    '/' ∉ program.toList ∧ ∀ d ∈ h.searchPath, d.isAbsolute = true

instance (h : Host) (program : String) : Decidable (h.FindsAlike program) :=
  inferInstanceAs (Decidable (_ ∨ _))

theorem FindsAlike.findProgram_eq (hprogram : h.FindsAlike program) (place place' : Path) :
    h.files.findProgram place h.searchPath program =
      h.files.findProgram place' h.searchPath program := by
  unfold Files.findProgram
  rcases hprogram with habsolute | ⟨hbare, hdirs⟩
  · have hslash : program.toList.contains '/' = true := by
      have hhead : program.toList.head? = some '/' := by
        exact of_decide_eq_true habsolute
      exact List.contains_iff_mem.2 (List.mem_of_mem_head? hhead)
    rw [if_pos hslash, if_pos hslash, h.files.checkProgram_of_isAbsolute habsolute place place']
  · have hslash : ¬ program.toList.contains '/' = true := by simpa using hbare
    rw [if_neg hslash, if_neg hslash, h.files.searchProgram_of_isAbsolute hdirs place place']

/-- **What is found alike from every directory starts alike in those that are there.** -/
theorem FindsAlike.startsIn_iff (hprogram : h.FindsAlike program)
    (hdirectory : h.HasDirectory directory) :
    h.StartsIn program directory ↔
      '\x00' ∉ program.toList ∧
        h.files.findProgram h.currentDir h.searchPath program = .ok () := by
  obtain ⟨names, hlocate, henter⟩ := hdirectory
  have hnul : '\x00' ∉ directory.text.toList := by
    have hchars := (Files.names_eq_ok_iff.1 (Files.locate_eq_ok_iff.1 hlocate).1).2.1
    simpa [Path.chars] using hchars
  have hfind := hprogram.findProgram_eq (Files.pathOf names) h.currentDir
  simp only [StartsIn, start?_eq_ok_iff, Driver.command, List.forall_mem_cons, hlocate]
  constructor
  · rintro ⟨place, ⟨hprogram, -⟩, found, ⟨hfound, -⟩, -, hstart⟩
    obtain rfl := Except.ok.inj hfound
    exact ⟨hprogram, hfind ▸ hstart⟩
  · rintro ⟨hprogram, hstart⟩
    exact ⟨_, ⟨hprogram, hnul, by simp⟩, names, ⟨rfl, henter⟩, rfl, hfind ▸ hstart⟩

end Host

namespace Driver

variable {python : String} {directory : Path} {arguments : List String} {h : Host}

/-- Where the interpreter starts, the child process does what the host has for it. -/
theorem run_execute_of_startsIn (hargs : ∀ t ∈ arguments, '\x00' ∉ t.toList)
    (hstart : h.StartsIn python directory) :
    ∃ h', h.Later h' ∧
      (execute python directory arguments).run h = (.ok (h.respond h.calls.length), h') := by
  obtain ⟨place, hplace⟩ := (Host.startsIn_iff hargs).2 hstart
  rw [run_execute, hplace]
  exact ⟨_, h.later_calls _, rfl⟩

/-- Where the interpreter does not start, that is the failure. -/
theorem run_execute_of_not_startsIn (hargs : ∀ t ∈ arguments, '\x00' ∉ t.toList)
    (hstart : ¬ h.StartsIn python directory) :
    ∃ fault, (execute python directory arguments).run h = (.error (.spawn python fault), h) := by
  rw [run_execute]
  cases hplace : h.start? (command python directory arguments) with
  | error fault => exact ⟨fault, rfl⟩
  | ok place => exact absurd ((Host.startsIn_iff hargs).1 ⟨place, hplace⟩) hstart

end Driver
end CompletionPrompt

import CompletionPrompt.CommandLine.Task
import CompletionPrompt.Text.Octets

/-!
# The program

Reads the files that a command line refers to, carries the command line out over them, and prints
what it leaves behind. The files are the configuration, the source, and every place in which a
module that the source imports is looked for. No process is started from here, so a command line that
needs an interpreter is refused.
-/

namespace CompletionPrompt
namespace Program

/-- The files with one more, and the directories that lead to it. -/
def addFile (fs : Files) (names : List String) (text : Option String) : Files :=
  let folders := (List.range (names.length - 1)).map fun n => names.take (n + 1)
  let added := folders.filter fun folder => (fs.entry? folder).isNone
  ⟨fs.entries ++ added.map (·, Entry.directory) ++ [(names, .file text)]⟩

/-- The names that a path leads to, by its text alone. -/
def namesOf (currentDir p : Path) : List String :=
  (p.absoluteFrom currentDir).components.foldl (fun names c =>
    match c with
    | .root | .current => names
    | .parent => names.dropLast
    | .normal name => names ++ [name]) []

/-- The configuration file and source file of a command line. -/
def firstFiles : CommandLine.Request → List Path
  | .run config task =>
    let source := match task with
      | .imports file _ | .describe file _ _ _ | .prompt file _ _ _ => file
    config.toList ++ [source]
  | _ => []

/-- The places in which modules are looked for that the source of a command line imports. -/
def moduleFiles (h : Host) (request : CommandLine.Request) : List Path :=
  match request with
  | .run config task =>
    let source := match task with
      | .imports file _ | .describe file _ _ _ | .prompt file _ _ _ => file
    match ((CommandLine.loadConfig config).run h).1, h.files.read h.currentDir source with
    | .ok c, .ok text =>
      let base := ((source.absoluteFrom h.currentDir).parent?).getD Path.empty
      (Import.statementsOf text).flatMap fun i =>
        Import.candidates c.sourceExtension (searchDirs base) i.module
    | _, _ => []
  | _ => []

/-- Reads files into a host; those that cannot be read are left out. -/
def readFiles (h : Host) : List Path → IO Host
  | [] => return h
  | p :: ps => do
    let names := namesOf h.currentDir p
    let text ← try
        let bytes ← IO.FS.readBinFile (Files.pathOf names).text
        pure (some (Octets.decode? bytes.toList))
      catch _ => pure none
    match text, h.files.entry? names with
    | some text, none => readFiles { h with files := addFile h.files names text } ps
    | _, _ => readFiles h ps

/-- Does a command line get to the point where it starts an interpreter? The host has none, so that is
where it fails. -/
def needsInterpreter (h : Host) : CommandLine.Request → Bool
  | .run config task =>
    match ((task.run config).run h).1 with
    | .error (.failed (.spawn _ _)) => true
    | _ => false
  | _ => false

/-- What a command line that needs an interpreter leaves behind. -/
def refusal : CommandLine.Report :=
  ⟨1, "", "Error: The imports have to be executed, and no interpreter is started from here\n"⟩

end Program
end CompletionPrompt

open CompletionPrompt in
/-- Carries out a command line. -/
def main (args : List String) : IO UInt32 := do
  let currentDir : Path := ⟨(← IO.currentDir).toString⟩
  let silent : Response := ⟨[], [], .exit 0⟩
  let request := CommandLine.Request.ofArguments args
  let here := Program.namesOf currentDir currentDir
  let folders := (List.range here.length).map fun n => (here.take (n + 1), Entry.directory)
  let h : Host := { currentDir, files := ⟨folders⟩, respond := fun _ => silent, calls := [] }
  let h ← Program.readFiles h (Program.firstFiles request)
  let h ← Program.readFiles h (Program.moduleFiles h request)
  let report :=
    if Program.needsInterpreter h request then Program.refusal else (CommandLine.run args h).1
  IO.print report.stdout
  IO.eprint report.stderr
  return report.code.toUInt32

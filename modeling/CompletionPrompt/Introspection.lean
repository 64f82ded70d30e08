import CompletionPrompt.Driver.Execution
import CompletionPrompt.Effect
import CompletionPrompt.Config

/-!
# Introspection through a driver file

An import is described by a driver that is written into a directory as a throwaway file, run as a
module, and removed again however the run ends. Something that stands in the file's place is a
collision and stays as it is.

The driver is started in the working directory, by the dotted names that lead from there to the
file; a file outside the working directory is started in its own directory.
-/

namespace CompletionPrompt
namespace Introspection

/-- The directory that a driver file is started in, and its module name there. -/
def moduleName (driver workingDir : Path) : Path × String :=
  let below := (driver.stripBase? workingDir).getD []
  let folders := below.dropLast.map (·.text)
  let last := match below.getLast? with
    | some (.normal name) => [String.ofList (Path.stemOf name.toList)]
    | _ => []
  let names := folders ++ last
  if names.isEmpty then ((driver.parent?).getD ⟨"."⟩, driver.fileStem?.getD "")
  else (workingDir, ".".intercalate names)

/-- What stands before the last dot of a module name. -/
def packageOf? (module : String) : Option String :=
  match module.toList.reverse.dropWhile (· != '.') with
  | [] => none
  | _ :: package => some (String.ofList package.reverse)

/-- Runs an action while a new file stands under a path, and removes the file after it. -/
def withFile {α : Type} (path : Path) (text : String) (body : Action α) : Action α :=
  ExceptT.mk fun h =>
    match h.files.createNew h.currentDir path text with
    | .error .alreadyExists => (.error (.driverCollision path), h)
    | .error fault => (.error (.io fault), h)
    | .ok files =>
      let (result, h) := body.run { h with files }
      (result, { h with files := h.files.remove h.currentDir path })

/-- What a driver is run for: the file, where it is started, and the request it carries. -/
structure Plan where
  driver : Path
  directory : Path
  module : String
  request : Request
deriving DecidableEq, Repr

/-- The plan for an import whose driver is written into a directory. -/
def plan (c : Config) (currentDir : Path) (i : Import) (dir : Path) : Plan :=
  let dir := dir.absoluteFrom currentDir
  let driver := dir.join ⟨c.driverFileName⟩
  let workingDir := (c.workingDir.map (·.absoluteFrom currentDir)).getD currentDir
  let (directory, module) := moduleName driver workingDir
  let environment := Environment.ofFile driver
  let environment := match packageOf? module with
    | some package => environment.withPackage package
    | none => environment
  let start := (i.filename.bind Path.parent?).getD dir
  { driver, directory, module
    request :=
      { statement := i.statement
        filename := i.filename.getD driver
        searchDirs := searchDirs start
        environment
        depth := c.snapshotDepth } }

/-- The description that the end of a driver run gives. -/
def conclude (c : Config) (i : Import) (p : Plan) (r : Response) : Except Failure String :=
  if r.ending.isSuccess then
    match Driver.snapshot (Octets.decodeReplacing r.stdout) with
    | .error f => .error f
    | .ok ns =>
      let impact := ns.diff (Namespace.seeded p.request.environment)
      let effect := Effect.ofImpact i.asName impact c.includePrivate
      .ok (String.ofList (Text.trim effect.describe.toList))
  else if Driver.saysUnlocatable r.written then .ok ""
  else .error (.subprocessFailed r.ending.status r.written)

/-- The description of an import, executed by a driver in a directory; empty when the module cannot
be imported from any directory above its file. -/
def describe (c : Config) (i : Import) (dir : Path) : Action String := do
  let p := plan c (← Action.currentDir) i dir
  let response ← withFile p.driver (Driver.program p.request)
    (Driver.execute c.python p.directory ["-m", p.module])
  match conclude c i p response with
  | .ok text => return text
  | .error f => throw f

/-- The description of an import as a comment; empty when there is nothing to say. -/
def describeAsComment (c : Config) (i : Import) (dir : Path) : Action String := do
  let description ← describe c i dir
  return if description.isEmpty then "" else commentRows description

/-- An import's statement, followed by the description of the import as a comment. -/
def annotate (c : Config) (dir : Path) (i : Import) : Action String := do
  let comment ← describeAsComment c i dir
  return if comment.isEmpty then i.statement else i.statement ++ "\n" ++ comment

end Introspection
end CompletionPrompt

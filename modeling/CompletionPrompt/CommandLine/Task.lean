import CompletionPrompt.CommandLine.Arguments
import CompletionPrompt.Config.Settings
import CompletionPrompt.Prompt
import CompletionPrompt.Source.LayoutTree

/-!
# Tasks

What a command line does: it reads the configuration and the source file, carries out the task, and
prints the answer, or says in one message why it cannot. Sources are read by the parser of their
layout (`Source.layoutParser`).
-/

namespace CompletionPrompt
namespace CommandLine

/-- Why a task cannot be carried out. -/
inductive Trouble where
  | configUnreadable (file : Path)
  | configMalformed (file : Path)
  | configUnusable (problem : Config.Problem)
  | sourceUnreadable (file : Path)
  | pathInvalid (file : Path)
  | failed (failure : Failure)
deriving DecidableEq, Repr

/-- The wording of a trouble. -/
def Trouble.message : Trouble → String
  | .configUnreadable file => "Failed to read config " ++ file.text
  | .configMalformed file => "Invalid config " ++ file.text
  | .configUnusable problem => "Invalid configuration: " ++ problem.message
  | .sourceUnreadable file => "Failed to read " ++ file.text
  | .pathInvalid file => "Invalid path " ++ file.text
  | .failed failure => failure.message

/-- A computation over the host that may run into trouble. -/
abbrev Work := ExceptT Trouble (StateM Host)

namespace Work

/-- An action as part of a task. -/
def ofAction {α : Type} (a : Action α) : Work α :=
  ExceptT.mk fun h =>
    match a.run h with
    | (.ok x, h) => (.ok x, h)
    | (.error f, h) => (.error (.failed f), h)

/-- Something asked of the host, with the trouble that a fault means. -/
def ask {α : Type} (request : Host → Except Fault α) (trouble : Trouble) : Work α := do
  match request (← get) with
  | .ok x => return x
  | .error _ => throw trouble

end Work

/-- The configuration of a file, or the default one. -/
def loadConfig (file : Option Path) : Work Config := do
  let config ← match file with
    | none => pure Config.default
    | some file =>
      let text ← Work.ask (fun h => h.files.read h.currentDir file) (.configUnreadable file)
      match Config.ofSettings? text with
      | some config => pure config
      | none => throw (.configMalformed file)
  match config.problem? with
  | some problem => throw (.configUnusable problem)
  | none => return config

/-- The text of a source file. -/
def readSource (file : Path) : Work String :=
  Work.ask (fun h => h.files.read h.currentDir file) (.sourceUnreadable file)

/-- A value as it is printed, with a line feed after it. -/
def printed (pretty : Bool) (v : Json.Value) : String :=
  String.ofList ((if pretty then v.pretty else v.compact) ++ ['\n'])

/-- An import in the list that is printed. -/
def importEntry (i : Import) : Json.Value :=
  .object
    [("module", .string i.module), ("as_name", .string i.asName),
      ("filename", .ofOption (i.filename.map (·.text))), ("statement", .string i.statement),
      ("imported", .ofStrings i.imported), ("span", i.span.toJson)]

/-- A description in the list that is printed. -/
def descriptionEntry (i : Import) (description : String) : Json.Value :=
  .object
    [("module", .string i.module), ("as_name", .string i.asName),
      ("description", .string description)]

/-- The description of an import that is executed directly; empty when its module is not found. -/
def describeDirectly (c : Config) (environment : Environment) (i : Import) : Action String :=
  ExceptT.mk fun h =>
    let analyze : Action Effect :=
      Effect.analyze (Driver.interpret c.python) c.includePrivate c.snapshotDepth environment i
    match analyze.run h with
    | (.ok effect, h) => (.ok effect.describe, h)
    | (.error f, h) => if f.isUnlocatable then (.ok "", h) else (.error f, h)

/-- The local imports of a file, as they are printed. -/
def runImports (c : Config) (file : Path) (pretty : Bool) : Work String := do
  let source ← readSource file
  let imports := Import.resolveAll (← get) c.sourceExtension source file
  return printed pretty (.array (imports.map importEntry))

/-- What the local imports of a file bind, as it is printed. -/
def runDescribe (c : Config) (file : Path) (module : Option String) (direct pretty : Bool) :
    Work String := do
  let source ← readSource file
  let file ← Work.ask (fun h => h.files.canonical h.currentDir file) (.pathInvalid file)
  let dir := (file.parent?).getD ⟨"."⟩
  let environment := Environment.ofFile file
  let imports := Import.resolveAll (← get) c.sourceExtension source file
  let imports := imports.filter fun i => (module.map (· == i.module)).getD true
  let entries ← imports.mapM fun i => do
    let description ← Work.ofAction <|
      if direct then describeDirectly c environment i else Introspection.describe c i dir
    return descriptionEntry i description
  return printed pretty (.array entries)

/-- The prompt for a function of a file. -/
def runPrompt (c : Config) (file : Path) (function : String) (strategy : Strategy)
    (budget : Nat) : Work String := do
  let source ← readSource file
  let b ← Work.ofAction (Builder.ofConfig c : Except Failure Builder)
  let t ← Work.ofAction (Target.locate file source function : Except Failure Target)
  Work.ofAction (b.buildFor strategy t budget)

/-- Carries out a task under a configuration file. -/
def Task.run (config : Option Path) (task : Task) : Work String := do
  let c ← loadConfig config
  match task with
  | .imports file pretty => runImports c file pretty
  | .describe file module direct pretty => runDescribe c file module direct pretty
  | .prompt file function strategy budget => runPrompt c file function strategy budget

/-- What a run leaves behind: its exit code and what it wrote. -/
structure Report where
  code : Nat
  stdout : String
  stderr : String
deriving DecidableEq, Repr

/-- The name and version of the program. -/
def versionText : String :=
  "context-imports 0.1.1\n"

/-- How the program is used. -/
def usageText : String :=
  "\n".intercalate
    ["Usage: context-imports [--config FILE] [--quiet] [-v|--verbose] TASK",
     "",
     "  imports FILE [--pretty]",
     "  describe FILE [--module NAME] [--direct] [--pretty]",
     "  prompt FILE --function NAME [--strategy NAME] [--budget N]",
     ""]

/-- What a command line does. -/
def run (args : List String) (h : Host) : Report × Host :=
  match Request.ofArguments args with
  | .version => (⟨0, versionText, ""⟩, h)
  | .help => (⟨0, usageText, ""⟩, h)
  | .usage => (⟨2, "", usageText⟩, h)
  | .run config task =>
    match (task.run config).run h with
    | (.ok text, h) => (⟨0, text, ""⟩, h)
    | (.error trouble, h) => (⟨1, "", "Error: " ++ trouble.message ++ "\n"⟩, h)

end CommandLine
end CompletionPrompt

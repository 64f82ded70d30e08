import CompletionPrompt.Failure
import CompletionPrompt.Json.Record
import CompletionPrompt.Text.Blank
import CompletionPrompt.Text.Quoted

/-!
# Configuration

How imports are resolved and introspected and prompts are put together. Every part has a default,
so a record may leave out any of them. `Config.problem?` finds the first part that cannot be used.
-/

namespace CompletionPrompt

/-- How imports are resolved and introspected and prompts are put together. -/
structure Config where
  /-- The interpreter that executes import statements. -/
  python : String
  /-- The extension of source files, without the dot. -/
  sourceExtension : String
  /-- The text in front of every prompt, which is never cut. -/
  preamble : String
  /-- One level of indentation. -/
  indentation : String
  /-- Are the rows of a replaced import kept when a prompt is cut? -/
  keepReplacements : Bool
  /-- Are names with a leading underscore described as well? -/
  includePrivate : Bool
  /-- How many levels of modules the driver reports below each binding. -/
  snapshotDepth : Nat
  /-- The name of the throwaway driver file. -/
  driverFileName : String
  /-- The directory that the driver is started in; the current one when absent. -/
  workingDir : Option Path
  /-- The bytes that a token takes in the estimate of a text's length. -/
  bytesPerToken : Nat
deriving DecidableEq, Repr

namespace Config

/-- The configuration in which nothing is said. -/
def default : Config where
  python := "python3"
  sourceExtension := "py"
  preamble := "# Python 3\n"
  indentation := "    "
  keepReplacements := true
  includePrivate := false
  snapshotDepth := 3
  driverFileName := "import_probe_tmp.py"
  workingDir := none
  bytesPerToken := 4

/-- The default configuration without the preference for replaced imports. -/
def withoutPreference : Config :=
  { default with keepReplacements := false }

/-- A part of a configuration that cannot be used. -/
inductive Problem where
  | noInterpreter
  | badExtension (extension : String)
  | driverNotPython (name : String)
  | driverNotPlain (name : String)
  | noDepth
  | noBytesPerToken
deriving DecidableEq, Repr

/-- The wording of a problem. -/
def Problem.message : Problem → String
  | .noInterpreter => "python must name an interpreter"
  | .badExtension extension =>
    "source_extension (" ++ String.ofList (Text.quoted extension.toList) ++
      ") must be non-empty and given without a dot"
  | .driverNotPython name => "driver_file_name (" ++ name ++ ") must end with .py"
  | .driverNotPlain name => "driver_file_name (" ++ name ++ ") must be a plain module file name"
  | .noDepth => "snapshot_depth must be > 0"
  | .noBytesPerToken => "chars_per_token must be > 0"

/-- What stands before the ending `.py` of a file name. -/
def moduleStem? (name : List Char) : Option (List Char) :=
  let ending := ".py".toList
  if ending.isSuffixOf name then some (name.take (name.length - ending.length)) else none

/-- A plain module name: not empty, and without slash, backslash and dot. -/
def isPlainModule (stem : List Char) : Bool :=
  !stem.isEmpty && !stem.any fun c => c = '/' || c = '\\' || c = '.'

/-- The first part of a configuration that cannot be used. -/
def problem? (c : Config) : Option Problem :=
  if Text.allBlank c.python.toList then some .noInterpreter
  else if c.sourceExtension.isEmpty || c.sourceExtension.toList.head? = some '.' then
    some (.badExtension c.sourceExtension)
  else
    match moduleStem? c.driverFileName.toList with
    | none => some (.driverNotPython c.driverFileName)
    | some stem =>
      if !isPlainModule stem then some (.driverNotPlain c.driverFileName)
      else if c.snapshotDepth = 0 then some .noDepth
      else if c.bytesPerToken = 0 then some .noBytesPerToken
      else none

/-- The names of a configuration's parts in a record. -/
def fieldNames : List String :=
  ["python", "source_extension", "preamble", "indentation",
   "keep_imports_and_description_by_preference", "include_private", "snapshot_depth",
   "driver_file_name", "working_dir", "chars_per_token"]

/-- A configuration as a record. -/
def toJson (c : Config) : Json.Value :=
  .object <| fieldNames.zip
    [.string c.python, .string c.sourceExtension, .string c.preamble, .string c.indentation,
     .bool c.keepReplacements, .bool c.includePrivate, .natural c.snapshotDepth,
     .string c.driverFileName, .ofOption (c.workingDir.map Path.text), .natural c.bytesPerToken]

/-- A part with a default. -/
def partOr {α : Type} (read : Json.Value → Option α) (fallback : α) :
    Option Json.Value → Option α
  | none => some fallback
  | some v => read v

/-- The configuration of a record, with the defaults for what it leaves out. -/
def ofJson? (v : Json.Value) : Option Config := do
  match ← Json.fieldsOrMissing? fieldNames v with
  | [python, sourceExtension, preamble, indentation, keepReplacements, includePrivate,
      snapshotDepth, driverFileName, workingDir, bytesPerToken] =>
    let python ← partOr Json.Value.asString? default.python python
    let sourceExtension ← partOr Json.Value.asString? default.sourceExtension sourceExtension
    let preamble ← partOr Json.Value.asString? default.preamble preamble
    let indentation ← partOr Json.Value.asString? default.indentation indentation
    let keepReplacements ← partOr Json.Value.asBool? default.keepReplacements keepReplacements
    let includePrivate ← partOr Json.Value.asBool? default.includePrivate includePrivate
    let snapshotDepth ← partOr Json.Value.asCount? default.snapshotDepth snapshotDepth
    let driverFileName ← partOr Json.Value.asString? default.driverFileName driverFileName
    let workingDir ← Json.Value.asOptional? Json.Value.asString? workingDir
    let bytesPerToken ← partOr Json.Value.asCount? default.bytesPerToken bytesPerToken
    return {
      python, sourceExtension, preamble, indentation, keepReplacements, includePrivate,
      snapshotDepth, driverFileName, workingDir := workingDir.map Path.mk, bytesPerToken }
  | _ => none

end Config
end CompletionPrompt

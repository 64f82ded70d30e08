import CompletionPrompt.Import.Statement
import CompletionPrompt.Source.Imports

/-!
# Resolving imports to local files

A module is looked for in the directory of the importing file and then in each directory above
it, innermost first and short of the root: its dotted path names directories and, with the
extension of source files, a file. The innermost directory that has such a file decides; an import
whose file cannot be read as text is dropped, as is one that no directory has.
-/

namespace CompletionPrompt

/-- The directories that a module is looked for in from a starting directory, innermost first. -/
def searchDirs (start : Path) : List Path :=
  start.ancestors.takeWhile fun dir => !dir.text.isEmpty && dir.parent?.isSome

namespace Import

/-- The import statements of a source, unresolved. -/
def statementsOf [Source.Parser] (text : String) : List Import :=
  (Source.importStatements .wholeSource text.toList).filterMap fun (span, statement) =>
    parse? (String.ofList statement) span

/-- The path of a module below the directory it is in: its names as directories, the last with the
extension. -/
def modulePath (extension module : String) : Path :=
  let names := (module.toList.splitOn '.').map Path.ofChars
  (names.foldl Path.join Path.empty).withExtension extension

/-- The files that a module may be in, in the order they are tried. -/
def candidates (extension : String) (dirs : List Path) (module : String) : List Path :=
  dirs.map (·.join (modulePath extension module))

/-- The import with the first candidate that is a file, if that can be read. -/
def resolveIn? (h : Host) (extension : String) (dirs : List Path) (i : Import) : Option Import :=
  match (candidates extension dirs i.module).find? (h.files.isFile h.currentDir) with
  | none => none
  | some file =>
    match i.resolveTo h file with
    | (.ok (), i) => some i
    | (.error _, _) => none

/-- The imports of a source that are local files when the source is the file of a path. -/
def resolveAll [Source.Parser] (h : Host) (extension : String) (text : String) (path : Path) : List Import :=
  let base := ((path.absoluteFrom h.currentDir).parent?).getD Path.empty
  (statementsOf text).filterMap (resolveIn? h extension (searchDirs base))

/-- A text without the import statements that mention one of some modules: the text of each such
statement is erased wherever it stands. -/
def eraseMentioning [Source.Parser] (modules : List String) (text : List Char) : List Char :=
  let statements := (Source.importStatements .wholeSource text).map (·.2)
  let mentioned := statements.filter fun s => modules.any fun m => Text.occurs m.toList s
  mentioned.foldl (fun text statement => Text.eraseAll statement text) text

end Import
end CompletionPrompt

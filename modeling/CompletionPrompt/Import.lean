import CompletionPrompt.Host
import CompletionPrompt.Span

/-!
# Imports

One import statement: what it imports, under which name, where it stands, and, once it is
resolved, the local file it refers to with that file's text. Resolving reads the file; when that
fails the file name is taken back.
-/

namespace CompletionPrompt

/-- One import statement and, once it is resolved, the file it refers to. -/
structure Import where
  /-- The dotted path of the module. -/
  module : String
  /-- The local file of the module. -/
  filename : Option Path
  /-- The text of the file. -/
  sourceText : Option String
  /-- The name that the statement binds. -/
  asName : String
  /-- The statement as it stands in the importing source. -/
  statement : String
  /-- The names listed after `import` in a `from` statement. -/
  imported : List String
  /-- Where the statement stands in the importing source. -/
  span : Span
deriving DecidableEq, Repr

namespace Import

/-- An import that is not resolved and lists no names. -/
def unresolved (module asName statement : String) (span : Span) : Import :=
  { module, filename := none, sourceText := none, asName, statement, imported := [], span }

/-- The import with a file and its text, which is not read. -/
def withResolved (i : Import) (filename : Path) (sourceText : String) : Import :=
  { i with filename := some filename, sourceText := some sourceText }

/-- The file of the import, which an unresolved import lacks. -/
def resolvedFilename (i : Import) : Except Failure Path :=
  match i.filename with
  | some filename => .ok filename
  | none => .error (.missingFilename i.module)

/-- Reads the text of the import's file; the import is unchanged when that fails. -/
def load (h : Host) (i : Import) : Except Failure Unit × Import :=
  match i.resolvedFilename with
  | .error f => (.error f, i)
  | .ok filename =>
    match h.files.read h.currentDir filename with
    | .error fault => (.error (.io fault), i)
    | .ok text => (.ok (), { i with sourceText := some text })

/-- Gives the import a file and reads its text; when that fails the import has no file. -/
def resolveTo (h : Host) (filename : Path) (i : Import) : Except Failure Unit × Import :=
  match load h { i with filename := some filename } with
  | (.error f, i) => (.error f, { i with filename := none })
  | (.ok (), i) => (.ok (), i)

/-- The text of the import's file, empty when it is not resolved. -/
def source (i : Import) : String :=
  i.sourceText.getD ""

/-- An import is resolved when it has both a file and the file's text. -/
def isResolved (i : Import) : Bool :=
  i.filename.isSome && i.sourceText.isSome

/-- The names of an import's parts in a record. -/
def fieldNames : List String :=
  ["module", "filename", "source_text", "as_name", "original_statement", "imported", "span"]

/-- An import as a record; a part that it lacks is left out. -/
def toJson (i : Import) : Json.Value :=
  .object <|
    [("module", .string i.module)] ++
    (i.filename.map fun p => ("filename", .string p.text)).toList ++
    (i.sourceText.map fun t => ("source_text", .string t)).toList ++
    [("as_name", .string i.asName), ("original_statement", .string i.statement),
      ("imported", .ofStrings i.imported), ("span", i.span.toJson)]

/-- The import of a record, which may leave out the file, its text and the names. -/
def ofJson? (v : Json.Value) : Option Import := do
  match ← Json.fields? fieldNames v with
  | [module, filename, sourceText, asName, statement, imported, span] =>
    let module ← Json.required? Json.Value.asString? module
    let filename ← Json.Value.asOptional? Json.Value.asString? filename
    let sourceText ← Json.Value.asOptional? Json.Value.asString? sourceText
    let asName ← Json.required? Json.Value.asString? asName
    let statement ← Json.required? Json.Value.asString? statement
    let imported ← match imported with
      | none => some []
      | some v => v.asStrings?
    let span ← Json.required? Span.ofJson? span
    return {
      module, filename := filename.map Path.mk, sourceText, asName, statement, imported, span }
  | _ => none

end Import
end CompletionPrompt

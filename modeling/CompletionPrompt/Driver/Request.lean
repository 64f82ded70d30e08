import CompletionPrompt.Namespace
import CompletionPrompt.Failure

/-!
# Requests to an interpreter

What an interpreter is asked to do: to execute one statement with some directories in front of its
module search path. It tells whether the statement bound its names or its module was not found,
and gives the namespace as it is afterwards.
-/

namespace CompletionPrompt

/-- What an interpreter needs to execute one statement. -/
structure Request where
  statement : String
  /-- The file that the statement is put down to in error messages. -/
  filename : Path
  /-- The directories that modules are looked for in, each tried in turn. -/
  searchDirs : List Path
  environment : Environment
  /-- How many levels of modules are reported below each new binding. -/
  depth : Nat
deriving DecidableEq, Repr

/-- A request as a record. -/
def Request.toJson (r : Request) : Json.Value :=
  .object
    [("statement", .string r.statement), ("filename", .string r.filename.text),
      ("search_dirs", .ofStrings (r.searchDirs.map (·.text))),
      ("environment", r.environment.toJson), ("depth", .natural r.depth)]

/-- What came of executing a statement. -/
inductive Outcome where
  /-- The statement ran, and the namespace holds what it bound. -/
  | bound
  /-- The module was not found from any of the directories. -/
  | moduleNotFound
deriving DecidableEq, Repr

/-- The word for an outcome. -/
def Outcome.name : Outcome → String
  | .bound => "Bound"
  | .moduleNotFound => "ModuleNotFound"

/-- Something that executes a request in a namespace, which it may change. -/
abbrev Interpreter (m : Type → Type) := Request → Namespace → m (Outcome × Namespace)

end CompletionPrompt

import CompletionPrompt.Binding
import CompletionPrompt.Path

/-!
# Namespaces

A namespace holds named bindings in the order in which the names were first bound. Binding a name
again keeps its place. A namespace that was read from a report may hold a name twice; looking a
name up finds the first.

An `Environment` is what a freshly loaded file sees before its first statement runs;
`Namespace.seeded` binds just that.
-/

namespace CompletionPrompt

/-- What a freshly loaded file sees before its first statement runs. -/
structure Environment where
  name : String
  doc : Option String
  package : Option String
  file : String
deriving DecidableEq, Repr

namespace Environment

/-- The environment of a file that is run as a program. -/
def ofFile (file : Path) : Environment :=
  { name := "__main__", doc := none, package := none, file := file.text }

/-- The environment with a package. -/
def withPackage (e : Environment) (package : String) : Environment :=
  { e with package := some package }

/-- The names that an environment binds. -/
def names : List String :=
  ["__builtins__", "__name__", "__doc__", "__package__", "__file__"]

/-- The names of an environment's parts in a record. -/
def fieldNames : List String :=
  ["__name__", "__doc__", "__package__", "__file__"]

/-- An environment as a record. -/
def toJson (e : Environment) : Json.Value :=
  .object (fieldNames.zip [.string e.name, .ofOption e.doc, .ofOption e.package, .string e.file])

/-- The environment of a record. -/
def ofJson? (v : Json.Value) : Option Environment := do
  match ← Json.fields? fieldNames v with
  | [name, doc, package, file] =>
    let name ← Json.required? Json.Value.asString? name
    let doc ← Json.Value.asOptional? Json.Value.asString? doc
    let package ← Json.Value.asOptional? Json.Value.asString? package
    let file ← Json.required? Json.Value.asString? file
    return { name, doc, package, file }
  | _ => none

end Environment

/-- Named bindings in the order in which the names were first bound. -/
structure Namespace where
  bindings : List (String × Binding)
deriving Repr, BEq

namespace Namespace

/-- The namespace that binds nothing. -/
def empty : Namespace := ⟨[]⟩

/-- The binding of a name. -/
def get? (ns : Namespace) (name : String) : Option Binding :=
  (ns.bindings.find? (·.1 == name)).map (·.2)

/-- Is a name bound? -/
def contains (ns : Namespace) (name : String) : Bool :=
  ns.bindings.any (·.1 == name)

/-- Named bindings with one of them set: in the place of its name, and else at the end. -/
def insertInto (name : String) (b : Binding) : List (String × Binding) → List (String × Binding)
  | [] => [(name, b)]
  | (n, c) :: bs => if n == name then (n, b) :: bs else (n, c) :: insertInto name b bs

/-- Binds a name; a name that was bound keeps its place. -/
def insert (ns : Namespace) (name : String) (b : Binding) : Namespace :=
  ⟨insertInto name b ns.bindings⟩

/-- The namespace of some bindings made one after the other. -/
def ofList (bs : List (String × Binding)) : Namespace :=
  bs.foldl (fun ns (name, b) => ns.insert name b) empty

/-- The namespace that binds just an environment. -/
def seeded (e : Environment) : Namespace :=
  let typeOf (v : Option String) := if v.isSome then "str" else "NoneType"
  ofList
    [("__builtins__", .object "module"), ("__name__", .object "str"),
      ("__doc__", .object (typeOf e.doc)), ("__package__", .object (typeOf e.package)),
      ("__file__", .object "str")]

/-- The bindings whose names another namespace does not bind. -/
def diff (ns before : Namespace) : Namespace :=
  ⟨ns.bindings.filter fun (name, _) => !before.contains name⟩

/-- The number of bindings. -/
def size (ns : Namespace) : Nat :=
  ns.bindings.length

/-- A namespace as an array of pairs. -/
def toJson (ns : Namespace) : Json.Value :=
  .array (Binding.pairsToJson ns.bindings)

/-- The binding with its name that an array of two gives. -/
def pair? : Json.Value → Option (String × Binding)
  | .array [.string name, v] => (Binding.ofJson? false v).map (name, ·)
  | _ => none

/-- The namespace of an array of pairs. -/
def ofJson? (v : Json.Value) : Option Namespace :=
  v.asArray?.bind fun items => (items.mapM pair?).map .mk

end Namespace
end CompletionPrompt

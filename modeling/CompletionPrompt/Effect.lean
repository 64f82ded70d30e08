import CompletionPrompt.Driver.Request
import CompletionPrompt.Import.Resolution

/-!
# The effect of an import

An import statement adds names to the namespace it is executed in; those it adds are its impact.
Modules among them are unpacked level by level, as long as only modules are left, into the names
of their members. What remains is described in a text: classes with their methods, functions with
their parameters, and other objects with their types.

`Effect.analyze` executes a statement from one directory after another until its module is found,
each time in a fresh namespace.
-/

namespace CompletionPrompt

/-- The effect of one import statement. -/
structure Effect where
  asName : String
  includePrivate : Bool
  /-- The bindings that the statement added. -/
  impact : Namespace
  /-- The bindings that are left when modules are unpacked. -/
  objects : List (String × Binding)
deriving Repr

namespace Effect

/-- Is a name shown? -/
def isShown (includePrivate : Bool) (name : String) : Bool :=
  includePrivate || name.toList.head? != some '_'

/-- Bindings with modules replaced by their members a number of times; a member's name follows the
path of the modules around it. -/
def unpackLevel (includePrivate : Bool) : Nat → String → List (String × Binding) →
    List (String × Binding)
  | 0, path, bs =>
    (bs.filter fun (name, _) => isShown includePrivate name).map fun (name, b) => (path ++ name, b)
  | depth + 1, path, bs =>
    (bs.filter fun (name, _) => isShown includePrivate name).flatMap fun (name, b) =>
      match b with
      | .module members => unpackLevel includePrivate depth (path ++ name ++ ".") members
      | b => [(path ++ name, b)]

/-- Goes on from a level to deeper ones, at most `more` times, while only modules are left and the
deeper level holds anything. -/
def deepen (level : Nat → List (String × Binding)) : Nat → Nat → List (String × Binding)
  | 0, depth => level depth
  | more + 1, depth =>
    let here := level depth
    if here.isEmpty || !here.all (·.2.isModule) then here
    else if (level (depth + 1)).isEmpty then here
    else deepen level more (depth + 1)

/-- The bindings that are left of an impact when modules are unpacked. -/
def unpack (includePrivate : Bool) (impact : Namespace) : List (String × Binding) :=
  deepen (fun depth => unpackLevel includePrivate depth "" impact.bindings)
    (Binding.maxHeight impact.bindings) 0

/-- The effect of a statement with a given impact. -/
def ofImpact (asName : String) (impact : Namespace) (includePrivate : Bool) : Effect :=
  { asName, includePrivate, impact, objects := unpack includePrivate impact }

/-- The names of an effect with the class of each. -/
def classification (e : Effect) : List (String × BindingKind) :=
  e.objects.map fun (name, b) => (name, b.kind)

/-- A class with the methods of it that are shown. -/
def describeClass (includePrivate : Bool) (name : String) (methods : List String) : String :=
  name ++ " with functions " ++ ", ".intercalate (methods.filter (isShown includePrivate))

/-- A function with its parameters. -/
def describeFunction (name : String) (params : List String) : String :=
  name ++ "(" ++ ", ".intercalate params ++ ")"

/-- The descriptions of the classes of an effect. -/
def classes (e : Effect) : List String :=
  e.objects.filterMap fun
    | (name, .type methods) => some (" - " ++ describeClass e.includePrivate name methods)
    | _ => none

/-- The descriptions of the functions of an effect. -/
def functions (e : Effect) : List String :=
  e.objects.filterMap fun
    | (name, .function params) => some (describeFunction name params)
    | _ => none

/-- The descriptions of the other objects of an effect. -/
def others (e : Effect) : List String :=
  e.objects.filterMap fun
    | (_, .type _) | (_, .function _) => none
    | (name, b) => some (name ++ ": " ++ b.typeName)

/-- The description of an effect: classes, then functions, then other objects; empty when there is
none of them. -/
def describe (e : Effect) : String :=
  let classes :=
    if e.classes.isEmpty then ""
    else e.asName ++ " adds the following classes:\n" ++ "\n".intercalate e.classes ++ "\n"
  let functions :=
    if e.functions.isEmpty then ""
    else e.asName ++ " adds the functions " ++ ", ".intercalate e.functions ++ "\n"
  let also := if e.classes.isEmpty && e.functions.isEmpty then "" else "also "
  let others :=
    if e.others.isEmpty then ""
    else e.asName ++ " " ++ also ++ "adds the objects: " ++ ", ".intercalate e.others ++ "\n"
  classes ++ functions ++ others

end Effect

/-- A text with every row made a comment. -/
def commentRows (text : String) : String :=
  "\n".intercalate ((Text.rows text.toList).map fun row => "# " ++ String.ofList row)

namespace Effect

/-- The description of an effect as a comment. -/
def describeAsComment (e : Effect) : String :=
  commentRows e.describe

/-- Tries directories in order until the interpreter finds the module from one of them. -/
def analyzeIn {m : Type → Type} [Monad m] [MonadExceptOf Failure m] (interpret : Interpreter m)
    (includePrivate : Bool) (depth : Nat) (environment : Environment) (i : Import)
    (filename : Path) : List Path → m Effect
  | [] => throw (.moduleNotLocatable filename)
  | dir :: dirs => do
    let before := Namespace.seeded environment
    let request : Request :=
      { statement := i.statement, filename, searchDirs := [dir], environment, depth }
    let (outcome, after) ← interpret request before
    match outcome with
    | .bound => return ofImpact i.asName (after.diff before) includePrivate
    | .moduleNotFound =>
      analyzeIn interpret includePrivate depth environment i filename dirs

/-- The effect of an import, executed from the directory of its file or the first one above it from
which its module is found. -/
def analyze {m : Type → Type} [Monad m] [MonadExceptOf Failure m] (interpret : Interpreter m)
    (includePrivate : Bool) (depth : Nat) (environment : Environment) (i : Import) : m Effect :=
  match i.resolvedFilename with
  | .error f => throw f
  | .ok filename =>
    analyzeIn interpret includePrivate depth environment i filename
      (searchDirs (filename.parent?.getD Path.empty))

end Effect
end CompletionPrompt

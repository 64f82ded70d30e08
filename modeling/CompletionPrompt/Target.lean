import CompletionPrompt.Failure
import CompletionPrompt.Json.Record
import CompletionPrompt.Source.Tree
import CompletionPrompt.Text.Blank

/-!
# Target functions

A prompt is built for one function: the source up to the row that its definition starts on, and
from there its decorators, signature and docstring. `Target.locate` finds the first definition of
a name in the syntax tree of the source, at any depth.

The header ends where the body starts. When the body starts with a docstring, the header ends where
the next statement or comment of the body starts, or at the end of the docstring when nothing
follows.
-/

namespace CompletionPrompt

/-- The function that a prompt is built for. -/
structure Target where
  /-- The file that the function is in. -/
  path : Path
  /-- What stands before the definition, without the line feed at its end. -/
  prelude : String
  /-- Decorators, signature and docstring. -/
  header : String
deriving DecidableEq, Repr

namespace Target

open Source

/-- The text that the prompt is built from. -/
def source (t : Target) : String :=
  t.prelude ++ "\n" ++ t.header

/-- Does a node define a function of a name? -/
def defines (text name : List Char) (t : Tree) : Bool :=
  t.label.kind = "function_definition" && (t.child? "name").any fun n => n.textIn text = name

mutual

/-- The first node of a tree with a property, in the order in which they are met going down, and the
node that it is a child of. -/
def find? (p : Tree → Bool) (parent : Option Tree) : Tree → Option (Option Tree × Tree)
  | .node label children =>
    if p (.node label children) then some (parent, .node label children)
    else findAmong? p (some (.node label children)) children

/-- The first such node of some children. -/
def findAmong? (p : Tree → Bool) (parent : Option Tree) :
    List Tree → Option (Option Tree × Tree)
  | [] => none
  | t :: ts => (find? p parent t).or (findAmong? p parent ts)

end

/-- What a target starts with: the definition, or all that is decorated when it has decorators. -/
def outer (parent : Option Tree) (definition : Tree) : Tree :=
  match parent with
  | some p => if p.label.kind = "decorated_definition" then p else definition
  | none => definition

/-- Is a statement a docstring: an expression that starts with a string of its own? -/
def isDocstring (t : Tree) : Bool :=
  t.label.kind = "expression_statement" &&
    t.namedChildren.head?.any fun e => e.label.kind = "string"

/-- Where the header of a definition ends. -/
def headerEnd (definition : Tree) : Place :=
  match definition.child? "body" with
  | none => definition.stop
  | some body =>
    match body.namedChildren with
    | first :: others =>
      if isDocstring first then (others.head?.map Tree.start).getD first.stop else body.start
    | [] => body.start

/-- The text before the row that a place stands on, and the rest of the text. -/
def splitRow (text : List Char) (p : Place) : List Char × List Char :=
  let before := Text.dropEndWhile (· != '\n') (text.take p.offset)
  (before, text.drop before.length)

/-- A text without one line feed at its end. -/
def dropLineFeed (s : List Char) : List Char :=
  if s.getLast? = some '\n' then s.dropLast else s

/-- The first definition of a name in a source. -/
def locate [Parser] (path : Path) (text : String) (name : String) : Except Failure Target :=
  match find? (defines text.toList name.toList) none (parse text.toList) with
  | none => .error (.functionNotFound name path)
  | some (parent, definition) =>
    let (prelude, rest) := splitRow text.toList (outer parent definition).start
    .ok
      { path
        prelude := String.ofList (dropLineFeed prelude)
        header := String.ofList (rest.take ((headerEnd definition).offset - prelude.length)) }

/-- The names of a target's parts in a record. -/
def fieldNames : List String :=
  ["path", "prelude", "header"]

/-- The target of a record. -/
def ofJson? (v : Json.Value) : Option Target := do
  match ← Json.fields? fieldNames v with
  | [path, prelude, header] =>
    let path ← Json.required? Json.Value.asString? path
    let prelude ← Json.required? Json.Value.asString? prelude
    let header ← Json.required? Json.Value.asString? header
    return { path := ⟨path⟩, prelude, header }
  | _ => none

/-- A target as a record. -/
def toJson (t : Target) : Json.Value :=
  .object (fieldNames.zip [.string t.path.text, .string t.prelude, .string t.header])

end Target
end CompletionPrompt

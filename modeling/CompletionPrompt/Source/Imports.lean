import CompletionPrompt.Source.Tree
import CompletionPrompt.Span.Edit

/-!
# Import statements of a source

The import statements of a source are read off its syntax tree. Their spans are collected as a set
that is listed in order, and so are the rows that they take, so each is listed once however often it
is met.
-/

namespace CompletionPrompt
namespace Source

/-- Which import statements are meant. -/
inductive Scope where
  /-- Every import statement, wherever it stands. -/
  | wholeSource
  /-- The import statements that stand right below a module. -/
  | topLevel
deriving DecidableEq, Repr

/-- Is a node a module? -/
def Tree.isModule (t : Tree) : Bool :=
  t.label.named && t.label.kind = "module"

/-- The import statements of a tree, in the order in which they are met. -/
def Tree.imports (scope : Scope) (t : Tree) : List Tree :=
  match scope with
  | .wholeSource => t.nodes.filter isImport
  | .topLevel => (t.nodes.filter isModule).flatMap fun n => n.children.filter isImport

section
variable {α : Type} [DecidableEq α] (le : α → α → Bool)

/-- A set that is listed in order, with one more. -/
def insertInOrder (x : α) : List α → List α
  | [] => [x]
  | y :: ys => if x = y then y :: ys else if le x y then x :: y :: ys else y :: insertInOrder x ys

/-- What a list holds, as a set that is listed in order. -/
def setInOrder (xs : List α) : List α :=
  xs.foldl (fun set x => insertInOrder le x set) []

end

variable [Parser]

/-- The spans of the import statements of a source, in order. -/
def importSpans (scope : Scope) (text : List Char) : List Span :=
  setInOrder Span.le (((parse text).imports scope).map Tree.span)

/-- The import statements of a source with their spans, in order. -/
def importStatements (scope : Scope) (text : List Char) : List (Span × List Char) :=
  (importSpans scope text).map fun span => (span, span.extract text)

/-- The rows that top-level import statements take, in order. -/
def importRows (text : List Char) : List Nat :=
  setInOrder Nat.ble ((importSpans .topLevel text).flatMap Span.rowList)

end Source
end CompletionPrompt

import CompletionPrompt.Span

/-!
# Syntax trees of a Python source

A source is read as a syntax tree, whatever it holds: what is not in the grammar gets nodes for
errors. A node says what it is, by which name its parent knows it, and where it starts and stops; the
text that it is written with is the source between the two. Nodes that the grammar names stand beside
those it does not, which are its keywords, operators and delimiters. The nodes without nodes below
them are the tokens.

Which tree a source has is up to the parser (`Parser`). What is read off a tree here does not depend
on it: the nodes in the order in which they are met going down (`Tree.nodes`), the text of a node, a
child by its name.
-/

namespace CompletionPrompt
namespace Source

/-- A place in a source: characters, rows and bytes since the start of the row before it. -/
structure Place where
  offset : Nat
  row : Nat
  column : Nat
deriving DecidableEq, Repr, Inhabited

namespace Place

/-- The place after one more character. -/
def next (p : Place) (c : Char) : Place :=
  if c = '\n' then ⟨p.offset + 1, p.row + 1, 0⟩
  else ⟨p.offset + 1, p.row, p.column + c.utf8Size⟩

/-- The place after a text. -/
def after (p : Place) (s : List Char) : Place :=
  s.foldl next p

/-- The start of a source. -/
def start : Place := ⟨0, 0, 0⟩

end Place

/-- What a node says of itself. -/
structure Label where
  kind : String
  /-- Does the grammar name the node? -/
  named : Bool
  /-- The name that the node has in its parent. -/
  field : Option String
  start : Place
  stop : Place
  /-- Does the node stand for text that is not in the grammar, or for a token that is missing? -/
  isError : Bool
deriving DecidableEq, Repr

/-- A node and what is below it. -/
inductive Tree where
  | node (label : Label) (children : List Tree)
deriving Repr

namespace Tree

def label : Tree → Label
  | .node label _ => label

def children : Tree → List Tree
  | .node _ children => children

mutual

/-- A node and the nodes below it, each in front of those below it. -/
def nodes : Tree → List Tree
  | .node label children => .node label children :: nodesOfAll children

/-- The nodes of trees behind one another. -/
def nodesOfAll : List Tree → List Tree
  | [] => []
  | t :: ts => t.nodes ++ nodesOfAll ts

end

variable (t : Tree)

/-- Where a node starts. -/
def start : Place :=
  t.label.start

/-- Where a node stops. -/
def stop : Place :=
  t.label.stop

/-- Has a node none below it? -/
def isToken : Bool :=
  t.children.isEmpty

/-- The tokens of a tree, in source order. -/
def tokens : List Tree :=
  t.nodes.filter isToken

/-- The children that the grammar names. -/
def namedChildren : List Tree :=
  t.children.filter (·.label.named)

/-- The child of a name. -/
def child? (field : String) : Option Tree :=
  t.children.find? (·.label.field = some field)

/-- The text that a node is written with. -/
def textIn (text : List Char) : List Char :=
  (text.take t.stop.offset).drop t.start.offset

/-- The rows and columns where a node starts and stops. -/
def span : Span :=
  ⟨t.start.row, t.start.column, t.stop.row, t.stop.column⟩

/-- The kinds of import statements. -/
def importKinds : List String :=
  ["import_statement", "future_import_statement", "import_from_statement"]

/-- Is a node an import statement? -/
def isImport : Bool :=
  t.label.named && importKinds.contains t.label.kind

/-- There is no error in a tree. -/
def ErrorFree : Prop :=
  ∀ n ∈ t.nodes, n.label.isError = false

instance : Decidable t.ErrorFree :=
  inferInstanceAs (Decidable (∀ n ∈ t.nodes, n.label.isError = false))

end Tree

/-- A way to read sources as syntax trees. -/
class Parser where
  parse : List Char → Tree

export Parser (parse)

end Source
end CompletionPrompt

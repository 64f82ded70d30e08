import CompletionPrompt.Proofs.Source.Places
import CompletionPrompt.Source.Grammar
import CompletionPrompt.Source.Literal

/-!
# What is asked of a parser

What is said of import statements and of targets holds with every parser that keeps some laws. Each is
a law of its own, so that it is seen what a result rests on.

* `LawfulParser`: nodes stand in their source, children inside their parent and one behind another
  (`Tree.StandsIn`). A definition starts with the first node below it. An import statement takes room,
  and no other stands in it.
* `GrammaticalParser`: a tree without errors keeps the rules of the grammar (`Tree.Grammatical`).
* `ForwardParser`: a source is read from its start to its end. What is read of an import statement is
  settled once what follows it is read, and so is the keyword `import`. Line feeds in front of a
  source move its nodes down.
-/

namespace CompletionPrompt
namespace Source

/-! ### One row further down -/

/-- A place behind one more row. -/
def Place.down (p : Place) : Place :=
  ⟨p.offset + 1, p.row + 1, p.column⟩

/-- What a node says of itself, behind one more row. -/
def Label.down (l : Label) : Label :=
  { l with start := l.start.down, stop := l.stop.down }

namespace Tree

mutual

/-- A tree behind one more row. -/
def down : Tree → Tree
  | .node label children => .node label.down (downAll children)

/-- Trees behind one more row. -/
def downAll : List Tree → List Tree
  | [] => []
  | t :: ts => t.down :: downAll ts

end

/-- A node of a tree starts or stops at an offset. -/
def HasEdge (t : Tree) (offset : Nat) : Prop :=
  ∃ n ∈ t.nodes, n.start.offset = offset ∨ n.stop.offset = offset

end Tree

/-! ### Laws -/

section
variable [Parser]

/-- Nodes stand in their source, and a definition starts with the first node below it. An import
statement takes room, and no other stands in it. -/
class LawfulParser : Prop where
  standsIn {text : List Char} {n : Tree} : n ∈ (parse text).nodes → n.StandsIn text
  definition_first {text : List Char} {n : Tree} : n ∈ (parse text).nodes →
    n.isFunction = true ∨ n.isDecorated = true → ∀ c ∈ n.children.head?, c.start = n.start
  import_room {text : List Char} {n : Tree} : n ∈ (parse text).nodes → n.isImport = true →
    n.start.offset < n.stop.offset
  import_apart {text : List Char} {n : Tree} : n ∈ (parse text).nodes → n.isImport = true →
    ∀ m ∈ Tree.nodesOfAll n.children, m.isImport = false

/-- A tree without errors keeps the rules of the grammar. -/
class GrammaticalParser : Prop where
  grammatical {text : List Char} : (parse text).ErrorFree → (parse text).Grammatical text

/-- A source is read from its start to its end: what is read of an import statement or of the keyword
`import` does not depend on what stands behind the token that follows. -/
class ForwardParser : Prop where
  import_settled {u v : List Char} (hwhole : (parse (u ++ v)).ErrorFree) (hu : (parse u).ErrorFree)
    (hedge : (parse (u ++ v)).HasEdge u.length) {n k : Tree} (hn : n ∈ (parse (u ++ v)).nodes)
    (himport : n.isImport = true) (hk : k ∈ (parse (u ++ v)).tokens)
    (hbehind : n.stop.offset ≤ k.start.offset) (hroom : k.start.offset < k.stop.offset)
    (hread : k.stop.offset ≤ u.length) : n ∈ (parse u).nodes
  word_settled {u v : List Char} (hwhole : (parse (u ++ v)).ErrorFree) (hu : (parse u).ErrorFree)
    (hedge : (parse (u ++ v)).HasEdge u.length) {n k : Tree} (hn : n ∈ (parse u).tokens)
    (hword : n.isImportWord = true) (hk : k ∈ (parse u).tokens)
    (hbehind : n.stop.offset ≤ k.start.offset) (hroom : k.start.offset < k.stop.offset) :
    n ∈ (parse (u ++ v)).tokens
  feed_settled {s : List Char} (hs : (parse ('\n' :: s)).ErrorFree) :
    parse ('\n' :: s) = (parse s).down

end

end Source
end CompletionPrompt

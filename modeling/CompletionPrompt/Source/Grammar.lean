import CompletionPrompt.Source.Tree
import CompletionPrompt.Text.Blank

/-!
# Rules of the grammar

The grammar of the language has it where import statements may stand in a source without errors, and
what they are written with. These are the rules of it that the places of import statements and of
functions depend on.

* An import statement starts with a keyword. It ends with a name, a comma, a closing bracket or an
  asterisk. No statement stands inside it.
* The keyword `import` stands in import statements alone, with something behind it.
* Statements stand in the bodies of functions, and not in their names, parameters or annotations; they
  do not stand in expressions or keywords.
* A decorated definition starts a row, with decorators in front of what is decorated.
-/

namespace CompletionPrompt
namespace Source
namespace Tree

/-- Is there an import statement in a tree? -/
def holdsImport (t : Tree) : Bool :=
  t.nodes.any isImport

/-- Is a node the keyword `import`? -/
def isImportWord (t : Tree) : Bool :=
  !t.label.named && t.label.kind = "import"

/-- Is a node the definition of a function? -/
def isFunction (t : Tree) : Bool :=
  t.label.kind = "function_definition"

/-- Is a node something with decorators? -/
def isDecorated (t : Tree) : Bool :=
  t.label.kind = "decorated_definition"

/-- The texts that import statements start with. -/
def keywordTexts : List (List Char) :=
  ["import".toList, "from".toList]

/-- The texts that import statements end with, other than names. -/
def closingTexts : List (List Char) :=
  [[','], [')'], ['*']]

/-- The rules of the grammar for what import statements start and end with. -/
structure KeepsEdgeRules (text : List Char) (t : Tree) : Prop where
  import_first : ∀ n ∈ t.nodes, n.isImport = true →
    ∃ k ∈ n.children.head?, k.start = n.start ∧ k.textIn text ∈ keywordTexts
  import_last : ∀ n ∈ t.nodes, n.isImport = true →
    ∃ k ∈ n.tokens.getLast?, k.stop = n.stop ∧
      (k.label.kind = "identifier" ∨ k.textIn text ∈ closingTexts)
  identifier : ∀ n ∈ t.nodes, n.label.kind = "identifier" →
    n.textIn text ≠ [] ∧ (n.textIn text).any Text.isBlank = false

/-- The rules of the grammar for what stands in import statements. -/
structure KeepsImportRules (t : Tree) : Prop where
  import_below : ∀ n ∈ t.nodes, n.isImport = true → ∀ m ∈ nodesOfAll n.children,
    m.isFunction = false ∧ m.label.kind ≠ "expression_statement"
  import_word : ∀ n ∈ t.nodes, n.isImport = true →
    ∃ k ∈ n.tokens.dropLast, k.isImportWord = true
  word_import : ∀ k ∈ t.tokens, k.isImportWord = true →
    ∃ n ∈ t.nodes, n.isImport = true ∧ ∃ m ∈ n.tokens, m.label = k.label

/-- The rules of the grammar for functions and what stands in them. -/
structure KeepsFunctionRules (t : Tree) : Prop where
  function_first : ∀ n ∈ t.nodes, n.isFunction = true →
    ∃ k ∈ n.children.head?, k.label.field ≠ some "body" ∧ k.isToken = true ∧
      k.start.offset < k.stop.offset
  function_import : ∀ n ∈ t.nodes, n.isFunction = true →
    ∀ c ∈ n.children, c.label.field ≠ some "body" → c.holdsImport = false
  expression_import : ∀ n ∈ t.nodes, n.label.kind = "expression_statement" →
    n.holdsImport = false
  unnamed_import : ∀ n ∈ t.nodes, n.label.named = false → n.holdsImport = false

/-- The rules of the grammar for decorators. -/
structure KeepsDecoratorRules (t : Tree) : Prop where
  decorated_import : ∀ n ∈ t.nodes, n.isDecorated = true →
    ∀ c ∈ n.children.dropLast, c.holdsImport = false
  decorated_row : ∀ n ∈ t.nodes, n.isDecorated = true → ∀ m ∈ t.nodes, m.isImport = true →
    m.stop.offset ≤ n.start.offset → m.stop.row < n.start.row

/-- A tree that keeps the rules of the grammar. -/
structure Grammatical (text : List Char) (t : Tree) : Prop extends
  KeepsEdgeRules text t, KeepsImportRules t, KeepsFunctionRules t, KeepsDecoratorRules t

instance (text : List Char) (t : Tree) : Decidable (t.KeepsEdgeRules text) :=
  decidable_of_iff (_ ∧ _ ∧ _) ⟨fun ⟨a, b, c⟩ => ⟨a, b, c⟩, fun ⟨a, b, c⟩ => ⟨a, b, c⟩⟩

instance (t : Tree) : Decidable t.KeepsImportRules :=
  decidable_of_iff (_ ∧ _ ∧ _) ⟨fun ⟨a, b, c⟩ => ⟨a, b, c⟩, fun ⟨a, b, c⟩ => ⟨a, b, c⟩⟩

instance (t : Tree) : Decidable t.KeepsFunctionRules :=
  decidable_of_iff (_ ∧ _ ∧ _ ∧ _)
    ⟨fun ⟨a, b, c, d⟩ => ⟨a, b, c, d⟩, fun ⟨a, b, c, d⟩ => ⟨a, b, c, d⟩⟩

instance (t : Tree) : Decidable t.KeepsDecoratorRules :=
  decidable_of_iff (_ ∧ _) ⟨fun ⟨a, b⟩ => ⟨a, b⟩, fun ⟨a, b⟩ => ⟨a, b⟩⟩

instance (text : List Char) (t : Tree) : Decidable (t.Grammatical text) :=
  decidable_of_iff
    (t.KeepsEdgeRules text ∧ t.KeepsImportRules ∧ t.KeepsFunctionRules ∧ t.KeepsDecoratorRules)
    ⟨fun ⟨a, b, c, d⟩ => ⟨a, b, c, d⟩, fun ⟨a, b, c, d⟩ => ⟨a, b, c, d⟩⟩

end Tree
end Source
end CompletionPrompt

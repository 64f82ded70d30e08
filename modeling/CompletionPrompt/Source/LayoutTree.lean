import CompletionPrompt.Source.Grammar
import CompletionPrompt.Source.Statement

/-!
# The syntax tree of a layout

A parser for the part of the language that import statements and functions are found by. The source is
laid out as statements and comments (`Source.nodes`), and these are put together from the last to the
first: what stands deeper behind the header of a compound statement becomes its body, and a decorator
takes what it decorates. Every piece that a statement is written with is a token.

A tree that breaks a rule of the grammar gets an error at its end.
-/

namespace CompletionPrompt
namespace Source

/-- The words that name nothing. -/
def keywords : List String :=
  ["and", "as", "assert", "async", "await", "break", "class", "continue", "def", "del", "elif",
   "else", "except", "finally", "for", "from", "global", "if", "import", "in", "is", "lambda",
   "nonlocal", "not", "or", "pass", "raise", "return", "try", "while", "with", "yield"]

/-- The kind of a token, and whether the grammar names it. -/
def Piece.treeKind (p : Piece) : String × Bool :=
  let text := String.ofList p.text
  match p.kind with
  | .word => if keywords.contains text then (text, false) else ("identifier", true)
  | .number => ("integer", true)
  | .literal => ("string", true)
  | .comment => ("comment", true)
  | _ => (text, false)

/-- Is the piece a mark that the language does not have? -/
def Piece.isStray (p : Piece) : Bool :=
  p.isMark "\\" || p.isMark "$" || p.isMark "?"

/-- A piece as a token. -/
def Piece.token (p : Piece) (field : Option String) : Tree :=
  .node
    { kind := p.treeKind.1, named := p.treeKind.2, field, start := p.start, stop := p.stop
      isError := p.isStray } []

namespace Statement

/-- Is a statement one literal, alone or in front of a comma? -/
def isLiteral (s : Statement) : Bool :=
  match s.tokens with
  | [t] => t.kind = .literal
  | t :: u :: _ => t.kind = .literal && u.isMark ","
  | [] => false

/-- Where the name of a function stands among the tokens of its definition. -/
def nameIndex? (s : Statement) : Option Nat :=
  match s.tokens with
  | d :: n :: others =>
    if d.isWord "def" then (if n.kind = .word then some 1 else none)
    else if d.isWord "async" && n.isWord "def" && others.head?.any (·.kind = .word) then some 2
    else none
  | _ => none

/-- The tokens of a statement, the name of a function with its field. -/
def leaves (s : Statement) : List Tree :=
  s.tokens.mapIdx fun i p => p.token (if s.nameIndex? = some i then some "name" else none)

/-- Does a statement import something? -/
def isImport (s : Statement) : Bool :=
  (s.tokens.head?.map (·.isOneOf ["import", "from"])).getD false

/-- The kind of a statement. -/
def treeKind (s : Statement) : String :=
  let first := s.tokens.headD default
  let second := (s.tokens.drop 1).headD default
  if first.isWord "import" then "import_statement"
  else if first.isWord "from" then
    if second.isWord "__future__" then "future_import_statement" else "import_from_statement"
  else if s.nameIndex?.isSome then "function_definition"
  else if first.isWord "class" then "class_definition"
  else if first.isMark "@" then "decorator"
  else if s.isLiteral then "expression_statement"
  else "statement"

end Statement

namespace Tree

/-- Nodes put together: they start where the first of them starts, and stop where the last stops. -/
def group (kind : String) (field : Option String) (children : List Tree) : Tree :=
  .node
    { kind, named := true, field, start := (children.head?.map Tree.start).getD .start
      stop := (children.getLast?.map Tree.stop).getD .start, isError := false } children

/-- Is a node a comment? -/
def isComment (t : Tree) : Bool :=
  t.label.kind = "comment"

/-- What stands in a suite: comments in front, and the block behind them. -/
def suite (ts : List Tree) : List Tree :=
  let block := ts.dropWhile isComment
  ts.takeWhile isComment ++ if block.isEmpty then [] else [group "block" (some "body") block]

/-- What a decorator in front of a node is joined with: a definition, or the parts of what is
decorated already. -/
def decoratedParts? (t : Tree) : Option (List Tree) :=
  if t.isDecorated && !t.isToken then some t.children
  else if t.isFunction || t.label.kind = "class_definition" then some [t]
  else none

end Tree

/-- A statement or comment in front of what the nodes behind it were put together to, each with the
depth that it stands at. -/
def Node.putBefore (n : Node) (rest : List (Nat × Tree)) : List (Nat × Tree) :=
  match n with
  | .comment depth p => (depth, p.token none) :: rest
  | .statement s =>
    let node (children : List Tree) := (s.depth, Tree.group s.treeKind none children)
    if s.isImport then node s.leaves :: rest
    else if s.treeKind = "decorator" then
      let behind := rest.dropWhile fun x => x.2.isComment
      match behind.head?.bind fun x => x.2.decoratedParts? with
      | some parts =>
        let comments := (rest.takeWhile fun x => x.2.isComment).map (·.2)
        let all := Tree.group s.treeKind none s.leaves :: comments ++ parts
        (s.depth, Tree.group "decorated_definition" none all) :: behind.drop 1
      | none => node s.leaves :: rest
    else
      let deeper := (rest.takeWhile fun x => s.depth < x.1).map (·.2)
      node (s.leaves ++ Tree.suite deeper) :: rest.dropWhile fun x => s.depth < x.1

/-- The nodes right below the module. -/
def layoutTrees (text : List Char) : List Tree :=
  ((nodes text).foldr Node.putBefore []).map (·.2)

/-- Nodes put together to the module of a source. -/
def moduleOf (text : List Char) (children : List Tree) : Tree :=
  let stop := Place.start.after text
  .node
    { kind := "module", named := true, field := none, isError := false, stop
      start := (children.head?.map Tree.start).getD stop } children

/-- An error at the end of a source. -/
def errorAtEnd (text : List Char) : Tree :=
  let stop := Place.start.after text
  .node { kind := "ERROR", named := true, field := none, isError := true, start := stop, stop } []

/-- The parser that reads the layout of a source. -/
instance layoutParser : Parser where
  parse text :=
    let children := layoutTrees text
    if (moduleOf text children).Grammatical text then moduleOf text children
    else moduleOf text (children ++ [errorAtEnd text])

end Source
end CompletionPrompt

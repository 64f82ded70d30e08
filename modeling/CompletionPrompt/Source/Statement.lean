import CompletionPrompt.Source.Lexeme

/-!
# Statements of a Python source

A source is laid out as statements and comments in source order. A compound statement is cut at
the colon that ends its header: the header is a statement, and so is each statement of its suite,
with a depth one greater. Depth zero is the level of the file itself.

* A suite on the row of its header lies one level deeper than the header.
* A suite on rows of its own opens when the first row after the header is indented deeper than
  the block around it, and closes before the first row that is indented less than it. A row that is
  indented deeper without a header before it stays in the block it is in.
* A tab counts eight columns of indentation; a carriage return or form feed starts counting again.
* A row end does not end a statement between brackets, after a continuation, or where the statement
  cannot be complete yet.
* A comment on a row of its own closes a block only when both it and the next row with code are
  indented less than the block.
-/

namespace CompletionPrompt
namespace Source

/-- A statement, or the header of a compound statement up to its colon: its depth and what it is
written with, comments and blanks between brackets left out. -/
structure Statement where
  depth : Nat
  tokens : List Piece
deriving Repr

/-- What a source is laid out as. -/
inductive Node where
  | statement (s : Statement)
  | comment (depth : Nat) (p : Piece)
deriving Repr

/-- An open block: its indentation, and whether it holds the cases of a `match`. -/
structure Block where
  indent : Nat
  cases : Bool
deriving DecidableEq, Repr

/-- What stands before the current piece on its row. -/
inductive RowState where
  /-- Nothing but blanks. -/
  | fresh
  /-- A statement that has ended, so that another may follow. -/
  | between
  /-- The header of a compound statement, whose suite is expected. -/
  | afterHeader (cases : Bool)
deriving DecidableEq, Repr

/-- Where the layout stands. -/
structure Layout where
  /-- The blocks that are open, innermost first. -/
  blocks : List Block
  /-- The indentation of the current row so far. -/
  indent : Nat
  row : RowState
  /-- Does the row's code belong to a suite that started on it? -/
  inSuite : Bool
  /-- The kind of block that may open on the next row with code. -/
  expected : Option Bool
  /-- The number of brackets that are open. -/
  brackets : Nat
  /-- The number of `lambda`s outside brackets that still lack their colon. -/
  lambdas : Nat
  /-- The pieces of the statement that is being read, last first. -/
  tokens : List Piece

namespace Layout

/-- The layout before a source. -/
def initial : Layout := ⟨[], 0, .fresh, false, none, 0, 0, []⟩

/-- The indentation of the innermost block. -/
def blockIndent (l : Layout) : Nat :=
  (l.blocks.head?.map (·.indent)).getD 0

/-- The depth of what stands next. -/
def depth (l : Layout) : Nat :=
  l.blocks.length + if l.inSuite then 1 else 0

/-- The indentation after blank characters. -/
def indentAfter (indent : Nat) (s : List Char) : Nat :=
  s.foldl (fun n c =>
    if c = ' ' then n + 1 else if c = '\t' then n + 8
    else if c = '\r' || c.toNat = 0x0C then 0 else n) indent

/-- The indentation of the next row with code, zero when there is none. -/
def nextIndent : Nat → List Piece → Nat
  | _, [] => 0
  | n, p :: ps =>
    match p.kind with
    | .blank => nextIndent (indentAfter n p.text) ps
    | .rowEnd => nextIndent 0 ps
    | .comment => nextIndent 0 ps
    | .continuation => nextIndent n ps
    | _ => n

/-- The words that start the header of a compound statement. -/
def headerWords : List String :=
  ["if", "elif", "else", "while", "for", "try", "except", "finally", "with", "def", "class"]

/-- Do some tokens start the header of a compound statement, other than one that starts with a name? -/
def startsHeader : List Piece → Bool
  | first :: others =>
    first.isOneOf headerWords ||
      first.isWord "async" && (others.headD default).isOneOf ["def", "for", "with"]
  | [] => false

/-- Does nothing but blanks and a comment follow on the row? -/
def endsRow : List Piece → Bool
  | [] => true
  | p :: ps =>
    match p.kind with
    | .blank => endsRow ps
    | .rowEnd | .comment => true
    | _ => false

/-- Does the innermost block hold the cases of a `match`? -/
def inCases (l : Layout) : Bool :=
  (l.blocks.head?.map (·.cases)).getD false

/-- The kind of suite that a colon after the tokens of a statement opens, `true` for the cases of a
`match`; nothing when the colon does not end a header. -/
def suite? (l : Layout) (rest : List Piece) : Option Bool :=
  match l.tokens.reverse with
  | [] => none
  | first :: others =>
    if startsHeader (first :: others) then some false
    else if first.isWord "match" && !others.isEmpty && endsRow rest then some true
    else if first.isWord "case" && l.inCases && !others.isEmpty then some false
    else none

/-- The words after which a statement goes on. -/
def openWords : List String :=
  ["import", "from", "as", "and", "or", "not", "in", "is", "lambda", "del", "assert", "global",
   "nonlocal", "def", "class", "if", "elif", "while", "for", "with", "except"]

/-- The characters that, at the end of a mark, call for something after it. -/
def openMarks : List Char :=
  "=+-/%&|^~<>@.!*".toList

/-- Can the statement that is being read end here, short of a colon that ends a header? -/
def canEnd (l : Layout) : Bool :=
  let fromImport := (l.tokens.getLast?.map (·.isWord "from")).getD false
  match l.tokens with
  | [] => true
  | last :: _ =>
    if startsHeader l.tokens.reverse then false
    else if fromImport && !l.tokens.any (·.isWord "import") then false
    else
      match last.kind with
      | .word => !last.isOneOf openWords
      | .mark =>
        if last.text = ['.', '.', '.'] then true
        else if fromImport && last.text = ['*'] then true
        else !(last.text.getLast?.map openMarks.contains).getD false
      | _ => true

/-- The statement that is being read, ended. -/
def close (l : Layout) : List Node × Layout :=
  if l.tokens.isEmpty then ([], l)
  else
    ([.statement ⟨l.depth, l.tokens.reverse⟩],
      { l with tokens := [], lambdas := 0, row := .between })

/-- The blocks that stay open before code at an indentation. -/
def leave (indent : Nat) (blocks : List Block) : List Block :=
  blocks.dropWhile fun b => indent < b.indent

/-- Opens and closes blocks in front of the first code of a row. -/
def enterRow (l : Layout) : Layout :=
  match l.row with
  | .fresh =>
    match l.expected with
    | some cases =>
      if l.blockIndent < l.indent then
        { l with blocks := ⟨l.indent, cases⟩ :: l.blocks, expected := none, row := .between }
      else
        { l with blocks := leave l.indent l.blocks, expected := none, row := .between }
    | none => { l with blocks := leave l.indent l.blocks, row := .between }
  | _ => { l with row := .between }

/-- A row end. -/
def takeRowEnd (l : Layout) : List Node × Layout :=
  if 0 < l.brackets || !l.canEnd then ([], l)
  else
    let (nodes, l) := l.close
    let expected := match l.row with
      | .afterHeader cases => some cases
      | .fresh => l.expected
      | .between => none
    (nodes, { l with indent := 0, row := .fresh, inSuite := false, expected })

/-- A comment, in front of the rest of the source. -/
def takeComment (l : Layout) (p : Piece) (rest : List Piece) : List Node × Layout :=
  if 0 < l.brackets || !l.canEnd then ([], l)
  else if !l.tokens.isEmpty then
    let (nodes, l) := l.close
    (nodes ++ [.comment l.depth p], l)
  else
    match l.row with
    | .fresh =>
      let ahead := nextIndent 0 rest
      if l.expected.isSome && l.blockIndent < ahead then
        ([.comment (l.depth + 1) p], l)
      else
        let blocks := l.blocks.dropWhile fun b => ahead < b.indent && l.indent < b.indent
        let l := { l with blocks, expected := none }
        ([.comment l.depth p], l)
    | _ => ([.comment l.depth p], l)

/-- The number of open brackets after a piece. -/
def bracketsAfter (brackets : Nat) (p : Piece) : Nat :=
  if p.isMark "(" || p.isMark "[" || p.isMark "\x7b" then brackets + 1
  else if p.isMark ")" || p.isMark "]" || p.isMark "\x7d" then brackets - 1
  else brackets

/-- A piece of code, in front of the rest of the source. -/
def takeCode (l : Layout) (p : Piece) (rest : List Piece) : List Node × Layout :=
  let l := if l.tokens.isEmpty then l.enterRow else l
  if l.brackets = 0 && p.isMark ";" then l.close
  else
    let l := { l with tokens := p :: l.tokens, brackets := bracketsAfter l.brackets p }
    if 0 < l.brackets then ([], l)
    else if p.isWord "lambda" then ([], { l with lambdas := l.lambdas + 1 })
    else if p.isMark ":" then
      if 0 < l.lambdas then ([], { l with lambdas := l.lambdas - 1 })
      else
        match { l with tokens := l.tokens.drop 1 }.suite? rest with
        | none => ([], l)
        | some cases =>
          let (nodes, l) := l.close
          (nodes, { l with row := .afterHeader cases, inSuite := true })
    else ([], l)

/-- A piece, in front of the rest of the source. -/
def take (l : Layout) (p : Piece) (rest : List Piece) : List Node × Layout :=
  match p.kind with
  | .blank =>
    match l.row with
    | .fresh => ([], { l with indent := indentAfter l.indent p.text })
    | _ => ([], l)
  | .rowEnd => l.takeRowEnd
  | .continuation => ([], l)
  | .comment => l.takeComment p rest
  | _ => l.takeCode p rest

/-- The nodes of the rest of a source. -/
def nodesFrom : Layout → List Piece → List Node
  | l, [] => l.close.1
  | l, p :: ps =>
    let (nodes, l) := l.take p ps
    nodes ++ nodesFrom l ps

end Layout

/-- The statements and comments of a source, in source order. -/
def nodes (s : List Char) : List Node :=
  Layout.nodesFrom .initial (pieces s)

end Source
end CompletionPrompt

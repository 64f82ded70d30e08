import CompletionPrompt.Import
import CompletionPrompt.Text.Blank
import CompletionPrompt.Text.Search

/-!
# Reading an import statement

What a statement imports is found by search in its text, without regard to words or tokens: each
part is the first place where its pattern stands.

* The module of a `from` statement stands between `from` and `import`, with blanks around it; the
  module of any other statement stands after `import` and blanks. Dots in front of it are left
  out, but the last character stays.
* The bound name stands after `as` with blanks around it, and else is the module.
* The listed names are what stands between commas after ` import` and blanks: of each the first
  word, without brackets and backslashes around it.
-/

namespace CompletionPrompt
namespace Import

/-- The first result that a text gives from one of its places on, leftmost place first. -/
def search {α : Type} (f : List Char → Option α) : List Char → Option α
  | [] => f []
  | c :: cs =>
    match f (c :: cs) with
    | some a => some a
    | none => search f cs

/-- What follows a word at the start of a text. -/
def after? (word : String) (s : List Char) : Option (List Char) :=
  if word.toList.isPrefixOf s then some (s.drop word.length) else none

/-- What follows one or more blanks at the start of a text. -/
def afterBlanks? (s : List Char) : Option (List Char) :=
  match s with
  | c :: cs => if Text.isBlank c then some (cs.dropWhile Text.isBlank) else none
  | [] => none

/-- What follows a single blank at the start of a text. -/
def afterBlank? (s : List Char) : Option (List Char) :=
  match s with
  | c :: cs => if Text.isBlank c then some cs else none
  | [] => none

/-- One or more characters of a class at the start of a text, and what follows them. -/
def run? (p : Char → Bool) (s : List Char) : Option (List Char × List Char) :=
  let (run, rest) := s.span p
  if run.isEmpty then none else some (run, rest)

/-- A character of a dotted path: neither blank nor comma. -/
def isPathChar (c : Char) : Bool :=
  !Text.isBlank c && c != ','

/-- A character of a bound name: neither blank, comma nor bracket. -/
def isNameChar (c : Char) : Bool :=
  !Text.isBlank c && c != ',' && c != '(' && c != ')'

/-- A path without the dots in front of it; a path of dots alone keeps the last. -/
def dropDots : List Char → List Char
  | '.' :: c :: cs => dropDots (c :: cs)
  | s => s

/-- The module of a `from` at the start of a text. -/
def fromModuleHere? (s : List Char) : Option (List Char) := do
  let s ← after? "from" s
  let s ← afterBlanks? s
  let (path, s) ← run? isPathChar s
  let s ← afterBlanks? s
  let _ ← after? "import" s
  return dropDots path

/-- The module of an `import` at the start of a text. -/
def importModuleHere? (s : List Char) : Option (List Char) := do
  let s ← after? "import" s
  let s ← afterBlanks? s
  let (path, _) ← run? isPathChar s
  return dropDots path

/-- The name of an `as` at the start of a text, with a blank before it. -/
def asNameHere? (s : List Char) : Option (List Char) := do
  let s ← afterBlank? s
  let s ← after? "as" s
  let s ← afterBlanks? s
  let (name, _) ← run? isNameChar s
  return name

/-- The list of names after an `import` at the start of a text, with a blank before it. -/
def namesHere? (s : List Char) : Option (List Char) := do
  let s ← afterBlank? s
  let s ← after? "import" s
  afterBlanks? s

/-- What may stand around a listed name: blanks, brackets and backslashes. -/
def isNameMargin (c : Char) : Bool :=
  Text.isBlank c || c = '(' || c = ')' || c = '\\'

/-- The name of an item of a list, empty when it has none. -/
def itemName (item : List Char) : List Char :=
  Text.firstWord (Text.trimBoth isNameMargin item)

/-- The names of a list; an item without a name and an item that starts with a comment are left
out. -/
def listedNames (list : List Char) : List (List Char) :=
  ((list.splitOn ',').map itemName).filter fun name => !name.isEmpty && name.head? != some '#'

/-- The module of a statement and the names it lists. -/
def moduleAndNames? (s : List Char) : Option (List Char × List (List Char)) :=
  match search fromModuleHere? s with
  | some module => some (module, ((search namesHere? s).map listedNames).getD [])
  | none => (search importModuleHere? s).map (·, [])

/-- The import of a statement, unless the text holds none. -/
def parse? (statement : String) (span : Span) : Option Import :=
  let s := statement.toList
  (moduleAndNames? s).map fun (module, names) =>
    let asName := (search asNameHere? s).getD module
    { unresolved (String.ofList module) (String.ofList asName) statement span with
      imported := names.map String.ofList }

end Import
end CompletionPrompt

import CompletionPrompt.Import.Statement
import CompletionPrompt.Text.Rows

/-!
# Declared names

The functions and classes that a source declares at the start of its rows, found by search in its
text. A function is `def`, blanks, a name, blanks and an opening bracket, where blanks may be
missing and may go over row ends; a class is `class`, blanks and a name on one row. A name is made
of ASCII letters, digits and underscores. A class on the last row is not counted, nor is a class of
a name that was found before.

The methods of a class are the functions that follow it after exactly one level of indentation,
as long as rows are blank, indented, or comments at the start of the row.
-/

namespace CompletionPrompt

/-- What a source declares. -/
structure Declarations where
  functions : List String
  /-- Classes with their methods. -/
  classes : List (String × List String)
deriving DecidableEq, Repr

namespace Declarations

/-- A character of a declared name. -/
def isNameChar (c : Char) : Bool :=
  c.isAlphanum || c = '_'

/-- The name that a word at the start of a text declares, with what follows the name. -/
def nameAfter? (word : String) (s : List Char) : Option (List Char × List Char) :=
  (Import.after? word s).bind fun s => Import.run? isNameChar (s.dropWhile Text.isBlank)

/-- The function declared at the start of a text, with what follows its opening bracket. -/
def functionHere? (s : List Char) : Option (List Char × List Char) :=
  match nameAfter? "def" s with
  | none => none
  | some (name, rest) =>
    match rest.dropWhile Text.isBlank with
    | '(' :: rest => some (name, rest)
    | _ => none

/-- The functions declared at the start of rows in a text, after `skip` characters of it; `fresh`
says whether it starts a row. -/
def functionsFrom : Nat → Bool → List Char → List (List Char)
  | _, _, [] => []
  | skip + 1, _, c :: cs => functionsFrom skip (c = '\n') cs
  | 0, fresh, c :: cs =>
    match if fresh then functionHere? (c :: cs) else none with
    | some (name, rest) => name :: functionsFrom (cs.length - rest.length) false cs
    | none => functionsFrom 0 (c = '\n') cs

/-- The methods of a class in the rows after it. -/
def methodsIn (indentation : List Char) (includePrivate : Bool) (rows : List (List Char)) :
    List (List Char) :=
  let body := rows.takeWhile fun row =>
    Text.allBlank row || indentation.isPrefixOf row || row.head? = some '#'
  let methods := body.filterMap fun row =>
    if indentation.isPrefixOf row then
      (functionHere? (row.drop indentation.length)).map (·.1)
    else none
  methods.filter fun name => includePrivate || name.head? != some '_'

/-- The classes declared in rows, with their methods, in front of those of names in `known`. -/
def classesFrom (indentation : List Char) (includePrivate : Bool) (known : List (List Char)) :
    List (List Char) → List (List Char × List (List Char))
  | [] => []
  | row :: rows =>
    match nameAfter? "class" row with
    | some (name, _) =>
      if rows.isEmpty || known.contains name then
        classesFrom indentation includePrivate known rows
      else
        (name, methodsIn indentation includePrivate rows) ::
          classesFrom indentation includePrivate (name :: known) rows
    | none => classesFrom indentation includePrivate known rows

/-- What a source declares, with methods one level of indentation inside their class. -/
def ofSource (indentation : String) (includePrivate : Bool) (source : String) : Declarations where
  functions := (functionsFrom 0 true source.toList).map String.ofList
  classes :=
    (classesFrom indentation.toList includePrivate [] (Text.rows source.toList)).map
      fun (name, methods) => (String.ofList name, methods.map String.ofList)

/-- The comment rows that tell what a module of a name declares. -/
def comments (asName : String) (d : Declarations) : List String :=
  let functions :=
    if d.functions.isEmpty then []
    else
      ["# module " ++ asName ++ " declares the following functions: " ++
        ", ".intercalate d.functions]
  let classes := d.classes.map fun (name, methods) =>
    "# module " ++ asName ++ " declares the class " ++ name ++
      if methods.isEmpty then ""
      else ", which contains the following functions: " ++ ", ".intercalate methods
  functions ++ classes

/-- An import's statement, followed by comments on what its file declares. -/
def describeImport (indentation : String) (includePrivate : Bool) (i : Import) : String :=
  let d := ofSource indentation includePrivate i.source
  "\n".intercalate (i.statement :: d.comments i.asName)

end Declarations
end CompletionPrompt

import CompletionPrompt.Json.Record

/-!
# Strategies

How local imports show in a prompt. A strategy has a name, by which it is chosen, and a written
form, by which it is stored.
-/

namespace CompletionPrompt

/-- What an import that is replaced in place is described by. -/
inductive ReplacementPolicy where
  /-- By the names that the text of the imported file declares. -/
  | declaredNames
  /-- By what executing the statement binds. -/
  | importAnalysis
deriving DecidableEq, Repr

/-- How local imports show in a prompt. -/
inductive Strategy where
  /-- The source as it is; the rows of top-level imports are kept when it is cut. -/
  | keepImports
  /-- The imported files in front of the source without its imports. -/
  | paste
  /-- The imported files as comments in front of the source without its imports. -/
  | pasteAsComment
  /-- Each imported file in a class, in front of the source without its imports. -/
  | classes
  /-- Each import statement replaced in its place. -/
  | replaceOneByOne (policy : ReplacementPolicy)
deriving DecidableEq, Repr

namespace ReplacementPolicy

/-- The word that a policy is written as. -/
def word : ReplacementPolicy → String
  | .declaredNames => "declared_names"
  | .importAnalysis => "import_analysis"

/-- The two policies. -/
def all : List ReplacementPolicy :=
  [.declaredNames, .importAnalysis]

/-- The policy of a written form: its word, or its word with null. -/
def ofJson? : Json.Value → Option ReplacementPolicy
  | .string w => all.find? (·.word == w)
  | .object [(w, .null)] => all.find? (·.word == w)
  | _ => none

end ReplacementPolicy

namespace Strategy

/-- The strategies, in the order in which they are listed. -/
def all : List Strategy :=
  [.keepImports, .paste, .pasteAsComment, .classes, .replaceOneByOne .declaredNames,
   .replaceOneByOne .importAnalysis]

/-- The name that a strategy is chosen by. -/
def name : Strategy → String
  | .keepImports => "keep-imports"
  | .paste => "paste"
  | .pasteAsComment => "paste-as-comment"
  | .classes => "classes"
  | .replaceOneByOne .declaredNames => "declared-names"
  | .replaceOneByOne .importAnalysis => "import-analysis"

/-- The strategy of a name. -/
def ofName? (s : String) : Option Strategy :=
  all.find? (·.name == s)

/-- The message about a name that no strategy has. -/
def unknownMessage (s : String) : String :=
  "unknown strategy '" ++ s ++ "', expected one of: " ++ ", ".intercalate (all.map name)

/-- A strategy chosen by its name. -/
theorem ofName?_name (s : Strategy) : ofName? s.name = some s := by
  cases s with
  | replaceOneByOne p => cases p <;> decide
  | _ => decide

/-- The strategies that are written as a single word, with that word. -/
def words : List (String × Strategy) :=
  [("keep_module_level_imports", .keepImports), ("paste_verbatim", .paste),
   ("paste_as_comment", .pasteAsComment), ("namespaced_as_classes", .classes)]

/-- The word for replacing in place, which is written with a policy. -/
def replaceWord : String :=
  "replace_one_by_one"

/-- The written form of a strategy. -/
def toJson : Strategy → Json.Value
  | .replaceOneByOne policy => .object [(replaceWord, .string policy.word)]
  | s => .string (((words.find? (·.2 == s)).map (·.1)).getD "")

/-- The strategy of a single word. -/
def ofWord? (w : String) : Option Strategy :=
  (words.find? (·.1 == w)).map (·.2)

/-- The strategy of a written form: a word, a word with null, or the word for replacing with a
policy. -/
def ofJson? : Json.Value → Option Strategy
  | .string w => ofWord? w
  | .object [(w, v)] =>
    if w == replaceWord then (ReplacementPolicy.ofJson? v).map .replaceOneByOne
    else
      match v with
      | .null => ofWord? w
      | _ => none
  | _ => none

end Strategy
end CompletionPrompt

import CompletionPrompt.Budget
import CompletionPrompt.Declarations
import CompletionPrompt.Introspection
import CompletionPrompt.Strategy
import CompletionPrompt.Target

/-!
# Prompts

A prompt is put together from the source of a target and its local imports as a strategy says, and
then cut from the left to a budget of tokens, with the preamble of the configuration in front.

Imports that are replaced in place are taken from the last span to the first, so that the spans of
those still to come keep their coordinates. An import whose statement does not stand at its span is
replaced where its text first occurs.
-/

namespace CompletionPrompt

/-- What prompts are built with: a configuration that can be used and a way to count tokens. -/
structure Builder where
  config : Config
  count : Counter

namespace Builder

/-- The builder of a configuration, which estimates tokens by the configured number of bytes. -/
def ofConfig (c : Config) : Except Failure Builder :=
  match c.problem? with
  | some problem => .error (.invalidConfig problem.message)
  | none => .ok { config := c, count := Counter.bytesPerToken c.bytesPerToken }

/-- A text cut to a budget, with the preamble in front and some rows kept. -/
def truncate (b : Builder) (text : List Char) (keep : List Nat) (limit : Nat) : String :=
  String.ofList <|
    Budget.truncateKeeping b.count (Text.rows text) keep limit b.config.preamble.toList

end Builder

namespace Prompt

/-- The rows of a file put behind a lead each. -/
def withLead (lead : String) (source : String) : List Char :=
  lead.toList ++ ('\n' :: lead.toList).intercalate (Text.rows source.toList)

/-- The text of an imported file as a block of comments. -/
def commentBlock (i : Import) : List Char :=
  "# Content of module ".toList ++ i.asName.toList ++ ['\n'] ++ withLead "# " i.source ++
    ['\n', '\n']

/-- The text of an imported file as the body of a class. -/
def classBlock (indentation : String) (i : Import) : List Char :=
  "class ".toList ++ i.asName.toList ++ [':', '\n'] ++ withLead indentation i.source ++
    ['\n', '\n']

/-- A source without the statements that mention the modules of some imports. -/
def withoutImports [Source.Parser] (source : String) (imports : List Import) : List Char :=
  Import.eraseMentioning (imports.map (·.module)) source.toList

/-- The texts of imported files, and then the source without its imports. -/
def pasted [Source.Parser] (source : String) (imports : List Import) : List Char :=
  let rest := withoutImports source imports
  if imports.isEmpty then rest
  else ['\n', '\n'].intercalate (imports.map (·.source.toList)) ++ ['\n', '\n'] ++ rest

/-- A text with one import replaced: at its span if the statement stands there, and else where the
statement first occurs. -/
def spliceOne (text : List Char) (i : Import) (replacement : List Char) : List Char :=
  if i.span.extract text = i.statement.toList then i.span.replace text replacement
  else Text.replaceFirst i.statement.toList replacement text

/-- Imports from the last span to the first. -/
def bottomUp (imports : List Import) : List Import :=
  (imports.mergeSort fun a b => a.span.le b.span).reverse

/-- A source with imports replaced one after the other, and the replacements so far. -/
def spliceAll {m : Type → Type} [Monad m] (replace : Import → m String) (source : List Char)
    (imports : List Import) : m (List Char × List String) :=
  imports.foldlM (fun (text, done) i => do
    let replacement ← replace i
    return (spliceOne text i replacement.toList, done ++ [replacement])) (source, [])

/-- The rows that the first occurrences of some texts take. -/
def rowsOfAll (text : List Char) (needles : List String) : List Nat :=
  needles.flatMap fun needle =>
    match rowsOf? needle.toList text with
    | some (first, last) => (List.range (last + 1)).drop first
    | none => []

end Prompt

namespace Builder

/-- The prompt in which each import gives way to the text that `replace` has for it. -/
def replaceOneByOne {m : Type → Type} [Monad m] (b : Builder) (replace : Import → m String)
    (source : String) (imports : List Import) (limit : Nat) : m String := do
  let (text, replacements) ←
    Prompt.spliceAll replace source.toList (Prompt.bottomUp imports)
  let keep :=
    if b.config.keepReplacements then Prompt.rowsOfAll text replacements else []
  return b.truncate text keep limit

/-- The text that an import gives way to under a policy, for a target in a file. -/
def replacement (b : Builder) (policy : ReplacementPolicy) (path : Path) (i : Import) :
    Action String :=
  match policy with
  | .declaredNames =>
    return Declarations.describeImport b.config.indentation b.config.includePrivate i
  | .importAnalysis => do
    let path := path.absoluteFrom (← Action.currentDir)
    Introspection.annotate b.config ((path.parent?).getD ⟨"."⟩) i

/-- The prompt for a target, with its imports shown as a strategy says. -/
def build [Source.Parser] (b : Builder) (strategy : Strategy) (t : Target)
    (imports : List Import) (limit : Nat) : Action String :=
  let source := t.source
  match strategy with
  | .keepImports =>
    return b.truncate source.toList (Source.importRows source.toList) limit
  | .paste => return b.truncate (Prompt.pasted source imports) [] limit
  | .pasteAsComment =>
    let blocks := imports.flatMap Prompt.commentBlock
    return b.truncate (blocks ++ Prompt.withoutImports source imports) [] limit
  | .classes =>
    let blocks := imports.flatMap (Prompt.classBlock b.config.indentation)
    return b.truncate (blocks ++ Prompt.withoutImports source imports) [] limit
  | .replaceOneByOne policy =>
    b.replaceOneByOne (b.replacement policy t.path) source imports limit

/-- The prompt for a target, with the imports that are found in its source. -/
def buildFor [Source.Parser] (b : Builder) (strategy : Strategy) (t : Target) (limit : Nat) :
    Action String := do
  let h ← get
  let imports := Import.resolveAll h b.config.sourceExtension t.source t.path
  b.build strategy t imports limit

end Builder
end CompletionPrompt

import CompletionPrompt.Path
import CompletionPrompt.Strategy

/-!
# Arguments

The words of a command line: options that hold for every task, the task, and the task's own options
and file. A long option takes its value after an equals sign or as the next word, which must not
look like an option; flags in short form may share one dash. An option given twice at one level is
an error, and so is anything that is not foreseen; after `--` every word is a file.
-/

namespace CompletionPrompt
namespace CommandLine

/-- What a command line asks for. -/
inductive Task where
  /-- The local imports of a file. -/
  | imports (file : Path) (pretty : Bool)
  /-- What the local imports of a file bind. -/
  | describe (file : Path) (module : Option String) (direct pretty : Bool)
  /-- The prompt for a function of a file. -/
  | prompt (file : Path) (function : String) (strategy : Strategy) (budget : Nat)
deriving DecidableEq, Repr

/-- A command line that was understood. -/
inductive Request where
  | run (config : Option Path) (task : Task)
  | version
  | help
  /-- A command line that was not understood. -/
  | usage
deriving DecidableEq, Repr

/-- The options of one level: flags, and options with a value. -/
structure Spec where
  flags : List String
  values : List String
  /-- Does the level also tell the version? -/
  tellsVersion : Bool
  /-- Does a word end the level? -/
  endsAtWord : Bool

/-- The flags that hold for every task. -/
def globalFlags : List String :=
  ["verbose", "quiet"]

/-- The options with a value that hold for every task. -/
def globalValues : List String :=
  ["config"]

/-- What was read of one level. -/
structure Seen where
  flags : List String
  values : List (String × String)
  words : List String

namespace Seen

/-- Nothing read. -/
def none : Seen := ⟨[], [], []⟩

/-- A flag, unless it was read before. -/
def flag? (s : Seen) (name : String) : Option Seen :=
  if s.flags.contains name then Option.none else some { s with flags := name :: s.flags }

/-- The value of an option, unless the option was read before. -/
def value? (s : Seen) (name value : String) : Option Seen :=
  if s.values.any (·.1 == name) then Option.none
  else some { s with values := (name, value) :: s.values }

/-- The value that was read of an option. -/
def get? (s : Seen) (name : String) : Option String :=
  (s.values.find? (·.1 == name)).map (·.2)

end Seen

/-- What came of reading one level. -/
inductive Level where
  /-- The level was read, up to the remaining words. -/
  | done (seen : Seen) (rest : List String)
  | version
  | help
  | usage

/-- Does a word look like an option? -/
def looksLikeOption (w : String) : Bool :=
  match w.toList with
  | '-' :: _ :: _ => true
  | _ => false

/-- A long option cut into its name and the value after an equals sign. -/
def splitLong (s : List Char) : String × Option String :=
  let (name, rest) := s.span (· != '=')
  (String.ofList name, (rest.tail?).map String.ofList)

/-- Flags in short form that share one dash. -/
def readShorts (spec : Spec) (seen : Seen) : List Char → Level
  | [] => .done seen []
  | c :: cs =>
    if c = 'v' then
      match seen.flag? "verbose" with
      | some seen => readShorts spec seen cs
      | none => .usage
    else if c = 'h' then .help
    else if c = 'V' && spec.tellsVersion then .version
    else .usage

/-- The words of one level. -/
def readLevel (spec : Spec) (seen : Seen) : List String → Level
  | [] => .done seen []
  | w :: ws =>
    match w.toList with
    | ['-', '-'] =>
      if spec.endsAtWord then if ws.isEmpty then .done seen [] else .usage
      else .done { seen with words := seen.words ++ ws } []
    | '-' :: '-' :: long =>
      match splitLong long with
      | (name, none) =>
        if spec.flags.contains name then
          match seen.flag? name with
          | some seen => readLevel spec seen ws
          | none => .usage
        else if spec.values.contains name then
          match ws with
          | [] => .usage
          | value :: ws =>
            if looksLikeOption value then .usage
            else
              match seen.value? name value with
              | some seen => readLevel spec seen ws
              | none => .usage
        else if name = "help" then .help
        else if name = "version" && spec.tellsVersion then .version
        else .usage
      | (name, some value) =>
        if spec.values.contains name then
          match seen.value? name value with
          | some seen => readLevel spec seen ws
          | none => .usage
        else .usage
    | '-' :: c :: cs =>
      match readShorts spec seen (c :: cs) with
      | .done seen _ => readLevel spec seen ws
      | stopped => stopped
    | _ =>
      if spec.endsAtWord then .done seen (w :: ws)
      else readLevel spec { seen with words := seen.words ++ [w] } ws

/-- A path that is not empty. -/
def path? (s : String) : Option Path :=
  if s.isEmpty then none else some ⟨s⟩

/-- A whole number of 64 bits in decimal digits, a plus sign in front allowed. -/
def count? (s : String) : Option Nat :=
  let digits := match s.toList with
    | '+' :: digits => digits
    | digits => digits
  if digits.isEmpty || !digits.all Char.isDigit then none
  else
    let n := digits.foldl (fun n c => 10 * n + (c.toNat - '0'.toNat)) 0
    if n < UInt64.size then some n else none

/-- The tokens that a prompt may have unless something else is said. -/
def defaultBudget : Nat := 2048

/-- The options of a task, by its name. -/
def taskSpec? (name : String) : Option Spec :=
  let spec (flags values : List String) : Spec :=
    { flags := globalFlags ++ flags, values := globalValues ++ values, tellsVersion := false
      endsAtWord := false }
  match name with
  | "imports" => some (spec ["pretty"] [])
  | "describe" => some (spec ["direct", "pretty"] ["module"])
  | "prompt" => some (spec [] ["function", "strategy", "budget"])
  | _ => none

/-- The task of a name with what was read for it. -/
def task? (name : String) (seen : Seen) : Option Task := do
  let file ← match seen.words with
    | [file] => path? file
    | _ => none
  match name with
  | "imports" => return .imports file (seen.flags.contains "pretty")
  | "describe" =>
    return .describe file (seen.get? "module") (seen.flags.contains "direct")
      (seen.flags.contains "pretty")
  | "prompt" =>
    let function ← seen.get? "function"
    let strategy ← match seen.get? "strategy" with
      | some s => Strategy.ofName? s
      | none => some (.replaceOneByOne .declaredNames)
    let budget ← match seen.get? "budget" with
      | some s => count? s
      | none => some defaultBudget
    return .prompt file function strategy budget
  | _ => none

/-- The file of the configuration, where the level of the task goes before the outer one. -/
def configFile? (outer inner : Seen) : Option (Option Path) :=
  let read (s : Seen) : Option (Option Path) :=
    match s.get? "config" with
    | some file => (path? file).map some
    | none => some none
  match read outer, read inner with
  | some outer, some inner => some (inner <|> outer)
  | _, _ => none

/-- What a command line asks for. -/
def Request.ofArguments (args : List String) : Request :=
  let spec : Spec :=
    { flags := globalFlags, values := globalValues, tellsVersion := true, endsAtWord := true }
  match readLevel spec .none args with
  | .version => .version
  | .help => .help
  | .usage => .usage
  | .done _ [] => .usage
  | .done outer (name :: rest) =>
    if name = "help" then .help
    else
      match taskSpec? name with
      | none => .usage
      | some spec =>
        match readLevel spec .none rest with
        | .version => .version
        | .help => .help
        | .usage => .usage
        | .done inner _ =>
          match configFile? outer inner, task? name inner with
          | some config, some task => .run config task
          | _, _ => .usage

end CommandLine
end CompletionPrompt

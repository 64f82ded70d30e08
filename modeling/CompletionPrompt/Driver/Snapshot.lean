import CompletionPrompt.Driver.Program
import CompletionPrompt.Json.Reader
import CompletionPrompt.Text.Rows
import CompletionPrompt.Text.Search

/-!
# The report of a driver run

A successful run prints the namespace on a line that starts with the marker. The statement may have
printed lines of its own, so the last such line counts. An unsuccessful run that prints the
signature of a missing module only says that the module was not found.
-/

namespace CompletionPrompt
namespace Driver

/-- What follows the marker on the last line that starts with it. -/
def snapshotText? (stdout : List Char) : Option (List Char) :=
  ((Text.lines stdout).reverse.find? marker.toList.isPrefixOf).map (·.drop marker.length)

/-- The namespace that a run printed. -/
def snapshot (stdout : String) : Except Failure Namespace :=
  match snapshotText? stdout.toList with
  | none => .error (.protocol "no namespace snapshot in driver output")
  | some text =>
    match (Json.read? text).bind Namespace.ofJson? with
    | some ns => .ok ns
    | none => .error .json

/-- Does the output of an unsuccessful run only say that the module was not found? -/
def saysUnlocatable (output : String) : Bool :=
  Text.occurs unlocatableSignature.toList output.toList

end Driver
end CompletionPrompt

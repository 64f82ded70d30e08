import CompletionPrompt.Driver.Snapshot
import CompletionPrompt.Host
import CompletionPrompt.Text.Octets

/-!
# Running the driver in a process

A Python interpreter runs the driver in a fresh process, in a given directory and without writing
compiled modules. `Driver.interpret` hands the program over on the command line, one process for
each request, in the first of the request's directories.
-/

namespace CompletionPrompt

/-- What a process wrote, its output before its errors. -/
def Response.written (r : Response) : String :=
  Octets.decodeReplacing r.stdout ++ Octets.decodeReplacing r.stderr

namespace Driver

/-- The variables that are set for a run of the driver. -/
def setVariables : List (String × String) :=
  [("PYTHONDONTWRITEBYTECODE", "1")]

/-- Starts the interpreter in a directory and waits for its end. -/
def execute (python : String) (directory : Path) (arguments : List String) : Action Response := do
  let command : Command := { program := python, arguments, directory, setVariables }
  let (answer, h) := (← get).run command
  set h
  match answer with
  | .ok response => return response
  | .error fault => throw (.spawn python fault)

/-- Executes requests in processes of their own. -/
def interpret (python : String) : Interpreter Action := fun request ns => do
  let directory := request.searchDirs.headD ⟨"."⟩
  let response ← execute python directory ["-c", program request]
  if response.ending.isSuccess then
    match snapshot (Octets.decodeReplacing response.stdout) with
    | .ok after => return (.bound, after)
    | .error f => throw f
  else
    if saysUnlocatable response.written then return (.moduleNotFound, ns)
    else throw (.executionFailed request.statement response.written)

end Driver
end CompletionPrompt

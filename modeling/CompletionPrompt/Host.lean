import CompletionPrompt.Host.Files

/-!
# The host of a run

What a run can see and change outside itself: the current directory, the files, the search path for
programs, and the child processes it starts. A child is a program that plays the host's next response
and writes no file; each start is recorded with the files that stood at that moment.

An `Action` is a computation over the host that may fail; what it changed before a failure stays.
-/

namespace CompletionPrompt

/-- How a process ended. -/
inductive Ending where
  | exit (code : Nat)
  | signal (number : Nat)
deriving DecidableEq, Repr

namespace Ending

/-- Did the process end with exit code zero? -/
def isSuccess : Ending → Bool
  | .exit code => code == 0
  | .signal _ => false

/-- The names of the signals that end a process, by number. -/
def signalNames : List (Nat × String) :=
  [(1, "SIGHUP"), (2, "SIGINT"), (3, "SIGQUIT"), (4, "SIGILL"), (5, "SIGTRAP"), (6, "SIGABRT"),
   (7, "SIGBUS"), (8, "SIGFPE"), (9, "SIGKILL"), (10, "SIGUSR1"), (11, "SIGSEGV"),
   (12, "SIGUSR2"), (13, "SIGPIPE"), (14, "SIGALRM"), (15, "SIGTERM"), (16, "SIGSTKFLT"),
   (17, "SIGCHLD"), (18, "SIGCONT"), (19, "SIGSTOP"), (20, "SIGTSTP"), (21, "SIGTTIN"),
   (22, "SIGTTOU"), (23, "SIGURG"), (24, "SIGXCPU"), (25, "SIGXFSZ"), (26, "SIGVTALRM"),
   (27, "SIGPROF"), (28, "SIGWINCH"), (29, "SIGIO"), (30, "SIGPWR"), (31, "SIGSYS")]

/-- The wording of an ending. -/
def status : Ending → String
  | .exit code => "exit status: " ++ toString code
  | .signal number =>
    match signalNames.find? (·.1 == number) with
    | some (_, name) => "signal: " ++ toString number ++ " (" ++ name ++ ")"
    | none => "signal: " ++ toString number

end Ending

/-- What a child process does: it writes two streams and ends. -/
structure Response where
  stdout : List UInt8
  stderr : List UInt8
  ending : Ending
deriving DecidableEq, Repr

/-- A program to start, with its arguments, its directory, and the variables set for it. -/
structure Command where
  program : String
  arguments : List String
  directory : Path
  setVariables : List (String × String)
deriving DecidableEq, Repr

/-- A child process that was started, in which directory, and the files at that moment. -/
structure Call where
  command : Command
  directory : Path
  files : Files
deriving Repr

/-- What a run can see and change outside itself. -/
structure Host where
  currentDir : Path
  files : Files
  /-- What the child process started as the n-th does. -/
  respond : Nat → Response
  /-- The child processes started so far, in order. -/
  calls : List Call
  /-- The directories that a program is looked for in when its name has no slash. -/
  searchPath : List Path := []

/-- A computation over the host that may fail. -/
abbrev Action := ExceptT Failure (StateM Host)

namespace Host

/-- The fault that starting a command meets, or the directory it runs in. The program is found from
there, not from the current directory. -/
def start? (h : Host) (c : Command) : Except Fault Path :=
  let texts := c.program :: c.directory.text :: c.arguments
  if texts.any fun t => t.toList.contains '\x00' then .error .nulInCommand
  else
    match h.files.locate h.currentDir c.directory with
    | .error fault => .error fault
    | .ok names =>
      match h.files.enter names with
      | .error fault => .error fault
      | .ok () =>
        let directory := Files.pathOf names
        match h.files.findProgram directory h.searchPath c.program with
        | .error fault => .error fault
        | .ok () => .ok directory

/-- Starts a command and waits for its end. -/
def run (c : Command) (h : Host) : Except Fault Response × Host :=
  match h.start? c with
  | .error fault => (.error fault, h)
  | .ok directory =>
    (.ok (h.respond h.calls.length), { h with calls := h.calls ++ [⟨c, directory, h.files⟩] })

end Host

namespace Action

/-- Asks the host for something that changes nothing. -/
def ask {α : Type} (request : Host → Except Fault α) : Action α := do
  match request (← get) with
  | .ok a => pure a
  | .error fault => throw (.io fault)

/-- The current directory. -/
def currentDir : Action Path := do
  return (← get).currentDir

/-- The text of a file. -/
def readFile (p : Path) : Action String :=
  ask fun h => h.files.read h.currentDir p

end Action
end CompletionPrompt

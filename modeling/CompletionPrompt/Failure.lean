import CompletionPrompt.Path

/-!
# Failures

What can go wrong while imports are located, resolved, introspected and put into a prompt. A
failure is its cause; `Failure.message` is the one place that words it. `Fault` is a failing
request to the host.
-/

namespace CompletionPrompt

/-- A failing request to the host. -/
inductive Fault where
  | notFound
  | permissionDenied
  | alreadyExists
  | notADirectory
  | isADirectory
  | nameTooLong
  | notText
  | nulInPath
  | nulInCommand
  | other (text : String)
deriving DecidableEq, Repr

/-- The wording of a fault. -/
def Fault.message : Fault → String
  | .notFound => "No such file or directory (os error 2)"
  | .permissionDenied => "Permission denied (os error 13)"
  | .alreadyExists => "File exists (os error 17)"
  | .notADirectory => "Not a directory (os error 20)"
  | .isADirectory => "Is a directory (os error 21)"
  | .nameTooLong => "File name too long (os error 36)"
  | .notText => "stream did not contain valid UTF-8"
  | .nulInPath => "file name contained an unexpected NUL byte"
  | .nulInCommand => "nul byte found in provided data"
  | .other text => text

/-- What an unsuccessful driver run prints when no directory has the module. -/
def unlocatableSignature : String :=
  "Unable to import module from"

/-- The cause of a failure. -/
inductive Failure where
  /-- An import was used as resolved before it had a file name. -/
  | missingFilename (module : String)
  /-- Something already stands where the driver file would be written. -/
  | driverCollision (path : Path)
  /-- The source defines no function of that name. -/
  | functionNotFound (name : String) (path : Path)
  /-- Every ancestor directory was tried and none has the module. -/
  | moduleNotLocatable (filename : Path)
  /-- The interpreter failed for another reason than a missing module. -/
  | executionFailed (statement output : String)
  /-- The driver process ended unsuccessfully with an error that is not recognised. -/
  | subprocessFailed (status output : String)
  /-- The interpreter could not be started. -/
  | spawn (program : String) (fault : Fault)
  /-- The driver printed no snapshot. -/
  | protocol (detail : String)
  /-- The configuration is not usable. -/
  | invalidConfig (detail : String)
  /-- The grammar is not usable. -/
  | grammar (detail : String)
  /-- The host refused a request. -/
  | io (fault : Fault)
  /-- A value is not JSON, or not JSON of the shape that is wanted. -/
  | json
deriving DecidableEq, Repr

namespace Failure

/-- The name of the kind of failure. -/
def kind : Failure → String
  | .missingFilename _ => "MissingFilename"
  | .driverCollision _ => "DriverCollision"
  | .functionNotFound _ _ => "FunctionNotFound"
  | .moduleNotLocatable _ => "ModuleNotLocatable"
  | .executionFailed _ _ => "ExecutionFailed"
  | .subprocessFailed _ _ => "SubprocessFailed"
  | .spawn _ _ => "Spawn"
  | .protocol _ => "Protocol"
  | .invalidConfig _ => "InvalidConfig"
  | .grammar _ => "TreeSitter"
  | .io _ => "Io"
  | .json => "Json"

/-- The wording of a failure. -/
def message : Failure → String
  | .missingFilename module => "No filename for module " ++ module
  | .driverCollision path => path.text ++ " already exists!"
  | .functionNotFound name path => "Function " ++ name ++ " not found in " ++ path.text
  | .moduleNotLocatable filename => unlocatableSignature ++ " " ++ filename.text
  | .executionFailed statement output => "Executing `" ++ statement ++ "` failed: " ++ output
  | .subprocessFailed status output => "Driver process exited with " ++ status ++ ": " ++ output
  | .spawn program fault => "Failed to spawn `" ++ program ++ "`: " ++ fault.message
  | .protocol detail => "Malformed driver output: " ++ detail
  | .invalidConfig detail => "Invalid configuration: " ++ detail
  | .grammar detail => "Tree-sitter error: " ++ detail
  | .io fault => "IO error: " ++ fault.message
  | .json => "JSON error"

/-- Does the failure only say that the module was found nowhere up the tree? -/
def isUnlocatable : Failure → Bool
  | .moduleNotLocatable _ => true
  | _ => false

end Failure
end CompletionPrompt

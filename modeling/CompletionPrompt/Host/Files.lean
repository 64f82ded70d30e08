import CompletionPrompt.Failure
import CompletionPrompt.Text.Columns

/-!
# Files

The files of a host, each under the names that lead to it from the root. A file that is not
UTF-8 throughout has no text: nothing else about its bytes can be observed. A directory that
holds something is an entry itself.

Paths are followed one component at a time: what a name is looked up in must be a directory, `..`
leads to the directory above, and a path that ends in a slash or `.` must lead to a directory.

A program is given by a path or by a bare name. A bare name is looked for in the directories of the
search path, of which a relative one, or an empty one, is seen from the current directory.
-/

namespace CompletionPrompt

/-- What stands under a path. -/
inductive Entry where
  /-- A regular file, with its text if it is UTF-8. -/
  | file (text : Option String)
  /-- A regular file that can be executed, with its text if it is UTF-8. -/
  | program (text : Option String)
  | directory
deriving DecidableEq, Repr

/-- The files of a host. -/
structure Files where
  entries : List (List String × Entry)
deriving DecidableEq, Repr

namespace Files

/-- What stands under a list of names; the root is a directory. -/
def entry? (fs : Files) (names : List String) : Option Entry :=
  if names.isEmpty then some .directory
  else (fs.entries.find? (·.1 == names)).map (·.2)

/-- The greatest number of bytes of a name. -/
def maxNameLength : Nat := 255

/-- The directory that a name is looked up in, or the fault that it is none. -/
def enter (fs : Files) (names : List String) : Except Fault Unit :=
  match fs.entry? names with
  | some .directory => .ok ()
  | some _ => .error .notADirectory
  | none => .error .notFound

/-- The names that components lead to from a directory. -/
def follow (fs : Files) : List String → List Path.Component → Except Fault (List String)
  | here, [] => .ok here
  | here, c :: cs =>
    match fs.enter here with
    | .error fault => .error fault
    | .ok () =>
      match c with
      | .root => fs.follow [] cs
      | .current => fs.follow here cs
      | .parent => fs.follow here.dropLast cs
      | .normal name =>
        if Text.byteLength name.toList > maxNameLength then .error .nameTooLong
        else fs.follow (here ++ [name]) cs

/-- The names that a path leads to from a current directory; nothing need stand there. -/
def names (fs : Files) (currentDir p : Path) : Except Fault (List String) :=
  if p.text.isEmpty then .error .notFound
  else if p.chars.contains '\x00' then .error .nulInPath
  else fs.follow [] (p.absoluteFrom currentDir).components

/-- The names that a path leads to, where a path that must lead to a directory does. -/
def locate (fs : Files) (currentDir p : Path) : Except Fault (List String) :=
  match fs.names currentDir p with
  | .error fault => .error fault
  | .ok names =>
    if p.wantsDirectory then
      match fs.entry? names with
      | some .directory | none => .ok names
      | some _ => .error .notADirectory
    else .ok names

/-- What stands under a path. -/
def lookUp (fs : Files) (currentDir p : Path) : Except Fault Entry :=
  match fs.locate currentDir p with
  | .error fault => .error fault
  | .ok names =>
    match fs.entry? names with
    | some entry => .ok entry
    | none => .error .notFound

/-- The fault that running what stands under a path meets, if it meets one. -/
def checkProgram (fs : Files) (currentDir p : Path) : Except Fault Unit :=
  match fs.lookUp currentDir p with
  | .error fault => .error fault
  | .ok (.program _) => .ok ()
  | .ok _ => .error .permissionDenied

/-- Looks for a program in directories, one after the other, from a current directory. What cannot
be run is passed over, except that a name that is too long ends the search; when nothing can be run,
a file that may not be is the fault rather than one that is missing. -/
def searchProgram (fs : Files) (currentDir : Path) (name : String) :
    Fault → List Path → Except Fault Unit
  | fault, [] => .error fault
  | fault, dir :: dirs =>
    match fs.checkProgram currentDir (dir.join ⟨name⟩) with
    | .ok () => .ok ()
    | .error .nameTooLong => .error .nameTooLong
    | .error found =>
      fs.searchProgram currentDir name
        (if fault = .permissionDenied then .permissionDenied else found) dirs

/-- Finds a program from a current directory: a name with a slash is its path, and any other name is
looked for in the directories of a search path. -/
def findProgram (fs : Files) (currentDir : Path) (searchPath : List Path) (name : String) :
    Except Fault Unit :=
  if name.toList.contains '/' then fs.checkProgram currentDir ⟨name⟩
  else if name.isEmpty then .error .notFound
  else fs.searchProgram currentDir name .notFound searchPath

/-- Does a regular file stand under a path? -/
def isFile (fs : Files) (currentDir p : Path) : Bool :=
  match fs.lookUp currentDir p with
  | .ok (.file _) | .ok (.program _) => true
  | _ => false

/-- The text of the file under a path. -/
def read (fs : Files) (currentDir p : Path) : Except Fault String :=
  match fs.lookUp currentDir p with
  | .error fault => .error fault
  | .ok .directory => .error .isADirectory
  | .ok (.file (some text)) | .ok (.program (some text)) => .ok text
  | .ok _ => .error .notText

/-- A file that was not there before, under a path in a directory. A name with a slash after it is
no file's, and what ends in `.` or `..` leads to a directory that must be there already. -/
def createNew (fs : Files) (currentDir p : Path) (text : String) : Except Fault Files :=
  match fs.names currentDir p with
  | .error fault => .error fault
  | .ok names =>
    match fs.enter names.dropLast with
    | .error fault => .error fault
    | .ok () =>
      if p.namesFolder then .error .isADirectory
      else
        match fs.entry? names with
        | some .directory => .error .alreadyExists
        | some _ => .error (if p.wantsDirectory then .notADirectory else .alreadyExists)
        | none =>
          if p.wantsDirectory then .error .notFound
          else .ok ⟨fs.entries ++ [(names, .file (some text))]⟩

/-- The files without the one under a path; nothing changes when there is no file. -/
def remove (fs : Files) (currentDir p : Path) : Files :=
  match fs.locate currentDir p with
  | .error _ => fs
  | .ok names =>
    match fs.entry? names with
    | some .directory | none => fs
    | some _ => ⟨fs.entries.filter (·.1 != names)⟩

/-- The path of a list of names. -/
def pathOf (names : List String) : Path :=
  ⟨"/" ++ "/".intercalate names⟩

/-- The path of what stands under a path, without `.`, `..` and doubled slashes. -/
def canonical (fs : Files) (currentDir p : Path) : Except Fault Path :=
  match fs.locate currentDir p with
  | .error fault => .error fault
  | .ok names => if (fs.entry? names).isSome then .ok (pathOf names) else .error .notFound

end Files
end CompletionPrompt

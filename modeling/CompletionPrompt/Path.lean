/-!
# Paths

A path is kept as the text it was given as; its components are read off that text. Components
stand between slashes; empty ones are passed over, and so is `.` except at the start of a
relative path. Each component carries a mark, the number of characters up to its end, so an
ancestor is a piece of the same text: `parent?` of `a/./b//` is `a`.

* `ancestors`: the path itself and then its parents, innermost first.
* `join`: one path after another; an absolute one replaces what stands before it.
* `stripBase?`: the components of a path below another.
-/

namespace CompletionPrompt

/-- A path, as the text it was given as. -/
structure Path where
  text : String
deriving DecidableEq, Repr, BEq, Inhabited

namespace Path

/-- A part of a path. -/
inductive Component where
  | root
  | current
  | parent
  | normal (name : String)
deriving DecidableEq, Repr, BEq

/-- The text of a component. -/
def Component.text : Component → String
  | .root => "/"
  | .current => "."
  | .parent => ".."
  | .normal name => name

/-- A component and the number of characters of the path up to its end. -/
structure Mark where
  component : Component
  stop : Nat
deriving Repr

/-- The characters of a path. -/
def chars (p : Path) : List Char :=
  p.text.toList

/-- A path from its characters. -/
def ofChars (s : List Char) : Path :=
  ⟨String.ofList s⟩

/-- An absolute path starts with a slash. -/
def isAbsolute (p : Path) : Bool :=
  p.chars.head? = some '/'

/-- The component that a piece between slashes names, if it names one. -/
def component? (atStart : Bool) (piece : List Char) : Option Component :=
  if piece.isEmpty then none
  else if piece = ['.'] then if atStart then some .current else none
  else if piece = ['.', '.'] then some .parent
  else some (.normal (String.ofList piece))

/-- The marks of the pieces between slashes, the first of which starts at `start`. -/
def marksFrom (atStart : Bool) (start : Nat) : List (List Char) → List Mark
  | [] => []
  | piece :: pieces =>
    let stop := start + piece.length
    ((component? atStart piece).map (Mark.mk · stop)).toList ++ marksFrom false (stop + 1) pieces

/-- The components of a path with their ends. -/
def marks (p : Path) : List Mark :=
  (if p.isAbsolute then [⟨.root, 1⟩] else []) ++ marksFrom true 0 (p.chars.splitOn '/')

/-- The components of a path. -/
def components (p : Path) : List Component :=
  p.marks.map (·.component)

/-- Where the proper ancestors of a path end in its text, outermost first: before its first
component when it is relative, and after each component but the last. -/
def ancestorStops (p : Path) : List Nat :=
  let stops := p.marks.map (·.stop)
  (if p.isAbsolute then stops else 0 :: stops).dropLast

/-- The path itself and then its parents, innermost first. -/
def ancestors (p : Path) : List Path :=
  p :: p.ancestorStops.reverse.map fun stop => ofChars (p.chars.take stop)

/-- The path without its last component. -/
def parent? (p : Path) : Option Path :=
  p.ancestorStops.getLast?.map fun stop => ofChars (p.chars.take stop)

/-- The empty path, which stands for nowhere in particular. -/
def empty : Path := ⟨""⟩

/-- One path after another, with a slash between them where none stands. -/
def join (base p : Path) : Path :=
  if p.isAbsolute then p
  else
    let base := base.chars
    let slash := if base.isEmpty || base.getLast? = some '/' then [] else ['/']
    ofChars (base ++ slash ++ p.chars)

/-- The name of the last component, unless that is the root, `.` or `..`. -/
def fileName? (p : Path) : Option String :=
  match p.marks.getLast? with
  | some ⟨.normal name, _⟩ => some name
  | _ => none

/-- A file name without its extension: what stands before the last dot, and the whole name when
that is nothing or there is no dot. -/
def stemOf (name : List Char) : List Char :=
  let stem := ((name.reverse.dropWhile (· != '.')).drop 1).reverse
  if stem.isEmpty then name else stem

/-- The last component's name without its extension. -/
def fileStem? (p : Path) : Option String :=
  p.fileName?.map fun name => String.ofList (stemOf name.toList)

/-- The path with the extension of its file name replaced, or added where there is none; the
empty extension only takes the old one away. -/
def withExtension (p : Path) (extension : String) : Path :=
  match p.marks.getLast? with
  | some ⟨.normal name, stop⟩ =>
    let name := name.toList
    let kept := p.chars.take (stop - name.length + (stemOf name).length)
    let added := if extension.isEmpty then [] else '.' :: extension.toList
    ofChars (kept ++ added)
  | _ => p

/-- The components of a path below a base that its components start with. -/
def stripBase? (p base : Path) : Option (List Component) :=
  let bs := base.components
  if bs.isPrefixOf p.components then some (p.components.drop bs.length) else none

/-- The path seen from a current directory. -/
def absoluteFrom (p currentDir : Path) : Path :=
  if p.isAbsolute then p else currentDir.join p

/-- Does the path name a directory whatever it leads to: it ends in a slash or in `.`? -/
def wantsDirectory (p : Path) : Bool :=
  match p.chars.reverse with
  | '/' :: _ => true
  | '.' :: '/' :: _ => true
  | ['.'] => true
  | _ => false

/-- Does the path end in a name and slashes after it? -/
def namesFolder (p : Path) : Bool :=
  match p.marks.getLast? with
  | some ⟨.normal _, stop⟩ =>
    let slashes := p.chars.drop stop
    !slashes.isEmpty && slashes.all (· = '/')
  | _ => false

end Path
end CompletionPrompt

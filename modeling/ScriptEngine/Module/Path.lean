import ScriptEngine.Text.Quoted

/-!
# Paths and file trees

A path is a root (none, one slash or two) and names. Empty names and single dots are dropped when a path is read, double
dots are kept: only `Path.canonical` takes them out.

The files that a session can read are texts at absolute paths. Directories are what files lie in, and the working
directory.
-/

namespace ScriptEngine

/-- A path. -/
structure Path where
  root : Text := []
  names : List Text := []
deriving DecidableEq, Inhabited

namespace Path

/-- The parts of a text between separators. -/
def splitAt (sep : CodePoint) : Text → List Text
  | [] => [[]]
  | c :: rest =>
    if c = sep then [] :: splitAt sep rest
    else match splitAt sep rest with
      | [] => [[c]]
      | first :: others => (c :: first) :: others

/-- The root that a text starts with: two slashes are a root of their own, more than two are one. -/
def rootOf : Text → Text
  | .scalar '/' :: .scalar '/' :: .scalar '/' :: _ => "/"
  | .scalar '/' :: .scalar '/' :: _ => "//"
  | .scalar '/' :: _ => "/"
  | _ => []

/-- Reads a path. -/
def ofText (t : Text) : Path :=
  ⟨rootOf t, (splitAt '/' t).filter fun n => n ≠ [] ∧ n ≠ "."⟩

/-- The text of a path; the empty path is a dot. -/
def render (p : Path) : Text :=
  if p.root = [] ∧ p.names = [] then "." else p.root ++ Text.joinWith "/" p.names

/-- Whether a path starts at the root. -/
def isAbsolute (p : Path) : Bool := p.root ≠ []

/-- The last name of a path. -/
def name (p : Path) : Text := p.names.getLastD []

/-- The path without its last name. -/
def parent (p : Path) : Path := { p with names := p.names.dropLast }

/-- A path taken from another one, unless it is absolute. -/
def join (base p : Path) : Path :=
  if p.isAbsolute then p else { base with names := base.names ++ p.names }

/-- Whether the last name has an extension: a point that is neither its first nor its last code
point. -/
def hasExtension (p : Path) : Bool :=
  match p.name with
  | [] => false
  | _ :: rest =>
    match rest.reverse with
    | [] => false
    | _ :: inner => inner.contains '.' && rest.getLast? ≠ some (.scalar '.')

/-- The names with double dots taken out: each goes up by one, and nothing is above the root. -/
def collapse (names : List Text) : List Text :=
  (names.foldl (fun (above : List Text) (n : Text) =>
    if n = ".." then above.drop 1 else n :: above) []).reverse

/-- The absolute path without double dots, taken from a working directory. Its root is one slash. -/
def canonical (workDir p : Path) : Path := ⟨"/", collapse (workDir.join p).names⟩

/-- The path as messages about paths show it. -/
def shown (p : Path) : Text := "PosixPath(" ++ p.render.quoted ++ ")"

end Path

/-! ## File trees -/

/-- Files by their names from the root, and the working directory. -/
structure FileTree where
  workDir : Path := Path.ofText "/R"
  files : List (List Text × Text) := []
deriving Inhabited

namespace FileTree

/-- Whether names from the root lead to a directory. -/
def isDirectory (t : FileTree) (names : List Text) : Bool :=
  names.isPrefixOf t.workDir.names ||
    t.files.any fun (file, _) => names.isPrefixOf file && names.length < file.length

/-- Goes down from a directory name by name. Double dots go up. Each name but the last must lead to
a directory. -/
def descend (t : FileTree) (at_ : List Text) : List Text → Option (List Text)
  | [] => some at_
  | n :: rest =>
    if t.isDirectory at_ then
      t.descend (if n = ".." then at_.dropLast else at_ ++ [n]) rest
    else none

/-- The names from the root that a path leads to, if all directories on the way exist. -/
def locate? (t : FileTree) (p : Path) : Option (List Text) :=
  t.descend [] (t.workDir.join p).names

/-- The content of the file at a path. -/
def read? (t : FileTree) (p : Path) : Option Text := do
  let names ← t.locate? p
  t.files.lookup names

/-- Whether there is a file at a path. -/
def isFile (t : FileTree) (p : Path) : Bool := (t.read? p).isSome

/-- The tree with a file added, given by a path from the working directory. -/
def add (t : FileTree) (p : Path) (content : Text) : FileTree :=
  { t with files := ((t.workDir.canonical p).names, content) :: t.files }

end FileTree

end ScriptEngine

import SmallC.Failure
import SmallC.Text.Path

/-!
# Files

Files by path. A file is found under each name whose clean form is its path. Every name that a
file was made under is kept, so that the files can be listed by the names that were used.

Making or removing a file can be refused; nothing else can go wrong with a file that is there.
Directories are only what paths imply.
-/

namespace SmallC

/-- Where the files are, which decides how a missing one is reported, and whether a file can be
made in a directory that does not exist. -/
inductive Medium where
  | memory
  | disk
  deriving DecidableEq, Repr

structure Files where
  medium : Medium := .memory
  /-- Contents by path, each path once. -/
  entries : List (Text × Text) := []
  /-- The names that files were made under, the oldest first. -/
  names : List Text := []
  /-- Names under which no file can be made. -/
  refusedNew : List Text := []
  /-- Names under which no file can be removed. -/
  refusedRemoval : List Text := []

namespace Files

def pathOf (name : Text) : Text :=
  let path := Path.clean name
  if path = Path.dot || path = Path.dotDot then [Path.slash] else path

def find? (fs : Files) (name : Text) : Option Text := fs.entries.lookup (pathOf name)

def contains (fs : Files) (name : Text) : Bool := (fs.find? name).isSome

def paths (fs : Files) : List Text := fs.entries.map (·.1)

def put (fs : Files) (name content : Text) : Files :=
  { fs with
    entries := (pathOf name, content) :: fs.entries.filter fun e => e.1 ≠ pathOf name
    names := if fs.names.contains name then fs.names else fs.names ++ [name] }

def drop (fs : Files) (name : Text) : Files :=
  { fs with entries := fs.entries.filter fun e => e.1 ≠ pathOf name }

def ofList (medium : Medium) (entries : List (Text × Text)) : Files :=
  entries.foldl (fun fs e => fs.put e.1 e.2) { medium := medium }

/-- The files that are there, by the names they were made under. -/
def toList (fs : Files) : List (Text × Text) :=
  fs.names.filterMap fun name => (fs.find? name).map fun content => (name, content)

def hasDirectoryOf (fs : Files) (name : Text) : Bool :=
  let dir := Path.dir name
  dir = Path.dot || dir = [Path.slash]
    || fs.paths.any fun p => (Text.after? (dir ++ [Path.slash]) p).isSome

def missing (fs : Files) (name : Text) : Failure :=
  match fs.medium with
  | .memory =>
    .missing (Text.ofString "open " ++ pathOf name ++ Text.ofString ": file does not exist")
  | .disk =>
    .missing (Text.ofString "open " ++ name ++ Text.ofString ": no such file or directory")

def refused (work : String) (name : Text) : Failure :=
  .plain (Text.ofString work ++ Text.ofString " " ++ name ++ Text.ofString ": permission denied")

def read (fs : Files) (name : Text) : Except Failure Text :=
  match fs.find? name with
  | some content => .ok content
  | none => .error (fs.missing name)

/-- Makes a file, or replaces the one that is there. -/
def write (fs : Files) (name content : Text) : Except Failure Files :=
  if fs.refusedNew.contains name then .error (refused "open" name)
  else if fs.medium = .disk && !fs.hasDirectoryOf name then .error (fs.missing name)
  else .ok (fs.put name content)

/-- Removes a file; one that is not there is no failure. -/
def remove (fs : Files) (name : Text) : Except Failure Files :=
  if fs.refusedRemoval.contains name then .error (refused "remove" name)
  else .ok (fs.drop name)

end Files
end SmallC

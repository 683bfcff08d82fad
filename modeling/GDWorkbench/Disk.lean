import GDWorkbench.Text.Basic

/-!
A disk: files by their paths from its outermost folder. A folder is there if it is listed or if
something is in it. Some files can be read but not written.
-/

namespace GDWorkbench

abbrev Path := List Text

namespace Path

def below? (folder p : Path) : Option Path :=
  match folder, p with
  | [], [] => none
  | [], p => some p
  | _ :: _, [] => none
  | a :: folder, b :: p => if a = b then below? folder p else none

/-- The name of a file that is in the folder itself. -/
def fileName? : Path → Option Text
  | [name] => some name
  | _ => none

/-- The first folder on the way to a file further below. -/
def folderName? : Path → Option Text
  | name :: _ :: _ => some name
  | _ => none

end Path

structure Disk where
  files : List (Path × Text)
  folders : List Path
  /-- The files that can be opened for reading only. -/
  locked : List Path
  deriving DecidableEq, Repr

/-- What a file is opened for. -/
inductive Access where
  | reading
  /-- Reading it, and perhaps writing something else in its place. -/
  | updating
  deriving DecidableEq, Repr

inductive OpenError where
  | missing
  | folder
  /-- A file stands where the path goes through a folder. -/
  | throughFile
  /-- The file can be read, but it is to be written too. -/
  | denied
  deriving DecidableEq, Repr

namespace OpenError

def message : OpenError → Text
  | .missing => "No such file or directory".toList
  | .folder => "Is a directory".toList
  | .throughFile => "Not a directory".toList
  | .denied => "Permission denied".toList

end OpenError

namespace Disk

def file? (d : Disk) (p : Path) : Option Text :=
  (d.files.find? fun f => f.1 = p).map (·.2)

def isFile (d : Disk) (p : Path) : Bool :=
  (d.file? p).isSome

def isLocked (d : Disk) (p : Path) : Bool :=
  d.isFile p && d.locked.contains p

def isFolder (d : Disk) (p : Path) : Bool :=
  p.isEmpty || d.folders.contains p
    || (d.files.any fun f => (Path.below? p f.1).isSome)
    || (d.folders.any fun f => (Path.below? p f).isSome)

def read (d : Disk) (p : Path) : Except OpenError Text :=
  match d.file? p with
  | some content => .ok content
  | none =>
    if d.isFolder p then .error .folder
    else if d.files.any fun f => (Path.below? f.1 p).isSome then .error .throughFile
    else .error .missing

def write (d : Disk) (p : Path) (content : Text) : Disk :=
  if d.isFile p then
    { d with files := d.files.map fun f => if f.1 = p then (p, content) else f }
  else { d with files := d.files ++ [(p, content)] }

def insertName (name : Text) : List Text → List Text
  | [] => [name]
  | other :: names =>
    if other < name then other :: insertName name names else name :: other :: names

/-- The names in order, each one once. -/
def sortedNames (names : List Text) : List Text :=
  names.foldr (fun name found => if found.contains name then found else insertName name found) []

def filesIn (d : Disk) (folder : Path) : List Text :=
  sortedNames (d.files.filterMap fun f => (Path.below? folder f.1).bind Path.fileName?)

def foldersIn (d : Disk) (folder : Path) : List Text :=
  sortedNames (d.files.filterMap (fun f => (Path.below? folder f.1).bind Path.folderName?)
    ++ d.folders.filterMap fun f => (Path.below? folder f).bind List.head?)

/-- Files whose names end as given, by their paths from a folder: first those of the folder itself, then
those of each folder in it that is not excluded, down to some depth. -/
def walk (d : Disk) (ending : Text) (excluded : List Text) : Nat → Path → List Path
  | 0, _ => []
  | depth + 1, folder =>
    let files := (d.filesIn folder).filter (Text.endsWith · ending)
    let folders := (d.foldersIn folder).filter fun name => !excluded.contains name
    files.map (fun name => [name]) ++ folders.flatMap fun name =>
      (walk d ending excluded depth (folder ++ [name])).map (name :: ·)

/-- How deep the files are at most. -/
def depth (d : Disk) : Nat :=
  d.files.foldr (fun f depth => max f.1.length depth) 0

/-- The files below a folder whose names end as given, without those in excluded folders. The folder
itself may have an excluded name. -/
def filesBelow (d : Disk) (ending : Text) (excluded : List Text) (folder : Path) : List Path :=
  d.walk ending excluded d.depth folder

end Disk

end GDWorkbench

import GDWorkbench.Configuration.Token
import GDWorkbench.Disk
import GDWorkbench.Parse.SyntaxError

/-!
What a tool works with, and what it leaves behind: a disk, a folder to start from, arguments and
input; then output, messages, an exit status and perhaps other files.
-/

namespace GDWorkbench

structure Session where
  disk : Disk
  /-- The text of the outermost folder, which is empty if that is the root of the file system. -/
  base : Text
  /-- The folder to start from. -/
  folder : Path
  arguments : List Text
  input : Text

/-- Why a tool breaks off. -/
inductive Crash where
  | fault (fault : Fault)
  | invalid (error : SyntaxError)
  | unopened (error : OpenError)
  /-- A configuration file that cannot be read. -/
  | unreadable (defect : Configuration.Defect)
  deriving Repr

/-- What a tool has done so far. -/
structure Progress where
  disk : Disk
  output : Text
  errors : Text

structure Outcome where
  progress : Progress
  status : Nat
  crash : Option Crash

namespace Crash

def ofFailure : Failure → Crash
  | .invalid e => .invalid e
  | .fault f => .fault f

def message : Crash → Text
  | .fault _ => "The input cannot be processed".toList
  | .invalid e => e.message
  | .unopened e => e.message
  | .unreadable _ => "The configuration cannot be read".toList

end Crash

namespace Session

def follow (outside : Option Path) : Path → List Text → Option Path
  | folder, [] => some folder
  | folder, name :: names =>
    if name.isEmpty || name = ['.'] then follow outside folder names
    else if name = ['.', '.'] then
      match folder, outside with
      | [], none => none
      | [], some top => follow outside top names
      | _ :: _, _ => follow outside folder.dropLast names
    else follow outside (folder ++ [name]) names

/-- Where a path leads. A path that leaves the disk leads nowhere. -/
def locate (s : Session) (path : Text) : Option Path :=
  let outside := if s.base.isEmpty then some [] else none
  match path with
  | [] => none
  | '/' :: _ => if s.base.isEmpty then follow outside [] (Text.splitAt '/' path) else none
  | _ => follow outside s.folder (Text.splitAt '/' path)

def withLineFeeds : Text → Text
  | [] => []
  | '\r' :: '\n' :: rest => '\n' :: withLineFeeds rest
  | '\r' :: rest => '\n' :: withLineFeeds rest
  | c :: rest => c :: withLineFeeds rest

def read (s : Session) (disk : Disk) (path : Text) : Except OpenError Text :=
  match s.locate path with
  | some p => (disk.read p).map withLineFeeds
  | none => .error .missing

def isLocked (s : Session) (disk : Disk) (path : Text) : Bool :=
  (s.locate path).any disk.isLocked

/-- The text of a file that is opened for reading, or for reading and writing. -/
def opened (s : Session) (access : Access) (disk : Disk) (path : Text) : Except OpenError Text :=
  match access with
  | .reading => s.read disk path
  | .updating => if s.isLocked disk path then .error .denied else s.read disk path

def write (s : Session) (disk : Disk) (path content : Text) : Disk :=
  match s.locate path with
  | some p => disk.write p content
  | none => disk

def joined (path : Text) (below : Path) : Text :=
  let rest := Text.join ['/'] below
  if Text.endsWith path ['/'] then path ++ rest else path ++ '/' :: rest

/-- The files a path stands for: a folder for the scripts below it, and any other path for itself. -/
def expand (s : Session) (excluded : List Text) (path : Text) : List Text :=
  match s.locate path with
  | some p =>
    if s.disk.isFolder p then
      (s.disk.filesBelow ".gd".toList excluded p).map (joined path)
    else [path]
  | none => [path]

def expandAll (s : Session) (excluded : List Text) (paths : List Text) : List Text :=
  paths.flatMap (s.expand excluded)

def shown (s : Session) (p : Path) : Text :=
  s.base ++ '/' :: Text.join ['/'] p

def start (s : Session) : Progress :=
  ⟨s.disk, [], []⟩

end Session

namespace Progress

def say (p : Progress) (line : Text) : Progress :=
  { p with output := p.output ++ line ++ ['\n'] }

def complain (p : Progress) (line : Text) : Progress :=
  { p with errors := p.errors ++ line ++ ['\n'] }

def done (p : Progress) (status : Nat) : Outcome :=
  ⟨p, status, none⟩

def crashed (p : Progress) (crash : Crash) : Outcome :=
  ⟨p, 1, some crash⟩

/-- Visits files one after the other. A visit that breaks off ends the walk and leaves everything as
it was before it. -/
def visitAll {σ : Type} (visit : σ → Text → Except Crash σ) : σ → List Text → σ × Option Crash
  | s, [] => (s, none)
  | s, file :: files =>
    match visit s file with
    | .ok s => visitAll visit s files
    | .error crash => (s, some crash)

end Progress

namespace Tool

def inputName : Text := "STDIN".toList

def refusal (name message : Text) : Text :=
  name ++ ":\n\n".toList ++ message

def unopened (name : Text) (e : OpenError) : Text :=
  "Cannot open file '".toList ++ name ++ "': ".toList ++ e.message

end Tool

end GDWorkbench

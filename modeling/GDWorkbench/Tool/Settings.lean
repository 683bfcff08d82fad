import GDWorkbench.Configuration.Read
import GDWorkbench.Session

/-!
The configuration of a tool: the nearest file of its name in the folder it is started in or in one
around that, or else the defaults.
-/

namespace GDWorkbench.Tool

/-- A folder and the folders around it, the innermost first. The root of a file system holds no
configuration. -/
def foldersAround (s : Session) : List Path :=
  let all := (List.range (s.folder.length + 1)).map fun n => s.folder.take (s.folder.length - n)
  if s.base.isEmpty then all.filter (!·.isEmpty) else all

/-- Where a configuration may be. A name with a dot in front comes second. -/
def candidates (s : Session) (name : String) : List Path :=
  (foldersAround s).flatMap fun folder =>
    [folder ++ [name.toList], folder ++ ['.' :: name.toList]]

def configurationFile (s : Session) (name : String) : Option Path :=
  (candidates s name).find? s.disk.isFile

/-- What was found: perhaps a file, and the value in it. Without a file it is the defaults. -/
structure Found where
  file : Option Path
  value : Except Configuration.Defect Configuration.Value

namespace Found

/-- The entries that were found. A file may also hold something else. -/
def configuration (found : Found) : Except Crash Configuration :=
  match found.value with
  | .error defect => .error (.unreadable defect)
  | .ok (.map entries) => .ok entries
  | .ok _ => .error (.fault .noEntries)

end Found

def findConfiguration (s : Session) (name : String) (defaults : Configuration) : Found :=
  match configurationFile s name with
  | none => ⟨none, .ok (.map defaults)⟩
  | some p => ⟨some p, Configuration.read (Session.withLineFeeds ((s.disk.file? p).getD []))⟩

/-- The names of the folders that are passed over. In place of a list, a text stands for its
characters. -/
def excludedFolders (c : Configuration) : Except Crash (List Text) :=
  match c.get "excluded_directories" with
  | .text t => .ok (t.map fun c => [c])
  | .list items =>
    if items.any (·.isCompound) then .error (.fault .wrongValue)
    else .ok (items.filterMap (·.text?))
  | v =>
    match v.names? with
    | some names => .ok names
    | none => .error (.fault .wrongValue)

/-- Writes the defaults into the folder the tool is started in, unless the file is there. -/
def writeDefaults (s : Session) (name : String) (defaults : Configuration) : Outcome :=
  let file := s.folder ++ [name.toList]
  if s.disk.isFile file then s.start.crashed (.fault .unmet)
  else { s.start with disk := s.disk.write file defaults.write }.done 0

end GDWorkbench.Tool

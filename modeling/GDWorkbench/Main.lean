import GDWorkbench.Tool

/-!
The command line: the name of a tool and its arguments. What the tool may look at is read into a disk
first, and what it has written there is put back afterwards.
-/

namespace GDWorkbench

namespace CommandLine

def pathOf (path : String) : Path :=
  (Text.splitAt '/' path.toList).filter fun name => !name.isEmpty

def stringOf (p : Path) : String :=
  String.ofList ('/' :: Text.join ['/'] p)

def contentOf (path : String) : IO (Option Text) := do
  try
    return (String.fromUTF8? (← IO.FS.readBinFile path)).map String.toList
  catch _ => return none

def isWritable (path : String) : IO Bool := do
  try
    let _ ← IO.FS.Handle.mk path .readWrite
    return true
  catch _ => return false

def addFile (disk : Disk) (path : String) : IO Disk := do
  match ← contentOf path with
  | some content =>
    let disk := disk.write (pathOf path) content
    if ← isWritable path then return disk
    return { disk with locked := pathOf path :: disk.locked }
  | none => return disk

/-- Adds a file, or a folder with all that is below it. -/
partial def addPath (disk : Disk) (path : String) : IO Disk := do
  let place := (← IO.currentDir) / path
  if ← place.isDir then
    let folder := { disk with folders := pathOf path :: disk.folders }
    (← place.readDir).foldlM (fun disk entry => addPath disk (path ++ "/" ++ entry.fileName)) folder
  else addFile disk path

def configurations (s : Session) : List Path :=
  Tool.candidates s Tool.Lint.fileName ++ Tool.candidates s Tool.Format.fileName

/-- A disk with what the arguments name and with the configurations. -/
def load (s : Session) : IO Disk := do
  let disk ← (configurations s).foldlM (fun disk p => addFile disk (stringOf p)) s.disk
  (s.arguments.filterMap s.locate).foldlM (fun disk p => addPath disk (stringOf p)) disk

def store (before after : Disk) : IO Unit := do
  for (p, content) in after.files do
    if before.file? p ≠ some content then
      IO.FS.writeFile (stringOf p) (String.ofList content)

def run (tool : Tool) (arguments : List String) : IO UInt32 := do
  let input ← if arguments.contains "-" then (← IO.getStdin).readToEnd else pure ""
  let folder := pathOf (toString (← IO.currentDir))
  let s : Session := ⟨⟨[], [], []⟩, [], folder, arguments.map String.toList, input.toList⟩
  let s := { s with disk := ← load s }
  let outcome := tool.run s
  IO.print (String.ofList outcome.progress.output)
  IO.eprint (String.ofList outcome.progress.errors)
  store s.disk outcome.progress.disk
  match outcome.crash with
  | some crash => IO.eprintln (String.ofList crash.message)
  | none => pure ()
  return outcome.status.toUInt32

def usage : String :=
  "Usage: (" ++ " | ".intercalate (Tool.all.map fun tool => tool.usage.name) ++ ") <argument>..."

def start : List String → IO UInt32
  | name :: arguments =>
    match Tool.ofName? name with
    | some tool => run tool arguments
    | none => refuse
  | [] => refuse
where
  refuse : IO UInt32 := do
    IO.eprintln usage
    return 1

end CommandLine

end GDWorkbench

def main (arguments : List String) : IO UInt32 :=
  GDWorkbench.CommandLine.start arguments

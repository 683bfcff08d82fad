import GDWorkbench.Text.Basic

/-!
Where caches are kept, by operating system and home folder.
-/

namespace GDWorkbench

inductive OperatingSystem where
  | linux
  | macOS
  | windows
  | other
  deriving DecidableEq, Repr

namespace OperatingSystem

def ofName (name : Text) : OperatingSystem :=
  if name = "linux".toList || name = "linux2".toList then .linux
  else if name = "darwin".toList then .macOS
  else if name = "win32".toList then .windows
  else .other

end OperatingSystem

/-- A home folder without slashes at its end. The root keeps its slash. -/
def homeFolder (home : Text) : Text :=
  match (home.reverse.dropWhile (· == '/')).reverse with
  | [] => ['/']
  | folder => folder

def inFolder (folder name : Text) : Text :=
  if Text.endsWith folder ['/'] then folder ++ name else folder ++ '/' :: name

/-- The folder for caches, which is empty for a system that has no such folder. -/
def cacheFolder (system : OperatingSystem) (home : Text) : Text :=
  match system with
  | .linux => inFolder (homeFolder home) ".cache".toList
  | .macOS => inFolder (homeFolder home) "Library/Caches".toList
  | .windows => "%LOCALAPPDATA%".toList
  | .other => []

end GDWorkbench

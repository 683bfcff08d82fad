import GDWorkbench.Lint
import GDWorkbench.Tool.Settings
import GDWorkbench.Usage

/-!
The tool that lints files.
-/

namespace GDWorkbench.Tool

namespace Lint

def help : String :=
  "GDScript linter\n\n"
    ++ "A tool for diagnosing typical GDScript code problems.\n"
    ++ "On success and the exitcode is 0.\n"
    ++ "On failure, python exception or list of problems is shown and exitcode is non-zero.\n\n"
    ++ "Usage:\n"
    ++ "  gdlint <path>... [options]\n"
    ++ "  gdlint -d\n\n"
    ++ "Options:\n"
    ++ "  -d --dump-default-config   Dump default config to 'gdlintrc' file\n"
    ++ "  -v --verbose               Show extra prints\n"
    ++ "  -h --help                  Show this screen.\n"
    ++ "  --version                  Show version."

def dump : Usage.Spec := Usage.flag (some "-d") "--dump-default-config"

def options : List Usage.Spec :=
  [Usage.flag (some "-v") "--verbose", Usage.helpSpec, Usage.versionSpec]

def usage : Usage where
  name := "gdlint"
  help := help
  synopsis := "Usage:\n  gdlint <path>... [options]\n  gdlint -d"
  known := dump :: options
  forms := [⟨none, [], .many, options⟩, ⟨none, [dump], .zero, []⟩]

def fileName : String := "gdlintrc"

/-! ## Log -/

def logged (message : Text) : Text :=
  "INFO:root:".toList ++ message

def foundText (s : Session) (file : Option Path) : Text :=
  match file with
  | some p => "Config file found: '".toList ++ s.shown p ++ ['\'']
  | none => "No 'gdlintrc' nor '.gdlintrc' found. Using default config...".toList

def log (s : Session) (found : Found) : List Text :=
  let entries := match found.configuration with
    | .error (.unreadable _) => []
    | .error _ => ["Loaded config:".toList]
    | .ok c =>
      "Loaded config:".toList :: c.map Configuration.listing
        ++ (c.missing GDWorkbench.Lint.defaults).map fun entry =>
          "Adding missing entry from defaults: ".toList ++ Configuration.listing entry
  (foundText s found.file :: entries).map logged

/-! ## Files -/

structure State where
  progress : Progress
  problems : Nat

def problemText (name : Text) (p : GDWorkbench.Lint.Problem) : Text :=
  name ++ ':' :: (p.line.map Text.ofNat).getD "None".toList ++ ": Error: ".toList ++ p.description
    ++ " (".toList ++ p.check.text ++ [')']

def visitText (config : GDWorkbench.Lint.Config) (name code : Text) (s : State) :
    Except Crash State :=
  match lint config code with
  | .ok problems =>
    let progress := problems.foldl (fun p problem => p.complain (problemText name problem)) s.progress
    .ok ⟨progress, s.problems + problems.length⟩
  | .error (.invalid e) =>
    .ok ⟨s.progress.complain (refusal name (e.report code)), s.problems + 1⟩
  | .error (.fault f) => .error (.fault f)

def visit (session : Session) (config : GDWorkbench.Lint.Config) (s : State) (name : Text) :
    Except Crash State :=
  match session.read s.progress.disk name with
  | .error e => .ok ⟨s.progress.complain (unopened name e), s.problems + 1⟩
  | .ok code => visitText config name code s

def finish : State × Option Crash → Outcome
  | (s, some crash) => s.progress.crashed crash
  | (s, none) =>
    match s.problems with
    | 0 => (s.progress.say "Success: no problems found".toList).done 0
    | n =>
      (s.progress.complain ("Failure: ".toList ++ Text.ofNat n ++ " problem".toList
        ++ (if n = 1 then [] else ['s']) ++ " found".toList)).done 1

/-- Lints files with a configuration that has an entry for everything. -/
def runWith (session : Session) (start : Progress) (paths : List Text) (c : Configuration) :
    Outcome :=
  match excludedFolders c with
  | .error crash => start.crashed crash
  | .ok excluded =>
    finish (Progress.visitAll (visit session (GDWorkbench.Lint.Config.ofConfiguration c))
      ⟨start, 0⟩ (session.expandAll excluded paths))

def run (session : Session) (paths : List Text) (options : List Usage.Item) : Outcome :=
  if Usage.has options "--dump-default-config" then
    writeDefaults session fileName GDWorkbench.Lint.defaults
  else
    let found := findConfiguration session fileName GDWorkbench.Lint.defaults
    let messages := if Usage.has options "--verbose" then log session found else []
    let start := messages.foldl Progress.say session.start
    match found.configuration with
    | .error crash => start.crashed crash
    | .ok c => runWith session start paths (c.withDefaults GDWorkbench.Lint.defaults)

end Lint

end GDWorkbench.Tool

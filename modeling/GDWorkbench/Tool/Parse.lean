import GDWorkbench.Parse
import GDWorkbench.Session
import GDWorkbench.Shape
import GDWorkbench.Usage

/-!
The tool that parses files and shows their trees.
-/

namespace GDWorkbench.Tool

namespace Parse

def help : String :=
  "GDScript parser\n\n"
    ++ "By default, nothing is being printed on success and the exitcode is 0.\n"
    ++ "On failure, python exception is shown and exitcode is non-zero.\n\n"
    ++ "Usage:\n"
    ++ "  gdparse <file>... [options]\n\n"
    ++ "Options:\n"
    ++ "  -p --pretty   Print pretty parse tree\n"
    ++ "  -v --verbose  Print parse tree\n"
    ++ "  -h --help     Show this screen.\n"
    ++ "  --version     Show version."

def options : List Usage.Spec :=
  [Usage.flag (some "-p") "--pretty", Usage.flag (some "-v") "--verbose", Usage.helpSpec,
   Usage.versionSpec]

def usage : Usage where
  name := "gdparse"
  help := help
  synopsis := "Usage:\n  gdparse <file>... [options]"
  known := options
  forms := [⟨none, [], .many, options⟩]

inductive Display where
  | nothing
  | pretty
  | verbose

def shownTree (display : Display) (t : Tree) : Option Text :=
  match display with
  | .nothing => none
  | .pretty => some t.shape.pretty
  | .verbose => some t.shape.listing

structure State where
  progress : Progress
  succeeded : Bool

def visitText (display : Display) (name code : Text) (s : State) : Except Crash State :=
  match parse code with
  | .error (.layout fault) => .error (.invalid (.layout fault))
  | .error e => .ok ⟨s.progress.complain (refusal name (e.report code)), false⟩
  | .ok t =>
    match shownTree display t with
    | none => .ok s
    | some text => .ok { s with progress := (s.progress.say (name ++ ":\n".toList)).say text }

def visit (session : Session) (display : Display) (s : State) (name : Text) : Except Crash State :=
  match session.read s.progress.disk name with
  | .error e => .ok ⟨s.progress.complain (unopened name e), false⟩
  | .ok code => visitText display name code s

def finish : State × Option Crash → Outcome
  | (s, some crash) => s.progress.crashed crash
  | (s, none) => s.progress.done (if s.succeeded then 0 else 1)

def run (session : Session) (files : List Text) (options : List Usage.Item) : Outcome :=
  let display : Display :=
    if Usage.has options "--pretty" then .pretty
    else if Usage.has options "--verbose" then .verbose
    else .nothing
  let start : State := ⟨session.start, true⟩
  if files = [['-']] then
    finish (Progress.visitAll
      (fun s name => visitText display name (Session.withLineFeeds session.input) s) start [inputName])
  else finish (Progress.visitAll (visit session display) start files)

end Parse

end GDWorkbench.Tool

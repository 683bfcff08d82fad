import GDWorkbench.Skeleton
import GDWorkbench.Session
import GDWorkbench.Usage

/-!
The tool that converts a file to its skeleton.
-/

namespace GDWorkbench.Tool

namespace Convert

def help : String :=
  "GDScript-to-python converter\n\n"
    ++ "Experimental converter which produces syntactically correct python3 out of given\n"
    ++ "GDScript. Produced python code almost for sure will not be runnable, although its\n"
    ++ "core structure should be the same as of GDScript thus allowing usage of various\n"
    ++ "python static analysis tools like e.g. radon.\n\n"
    ++ "Usage:\n"
    ++ "  gd2py <path> [options]\n\n"
    ++ "Options:\n"
    ++ "  -h --help                  Show this screen.\n"
    ++ "  --version                  Show version.\n\n"
    ++ "Examples:\n"
    ++ "  gd2py file.gd              # produces python file on stdout\n"
    ++ "  gd2py ./addons/gut/gut.gd | radon cc -s -"

def options : List Usage.Spec :=
  [Usage.helpSpec, Usage.versionSpec]

def usage : Usage where
  name := "gd2py"
  help := help
  synopsis := "Usage:\n  gd2py <path> [options]"
  known := options
  forms := [⟨none, [], .one, options⟩]

def run (session : Session) (path : Text) : Outcome :=
  match session.read session.disk path with
  | .error e => session.start.crashed (.unopened e)
  | .ok code =>
    match skeleton code with
    | .error failure => session.start.crashed (.ofFailure failure)
    | .ok items => (session.start.say (Skeleton.text items)).done 0

end Convert

end GDWorkbench.Tool

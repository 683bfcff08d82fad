import GDWorkbench.Shape
import GDWorkbench.Skeleton.Complexity
import GDWorkbench.Session
import GDWorkbench.Usage

/-!
The tool that measures the complexity of the functions and classes in files.
-/

namespace GDWorkbench.Tool

namespace Measure

def help : String :=
  "GDScript code metrics calculator\n\n"
    ++ "Experimental tool which converts GDScript code to Python and runs radon tool on it.\n\n"
    ++ "Usage:\n"
    ++ "  gdradon cc <path>... [options]\n\n"
    ++ "Options:\n"
    ++ "  -h --help                  Show this screen.\n"
    ++ "  --version                  Show version.\n\n"
    ++ "Examples:\n"
    ++ "  gdradon cc file1.gd file2.gd path/"

def options : List Usage.Spec :=
  [Usage.helpSpec, Usage.versionSpec]

def usage : Usage where
  name := "gdradon"
  help := help
  synopsis := "Usage:\n  gdradon cc <path>... [options]"
  known := options
  forms := [⟨some "cc".toList, [], .many, options⟩]

/-! ## Colours -/

inductive Colour where
  | red
  | green
  | yellow
  | magenta
  | cyan

def Colour.code : Colour → String
  | .red => "\x1b[31m"
  | .green => "\x1b[32m"
  | .yellow => "\x1b[33m"
  | .magenta => "\x1b[35m"
  | .cyan => "\x1b[36m"

def coloured (colour : Colour) (text : Text) : Text :=
  colour.code.toList ++ text ++ "\x1b[0m".toList

def rankColour : Skeleton.Rank → Colour
  | .a | .b => .green
  | .c | .d => .yellow
  | .e | .f => .red

def measureText (m : Skeleton.Measure) : Text :=
  let rank := Skeleton.Rank.ofComplexity m.complexity
  let mark := if m.isClass then coloured .cyan ['C'] else coloured .magenta ['F']
  "    ".toList ++ mark ++ ' ' :: Text.ofNat m.line ++ ':' :: Text.ofNat m.column ++ ' ' :: m.name
    ++ " - ".toList
    ++ coloured (rankColour rank) (rank.letter :: " (".toList ++ Text.ofNat m.complexity ++ [')'])

/-! ## Files -/

def faultText : Fault → Text
  | .unknownKind kind => kind.listing
  | .missingPart => "list index out of range".toList
  | .wrongPart => "'Token' object has no attribute 'data'".toList
  | _ => []

def unprocessed (name message : Text) : Text :=
  "Cannot process file '".toList ++ name ++ "' due to exception: ".toList ++ message

/-- A file without functions and classes is passed over in silence. -/
def visitText (name code : Text) (p : Progress) : Progress :=
  match skeleton code with
  | .error (.invalid e) => p.complain (unprocessed name e.message)
  | .error (.fault f) => p.complain (unprocessed name (faultText f))
  | .ok items =>
    match Skeleton.flaw? items, Skeleton.measures items with
    | some flaw, _ => p.complain (unprocessed name (flaw.message (Skeleton.Item.heightOf items)))
    | none, [] => p
    | none, measures => measures.foldl (fun p m => p.say (measureText m)) (p.say name)

def visit (session : Session) (p : Progress) (name : Text) : Progress :=
  match session.read p.disk name with
  | .error e => p.complain (unopened name e)
  | .ok code => visitText name code p

def run (session : Session) (paths : List Text) : Outcome :=
  ((session.expandAll [] paths).foldl (visit session) session.start).done 0

end Measure

end GDWorkbench.Tool

import GDWorkbench.Tool.Convert
import GDWorkbench.Tool.Format
import GDWorkbench.Tool.Lint
import GDWorkbench.Tool.Measure
import GDWorkbench.Tool.Parse

/-!
The tools of the workbench by name.
-/

namespace GDWorkbench

inductive Tool where
  | parse
  | lint
  | format
  | convert
  | measure
  deriving DecidableEq, Repr

namespace Tool

def usage : Tool → Usage
  | .parse => Parse.usage
  | .lint => Lint.usage
  | .format => Format.usage
  | .convert => Convert.usage
  | .measure => Measure.usage

def all : List Tool :=
  [.parse, .lint, .format, .convert, .measure]

def ofName? (name : String) : Option Tool :=
  all.find? fun tool => tool.usage.name = name

def runFitting (tool : Tool) (s : Session) (arguments : List Text) (options : List Usage.Item) :
    Outcome :=
  match tool with
  | .parse => Parse.run s arguments options
  | .lint => Lint.run s arguments options
  | .format => Format.run s arguments options
  | .convert => Convert.run s (arguments.headD [])
  | .measure => Measure.run s arguments

def run (tool : Tool) (s : Session) : Outcome :=
  match tool.usage.reply s.arguments with
  | .shows text => (s.start.say text).done 0
  | .refuses message => (s.start.complain message).done 1
  | .fits arguments options => tool.runFitting s arguments options

def runAsModule (tool : Tool) (s : Session) : Outcome :=
  match tool with
  | .convert | .measure => s.start.done 0
  | _ => tool.run s

end Tool

end GDWorkbench

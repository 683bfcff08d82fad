import GDWorkbench.Safety
import GDWorkbench.Tool.Settings
import GDWorkbench.Usage

/-!
The tool that formats files, checks whether they are formatted, or shows what formatting would
change.
-/

namespace GDWorkbench.Tool

namespace Format

def help : String :=
  "GDScript formatter\n\n"
    ++ "Uncompromising GDScript code formatter. The only configurable thing is\n"
    ++ "max line length allowed and tabs/spaces indent. The rest will be taken\n"
    ++ "care of by gdformat in a one, consistent way.\n\n"
    ++ "Usage:\n"
    ++ "  gdformat <path>... [options]\n"
    ++ "  gdformat --dump-default-config\n\n"
    ++ "Options:\n"
    ++ "  -c --check                 Don't write the files back,\n"
    ++ "                             just check if formatting is possible.\n"
    ++ "  -d --diff                  Don't write the files back,\n"
    ++ "                             just suggest formatting changes\n"
    ++ "                             (implies --check).\n"
    ++ "  -f --fast                  Skip safety checks.\n"
    ++ "  -l --line-length=<int>     How many characters per line to allow.\n"
    ++ "  -s --use-spaces=<int>      Use spaces for indent instead of tabs.\n"
    ++ "  --single-blank-lines       Use single blank lines around all blocks\n"
    ++ "  -h --help                  Show this screen.\n"
    ++ "  --version                  Show version.\n"
    ++ "  --dump-default-config      Dump default config to 'gdformatrc' file.\n\n"
    ++ "Examples:\n"
    ++ "  echo 'pass' | gdformat -   # reads from STDIN"

def dump : Usage.Spec := Usage.flag none "--dump-default-config"

def options : List Usage.Spec :=
  [Usage.flag (some "-c") "--check", Usage.flag (some "-d") "--diff",
   Usage.flag (some "-f") "--fast", Usage.valued (some "-l") "--line-length",
   Usage.valued (some "-s") "--use-spaces", Usage.flag none "--single-blank-lines",
   Usage.helpSpec, Usage.versionSpec]

def usage : Usage where
  name := "gdformat"
  help := help
  synopsis := "Usage:\n  gdformat <path>... [options]\n  gdformat --dump-default-config"
  known := options ++ [dump]
  forms := [⟨none, [], .many, options⟩, ⟨none, [dump], .zero, []⟩]

def fileName : String := "gdformatrc"

def defaults : Configuration :=
  [("excluded_directories".toList, .set [".git".toList]),
   ("safety_checks".toList, .null),
   ("use_spaces".toList, .null),
   ("single_blank_lines".toList, .bool false),
   ("line_length".toList, .number 100)]

/-! ## Options -/

structure Options where
  /-- How to format. A configuration that does not fit is noticed at the first text. -/
  style : Except Fault GDWorkbench.Format.Style
  /-- Whether results are checked before they are used. -/
  isChecked : Bool

def integerOption (given : Option Text) (configured : Configuration.Value) :
    Except Crash Configuration.Value :=
  match given with
  | some (c :: text) =>
    match Text.integer? (c :: text) with
    | some n => .ok (.number n)
    | none => .error (.fault .badNumber)
  | _ => .ok configured

def styleOf (width spaces : Configuration.Value) (blanks : Nat) :
    Except Fault GDWorkbench.Format.Style :=
  match width.number?, spaces, spaces.number? with
  | some width, .null, _ => .ok ⟨width, none, blanks⟩
  | some width, _, some spaces =>
    if spaces < 0x8000000000000000 then .ok ⟨width, some spaces, blanks⟩ else .error .tooLarge
  | _, _, _ => .error .wrongValue

def optionsOf (given : List Usage.Item) (c : Configuration) : Except Crash Options := do
  let width ← integerOption (Usage.value? given "--line-length") (c.get "line_length")
  let spaces ← integerOption (Usage.value? given "--use-spaces") (c.get "use_spaces")
  let isNarrow := Usage.has given "--single-blank-lines" || (c.get "single_blank_lines").isTrue
  let isChecked := !Usage.has given "--fast" && (c.get "safety_checks").isTrue
  let blanks := if isNarrow then GDWorkbench.Format.narrowBlanks else GDWorkbench.Format.wideBlanks
  return ⟨styleOf width spaces blanks, isChecked⟩

/-! ## One text -/

/-- What becomes of a text. -/
inductive Verdict where
  | unchanged
  | changed (formatted : Text)
  /-- Nothing, for the reason given. -/
  | refused (message : Text)
  deriving Repr

def objectionText (name : Text) : Violation → Text
  | .treeChanged _ => name ++ ": Failed to format, formatted code parse tree differs".toList
  | .unstable _ => name ++ ": Failed to format, formatted code is unstable".toList
  | .commentLost _ =>
    name ++ ": Failed to format,some comments are missing in formatted code".toList

def judge (style : GDWorkbench.Format.Style) (name code formatted : Text) : Except Fault Verdict :=
  match Safety.check style code formatted with
  | .ok () => .ok (.changed formatted)
  | .error (.violation v) => .ok (.refused (objectionText name v))
  | .error (.failure (.invalid e)) => .ok (.refused (refusal name (e.report formatted)))
  | .error (.failure (.fault f)) => .error f

def formatted (style : Except Fault GDWorkbench.Format.Style) (code : Text) : Except Failure Text := do
  match style with
  | .ok style => format style code
  | .error f =>
    let _ ← Failure.ofSyntax (parse code)
    let _ ← Failure.ofSyntax (parseComments code)
    .error (.fault f)

def formatText (o : Options) (name code : Text) : Except Fault Verdict := do
  match formatted o.style code with
  | .error (.invalid e) => return .refused (refusal name (e.report code))
  | .error (.fault f) => .error f
  | .ok formatted =>
    if formatted = code then return .unchanged
    if o.isChecked then judge (← o.style) name code formatted else return .changed formatted

/-! ## Files -/

structure State where
  progress : Progress
  /-- The files that change, and those that cannot be formatted, each once. -/
  changed : List Text
  failed : List Text

def addName (name : Text) (names : List Text) : List Text :=
  if names.contains name then names else names ++ [name]

def State.fail (s : State) (name message : Text) : State :=
  { s with progress := s.progress.complain message, failed := addName name s.failed }

def unopenedText (name : Text) (e : OpenError) : Text :=
  "Cannot open file ".toList ++ Text.quoted name ++ ": ".toList ++ e.message

def visit (session : Session) (access : Access) (o : Options)
    (change : Text → Text → State → State) (s : State) (name : Text) : Except Crash State :=
  match session.opened access s.progress.disk name with
  | .error e => .ok (s.fail name (unopenedText name e))
  | .ok code =>
    match formatText o name code with
    | .error f => .error (.fault f)
    | .ok .unchanged => .ok s
    | .ok (.refused message) => .ok (s.fail name message)
    | .ok (.changed formatted) =>
      let s := change code formatted s
      .ok { s with changed := addName name s.changed }

/-- A file that may be replaced is opened for updating, also if it turns out to stay as it is. -/
def reformat (session : Session) (o : Options) (s : State) (name : Text) : Except Crash State :=
  visit session .updating o (fun _ formatted s =>
    let progress := s.progress.say ("reformatted ".toList ++ name)
    { s with progress := { progress with disk := session.write progress.disk name formatted } }) s name

def tell (session : Session) (o : Options) (showsDiff : Bool) (s : State) (name : Text) :
    Except Crash State :=
  visit session .reading o (fun code formatted s =>
    let progress := s.progress.complain ("would reformat ".toList ++ name)
    if showsDiff then
      let diff := Diff.unified name [] (Text.lines code) (Text.lines formatted)
      { s with progress := progress.complain (Text.join ['\n'] diff) }
    else { s with progress }) s name

/-! ## Runs -/

def files (n : Nat) : Text :=
  Text.ofNat n ++ (if n = 1 then " file" else " files").toList

def finishReformat (total : Nat) : State × Option Crash → Outcome
  | (s, some crash) => s.progress.crashed crash
  | (s, none) =>
    let n := s.changed.length
    (s.progress.say (files n ++ " reformatted, ".toList ++ files (total - n)
      ++ " left unchanged.".toList)).done (if s.failed.isEmpty then 0 else 1)

def finishTell (total : Nat) : State × Option Crash → Outcome
  | (s, some crash) => s.progress.crashed crash
  | (s, none) =>
    let n := s.changed.length
    if n = 0 then
      (s.progress.say (files total ++ " would be left unchanged".toList)).done
        (if s.failed.isEmpty then 0 else 1)
    else
      (s.progress.complain (files n ++ " would be reformatted, ".toList ++ files (total - n)
        ++ " would be left unchanged.".toList)).done 1

def formatInput (session : Session) (o : Options) : Outcome :=
  let code := Session.withLineFeeds session.input
  let start := session.start
  match formatText o inputName code with
  | .error f => start.crashed (.fault f)
  | .ok (.refused message) => (start.complain message).done 1
  | .ok .unchanged => { start with output := code }.done 0
  | .ok (.changed formatted) => { start with output := formatted }.done 0

inductive Mode where
  | reformat
  | check
  | diff
  deriving DecidableEq, Repr

def modeOf (given : List Usage.Item) : Mode :=
  if Usage.has given "--diff" then .diff
  else if Usage.has given "--check" then .check
  else .reformat

def runFiles (session : Session) (o : Options) (mode : Mode) (names : List Text) : Outcome :=
  let start : State := ⟨session.start, [], []⟩
  match mode with
  | .reformat => finishReformat names.length (Progress.visitAll (reformat session o) start names)
  | .check => finishTell names.length (Progress.visitAll (tell session o false) start names)
  | .diff => finishTell names.length (Progress.visitAll (tell session o true) start names)

def runWith (session : Session) (paths : List Text) (given : List Usage.Item) (c : Configuration) :
    Outcome :=
  let prepared : Except Crash (List Text × Options) := do
    let excluded ← excludedFolders c
    return (session.expandAll excluded paths, ← optionsOf given c)
  match prepared with
  | .error crash => session.start.crashed crash
  | .ok (names, o) =>
    if names = [['-']] then formatInput session o else runFiles session o (modeOf given) names

def run (session : Session) (paths : List Text) (given : List Usage.Item) : Outcome :=
  if Usage.has given "--dump-default-config" then writeDefaults session fileName defaults
  else
    match (findConfiguration session fileName defaults).configuration with
    | .error crash => session.start.crashed crash
    | .ok c => runWith session paths given (c.withDefaults defaults)

end Format

end GDWorkbench.Tool

import GDWorkbench.Proofs.Tool.Checking
import GDWorkbench.Proofs.Tool.Rounds

/-!
Files that are no GDScript among others. A tool that lints or formats reports each of them, does its
job at all other files, and ends with status 1. The tool that parses does so too, unless the layout
of a file is at fault: it breaks off there, and what comes after is not looked at.
-/

namespace GDWorkbench.Tool

open List Progress

variable {fault : Layout.Fault}

/-! ## Broken files -/

/-- The file can be opened for what is needed, but its text cannot be parsed. -/
def IsBroken (session : Session) (access : Access) (name : Text) : Prop :=
  ∃ code e, session.opened access session.disk name = .ok code ∧ GDWorkbench.parse code = .error e

/-- A file with lines that are not indented as any block. -/
def IsMisaligned (session : Session) (access : Access) (name : Text) : Prop :=
  ∃ code fault, session.opened access session.disk name = .ok code ∧
    GDWorkbench.parse code = .error (.layout fault)

section Broken

variable {file : Text} {p : Progress} {o : Options} {mode : Mode} {display : Parse.Display}
  {config : GDWorkbench.Lint.Config}

variable {session : Session} {disk : Disk} {name code : Text} {e : SyntaxError}

section

variable (h : GDWorkbench.parse code = .error e)

include h

namespace Format

theorem formatText_of_broken (o : Options) (name : Text) :
    formatText o name code = .ok (.refused (refusal name (e.report code))) := by
  have hformatted : formatted o.style code = .error (.invalid e) := by
    unfold formatted
    cases o.style with
    | error f =>
      rw [h]
      rfl
    | ok style =>
      dsimp only
      rw [GDWorkbench.format, h]
      rfl
  unfold formatText
  rw [hformatted]
  rfl

theorem visitIn_of_broken (o : Options) (mode : Mode) (s : State)
    (hopened : session.opened mode.access s.progress.disk name = .ok code) :
    visitIn session o mode s name = .ok (s.fail name (refusal name (e.report code))) := by
  obtain ⟨change, hvisit, -⟩ := exists_change session o mode name
  rw [hvisit]
  simp only [visit, hopened, formatText_of_broken h o name]

end Format

theorem Lint.visit_of_broken (config : GDWorkbench.Lint.Config) (s : Lint.State)
    (hread : session.read s.progress.disk name = .ok code) :
    Lint.visit session config s name =
      .ok ⟨s.progress.complain (refusal name (e.report code)), s.problems + 1⟩ := by
  have hlint : GDWorkbench.lint config code = .error (.invalid e) := by
    rw [GDWorkbench.lint, h]
    rfl
  simp only [visit, hread, visitText, hlint]

namespace Parse

theorem visit_of_broken (display : Display) (s : State)
    (hread : session.read s.progress.disk name = .ok code) (he : ∀ fault, e ≠ .layout fault) :
    visit session display s name =
      .ok ⟨s.progress.complain (refusal name (e.report code)), false⟩ := by
  cases e with
  | layout fault => exact absurd rfl (he fault)
  | token | character => simp only [visit, hread, visitText, h]

omit h in
theorem visit_of_misaligned (display : Display) (s : State)
    (hread : session.read s.progress.disk name = .ok code)
    (h : GDWorkbench.parse code = .error (.layout fault)) :
    visit session display s name = .error (.invalid (.layout fault)) := by
  simp only [visit, hread, visitText, h]

end Parse

/-! ## Visits of broken files -/

namespace Job

def report (disk : Disk) (name code : Text) (e : SyntaxError) : Progress :=
  (fresh disk).complain (refusal name (e.report code))

theorem alone_of_broken {job : Job} (hopened : session.opened job.access disk name = .ok code)
    (hsurvives : job.tool = .parse → ∀ fault, e ≠ .layout fault) :
    job.alone session disk name = .ok (report disk name code e) := by
  cases job with
  | parse display =>
    rw [alone, Parse.visit_of_broken h display ⟨.fresh disk, true⟩ hopened (hsurvives rfl)]
    rfl
  | lint config log =>
    rw [alone, Lint.visit_of_broken h config ⟨.fresh disk, 0⟩ hopened]
    rfl
  | format o mode =>
    rw [alone, Format.visitIn_of_broken h o mode _ hopened]
    rfl

omit h in
theorem alone_of_misaligned {job : Job} (htool : job.tool = .parse)
    (hopened : session.opened job.access disk name = .ok code)
    (h : GDWorkbench.parse code = .error (.layout fault)) :
    job.alone session disk name = .error (.invalid (.layout fault)) := by
  cases job with
  | parse display =>
    rw [alone, Parse.visit_of_misaligned display ⟨.fresh disk, true⟩ hopened h]
    rfl
  | lint | format => cases htool

end Job

/-! ## Broken files stay as they are -/

omit h in
theorem opened_write_of_ne {access : Access} {content : Text} {p : Path}
    (hp : session.locate name ≠ some p) (hfile : session.locate file = some p)
    (hopened : session.opened access disk name = .ok code) :
    session.opened access (session.write disk file content) name = .ok code := by
  obtain ⟨hread, hunlocked⟩ := Session.opened_eq_ok_iff.mp hopened
  obtain ⟨q, text, hq, htext, rfl⟩ := Session.read_eq_ok hread
  have hne : p ≠ q := fun hsame => hp (hsame ▸ hq)
  have hkept : (disk.write p content).file? q = some text := by
    rw [Disk.file?_write, if_neg hne, htext]
  rw [Session.write_of_locate hfile, Session.opened_eq_ok_iff, Session.isLocked_eq hq hkept,
    Disk.locked_write, ← Session.isLocked_eq hq htext]
  refine ⟨?_, hunlocked⟩
  rw [Session.read, hq]
  simp only [Disk.read_eq_ok_iff.mpr hkept, Except.map]

namespace Format

theorem opened_reformat {s t : State}
    (hopened : session.opened .updating s.progress.disk name = .ok code)
    (hvisit : reformat session o s file = .ok t) :
    session.opened .updating t.progress.disk name = .ok code := by
  rcases visit_eq_ok hvisit with ⟨-, rfl⟩ | ⟨-, message, rfl⟩ | ⟨text, result, htext, hchanged, rfl⟩
  · exact hopened
  · exact hopened
  · have hread := (Session.opened_eq_ok_iff.mp htext).1
    obtain ⟨p, -, hp, -, -⟩ := Session.read_eq_ok hread
    refine opened_write_of_ne (fun hsame => ?_) hp hopened
    -- Another name of the broken file leads to a text that is refused.
    have hcode : session.read s.progress.disk file = .ok code := by
      rw [← (Session.opened_eq_ok_iff.mp hopened).1, Session.read, Session.read, hp, hsame]
    obtain rfl : text = code := Except.ok.inj (hread.symm.trans hcode)
    cases hchanged.symm.trans (formatText_of_broken h o file)

theorem opened_visitIn {s t : State}
    (hopened : session.opened mode.access s.progress.disk name = .ok code)
    (hvisit : visitIn session o mode s file = .ok t) :
    session.opened mode.access t.progress.disk name = .ok code := by
  cases mode with
  | reformat => exact opened_reformat h hopened hvisit
  | check | diff =>
    rw [(tell_eq_ok hvisit).1]
    exact hopened

end Format

end

/-- A visit leaves the disk alone, and a run that has failed stays so. -/
theorem Parse.visit_keeps {s t : Parse.State} (hvisit : Parse.visit session display s file = .ok t) :
    t.progress.disk = s.progress.disk ∧ (s.succeeded = false → t.succeeded = false) := by
  unfold visit at hvisit
  split at hvisit
  · cases hvisit
    exact ⟨rfl, fun _ => rfl⟩
  · unfold visitText at hvisit
    split at hvisit
    · cases hvisit
    · cases hvisit
      exact ⟨rfl, fun _ => rfl⟩
    · split at hvisit <;> cases hvisit <;> exact ⟨rfl, id⟩

theorem Lint.visit_keeps {s t : Lint.State} (hvisit : Lint.visit session config s file = .ok t) :
    t.progress.disk = s.progress.disk ∧ (s.problems ≠ 0 → t.problems ≠ 0) := by
  have hfold (problems : List GDWorkbench.Lint.Problem) (p : Progress) :
      (problems.foldl (fun p problem => p.complain (problemText file problem)) p).disk = p.disk := by
    induction problems generalizing p with
    | nil => rfl
    | cons problem problems ih => rw [foldl_cons, ih, complain]
  unfold visit at hvisit
  split at hvisit
  · cases hvisit
    exact ⟨rfl, fun _ => Nat.succ_ne_zero _⟩
  · unfold visitText at hvisit
    split at hvisit
    · cases hvisit
      refine ⟨hfold _ _, fun hs => ?_⟩
      exact Nat.ne_of_gt (Nat.lt_of_lt_of_le (Nat.pos_of_ne_zero hs) (Nat.le_add_right _ _))
    · cases hvisit
      exact ⟨rfl, fun _ => Nat.succ_ne_zero _⟩
    · cases hvisit

theorem Job.opened_alone {job : Job}
    (hopened : session.opened job.access disk name = .ok code)
    (h : GDWorkbench.parse code = .error e) (halone : job.alone session disk file = .ok p) :
    session.opened job.access p.disk name = .ok code := by
  have hmap {σ : Type} {progress : σ → Progress} {x : Except Crash σ} (hx : x.map progress = .ok p) :
      ∃ t, x = .ok t ∧ progress t = p := by
    cases x with
    | error crash => cases hx
    | ok t => exact ⟨t, rfl, Except.ok.inj hx⟩
  cases job with
  | parse display =>
    obtain ⟨t, hvisit, rfl⟩ := hmap halone
    rw [(Parse.visit_keeps hvisit).1]
    exact hopened
  | lint config log =>
    obtain ⟨t, hvisit, rfl⟩ := hmap halone
    rw [(Lint.visit_keeps hvisit).1]
    exact hopened
  | format o mode =>
    obtain ⟨t, hvisit, rfl⟩ := hmap halone
    exact Format.opened_visitIn (s := ⟨.fresh disk, [], []⟩) h hopened hvisit

/-! ## The status -/

theorem Format.failed_visitIn {s t : State}
    (hvisit : visitIn session o mode s file = .ok t) (hs : s.failed ≠ []) : t.failed ≠ [] := by
  obtain ⟨change, hvisitIn, hchange⟩ := exists_change session o mode file
  rw [hvisitIn] at hvisit
  rcases visit_eq_ok hvisit with ⟨-, rfl⟩ | ⟨-, message, rfl⟩ | ⟨code, result, -, -, rfl⟩
  · exact hs
  · exact addName_ne_nil file s.failed
  · exact (hchange code result s).1.symm ▸ hs

section Status

variable {names : List Text} (h : GDWorkbench.parse code = .error e) (hname : name ∈ names)

include h hname

theorem Parse.succeeded_of_broken {t : Parse.State}
    (hread : session.read session.disk name = .ok code)
    (hall : visitAll (Parse.visit session display) ⟨session.start, true⟩ names =
      (t, none)) : t.succeeded = false := by
  refine marked_of_visitAll (fun s => s.succeeded = false)
    (fun s => session.read s.progress.disk name = .ok code)
    (fun s file t hvisit hs => (visit_keeps hvisit).1 ▸ hs)
    (fun s file t hvisit => (visit_keeps hvisit).2) (fun s t hs hvisit => ?_) hall
    (.inr ⟨hread, hname⟩)
  cases e with
  | layout fault => cases (visit_of_misaligned display s hs h).symm.trans hvisit
  | token | character => cases (visit_of_broken h display s hs nofun).symm.trans hvisit; rfl

theorem Lint.problems_of_broken {t : Lint.State} (hp : p.disk = session.disk)
    (hread : session.read session.disk name = .ok code)
    (hall : visitAll (Lint.visit session config) ⟨p, 0⟩ names = (t, none)) :
    t.problems ≠ 0 := by
  refine marked_of_visitAll (fun s => s.problems ≠ 0)
    (fun s => session.read s.progress.disk name = .ok code)
    (fun s file t hvisit hs => (visit_keeps hvisit).1 ▸ hs)
    (fun s file t hvisit => (visit_keeps hvisit).2) (fun s t hs hvisit => ?_) hall
    (.inr ⟨hp ▸ hread, hname⟩)
  cases (visit_of_broken h config s hs).symm.trans hvisit
  exact Nat.succ_ne_zero _

theorem Format.failed_of_broken {t : State}
    (hopened : session.opened mode.access session.disk name = .ok code)
    (hall : visitAll (visitIn session o mode) ⟨session.start, [], []⟩ names =
      (t, none)) : t.failed ≠ [] := by
  refine marked_of_visitAll (fun s => s.failed ≠ [])
    (fun s => session.opened mode.access s.progress.disk name = .ok code)
    (fun s file t hvisit hs => opened_visitIn h hs hvisit)
    (fun s file t hvisit hs => failed_visitIn hvisit hs) (fun s t hs hvisit => ?_) hall
    (.inr ⟨hopened, hname⟩)
  cases (visitIn_of_broken h o mode s hs).symm.trans hvisit
  exact addName_ne_nil name s.failed

/-- A run over files with a broken one among them has status 1, also where it is broken off. -/
theorem Job.status_of_broken (job : Job)
    (hopened : session.opened job.access session.disk name = .ok code) :
    (job.run session names).status = 1 := by
  cases job with
  | parse display =>
    rw [run]
    cases hall : visitAll (Parse.visit session display) ⟨session.start, true⟩ names with
    | mk t ending =>
      cases ending with
      | some crash => rfl
      | none =>
        rw [Parse.finish, Parse.succeeded_of_broken h hname hopened hall]
        rfl
  | lint config log =>
    rw [run]
    cases hall : visitAll (Lint.visit session config)
        ⟨log.foldl say session.start, 0⟩ names with
    | mk t ending =>
      cases ending with
      | some crash => rfl
      | none =>
        have hproblems : t.problems ≠ 0 :=
          Lint.problems_of_broken h hname (start_disk session (.lint config log)) hopened hall
        rw [Lint.finish]
        split
        · contradiction
        · rfl
  | format o mode =>
    rw [run, Format.runFiles_eq]
    cases hall : visitAll (Format.visitIn session o mode) ⟨session.start, [], []⟩ names with
    | mk t ending =>
      cases ending with
      | some crash => cases mode <;> rfl
      | none =>
        have hfailed : t.failed.isEmpty = false :=
          isEmpty_eq_false_iff.mpr (Format.failed_of_broken h hname hopened hall)
        cases mode with
        | reformat => simp [Format.finishIn, Format.finishReformat, Progress.done, hfailed]
        | check | diff =>
          simp only [Format.finishIn, Format.finishTell, hfailed]
          split <;> rfl

end Status

end Broken

/-! ## Assignments -/

section Assignments

variable {session : Session} {paths names : List Text} {given : List Usage.Item} {job : Job}

namespace Parse

def displayOf (given : List Usage.Item) : Display :=
  if Usage.has given "--pretty" then .pretty
  else if Usage.has given "--verbose" then .verbose
  else .nothing

def assignment (files : List Text) (given : List Usage.Item) : Option (Job × List Text) :=
  if files = [['-']] then none else some (.parse (displayOf given), files)

theorem run_of_assignment (h : assignment paths given = some (job, names)) :
    job.tool = .parse ∧ run session paths given = job.run session names := by
  rw [assignment, Option.ite_none_left_eq_some] at h
  obtain ⟨hinput, h⟩ := h
  cases h
  exact ⟨rfl, if_neg hinput⟩

end Parse

namespace Lint

def assignment (session : Session) (paths : List Text) (given : List Usage.Item) :
    Option (Job × List Text) :=
  let found := findConfiguration session fileName GDWorkbench.Lint.defaults
  let log := if Usage.has given "--verbose" then log session found else []
  if Usage.has given "--dump-default-config" then none
  else do
    let c := (← found.configuration.toOption).withDefaults GDWorkbench.Lint.defaults
    let excluded ← (excludedFolders c).toOption
    return (.lint (.ofConfiguration c) log, session.expandAll excluded paths)

theorem run_of_assignment (h : assignment session paths given = some (job, names)) :
    job.tool = .lint ∧ run session paths given = job.run session names := by
  dsimp only [assignment] at h
  rw [Option.ite_none_left_eq_some] at h
  obtain ⟨hdump, h⟩ := h
  rw [run, if_neg hdump]
  dsimp only
  cases hfound : (findConfiguration session fileName GDWorkbench.Lint.defaults).configuration with
  | error crash =>
    rw [hfound] at h
    cases h
  | ok c =>
    rw [hfound] at h
    dsimp only [runWith]
    cases hexcluded : excludedFolders (c.withDefaults GDWorkbench.Lint.defaults) with
    | error crash => simp [hexcluded, Except.toOption, bind] at h
    | ok excluded =>
      simp only [hexcluded, Except.toOption, bind, Option.bind] at h
      cases h
      exact ⟨rfl, rfl⟩

end Lint

namespace Format

def assignment (session : Session) (paths : List Text) (given : List Usage.Item) :
    Option (Job × List Text) :=
  if Usage.has given "--dump-default-config" then none
  else
    match plan session paths given with
    | .error _ => none
    | .ok (names, o) => if names = [['-']] then none else some (.format o (modeOf given), names)

theorem run_of_assignment (h : assignment session paths given = some (job, names)) :
    job.tool = .format ∧ run session paths given = job.run session names := by
  rw [assignment, Option.ite_none_left_eq_some] at h
  obtain ⟨hdump, h⟩ := h
  rw [run_eq (Bool.not_eq_true _ ▸ hdump)]
  cases hplan : plan session paths given with
  | error crash =>
    rw [hplan] at h
    cases h
  | ok prepared =>
    rw [hplan] at h
    obtain ⟨hinput, h⟩ := Option.ite_none_left_eq_some.mp h
    cases h
    exact ⟨rfl, if_neg hinput⟩

end Format

/-- What a session asks a tool to do at which files. There is nothing to do at files if the command
line does not fit or asks for something else, or if the configuration cannot be used. -/
def assignment (tool : Tool) (session : Session) : Option (Job × List Text) :=
  match tool.usage.reply session.arguments with
  | .fits paths given =>
    match tool with
    | .parse => Parse.assignment paths given
    | .lint => Lint.assignment session paths given
    | .format => Format.assignment session paths given
    | _ => none
  | _ => none

theorem run_of_assignment {tool : Tool} (h : assignment tool session = some (job, names)) :
    job.tool = tool ∧ Tool.run tool session = job.run session names := by
  unfold assignment at h
  unfold Tool.run
  split at h
  · rename_i paths given hreply
    rw [hreply]
    cases tool with
    | parse => exact Parse.run_of_assignment h
    | lint => exact Lint.run_of_assignment h
    | format => exact Format.run_of_assignment h
    | convert | measure => cases h
  · cases h

end Assignments

/-! ## Runs -/

section Runs

variable {v : Visit} {session : Session} {job : Job} {names : List Text}

theorem Job.ending_of_mem {code : Text} {e : SyntaxError}
    (hv : v ∈ job.visits session names)
    (hopened : session.opened job.access session.disk v.name = .ok code)
    (h : GDWorkbench.parse code = .error e) :
    v.ending = job.alone session v.disk v.name ∧
      session.opened job.access v.disk v.name = .ok code :=
  mem_visits (fun disk => session.opened job.access disk v.name = .ok code)
    (fun _ _ _ halone hdisk => opened_alone hdisk h halone) hv hopened

/-- A visit does not break off if visits of files that are not broken do not, and the layout of the
file is not at fault where that matters. -/
theorem Job.exists_ending (hv : v ∈ job.visits session names)
    (hother : ¬ IsBroken session job.access v.name → ∃ p, v.ending = .ok p)
    (haligned : job.tool = .parse → ¬ IsMisaligned session job.access v.name) : ∃ p, v.ending = .ok p := by
  by_cases hbroken : IsBroken session job.access v.name
  · obtain ⟨code, e, hopened, h⟩ := hbroken
    obtain ⟨hending, hfound⟩ := ending_of_mem hv hopened h
    refine ⟨_, hending.trans (alone_of_broken h hfound fun htool fault he => ?_)⟩
    exact haligned htool ⟨code, fault, hopened, he ▸ h⟩
  · exact hother hbroken

theorem Job.visits_append_cons (session : Session) (job : Job) (before : List Text) (name : Text)
    (after : List Text) :
    ∃ next rest, job.visits session (before ++ name :: after) =
      job.visits session before ++ ⟨name, next, job.alone session next name⟩ :: rest :=
  Progress.visits_append_cons (job.alone session) session.disk before name after

theorem Job.crash_eq_none_iff :
    (job.run session names).crash = none ↔ ∀ v ∈ job.visits session names, ∃ p, v.ending = .ok p := by
  rw [(job.run_settles session names).crash_eq, settle_eq_none_iff]

theorem Job.exists_visit (session : Session) (job : Job) {name : Text} (h : name ∈ names) :
    ∃ v ∈ job.visits session names, v.name = name := by
  rw [← map_name_visits (job.alone session) session.disk names] at h
  exact mem_map.mp h

theorem Job.name_of_mem (h : v ∈ job.visits session names) : v.name ∈ names := by
  rw [← map_name_visits (job.alone session) session.disk names]
  exact mem_map_of_mem h

/-- A run over files with a misaligned one among them is broken off by the tool that parses. -/
theorem Job.not_misaligned_of_crash (hdone : (job.run session names).crash = none)
    (htool : job.tool = .parse) {name : Text} (hname : name ∈ names) :
    ¬ IsMisaligned session job.access name := by
  rintro ⟨code, fault, hopened, h⟩
  obtain ⟨v, hv, rfl⟩ := exists_visit session job hname
  obtain ⟨hending, hfound⟩ := ending_of_mem hv hopened h
  obtain ⟨p, hp⟩ := crash_eq_none_iff.mp hdone v hv
  cases hp.symm.trans (hending.trans (alone_of_misaligned htool hfound h))

/-- Everything that is done at a file shows in a run that is not broken off. -/
theorem Job.exists_done (hdone : (job.run session names).crash = none) :
    ∃ (done : List Progress) (output errors : Text),
      (job.visits session names).map (·.ending) = done.map .ok ∧
      (job.run session names).progress =
        let all := done.foldl andThen (job.start session)
        all.andThen ⟨all.disk, output, errors⟩ := by
  obtain ⟨done, hall, hsettle⟩ :=
    Progress.exists_done (p := job.start session) (crash_eq_none_iff.mp hdone)
  have hcloses := job.run_settles session names
  rw [hsettle] at hcloses
  obtain ⟨-, output, errors, hprogress⟩ := hcloses
  exact ⟨done, output, errors, hall, hprogress⟩

/-- The message about a broken file is among those of a run that is not broken off. -/
theorem Job.report_infix {name code : Text} {e : SyntaxError}
    (hdone : (job.run session names).crash = none) (hname : name ∈ names)
    (hopened : session.opened job.access session.disk name = .ok code) (h : GDWorkbench.parse code = .error e) :
    refusal name (e.report code) ++ ['\n'] <:+: (job.run session names).progress.errors := by
  obtain ⟨done, output, errors, hall, hprogress⟩ := exists_done hdone
  obtain ⟨v, hv, rfl⟩ := exists_visit session job hname
  obtain ⟨hending, hfound⟩ := ending_of_mem hv hopened h
  have hreport : v.ending = .ok (report v.disk v.name code e) :=
    hending.trans (alone_of_broken h hfound fun htool fault he =>
      not_misaligned_of_crash hdone htool hname ⟨code, fault, hopened, he ▸ h⟩)
  have hmem : report v.disk v.name code e ∈ done := by
    have hending := mem_map_of_mem (f := (·.ending)) hv
    rw [hall, hreport] at hending
    obtain ⟨q, hq, hsame⟩ := mem_map.mp hending
    exact Except.ok.inj hsame ▸ hq
  rw [hprogress]
  exact (infix_errors_foldl_andThen hmem _).trans (infix_append [] _ errors)

/-- The tool that parses breaks off at the first file that is misaligned. -/
theorem Job.run_of_misaligned {before after : List Text} {name code : Text} (htool : job.tool = .parse)
    (hbefore : ∀ v ∈ job.visits session before, ∃ p, v.ending = .ok p)
    (hopened : session.opened job.access session.disk name = .ok code)
    (h : GDWorkbench.parse code = .error (.layout fault)) :
    job.run session (before ++ name :: after) =
      (settle (job.start session) (job.visits session before)).1.crashed
        (.invalid (.layout fault)) := by
  obtain ⟨next, rest, hvisits⟩ := job.visits_append_cons session before name after
  have hv : ⟨name, next, job.alone session next name⟩ ∈
      job.visits session (before ++ name :: after) := by
    rw [hvisits]
    exact mem_append_right _ mem_cons_self
  have hending := alone_of_misaligned htool (ending_of_mem hv hopened h).2 h
  have hcloses := job.run_settles session (before ++ name :: after)
  rw [hvisits, settle_of_broken hending hbefore] at hcloses
  exact hcloses

/-- Among files of which some are broken, a run that would not break off at the others reports every
broken file, does at each file what it would do at that file alone, and has status 1. The tool that
parses is the exception where a file is misaligned: it breaks off at the first one, after what comes
before it. -/
theorem run_reports_broken_files {tool : Tool} (hassigned : assignment tool session = some (job, names))
    (hbroken : ∃ name ∈ names, IsBroken session job.access name)
    (hothers : ∀ v ∈ job.visits session names, ¬ IsBroken session job.access v.name → ∃ p, v.ending = .ok p) :
    ((Tool.run tool session).crash = none ↔
      ¬ (tool = .parse ∧ ∃ name ∈ names, IsMisaligned session job.access name)) ∧
    (Tool.run tool session).status = 1 ∧
    ((Tool.run tool session).crash = none →
      (∀ name ∈ names, ∀ code e, session.opened job.access session.disk name = .ok code →
        GDWorkbench.parse code = .error e →
          refusal name (e.report code) ++ ['\n'] <:+: (Tool.run tool session).progress.errors) ∧
      ∃ (done : List Progress) (output errors : Text),
        (job.visits session names).map (·.ending) = done.map .ok ∧
        (Tool.run tool session).progress =
          let all := done.foldl Progress.andThen (job.start session)
          all.andThen ⟨all.disk, output, errors⟩) ∧
    ∀ before name after code fault, tool = .parse → names = before ++ name :: after →
      (∀ other ∈ before, ¬ IsMisaligned session job.access other) →
      session.opened job.access session.disk name = .ok code →
      GDWorkbench.parse code = .error (.layout fault) →
        Tool.run tool session =
          (Progress.settle (job.start session) (job.visits session before)).1.crashed
            (.invalid (.layout fault)) := by
  obtain ⟨rfl, hrun⟩ := run_of_assignment hassigned
  rw [hrun]
  refine ⟨⟨?_, ?_⟩, ?_, ?_, ?_⟩
  · rintro hdone ⟨htool, name, hname, hmisaligned⟩
    exact Job.not_misaligned_of_crash hdone htool hname hmisaligned
  · intro haligned
    refine Job.crash_eq_none_iff.mpr fun v hv => ?_
    refine Job.exists_ending hv (hothers v hv) fun htool hmisaligned => ?_
    exact haligned ⟨htool, v.name, Job.name_of_mem hv, hmisaligned⟩
  · obtain ⟨name, hname, code, e, hopened, h⟩ := hbroken
    exact job.status_of_broken h hname hopened
  · intro hdone
    exact ⟨fun name hname code e hopened h => Job.report_infix hdone hname hopened h,
      Job.exists_done hdone⟩
  · rintro before name after code fault htool rfl haligned hopened h
    refine Job.run_of_misaligned htool (fun v hv => ?_) hopened h
    have hmem : v ∈ job.visits session (before ++ name :: after) := by
      obtain ⟨next, rest, hvisits⟩ := job.visits_append_cons session before name after
      rw [hvisits]
      exact mem_append_left _ hv
    exact Job.exists_ending hv (hothers v hmem) fun _ => haligned v.name (Job.name_of_mem hv)

theorem isBroken_of_isOk {access : Access} {name : Text} (code : Text)
    (hopened : session.opened access session.disk name = .ok code)
    (h : (GDWorkbench.parse code).isOk = false) : IsBroken session access name := by
  cases hparse : GDWorkbench.parse code with
  | error e => exact ⟨code, e, hopened, hparse⟩
  | ok t => simp [hparse, Except.isOk, Except.toBool] at h

end Runs

/-- A folder with two files, and a command line that names them. -/
def pair (first second : String) : Session where
  disk := ⟨[(["a.gd".toList], first.toList), (["b.gd".toList], second.toList)], [], []⟩
  base := "/home".toList
  folder := []
  arguments := ["a.gd".toList, "b.gd".toList]
  input := []

/-- The first file is broken, and the second one is not formatted. -/
def oneBroken : Session :=
  pair "var\n" "var  x\n"

theorem run_reports_broken_files_oneBroken :
    IsBroken oneBroken .updating "a.gd".toList ∧ (Tool.run .format oneBroken).crash = none ∧
      (Tool.run .format oneBroken).status = 1 ∧
      (Tool.run .format oneBroken).progress.disk.file? ["b.gd".toList] =
        some "var x\n".toList := by
  have hassigned : assignment .format oneBroken =
      some (.format ⟨.ok ⟨100, none, 2⟩, false⟩ .reformat, oneBroken.arguments) := by rfl
  have hbroken : IsBroken oneBroken .updating "a.gd".toList :=
    isBroken_of_isOk "var\n".toList rfl (by decide +kernel)
  have hall : ((Job.format ⟨.ok ⟨100, none, 2⟩, false⟩ .reformat).visits oneBroken
      oneBroken.arguments).all (·.ending.isOk) = true := by decide +kernel
  have hothers : ∀ v ∈ (Job.format ⟨.ok ⟨100, none, 2⟩, false⟩ .reformat).visits oneBroken
      oneBroken.arguments, ∃ p, v.ending = .ok p := by
    intro v hv
    have hok := all_eq_true.mp hall v hv
    cases hending : v.ending with
    | ok p => exact ⟨p, rfl⟩
    | error crash => simp [hending, Except.isOk, Except.toBool] at hok
  obtain ⟨hcrash, hstatus, -⟩ := run_reports_broken_files hassigned
    ⟨_, mem_cons_self, hbroken⟩ fun v hv _ => hothers v hv
  refine ⟨hbroken, hcrash.mpr ?_, hstatus, by decide +kernel⟩
  rintro ⟨⟨⟩, -⟩

def twoBroken : Session :=
  pair "func f():\n\t\tpass\n\tpass\n" "var\n"

/-- The second file is not reported. -/
theorem run_parse_stops_at_misaligned :
    IsBroken twoBroken .reading "a.gd".toList ∧ IsBroken twoBroken .reading "b.gd".toList ∧
      (Tool.run .parse twoBroken).crash.isSome = true ∧
      (Tool.run .parse twoBroken).progress.errors = [] :=
  ⟨isBroken_of_isOk "func f():\n\t\tpass\n\tpass\n".toList rfl (by decide +kernel),
    isBroken_of_isOk "var\n".toList rfl (by decide +kernel), by decide +kernel, by decide +kernel⟩

end GDWorkbench.Tool

import GDWorkbench.Proofs.Session
import GDWorkbench.Tool

/-!
Runs as rounds of visits. What a tool does at a file depends on the disk it finds and on nothing that
it has said or noted before, so a run is made of what the tool does at each file alone. `settle` puts
these parts together up to the first one that breaks off, and `Job.run_settles` says that a run of a
tool comes to that.
-/

namespace GDWorkbench

open List

namespace Progress

/-! ## One thing after another -/

def fresh (disk : Disk) : Progress :=
  ⟨disk, [], []⟩

def andThen (p q : Progress) : Progress :=
  ⟨q.disk, p.output ++ q.output, p.errors ++ q.errors⟩

@[simp]
theorem fresh_disk (disk : Disk) : (fresh disk).disk = disk :=
  rfl

@[simp]
theorem andThen_fresh (p : Progress) : p.andThen (fresh p.disk) = p := by
  simp [andThen, fresh]

@[simp]
theorem andThen_say (p q : Progress) (line : Text) :
    p.andThen (q.say line) = (p.andThen q).say line := by
  simp [andThen, say]

@[simp]
theorem andThen_complain (p q : Progress) (line : Text) :
    p.andThen (q.complain line) = (p.andThen q).complain line := by
  simp [andThen, complain]

theorem andThen_foldl_complain {α : Type} (line : α → Text) (xs : List α) (p q : Progress) :
    p.andThen (xs.foldl (fun r x => r.complain (line x)) q) =
      xs.foldl (fun r x => r.complain (line x)) (p.andThen q) := by
  induction xs generalizing q with
  | nil => rfl
  | cons x xs ih => rw [foldl_cons, ih, andThen_complain, foldl_cons]

theorem errors_foldl_andThen (done : List Progress) (p : Progress) :
    (done.foldl andThen p).errors = p.errors ++ done.flatMap (·.errors) := by
  induction done generalizing p with
  | nil => simp
  | cons q done ih =>
    rw [foldl_cons, ih, flatMap_cons, ← append_assoc]
    rfl

theorem infix_errors_foldl_andThen {done : List Progress} {q : Progress} (h : q ∈ done)
    (p : Progress) : q.errors <:+: (done.foldl andThen p).errors := by
  rw [errors_foldl_andThen]
  obtain ⟨before, rest, rfl⟩ := append_of_mem h
  refine ⟨p.errors ++ before.flatMap (·.errors), rest.flatMap (·.errors), ?_⟩
  simp

/-! ## Visits -/

structure Visit where
  name : Text
  /-- The disk that the visit finds. -/
  disk : Disk
  ending : Except Crash Progress

/-- What is done at each file in turn. A visit that breaks off leaves the disk as it was. -/
def visits (alone : Disk → Text → Except Crash Progress) : Disk → List Text → List Visit
  | _, [] => []
  | disk, name :: names =>
    let next := match alone disk name with
      | .ok p => p.disk
      | .error _ => disk
    ⟨name, disk, alone disk name⟩ :: visits alone next names

def settle : Progress → List Visit → Progress × Option Crash
  | p, [] => (p, none)
  | p, v :: rest =>
    match v.ending with
    | .ok q => settle (p.andThen q) rest
    | .error crash => (p, some crash)

section Settle

variable {p : Progress} {all : List Visit}

theorem settle_eq_none_iff : (settle p all).2 = none ↔ ∀ v ∈ all, ∃ q, v.ending = .ok q := by
  induction all generalizing p with
  | nil => simp [settle]
  | cons v rest ih =>
    rw [forall_mem_cons, settle]
    cases v.ending with
    | ok q => simpa using ih
    | error crash => simp

theorem exists_done (h : ∀ v ∈ all, ∃ q, v.ending = .ok q) :
    ∃ done : List Progress, all.map (·.ending) = done.map .ok ∧ settle p all = (done.foldl andThen p, none) := by
  induction all generalizing p with
  | nil => exact ⟨[], rfl, rfl⟩
  | cons v rest ih =>
    obtain ⟨⟨q, hq⟩, hrest⟩ := forall_mem_cons.mp h
    obtain ⟨done, hdone, hsettle⟩ := ih (p := p.andThen q) hrest
    refine ⟨q :: done, ?_, ?_⟩
    · rw [map_cons, hq, hdone, map_cons]
    · rw [settle, hq]
      exact hsettle

theorem settle_of_broken {before after : List Visit} {v : Visit} {crash : Crash}
    (hv : v.ending = .error crash) (h : ∀ v ∈ before, ∃ q, v.ending = .ok q) :
    settle p (before ++ v :: after) = ((settle p before).1, some crash) := by
  induction before generalizing p with
  | nil => simp [settle, hv]
  | cons u before ih =>
    obtain ⟨⟨q, hq⟩, hbefore⟩ := forall_mem_cons.mp h
    rw [cons_append, settle, settle, hq]
    exact ih hbefore

end Settle

section Visits

variable {alone : Disk → Text → Except Crash Progress} {disk : Disk} {names : List Text} {v : Visit}

theorem map_name_visits (alone : Disk → Text → Except Crash Progress) (disk : Disk)
    (names : List Text) : (visits alone disk names).map (·.name) = names := by
  induction names generalizing disk with
  | nil => rfl
  | cons name names ih => rw [visits, map_cons, ih]

/-- What holds of the first disk and is kept by every visit holds of the disk that a visit finds. -/
theorem mem_visits (Kept : Disk → Prop)
    (hkept : ∀ disk name p, alone disk name = .ok p → Kept disk → Kept p.disk)
    (h : v ∈ visits alone disk names) (hdisk : Kept disk) :
    v.ending = alone v.disk v.name ∧ Kept v.disk := by
  induction names generalizing disk with
  | nil => cases h
  | cons name names ih =>
    rcases mem_cons.mp h with rfl | h
    · exact ⟨rfl, hdisk⟩
    · refine ih h ?_
      cases halone : alone disk name with
      | ok p => exact hkept disk name p halone hdisk
      | error crash => exact hdisk

theorem visits_append_cons (alone : Disk → Text → Except Crash Progress) (disk : Disk)
    (before : List Text) (name : Text) (after : List Text) :
    ∃ next rest, visits alone disk (before ++ name :: after) =
      visits alone disk before ++ ⟨name, next, alone next name⟩ :: rest := by
  induction before generalizing disk with
  | nil => exact ⟨disk, _, rfl⟩
  | cons first before ih =>
    obtain ⟨next, rest, hrest⟩ := ih _
    exact ⟨next, rest, congrArg _ hrest⟩

end Visits

/-! ## Visits that depend on the disk alone -/

section Separate

variable {σ : Type} {progress : σ → Progress} {visit : σ → Text → Except Crash σ}
  {alone : Disk → Text → Except Crash Progress}

/-- A visit does what it does from a fresh start with the same disk. -/
def Separate (progress : σ → Progress) (visit : σ → Text → Except Crash σ)
    (alone : Disk → Text → Except Crash Progress) : Prop :=
  ∀ s name, (visit s name).map progress = (alone (progress s).disk name).map (progress s).andThen

theorem Separate.exists_of_visit (h : Separate progress visit alone) {s t : σ} {name : Text}
    (hvisit : visit s name = .ok t) :
    ∃ q, alone (progress s).disk name = .ok q ∧ progress t = (progress s).andThen q := by
  have hboth := h s name
  rw [hvisit] at hboth
  cases halone : alone (progress s).disk name with
  | error crash =>
    rw [halone] at hboth
    cases hboth
  | ok q =>
    rw [halone] at hboth
    exact ⟨q, rfl, Except.ok.inj hboth⟩

theorem Separate.visitAll (h : Separate progress visit alone) (s : σ) (names : List Text) :
    (progress (visitAll visit s names).1, (visitAll visit s names).2) =
      settle (progress s) (visits alone (progress s).disk names) := by
  induction names generalizing s with
  | nil => rfl
  | cons name names ih =>
    have hvisit := h s name
    rw [Progress.visitAll, visits, settle]
    cases hs : visit s name with
    | ok t =>
      obtain ⟨q, halone, ht⟩ := h.exists_of_visit hs
      have hrest := ih t
      rw [ht] at hrest
      rw [halone]
      exact hrest
    | error crash =>
      rw [hs] at hvisit
      cases halone : alone (progress s).disk name with
      | ok q =>
        rw [halone] at hvisit
        cases hvisit
      | error crash' =>
        rw [halone] at hvisit
        cases hvisit
        rfl

/-- A mark that is set at one of the files, and never taken away, is there at the end. -/
theorem marked_of_visitAll (Marked Kept : σ → Prop) {name : Text} {names : List Text} {s t : σ}
    (hkeeps : ∀ s file t, visit s file = .ok t → Kept s → Kept t)
    (hstays : ∀ s file t, visit s file = .ok t → Marked s → Marked t)
    (hmarks : ∀ s t, Kept s → visit s name = .ok t → Marked t)
    (h : Progress.visitAll visit s names = (t, none)) (hs : Marked s ∨ Kept s ∧ name ∈ names) :
    Marked t := by
  induction names generalizing s with
  | nil =>
    cases h
    exact hs.resolve_right fun hname => nomatch hname.2
  | cons file names ih =>
    rw [Progress.visitAll] at h
    cases hvisit : visit s file with
    | error crash =>
      rw [hvisit] at h
      cases h
    | ok u =>
      rw [hvisit] at h
      refine ih h ?_
      rcases hs with hs | ⟨hs, hname⟩
      · exact .inl (hstays s file u hvisit hs)
      · rcases mem_cons.mp hname with rfl | hname
        · exact .inl (hmarks s u hs hvisit)
        · exact .inr ⟨hkeeps s file u hvisit hs, hname⟩

end Separate

end Progress

namespace Tool

/-! ## Jobs -/

/-- What a tool is to do at files, once its command line and configuration have been read. -/
inductive Job where
  | parse (display : Parse.Display)
  /-- The lines are said before anything else. -/
  | lint (config : GDWorkbench.Lint.Config) (log : List Text)
  | format (o : Format.Options) (mode : Format.Mode)

namespace Format

/-- What a mode opens files for. -/
def Mode.access : Mode → Access
  | .reformat => .updating
  | .check | .diff => .reading

def visitIn (session : Session) (o : Options) : Mode → State → Text → Except Crash State
  | .reformat => reformat session o
  | .check => tell session o false
  | .diff => tell session o true

def finishIn : Mode → Nat → State × Option Crash → Outcome
  | .reformat => finishReformat
  | .check | .diff => finishTell

theorem runFiles_eq (session : Session) (o : Options) (mode : Mode) (names : List Text) :
    runFiles session o mode names = finishIn mode names.length
      (Progress.visitAll (visitIn session o mode) ⟨session.start, [], []⟩ names) := by
  cases mode <;> rfl

/-- The visits of all modes are alike but for what files are opened for and what is done with a result.
That adds to what has been said, whatever it is, and notes no failure. -/
theorem exists_change (session : Session) (o : Options) (mode : Mode) (name : Text) :
    ∃ change : Text → Text → State → State,
      (∀ s, visitIn session o mode s name = visit session mode.access o change s name) ∧
      ∀ code result s, (change code result s).failed = s.failed ∧
        (change code result s).progress = s.progress.andThen
          (change code result ⟨.fresh s.progress.disk, [], []⟩).progress := by
  cases mode with
  | reformat =>
    refine ⟨_, fun _ => rfl, fun code result s => ⟨rfl, ?_⟩⟩
    simp [Progress.andThen, Progress.say, Progress.fresh]
  | check | diff => exact ⟨_, fun _ => rfl, fun code result s => ⟨rfl, by simp⟩⟩

end Format

namespace Job

def tool : Job → Tool
  | .parse _ => .parse
  | .lint _ _ => .lint
  | .format _ _ => .format

/-- What a job opens files for. -/
def access : Job → Access
  | .parse _ | .lint _ _ => .reading
  | .format _ mode => mode.access

def alone (session : Session) : Job → Disk → Text → Except Crash Progress
  | .parse display, disk, name =>
    (Parse.visit session display ⟨.fresh disk, true⟩ name).map (·.progress)
  | .lint config _, disk, name =>
    (Lint.visit session config ⟨.fresh disk, 0⟩ name).map (·.progress)
  | .format o mode, disk, name =>
    (Format.visitIn session o mode ⟨.fresh disk, [], []⟩ name).map (·.progress)

def start (session : Session) : Job → Progress
  | .lint _ log => log.foldl Progress.say session.start
  | _ => session.start

def visits (session : Session) (job : Job) (names : List Text) : List Progress.Visit :=
  Progress.visits (job.alone session) session.disk names

def run (session : Session) (names : List Text) : Job → Outcome
  | .parse display =>
    Parse.finish (Progress.visitAll (Parse.visit session display) ⟨session.start, true⟩ names)
  | .lint config log =>
    Lint.finish (Progress.visitAll (Lint.visit session config)
      ⟨log.foldl Progress.say session.start, 0⟩ names)
  | .format o mode => Format.runFiles session o mode names

section Separate

variable (session : Session)

theorem start_disk (job : Job) : (job.start session).disk = session.disk := by
  cases job with
  | parse | format => rfl
  | lint config log =>
    have hsay (p : Progress) : (log.foldl Progress.say p).disk = p.disk := by
      induction log generalizing p with
      | nil => rfl
      | cons line log ih => rw [foldl_cons, ih, Progress.say]
    exact hsay session.start

theorem separate_parse (display : Parse.Display) :
    Progress.Separate Parse.State.progress (Parse.visit session display)
      ((Job.parse display).alone session) := by
  intro s name
  simp only [alone, Parse.visit, Progress.fresh_disk]
  cases session.read s.progress.disk name with
  | error e => simp [Except.map]
  | ok code =>
    simp only [Parse.visitText]
    split
    · rfl
    · simp [Except.map]
    · split <;> simp [Except.map]

theorem separate_lint (config : GDWorkbench.Lint.Config) (log : List Text) :
    Progress.Separate Lint.State.progress (Lint.visit session config)
      ((Job.lint config log).alone session) := by
  intro s name
  simp only [alone, Lint.visit, Progress.fresh_disk]
  cases session.read s.progress.disk name with
  | error e => simp [Except.map]
  | ok code =>
    simp only [Lint.visitText]
    split
    · simp [Except.map, Progress.andThen_foldl_complain]
    · simp [Except.map]
    · rfl

theorem separate_format (o : Format.Options) (mode : Format.Mode) :
    Progress.Separate Format.State.progress (Format.visitIn session o mode)
      ((Job.format o mode).alone session) := by
  intro s name
  obtain ⟨change, hvisit, hchange⟩ := Format.exists_change session o mode name
  simp only [alone, hvisit, Format.visit, Progress.fresh_disk]
  cases session.opened mode.access s.progress.disk name with
  | error e => simp [Except.map, Format.State.fail]
  | ok code =>
    dsimp only
    split
    · rfl
    · simp [Except.map]
    · simp [Except.map, Format.State.fail]
    · simp [Except.map, ← (hchange code _ s).2]

end Separate

end Job

/-! ## Endings -/

/-- The outcome is what has been done, with closing lines if it was not broken off. -/
def Closes (outcome : Outcome) : Progress × Option Crash → Prop
  | (p, some crash) => outcome = p.crashed crash
  | (p, none) => outcome.crash = none ∧
    ∃ output errors, outcome.progress = p.andThen ⟨p.disk, output, errors⟩

theorem Closes.crash_eq {outcome : Outcome} : ∀ {r}, Closes outcome r → outcome.crash = r.2
  | (_, some _), h => congrArg Outcome.crash h
  | (_, none), h => h.1

theorem closes_done (p : Progress) (status : Nat) : Closes (p.done status) (p, none) :=
  ⟨rfl, [], [], p.andThen_fresh.symm⟩

theorem closes_say (p : Progress) (line : Text) (status : Nat) :
    Closes ((p.say line).done status) (p, none) :=
  ⟨rfl, line ++ ['\n'], [], by simp [Progress.andThen, Progress.say, Progress.done]⟩

theorem closes_complain (p : Progress) (line : Text) (status : Nat) :
    Closes ((p.complain line).done status) (p, none) :=
  ⟨rfl, [], line ++ ['\n'], by simp [Progress.andThen, Progress.complain, Progress.done]⟩

theorem closes_parse : ∀ r, Closes (Parse.finish r) (r.1.progress, r.2)
  | (_, some _) => rfl
  | (s, none) => closes_done s.progress _

theorem closes_lint : ∀ r, Closes (Lint.finish r) (r.1.progress, r.2)
  | (_, some _) => rfl
  | (⟨p, 0⟩, none) => closes_say p _ 0
  | (⟨p, _ + 1⟩, none) => closes_complain p _ 1

theorem closes_format (mode : Format.Mode) (total : Nat) :
    ∀ r, Closes (Format.finishIn mode total r) (r.1.progress, r.2)
  | (s, some crash) => by cases mode <;> rfl
  | (s, none) => by
    have htell : Closes (Format.finishTell total (s, none)) (s.progress, none) := by
      rw [Format.finishTell]
      split
      · exact closes_say s.progress _ _
      · exact closes_complain s.progress _ 1
    cases mode with
    | reformat => exact closes_say s.progress _ _
    | check | diff => exact htell

/-- A run is what is done at each file alone, up to the first visit that breaks off. -/
theorem Job.run_settles (session : Session) (job : Job) (names : List Text) :
    Closes (job.run session names)
      (Progress.settle (job.start session) (job.visits session names)) := by
  rw [visits, ← job.start_disk session]
  cases job with
  | parse display =>
    have hall := (separate_parse session display).visitAll ⟨session.start, true⟩ names
    exact (congrArg (Closes _) hall).mp (closes_parse _)
  | lint config log =>
    have hall := (separate_lint session config log).visitAll
      ⟨log.foldl Progress.say session.start, 0⟩ names
    exact (congrArg (Closes _) hall).mp (closes_lint _)
  | format o mode =>
    have hall := (separate_format session o mode).visitAll ⟨session.start, [], []⟩ names
    rw [run, Format.runFiles_eq]
    exact (congrArg (Closes _) hall).mp (closes_format mode _ _)

end Tool

end GDWorkbench

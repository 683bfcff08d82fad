import GDWorkbench.Proofs.Format.Provenance
import GDWorkbench.Proofs.Tool.Visits

/-!
What a run that only checks tells about the run that reformats. The two visit the same files with the
same options. A check leaves the disk as it is, while a visit of the other run sees what the visits
before it have written. A check has status 0 exactly if every file is settled on the disk as it is
found. The other run has status 0 and replaces no content exactly if besides every file can be opened
for writing. Where no file is visited twice, it replaces none exactly if every file ends with the
content it began with.

A result that was checked for safety stays as it is when it is formatted again, where the wide blanks of
the outermost level are in use, which are those of the check.
-/

namespace GDWorkbench

open List Progress

namespace Session

def asking (s : Session) (arguments : List Text) : Session :=
  { s with arguments }

theorem not_mem_withLineFeeds (t : Text) : '\r' ∉ withLineFeeds t := by
  fun_induction withLineFeeds t with
  | case1 => exact not_mem_nil
  | case2 rest ih => simpa using ih
  | case3 rest _ ih => simpa using ih
  | case4 c rest hpair hreturn ih =>
    rw [mem_cons, not_or]
    exact ⟨fun h => hreturn h.symm, ih⟩

theorem withLineFeeds_of_not_mem : ∀ {t : Text}, '\r' ∉ t → withLineFeeds t = t
  | [], _ => rfl
  | c :: t, h => by
    obtain ⟨hc, ht⟩ := not_or.mp (mt mem_cons.mpr h)
    rw [withLineFeeds, withLineFeeds_of_not_mem ht]
    · rintro rest rfl -
      exact hc rfl
    · rintro rfl
      exact hc rfl

end Session

namespace Tool

namespace Format

variable {session : Session} {access : Access} {o : Options} {disk : Disk} {name : Text}

/-! ## Settled files -/

/-- The file can be opened for what is needed, and its text is its own formatting. -/
def Settled (session : Session) (access : Access) (o : Options) (disk : Disk) (name : Text) : Prop :=
  ∃ code, session.opened access disk name = .ok code ∧ formatted o.style code = .ok code

/-- For updating, a file must not be locked besides. -/
theorem settled_updating_iff :
    Settled session .updating o disk name ↔
      Settled session .reading o disk name ∧ session.isLocked disk name = false := by
  simp only [Settled, Session.opened_eq_ok_iff]
  constructor
  · rintro ⟨code, ⟨hread, hunlocked⟩, hformatted⟩
    exact ⟨⟨code, ⟨hread, nofun⟩, hformatted⟩, hunlocked trivial⟩
  · rintro ⟨⟨code, ⟨hread, -⟩, hformatted⟩, hunlocked⟩
    exact ⟨code, ⟨hread, fun _ => hunlocked⟩, hformatted⟩

theorem judge_ne_unchanged {style : GDWorkbench.Format.Style} {name code result : Text} :
    judge style name code result ≠ .ok .unchanged := by
  unfold judge
  split <;> simp

theorem formatText_eq_unchanged_iff {code : Text} :
    formatText o name code = .ok .unchanged ↔ formatted o.style code = .ok code := by
  cases hformatted : formatted o.style code with
  | error failure =>
    unfold formatText
    rw [hformatted]
    cases failure <;> simp [pure, Except.pure]
  | ok result =>
    obtain ⟨style, hstyle⟩ := exists_style_of_formatted hformatted
    rw [formatText_of_formatted hformatted]
    by_cases hsame : result = code
    · simp [hsame]
    · have hjudge : (o.style >>= (judge · name code result)) = judge style name code result := by
        rw [hstyle]
        rfl
      cases o.isChecked <;> simp [hsame, hjudge, judge_ne_unchanged]

theorem not_fails_of_settled (h : Settled session access o disk name) :
    ¬ Fails session access o disk name := by
  obtain ⟨code, hopened, hformatted⟩ := h
  rintro (⟨e, herror⟩ | ⟨code', hopened', hresists⟩)
  · cases hopened.symm.trans herror
  · obtain rfl : code = code' := Except.ok.inj (hopened.symm.trans hopened')
    exact not_resists_of_formatted hformatted (.inl rfl) hresists

theorem not_replaces_of_settled {after : Disk} (h : Settled session access o disk name) :
    ¬ Replaces session o name disk after := by
  obtain ⟨code, hopened, hformatted⟩ := h
  have hread := (Session.opened_eq_ok_iff.mp hopened).1
  rintro ⟨p, code', style, result, -, hread', hstyle, hformat, hne, -⟩
  obtain rfl : code = code' := Except.ok.inj (hread.symm.trans hread')
  rw [hstyle] at hformatted
  exact hne (Except.ok.inj (hformat.symm.trans hformatted))

/-! ## Visits -/

section Visits

variable {change : Text → Text → State → State} {s t : State}

theorem visit_of_settled (h : Settled session access o s.progress.disk name) :
    visit session access o change s name = .ok s := by
  obtain ⟨code, hopened, hformatted⟩ := h
  simp only [visit, hopened, formatText_eq_unchanged_iff.mpr hformatted]

/-- What a visit that does not break off does, by what becomes of the text. -/
theorem visit_eq_ok (h : visit session access o change s name = .ok t) :
    (Settled session access o s.progress.disk name ∧ t = s) ∨
      (Fails session access o s.progress.disk name ∧ ∃ message, t = s.fail name message) ∨
      ∃ code result, session.opened access s.progress.disk name = .ok code ∧
        formatText o name code = .ok (.changed result) ∧
        t = { change code result s with changed := addName name (change code result s).changed } := by
  unfold visit at h
  cases hopened : session.opened access s.progress.disk name with
  | error e =>
    rw [hopened] at h
    cases h
    exact .inr (.inl ⟨.inl ⟨e, hopened⟩, _, rfl⟩)
  | ok code =>
    rw [hopened] at h
    rcases formatText_cases o name code with
      ⟨hverdict, -⟩ | ⟨result, hverdict, -⟩ | ⟨hresists, ⟨f, hverdict⟩ | ⟨message, hverdict⟩⟩
    · simp only [hverdict] at h
      cases h
      exact .inl ⟨⟨code, hopened, formatText_eq_unchanged_iff.mp hverdict⟩, rfl⟩
    · simp only [hverdict] at h
      cases h
      exact .inr (.inr ⟨code, result, rfl, hverdict, rfl⟩)
    · simp only [hverdict] at h
      cases h
    · simp only [hverdict] at h
      cases h
      exact .inr (.inl ⟨.inr ⟨code, hopened, hresists⟩, message, rfl⟩)

theorem not_settled_of_changed {code result : Text}
    (hopened : session.opened access disk name = .ok code)
    (hchanged : formatText o name code = .ok (.changed result)) :
    ¬ Settled session access o disk name := by
  rintro ⟨code', hopened', hformatted⟩
  obtain rfl : code = code' := Except.ok.inj (hopened.symm.trans hopened')
  cases (formatText_eq_unchanged_iff.mpr hformatted).symm.trans hchanged

def State.IsClear (s : State) : Prop :=
  s.changed = [] ∧ s.failed = []

/-- What a visit that only tells does: the disk stays, and nothing is noted if and only if nothing was
before and the file is settled. -/
theorem tell_eq_ok {showsDiff : Bool} (h : tell session o showsDiff s name = .ok t) :
    t.progress.disk = s.progress.disk ∧
      (t.IsClear ↔ s.IsClear ∧ Settled session .reading o s.progress.disk name) := by
  rcases visit_eq_ok h with ⟨hsettled, rfl⟩ | ⟨hfails, message, rfl⟩ |
    ⟨code, result, hopened, hchanged, rfl⟩
  · exact ⟨rfl, fun hclear => ⟨hclear, hsettled⟩, And.left⟩
  · refine ⟨rfl, fun hclear => absurd hclear.2 (addName_ne_nil name s.failed), fun hboth => ?_⟩
    exact absurd hfails (not_fails_of_settled hboth.2)
  · refine ⟨?_, fun hclear => absurd hclear.1 (addName_ne_nil name _), fun hboth => ?_⟩
    · cases showsDiff <;> rfl
    · exact absurd hboth.2 (not_settled_of_changed hopened hchanged)

/-- A visit that reformats settles for leaving a file alone only if it is settled. -/
theorem settled_or_replaces (h : reformat session o s name = .ok t)
    (hok : ¬ Fails session .updating o s.progress.disk name) :
    Settled session .updating o s.progress.disk name ∨
      Replaces session o name s.progress.disk t.progress.disk := by
  rcases visit_eq_ok h with ⟨hsettled, -⟩ | ⟨hfails, -⟩ | ⟨code, result, hopened, hchanged, rfl⟩
  · exact .inl hsettled
  · exact absurd hfails hok
  · exact .inr (replaces_of_changed (Session.opened_eq_ok_iff.mp hopened).1 hchanged)

theorem visitAll_of_settled {names : List Text}
    (h : ∀ name ∈ names, Settled session .updating o s.progress.disk name) :
    visitAll (reformat session o) s names = (s, none) := by
  induction names with
  | nil => rfl
  | cons name names ih =>
    obtain ⟨hfirst, hrest⟩ := forall_mem_cons.mp h
    rw [visitAll, reformat, visit_of_settled hfirst]
    exact ih hrest

theorem visitAll_tell {showsDiff : Bool} {names : List Text} {ending : Option Crash}
    (h : visitAll (tell session o showsDiff) s names = (t, ending)) :
    t.progress.disk = s.progress.disk ∧
      (ending = none ∧ t.IsClear ↔
        s.IsClear ∧ ∀ name ∈ names, Settled session .reading o s.progress.disk name) := by
  induction names generalizing s with
  | nil =>
    cases h
    simp
  | cons name names ih =>
    rw [visitAll] at h
    cases hvisit : tell session o showsDiff s name with
    | error crash =>
      rw [hvisit] at h
      cases h
      refine ⟨rfl, fun hnone => absurd hnone.1 (Option.some_ne_none _), fun hall => ?_⟩
      rw [tell, visit_of_settled (hall.2 name mem_cons_self)] at hvisit
      cases hvisit
    | ok u =>
      rw [hvisit] at h
      obtain ⟨hdisk, hclear⟩ := tell_eq_ok hvisit
      obtain ⟨hrest, hall⟩ := ih h
      rw [hdisk] at hrest hall
      refine ⟨hrest, ?_⟩
      rw [hall, hclear, forall_mem_cons, and_assoc]

end Visits

/-! ## Runs over files -/

section Files

variable {names : List Text} {n : Nat}

/-- A check leaves the disk alone, and it has status 0 if and only if every file is settled. -/
theorem runFiles_of_ne_reformat (session : Session) (o : Options) (names : List Text) {mode : Mode}
    (hmode : mode ≠ .reformat) :
    (runFiles session o mode names).progress.disk = session.disk ∧
      ((runFiles session o mode names).status = 0 ↔
        ∀ name ∈ names, Settled session .reading o session.disk name) := by
  obtain ⟨showsDiff, hrun⟩ : ∃ showsDiff, runFiles session o mode names =
      finishTell names.length
        (visitAll (tell session o showsDiff) ⟨session.start, [], []⟩ names) := by
    cases mode with
    | reformat => exact absurd rfl hmode
    | check => exact ⟨false, rfl⟩
    | diff => exact ⟨true, rfl⟩
  cases hvisits : visitAll (tell session o showsDiff) ⟨session.start, [], []⟩ names with
  | mk t ending =>
    obtain ⟨hdisk, hall⟩ := visitAll_tell hvisits
    have hstart : State.IsClear ⟨session.start, [], []⟩ := ⟨rfl, rfl⟩
    have hsettled := hall.trans (and_iff_right hstart)
    rw [hrun, hvisits]
    refine ⟨?_, Iff.trans ?_ hsettled⟩
    · cases ending <;> simp only [finishTell] <;> (try split) <;> exact hdisk
    · cases ending with
      | some crash => simp [finishTell, crashed]
      | none =>
        simp only [finishTell, State.IsClear, length_eq_zero_iff, true_and]
        split <;> simp_all [done]

theorem status_reformat :
    (runFiles session o .reformat names).status = 0 ↔
      ∃ s, visits session o names names.length = (s, none) ∧ s.failed = [] := by
  have hrun : runFiles session o .reformat names =
      finishReformat names.length (visits session o names names.length) := by
    rw [visits_length]
    rfl
  rw [hrun]
  cases hvisits : visits session o names names.length with
  | mk s ending =>
    cases ending with
    | some crash => simp [finishReformat, crashed]
    | none => simp [finishReformat, done]

theorem diskAfter_of_keeping
    (h : ∀ k (hk : k < names.length), ¬ Replaces session o names[k] (diskAfter session o names k)
      (diskAfter session o names (k + 1))) (hn : n ≤ names.length) :
    diskAfter session o names n = session.disk := by
  induction n with
  | zero => rfl
  | succ n ih =>
    rw [← ih (by omega)]
    exact (diskAfter_succ hn).2.resolve_right (h n hn)

/-- A run that reformats has status 0 and replaces nothing if and only if every file is settled on the
disk as it is found, and can be written there. -/
theorem settled_iff_keeping :
    (∀ name ∈ names, Settled session .updating o session.disk name) ↔
      (runFiles session o .reformat names).status = 0 ∧
        ∀ n (hn : n < names.length), ¬ Replaces session o names[n] (diskAfter session o names n)
          (diskAfter session o names (n + 1)) := by
  constructor
  · intro hsettled
    have hvisits (n : Nat) : visits session o names n = (⟨session.start, [], []⟩, none) :=
      visitAll_of_settled fun name hname => hsettled name (mem_of_mem_take hname)
    refine ⟨status_reformat.mpr ⟨_, hvisits _, rfl⟩, fun n hn => ?_⟩
    have hdisk : diskAfter session o names n = session.disk := by
      rw [diskAfter, hvisits]
      rfl
    rw [hdisk]
    exact not_replaces_of_settled (hsettled _ (getElem_mem hn))
  · rintro ⟨hstatus, hkeeping⟩ name hname
    obtain ⟨n, hn, rfl⟩ := getElem_of_mem hname
    obtain ⟨last, hlast, hfailed⟩ := status_reformat.mp hstatus
    have hok := (failed_eq_nil_iff (Nat.le_refl _) hlast).mp hfailed n hn hn
    have hkeeps := hkeeping n hn
    rw [← diskAfter_of_keeping hkeeping (Nat.le_of_lt hn)]
    cases hbefore : visits session o names n with
    | mk s ending =>
      have hdisk : diskAfter session o names n = s.progress.disk := by rw [diskAfter, hbefore]
      rw [hdisk] at hok hkeeps ⊢
      cases ending with
      | some crash => cases (visits_of_broken hbefore (Nat.le_of_lt hn)).symm.trans hlast
      | none =>
        obtain ⟨t, hvisit, -⟩ := reformat_of_not_fails hok
        refine (settled_or_replaces hvisit hok).resolve_right fun hreplaces => hkeeps ?_
        rw [diskAfter, visits_succ_of_ok hn hbefore hvisit]
        exact hreplaces

/-- Where no file is visited twice, what a visit writes stays, so a run that leaves every file with the
content it had has written none. -/
theorem keeping_iff (honce : (names.filterMap session.locate).Nodup) :
    (∀ n (hn : n < names.length), ¬ Replaces session o names[n] (diskAfter session o names n)
        (diskAfter session o names (n + 1))) ↔
      ∀ p, (runFiles session o .reformat names).progress.disk.file? p = session.disk.file? p := by
  have hfinal : (runFiles session o .reformat names).progress.disk =
      diskAfter session o names names.length := by
    rw [diskAfter, visits_length]
    exact (finishReformat_eq _ _).1
  rw [hfinal]
  constructor
  · intro hkeeping p
    rw [diskAfter_of_keeping hkeeping (Nat.le_refl _)]
  · rintro hsame n hn ⟨p, code, style, result, hp, hread, -, hformat, hne, -, hafter⟩
    have hother (j : Nat) (hj : j < names.length) (hjn : j ≠ n) :
        session.locate names[j] ≠ some p := by
      intro hq
      have hapart := pairwise_iff_getElem.mp (pairwise_filterMap.mp honce)
      rcases Nat.lt_or_gt_of_ne hjn with hlt | hgt
      · exact hapart j n hj hn hlt p hq p hp rfl
      · exact hapart n j hn hj hgt p hp p hq rfl
    have hbefore : (diskAfter session o names n).file? p = session.disk.file? p :=
      file?_diskAfter_of_le (Nat.zero_le n) (Nat.le_of_lt hn)
        fun j hj _ hjn => hother j hj (Nat.ne_of_lt hjn)
    have hlast : (diskAfter session o names names.length).file? p =
        (diskAfter session o names (n + 1)).file? p :=
      file?_diskAfter_of_le hn (Nat.le_refl _) fun j hj hjn _ => hother j hj (Nat.ne_of_gt hjn)
    have hresult : session.disk.file? p = some result := by
      rw [← hsame p, hlast, hafter p, if_pos rfl]
    obtain ⟨q, content, hq, hcontent, rfl⟩ := Session.read_eq_ok hread
    obtain rfl : p = q := Option.some.inj (hp.symm.trans hq)
    obtain rfl : content = result := Option.some.inj ((hcontent.symm.trans hbefore).trans hresult)
    -- What is written has no carriage return, so reading it again changes nothing.
    have htidy : Text.Tidy .carriageReturn content :=
      tidy_of_format (Session.not_mem_withLineFeeds content) hformat
    exact hne (Session.withLineFeeds_of_not_mem htidy).symm

end Files

/-! ## Runs -/

section Runs

variable {paths : List Text} {given checking : List Usage.Item}

/-- The options of a run that reformats, and the same ones with a check or a difference asked for. -/
structure AsksToCheck (given checking : List Usage.Item) : Prop where
  reformats : modeOf given = .reformat
  checks : modeOf checking ≠ .reformat
  has : ∀ name, name ≠ "--check" → name ≠ "--diff" →
    Usage.has checking name = Usage.has given name
  value : ∀ name, name ≠ "--check" → name ≠ "--diff" →
    Usage.value? checking name = Usage.value? given name

/-- The files a run is made for and its options, once the configuration has been read. -/
def plan (session : Session) (paths : List Text) (given : List Usage.Item) :
    Except Crash (List Text × Options) := do
  let c ← (findConfiguration session fileName defaults).configuration
  let excluded ← excludedFolders (c.withDefaults defaults)
  return (session.expandAll excluded paths, ← optionsOf given (c.withDefaults defaults))

theorem run_eq (h : Usage.has given "--dump-default-config" = false) :
    run session paths given =
      match plan session paths given with
      | .error crash => session.start.crashed crash
      | .ok (names, o) =>
        if names = [['-']] then formatInput session o
        else runFiles session o (modeOf given) names := by
  rw [run, h, if_neg Bool.false_ne_true, plan]
  cases (findConfiguration session fileName defaults).configuration <;> rfl

theorem AsksToCheck.plan_eq (h : AsksToCheck given checking) (session : Session)
    (paths : List Text) : plan session paths checking = plan session paths given := by
  have hoptions (c : Configuration) : optionsOf checking c = optionsOf given c := by
    unfold optionsOf
    rw [h.value "--line-length" (by decide) (by decide),
      h.value "--use-spaces" (by decide) (by decide),
      h.has "--single-blank-lines" (by decide) (by decide), h.has "--fast" (by decide) (by decide)]
  simp only [plan, hoptions]

/-- A command line that asks for the defaults asks for no check. -/
theorem not_dump_of_checks {arguments : List Text}
    (hreply : usage.reply arguments = .fits paths checking)
    (hchecks : modeOf checking ≠ .reformat) :
    Usage.has checking "--dump-default-config" = false := by
  obtain ⟨form, hform, items, hfit⟩ := Usage.exists_form_of_fits hreply
  have hforms : form = ⟨none, [], .many, options⟩ ∨ form = ⟨none, [dump], .zero, []⟩ := by
    simpa [usage] using hform
  rcases hforms with rfl | rfl
  · rw [Bool.eq_false_iff]
    intro hdump
    obtain ⟨spec, hspec, hname⟩ := Usage.Form.exists_spec_of_has hfit hdump
    exact absurd hname (by revert spec; decide)
  · have hnot (name : String) (hname : name.toList ≠ dump.name) :
        Usage.has checking name = false := by
      rw [Bool.eq_false_iff]
      intro hhas
      obtain ⟨spec, hspec, hspecName⟩ := Usage.Form.exists_spec_of_has hfit hhas
      obtain rfl : spec = dump := by simpa using hspec
      exact hname hspecName.symm
    refine absurd ?_ hchecks
    simp [modeOf, hnot "--diff" (by decide), hnot "--check" (by decide)]

/-- None of the files that a run is made for is locked. -/
def Unlocked (session : Session) (paths : List Text) (given : List Usage.Item) : Prop :=
  ∀ names o, plan session paths given = .ok (names, o) → names ≠ [['-']] →
    ∀ name ∈ names, session.isLocked session.disk name = false

/-- A check changes no file. The run with the same options that reformats has status 0 and replaces no
content at any of its visits exactly if the check has status 0 and no file is locked: the check only
reads the files, and the other run opens each one for updating. If no file is visited twice, to replace
no content is to leave every file with the content it had. -/
theorem run_check_predicts {arguments : List Text}
    (hreply : usage.reply session.arguments = .fits paths given)
    (hreply' : usage.reply arguments = .fits paths checking)
    (hsame : AsksToCheck given checking) :
    (Tool.run .format (session.asking arguments)).progress.disk = session.disk ∧
    ((Tool.run .format session).status = 0 ∧
        (∀ names o, plan session paths given = .ok (names, o) → names ≠ [['-']] →
          ∀ n (hn : n < names.length),
            ¬ Replaces session o names[n] (diskAfter session o names n)
              (diskAfter session o names (n + 1))) ↔
      (Tool.run .format (session.asking arguments)).status = 0 ∧ Unlocked session paths given) ∧
    ((∀ names o, plan session paths given = .ok (names, o) →
        (names.filterMap session.locate).Nodup) →
      ((Tool.run .format session).status = 0 ∧
          (∀ p, (Tool.run .format session).progress.disk.file? p = session.disk.file? p) ↔
        (Tool.run .format (session.asking arguments)).status = 0 ∧
          Unlocked session paths given)) := by
  have hcheck : Tool.run .format (session.asking arguments) = run session paths checking :=
    run_of_reply hreply'
  have hdump' := not_dump_of_checks hreply' hsame.checks
  have hdump := (hsame.has _ (by decide) (by decide)).symm.trans hdump'
  rw [hcheck, run_of_reply hreply, run_eq hdump, run_eq hdump', hsame.plan_eq, hsame.reformats,
    Unlocked]
  cases hplan : plan session paths given with
  | error crash => simp [Progress.crashed, Session.start]
  | ok planned =>
    obtain ⟨names, o⟩ := planned
    have hplanned {P : List Text → Options → Prop} : (∀ names' o',
        Except.ok (names, o) = (.ok (names', o') : Except Crash _) → P names' o') ↔ P names o :=
      ⟨fun h => h names o rfl, fun h names' o' heq => by cases heq; exact h⟩
    dsimp only
    rw [hplanned, hplanned, hplanned]
    by_cases hinput : names = [['-']]
    · rw [if_pos hinput, if_pos hinput, disk_formatInput]
      simp [hinput]
    · rw [if_neg hinput, if_neg hinput]
      obtain ⟨hdisk, hstatus⟩ := runFiles_of_ne_reformat session o names hsame.checks
      have hsettled : (∀ name ∈ names, Settled session .updating o session.disk name) ↔
          (runFiles session o (modeOf checking) names).status = 0 ∧
            ∀ name ∈ names, session.isLocked session.disk name = false := by
        rw [hstatus, ← forall₂_and]
        simp only [settled_updating_iff]
      refine ⟨hdisk, ?_, fun honce => ?_⟩
      · rw [imp_iff_right hinput, imp_iff_right hinput, ← settled_iff_keeping, hsettled]
      · rw [imp_iff_right hinput, ← keeping_iff honce, ← settled_iff_keeping, hsettled]

/-- A script that is to be reformatted, and one that is settled. -/
def pair : Session where
  disk := ⟨[(["a.gd".toList], "var  x\n".toList), (["b.gd".toList], "var y\n".toList)], [], []⟩
  base := "/home".toList
  folder := []
  arguments := ["a.gd".toList, "b.gd".toList]
  input := []

theorem run_check_predicts_pair :
    (pair.arguments.filterMap pair.locate).Nodup ∧
      (Tool.run .format (pair.asking ("--check".toList :: pair.arguments))).progress.disk =
        pair.disk ∧
      (Tool.run .format (pair.asking ("--check".toList :: pair.arguments))).status ≠ 0 ∧
      (Tool.run .format pair).status = 0 ∧
      (Tool.run .format pair).progress.disk.file? ["a.gd".toList] = some "var x\n".toList := by
  have hreply : usage.reply pair.arguments = .fits pair.arguments [] := by rfl
  have hreply' : usage.reply ("--check".toList :: pair.arguments) =
      .fits pair.arguments [.option (Usage.flag (some "-c") "--check") none] := by rfl
  have hsame : AsksToCheck [] [.option (Usage.flag (some "-c") "--check") none] := by
    refine ⟨rfl, by decide, fun name hcheck _ => ?_, fun name _ _ => ?_⟩
    · have hname : "--check".toList ≠ name.toList :=
        fun h => hcheck (String.toList_inj.mp h).symm
      simpa [Usage.has, Usage.Item.isOption, Usage.flag, Usage.Spec.name] using hname
    · simp [Usage.value?]
  have hplan : plan pair pair.arguments [] =
      .ok (pair.arguments, ⟨.ok ⟨100, none, 2⟩, false⟩) := by rfl
  obtain ⟨hdisk, -, hnet⟩ := run_check_predicts hreply hreply' hsame
  have honce : (pair.arguments.filterMap pair.locate).Nodup := by decide
  have hchanged : (Tool.run .format pair).progress.disk.file? ["a.gd".toList] =
      some "var x\n".toList := by decide +kernel
  refine ⟨honce, hdisk, fun hzero => ?_, by decide +kernel, hchanged⟩
  have hunlocked : Unlocked pair pair.arguments [] := by
    intro names o h _
    rw [hplan] at h
    cases h
    decide
  have hkept := ((hnet (fun names o h => by rw [hplan] at h; cases h; exact honce)).mpr
    ⟨hzero, hunlocked⟩).2 ["a.gd".toList]
  rw [hchanged] at hkept
  exact absurd hkept (by decide)

/-- A settled file that is locked passes a check, but a run that reformats complains about it. -/
example :
    let session : Session := { pair with
      disk := ⟨[(["b.gd".toList], "var y\n".toList)], [], [["b.gd".toList]]⟩
      arguments := ["b.gd".toList] }
    (Tool.run .format (session.asking ["--check".toList, "b.gd".toList])).status = 0 ∧
      (Tool.run .format session).status = 1 ∧
      (Tool.run .format session).progress.errors =
        "Cannot open file 'b.gd': Permission denied\n".toList := by
  decide +kernel

/-- A comment that stands on its own line after one run stands at the end of a line again after the
next one, because the other comment holds a character that ends a line for comments only. -/
def swinging : Session where
  disk := ⟨[(["a.gd".toList], "#\x0bx\n\nfunc f():  # a\n\tpass\n".toList)], [], []⟩
  base := "/home".toList
  folder := []
  arguments := ["a.gd".toList, "a.gd".toList]
  input := []

/-- Two visits to one file cancel each other out. -/
theorem check_fails_of_visits_that_cancel :
    (Tool.run .format swinging).status = 0 ∧
      (Tool.run .format swinging).progress.disk.files = swinging.disk.files ∧
      (Tool.run .format (swinging.asking
        ("--check".toList :: swinging.arguments))).status = 1 := by
  decide +kernel

end Runs

end Format

end Tool

/-! ## Results that were checked -/

namespace Safety

theorem eq_ok_of_ofSyntax {α : Type} {x : Except SyntaxError α} {a : α} (h : ofSyntax x = .ok a) :
    x = .ok a := by
  cases x with
  | error e => cases h
  | ok b => exact congrArg Except.ok (Except.ok.inj h)

theorem eq_ok_of_ofFault {α : Type} {x : Except Fault α} {a : α} (h : ofFault x = .ok a) :
    x = .ok a := by
  cases x with
  | error f => cases h
  | ok b => exact congrArg Except.ok (Except.ok.inj h)

theorem eq_of_compareAgain {result again : Text} (h : compareAgain result again = .ok ()) :
    result = again := by
  by_contra hdiffers
  rw [compareAgain, if_neg hdiffers] at h
  cases h

/-- A result that passes the check, and is not the text itself, is its own formatting. -/
theorem format_of_check {style : Format.Style} {given result : Text}
    (h : check style given result = .ok ()) (hdiffers : given ≠ result) :
    format (judged style) result = .ok result := by
  rw [check, if_neg hdiffers] at h
  obtain ⟨tree, htree, h⟩ := exists_of_bind_eq_ok h
  obtain ⟨comments, hcomments, h⟩ := exists_of_bind_eq_ok h
  -- The comparisons with the given text say nothing about formatting again.
  obtain ⟨_, -, h⟩ := exists_of_bind_eq_ok h
  obtain ⟨_, -, h⟩ := exists_of_bind_eq_ok h
  obtain ⟨_, -, h⟩ := exists_of_bind_eq_ok h
  obtain ⟨_, -, h⟩ := exists_of_bind_eq_ok h
  obtain ⟨again, hagain, h⟩ := exists_of_bind_eq_ok h
  rw [format, eq_ok_of_ofSyntax htree, eq_ok_of_ofSyntax hcomments]
  change Failure.ofFault (Format.ofTree (judged style) result tree comments) = .ok result
  rw [eq_ok_of_ofFault hagain, ← eq_of_compareAgain h]
  rfl

end Safety

namespace Tool

namespace Format

/-- The text that a verdict leaves behind; none if it is refused. -/
def Verdict.text? (code : Text) : Verdict → Option Text
  | .unchanged => some code
  | .changed formatted => some formatted
  | .refused _ => none

/-- Results are checked, and the outermost level has its wide blanks. -/
def Options.checked (width : Int) (spaces : Option Int) : Options :=
  ⟨.ok ⟨width, spaces, GDWorkbench.Format.wideBlanks⟩, true⟩

section Checked

variable {width : Int} {spaces : Option Int} {name code result : Text} {verdict : Verdict}

theorem formatted_of_changed
    (h : formatText (.checked width spaces) name code = .ok (.changed result)) :
    formatted (Options.checked width spaces).style result = .ok result := by
  obtain ⟨-, hdiffers, haccepts⟩ := formatText_eq_changed_iff.mp h
  exact Safety.format_of_check ((accepts_eq_true_iff rfl code result).mp haccepts rfl) hdiffers.symm

theorem formatted_of_text? (h : formatText (.checked width spaces) name code = .ok verdict)
    (hresult : verdict.text? code = some result) :
    formatted (Options.checked width spaces).style result = .ok result := by
  cases verdict with
  | unchanged =>
    obtain rfl : code = result := Option.some.inj hresult
    exact formatText_eq_unchanged_iff.mp h
  | changed formatted =>
    obtain rfl : formatted = result := Option.some.inj hresult
    exact formatted_of_changed h
  | refused message => cases hresult

/-- What a checked format leaves behind is left alone by the next one, and so is every file that
holds it, by a visit of any kind. -/
theorem formatText_of_checked (h : formatText (.checked width spaces) name code = .ok verdict)
    (hresult : verdict.text? code = some result) :
    formatText (.checked width spaces) name result = .ok .unchanged ∧
      ∀ (session : Session) (access : Access) (change : Text → Text → State → State) (s : State)
        (file : Text), session.opened access s.progress.disk file = .ok result →
          visit session access (.checked width spaces) change s file = .ok s := by
  have hsame := formatted_of_text? h hresult
  exact ⟨formatText_eq_unchanged_iff.mpr hsame,
    fun session access change s file hopened => visit_of_settled ⟨result, hopened, hsame⟩⟩

end Checked

def spaced : Text :=
  "var  x  # a\n".toList

theorem formatText_of_checked_spaced :
    ∃ verdict, formatText (.checked 100 none) "a.gd".toList spaced = .ok verdict ∧
      verdict.text? spaced = some "var x  # a\n".toList ∧
      formatText (.checked 100 none) "a.gd".toList "var x  # a\n".toList = .ok .unchanged := by
  have htext : ((formatText (.checked 100 none) "a.gd".toList spaced).toOption.bind
      (·.text? spaced)) = some "var x  # a\n".toList := by decide +kernel
  cases hverdict : formatText (.checked 100 none) "a.gd".toList spaced with
  | error fault =>
    rw [hverdict] at htext
    cases htext
  | ok verdict =>
    rw [hverdict] at htext
    exact ⟨verdict, rfl, htext, (formatText_of_checked hverdict htext).1⟩

end Format

end Tool

end GDWorkbench

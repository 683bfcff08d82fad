import GDWorkbench.Proofs.Results
import GDWorkbench.Proofs.Session
import GDWorkbench.Proofs.Usage
import GDWorkbench.Tool
import Mathlib.Logic.Function.Iterate

/-!
What a run of the formatter does to the files on a disk. Each visit makes of the content of a file
what `Options.rewrite` says, unless the file is locked, and no other file changes. A result is checked before it replaces a
content exactly if the configuration in effect asks for checks and the command line does not skip
them; the defaults do not ask.
-/

namespace GDWorkbench.Tool

open Progress Safety Session

namespace Format

variable {style : GDWorkbench.Format.Style} {result name content : Text} {o : Options}

/-! ## One text -/

namespace Options

/-- Whether a result may be used: results are not checked, or this one passes. -/
def accepts (o : Options) (code result : Text) : Bool :=
  !o.isChecked || match o.style with
    | .ok style => (check style code result).isOk
    | .error _ => false

def rewrite (o : Options) (content : Text) : Text :=
  let code := withLineFeeds content
  match formatted o.style code with
  | .ok result => if result ≠ code ∧ o.accepts code result = true then result else content
  | .error _ => content

end Options

theorem exists_style_of_formatted {style : Except Fault GDWorkbench.Format.Style}
    {code : Text} (h : formatted style code = .ok result) : ∃ used, style = .ok used := by
  cases style with
  | ok used => exact ⟨used, rfl⟩
  | error f =>
    unfold formatted at h
    cases hparse : GDWorkbench.parse code <;> cases hcomments : parseComments code <;>
      simp [hparse, hcomments, Failure.ofSyntax, bind, Except.bind] at h

theorem judge_eq_changed_iff {code result' : Text} : judge style name code result = .ok (.changed result') ↔
      result = result' ∧ check style code result = .ok () := by
  unfold judge
  split <;> simp_all

theorem accepts_eq_true_iff (hstyle : o.style = .ok style) (code result : Text) :
    o.accepts code result ↔
      (o.isChecked → check style code result = .ok ()) := by
  unfold Options.accepts
  rw [hstyle]
  cases hcheck : check style code result <;> simp [hcheck, Except.isOk, Except.toBool]

theorem formatText_of_formatted {code : Text} (h : formatted o.style code = .ok result) :
    formatText o name code =
      if result = code then .ok .unchanged
      else if o.isChecked then o.style >>= (judge · name code result)
      else .ok (.changed result) := by
  unfold formatText
  rw [h]
  rfl

/-- A text is to be replaced by its result if the two differ and the result is accepted. -/
theorem formatText_eq_changed_iff {code : Text} :
    formatText o name code = .ok (.changed result) ↔
      formatted o.style code = .ok result ∧ result ≠ code ∧ o.accepts code result := by
  cases hformatted : formatted o.style code with
  | error failure =>
    unfold formatText
    rw [hformatted]
    cases failure <;> simp [pure, Except.pure]
  | ok found =>
    obtain ⟨style, hstyle⟩ := exists_style_of_formatted hformatted
    rw [formatText_of_formatted hformatted, accepts_eq_true_iff hstyle, hstyle]
    by_cases hsame : found = code
    · grind
    · cases o.isChecked with
      | false => grind
      | true =>
        have hjudge : (Except.ok style >>= (judge · name code found)) =
            judge style name code found := rfl
        rw [hjudge]
        simp [hsame, judge_eq_changed_iff]
        grind

namespace Options

theorem rewrite_of_changed
    (h : formatText o name (withLineFeeds content) = .ok (.changed result)) :
    o.rewrite content = result := by
  obtain ⟨hformatted, hused⟩ := formatText_eq_changed_iff.mp h
  simp only [rewrite, hformatted]
  exact if_pos hused

theorem rewrite_of_kept {verdict : Verdict}
    (h : formatText o name (withLineFeeds content) = .ok verdict)
    (hkept : ∀ result, verdict ≠ .changed result) : o.rewrite content = content := by
  cases hformatted : formatted o.style (withLineFeeds content) with
  | error failure => simp only [rewrite, hformatted]
  | ok result =>
    simp only [rewrite, hformatted]
    refine if_neg fun hused => hkept result ?_
    exact Except.ok.inj (h.symm.trans (formatText_eq_changed_iff.mpr ⟨hformatted, hused⟩))

/-- A content is replaced by its formatting and by nothing else; a check can only keep it. -/
theorem rewrite_eq_iff
    (hstyle : o.style = .ok style) {before after : Text} (hdiffers : after ≠ before) :
    o.rewrite before = after ↔
      GDWorkbench.format style (withLineFeeds before) = .ok after ∧
        after ≠ withLineFeeds before ∧
        (o.isChecked →
          check style (withLineFeeds before) after = .ok ()) := by
  have hformatted : formatted o.style (withLineFeeds before) =
      GDWorkbench.format style (withLineFeeds before) := by
    rw [hstyle]
    rfl
  rw [← hformatted, ← accepts_eq_true_iff hstyle]
  cases hresult : formatted o.style (withLineFeeds before) with
  | error failure => simp [rewrite, hresult, hdiffers.symm]
  | ok result =>
    simp only [rewrite, hresult, Except.ok.injEq]
    constructor
    · intro h
      split at h
      · rename_i hused
        exact ⟨h, h ▸ hused.1, h ▸ hused.2⟩
      · exact absurd h.symm hdiffers
    · rintro ⟨rfl, hused⟩
      exact if_pos hused

end Options

/-! ## Files -/

variable {session : Session} {o : Options}

theorem locked_reformat {s t : State} (h : reformat session o s name = .ok t) :
    t.progress.disk.locked = s.progress.disk.locked := by
  unfold reformat visit at h
  split at h
  · cases h
    rfl
  · split at h
    · cases h
    · cases h
      rfl
    · cases h
      rfl
    · cases h
      dsimp only [write]
      split
      · exact Disk.locked_write _ _ _
      · rfl

/-- What one visit does: the file that was named is rewritten if it can be, and no other one
changes. -/
theorem file?_reformat {s t : State} (h : reformat session o s name = .ok t) (p : Path) :
    t.progress.disk.file? p =
      (s.progress.disk.file? p).map
        (o.rewrite^[if session.locate name = some p ∧ p ∉ s.progress.disk.locked then 1 else 0]) := by
  unfold reformat visit at h
  split at h
  · rename_i e hopened
    cases h
    -- What cannot be opened is locked or no file, so there is nothing to rewrite.
    by_cases hp : session.locate name = some p ∧ p ∉ s.progress.disk.locked
    · simp [State.fail, complain, file?_eq_none_of_opened hopened hp.1 hp.2]
    · simp [State.fail, complain, hp]
  · rename_i code hopened
    obtain ⟨hread, hunlocked⟩ := opened_eq_ok_iff.mp hopened
    obtain ⟨q, content, hq, hcontent, rfl⟩ := read_eq_ok hread
    have hfree : q ∉ s.progress.disk.locked := by
      simpa [isLocked_eq hq hcontent] using hunlocked rfl
    have hkept (hsame : o.rewrite content = content) : s.progress.disk.file? p =
        (s.progress.disk.file? p).map
          (o.rewrite^[if session.locate name = some p ∧ p ∉ s.progress.disk.locked then 1 else 0]) := by
      by_cases hp : q = p
      · subst hp
        simp [hcontent, hsame, hq, hfree]
      · simp [hq, hp]
    split at h
    · cases h
    · rename_i hunchanged
      cases h
      exact hkept (Options.rewrite_of_kept hunchanged nofun)
    · rename_i message hrefused
      cases h
      exact hkept (Options.rewrite_of_kept hrefused nofun)
    · rename_i result hchanged
      cases h
      simp only [write_of_locate hq, Disk.file?_write, hq, Option.some.injEq]
      by_cases hp : q = p
      · subst hp
        simp [hcontent, hfree, Options.rewrite_of_changed hchanged]
      · simp [say, hp]

theorem file?_walk {s t : State} {names : List Text}
    (h : Walk (reformat session o) s names t) (p : Path) :
    t.progress.disk.file? p =
      (s.progress.disk.file? p).map (o.rewrite^[names.countP fun name =>
        session.locate name = some p ∧ p ∉ s.progress.disk.locked]) := by
  induction h with
  | nil s => simp
  | cons head tail ih =>
    rw [ih, locked_reformat head, file?_reformat head p, Option.map_map, List.countP_cons,
      Function.iterate_add]
    simp

/-- A locked file is never rewritten, and any other one at each of its visits. -/
theorem file?_of_walk {s t : State} {names : List Text} (h : Walk (reformat session o) s names t)
    {p : Path} (hcontent : s.progress.disk.file? p = some content) :
    t.progress.disk.file? p =
      some (if p ∈ s.progress.disk.locked then content
        else o.rewrite^[names.countP fun name => session.locate name = some p] content) := by
  rw [file?_walk h p, hcontent]
  by_cases hlocked : p ∈ s.progress.disk.locked <;> simp [hlocked]

/-! ## Runs -/

variable {paths excluded names : List Text} {given : List Usage.Item} {c : Configuration}

theorem isChecked_eq (h : optionsOf given c = .ok o) :
    o.isChecked = (!Usage.has given "--fast" && (c.get "safety_checks").isTrue) := by
  obtain ⟨width, -, h⟩ := exists_of_bind_eq_ok h
  obtain ⟨spaces, -, h⟩ := exists_of_bind_eq_ok h
  cases h
  rfl

theorem isChecked_eq_false (hfile : configurationFile session fileName = none)
    (hfound : (findConfiguration session fileName defaults).configuration = .ok c)
    (hoptions : optionsOf given (c.withDefaults defaults) = .ok o) : o.isChecked = false := by
  rw [findConfiguration, hfile] at hfound
  cases hfound
  have hnone : (defaults.withDefaults defaults).get "safety_checks" = .null := by rfl
  rw [isChecked_eq hoptions, hnone]
  exact Bool.and_false _

/-- The command line that asks for the defaults names no files. -/
theorem paths_eq_nil (hreply : usage.reply session.arguments = .fits paths given)
    (hdump : Usage.has given "--dump-default-config") : paths = [] := by
  obtain ⟨form, hform, items, hfit⟩ := Usage.exists_form_of_fits hreply
  rcases List.mem_cons.mp hform with rfl | hform
  · obtain ⟨spec, hspec, hname⟩ := Usage.Form.exists_spec_of_has hfit hdump
    exact absurd hname (by revert spec; decide)
  · rw [List.mem_singleton.mp hform] at hfit
    exact (Usage.Form.of_fit hfit).1 rfl

theorem file?_writeDefaults {p : Path} (h : session.disk.file? p = some content) :
    (writeDefaults session fileName defaults).progress.disk.file? p = some content := by
  dsimp only [writeDefaults]
  split
  · exact h
  · rename_i hnew
    have hne : session.folder ++ [fileName.toList] ≠ p := by
      rintro rfl
      simp [Disk.isFile, h] at hnew
    simp [done, Disk.file?_write, hne, h]

theorem disk_formatInput (session : Session) (o : Options) :
    (formatInput session o).progress.disk = session.disk := by
  dsimp only [formatInput]
  split <;> rfl

theorem finishReformat_eq (total : Nat) (r : State × Option Crash) :
    (finishReformat total r).progress.disk = r.1.progress.disk ∧
      (finishReformat total r).crash = r.2 := by
  obtain ⟨s, _ | crash⟩ := r <;> exact ⟨rfl, rfl⟩

def targets (session : Session) (excluded paths : List Text) : List Text :=
  let names := session.expandAll excluded paths
  if names = [['-']] then [] else names

theorem runWith_eq (hexcluded : excludedFolders c = .ok excluded)
    (hoptions : optionsOf given c = .ok o) :
    runWith session paths given c =
      if session.expandAll excluded paths = [['-']] then formatInput session o
      else runFiles session o (modeOf given) (session.expandAll excluded paths) := by
  simp only [runWith, hexcluded, hoptions]
  rfl

theorem exists_visited_runWith (session : Session) (paths : List Text)
    (hmode : modeOf given = .reformat)
    (hexcluded : excludedFolders c = .ok excluded) (hoptions : optionsOf given c = .ok o) :
    ∃ visited, visited <+: targets session excluded paths ∧
      ((runWith session paths given c).crash = none → visited = targets session excluded paths) ∧
      ∀ p content, session.disk.file? p = some content →
        (runWith session paths given c).progress.disk.file? p =
          some (if p ∈ session.disk.locked then content
            else o.rewrite^[visited.countP fun name => session.locate name = some p] content) := by
  rw [runWith_eq hexcluded hoptions, hmode]
  by_cases hinput : session.expandAll excluded paths = [['-']]
  · refine ⟨[], List.nil_prefix, fun _ => ?_, fun p content hcontent => ?_⟩
    · simp [targets, hinput]
    · rw [if_pos hinput, disk_formatInput, hcontent]
      simp
  · obtain ⟨visited, hprefix, hall, hwalk⟩ := exists_walk (reformat session o)
      ⟨session.start, [], []⟩ (session.expandAll excluded paths)
    obtain ⟨hdisk, hcrash⟩ := finishReformat_eq (session.expandAll excluded paths).length
      (visitAll (reformat session o) ⟨session.start, [], []⟩ (session.expandAll excluded paths))
    have htargets : targets session excluded paths = session.expandAll excluded paths :=
      if_neg hinput
    rw [if_neg hinput, htargets, runFiles]
    refine ⟨visited, hprefix, fun hnone => hall (hcrash.symm.trans hnone),
      fun p content hcontent => ?_⟩
    rw [hdisk]
    exact file?_of_walk hwalk hcontent

theorem run_of_reply (hreply : usage.reply session.arguments = .fits paths given) :
    Tool.run .format session = run session paths given := by
  have husage : Tool.usage .format = usage := rfl
  rw [Tool.run, husage, hreply]
  rfl

/-- A run that reformats rewrites the files it visits in turn and no others, except those that it
cannot open for writing. Without a configuration file nothing it writes is checked. -/
theorem run_rewrites_targets (hreply : usage.reply session.arguments = .fits paths given)
    (hmode : modeOf given = .reformat)
    (hfound : (findConfiguration session fileName defaults).configuration = .ok c)
    (hexcluded : excludedFolders (c.withDefaults defaults) = .ok excluded)
    (hoptions : optionsOf given (c.withDefaults defaults) = .ok o) :
    (o.isChecked = true ↔ Usage.has given "--fast" = false ∧
        ((c.withDefaults defaults).get "safety_checks").isTrue = true) ∧
      (configurationFile session fileName = none → o.isChecked = false) ∧
      (∃ visited, visited <+: targets session excluded paths ∧
        ((Tool.run .format session).crash = none → visited = targets session excluded paths) ∧
        ∀ p content, session.disk.file? p = some content →
          (Tool.run .format session).progress.disk.file? p =
            some (if p ∈ session.disk.locked then content
              else o.rewrite^[visited.countP fun name => session.locate name = some p] content)) ∧
      ∀ style before after, o.style = .ok style → after ≠ before →
        (o.rewrite before = after ↔
          GDWorkbench.format style (Session.withLineFeeds before) = .ok after ∧
            after ≠ Session.withLineFeeds before ∧
            (o.isChecked = true →
              Safety.check style (Session.withLineFeeds before) after = .ok ())) := by
  refine ⟨?_, fun hfile => isChecked_eq_false hfile hfound hoptions, ?_,
    fun style before after hstyle hdiffers => Options.rewrite_eq_iff hstyle hdiffers⟩
  · rw [isChecked_eq hoptions, Bool.and_eq_true, Bool.not_eq_true']
  · rw [run_of_reply hreply, run]
    cases hdump : Usage.has given "--dump-default-config" with
    | true =>
      have htargets : targets session excluded paths = [] := by
        rw [paths_eq_nil hreply hdump]
        rfl
      refine ⟨[], List.nil_prefix, fun _ => htargets.symm, fun p content hcontent => ?_⟩
      simpa using file?_writeDefaults hcontent
    | false =>
      rw [hfound]
      exact exists_visited_runWith session paths hmode hexcluded hoptions

def sample : Session where
  disk := ⟨[(["a.gd".toList], "var x = - 0x1\n".toList)], [], []⟩
  base := "/home".toList
  folder := []
  arguments := ["a.gd".toList]
  input := []

theorem run_rewrites_targets_sample :
    usage.reply sample.arguments = .fits ["a.gd".toList] [] ∧ modeOf [] = .reformat ∧
      configurationFile sample fileName = none ∧
      ∃ o, optionsOf [] (defaults.withDefaults defaults) = .ok o ∧ o.isChecked = false ∧
        (Tool.run .format sample).progress.disk.file? ["a.gd".toList] =
          some (o.rewrite "var x = - 0x1\n".toList) := by
  have hreply : usage.reply sample.arguments = .fits ["a.gd".toList] [] := by rfl
  have hmode : modeOf [] = .reformat := rfl
  have hfile : configurationFile sample fileName = none := by decide
  have hfound : (findConfiguration sample fileName defaults).configuration = .ok defaults := by rfl
  have hexcluded : excludedFolders (defaults.withDefaults defaults) = .ok [".git".toList] := by rfl
  have hoptions : optionsOf [] (defaults.withDefaults defaults) =
      .ok ⟨.ok ⟨100, none, 2⟩, false⟩ := by rfl
  obtain ⟨-, hunchecked, ⟨visited, -, hall, hdisk⟩, -⟩ :=
    run_rewrites_targets hreply hmode hfound hexcluded hoptions
  have hdone : (Tool.run .format sample).crash.isNone = true := by decide +kernel
  have hcount : (targets sample [".git".toList] ["a.gd".toList]).countP
      (fun name => sample.locate name = some ["a.gd".toList]) = 1 := by decide
  have hcontent := hdisk ["a.gd".toList] "var x = - 0x1\n".toList (by decide)
  rw [hall (Option.isNone_iff_eq_none.mp hdone), hcount, Function.iterate_one,
    if_neg (show ["a.gd".toList] ∉ sample.disk.locked by decide)] at hcontent
  exact ⟨hreply, hmode, hfile, _, hoptions, hunchecked hfile, hcontent⟩

/-- A minus that is set right before a hexadecimal number becomes part of it. The result is written
all the same. -/
theorem run_writes_unsafe :
    configurationFile sample fileName = none ∧
      sample.disk.file? ["a.gd".toList] = some "var x = - 0x1\n".toList ∧
      (Tool.run .format sample).progress.disk.file? ["a.gd".toList] =
        some "var x = -0x1\n".toList ∧
      (Safety.check ⟨100, none, 2⟩ "var x = - 0x1\n".toList "var x = -0x1\n".toList).isOk =
        false := by
  decide +kernel

end Format

end GDWorkbench.Tool

import GDWorkbench.Proofs.Tool.Rewriting

/-!
What a visit leaves of a file that cannot be formatted. A visit fails if the file cannot be
opened for reading and writing, or if parsing, formatting or checking it raises an error, whether the
error is reported or ends the run.
A visit that fails leaves the disk as it was, and every other one either leaves it too or replaces one
content by its formatting. The exit status tells whether a visit failed.
-/

namespace GDWorkbench.Tool

open Progress

namespace Format

/-! ## Texts that cannot be formatted -/

namespace Options

/-- Formatting the text or checking the result raises an error. -/
def Resists (o : Options) (code : Text) : Prop :=
  (∃ failure, formatted o.style code = .error failure) ∨
    ∃ style result objection, o.style = .ok style ∧ formatted o.style code = .ok result ∧
      result ≠ code ∧ o.isChecked = true ∧ Safety.check style code result = .error objection

end Options

variable {session : Session} {o : Options}

theorem not_resists_of_formatted {code result : Text} (h : formatted o.style code = .ok result)
    (hused : result = code ∨ o.accepts code result) : ¬ o.Resists code := by
  obtain ⟨style, hstyle⟩ := exists_style_of_formatted h
  rintro (⟨failure, hfailure⟩ | ⟨style', result', objection, hstyle', hresult, hne, hchecked, hcheck⟩)
  · cases h.symm.trans hfailure
  · obtain rfl : result = result' := Except.ok.inj (h.symm.trans hresult)
    obtain rfl : style = style' := Except.ok.inj (hstyle.symm.trans hstyle')
    have haccepts := (accepts_eq_true_iff hstyle code result).mp (hused.resolve_left hne) hchecked
    cases haccepts.symm.trans hcheck

/-- A judged result is refused, or judging breaks off, only where the check raises an error. -/
theorem exists_objection_of_judge {style : GDWorkbench.Format.Style} {name code result : Text}
    (h : judge style name code result ≠ .ok (.changed result)) :
    ∃ objection, Safety.check style code result = .error objection := by
  cases hcheck : Safety.check style code result with
  | error objection => exact ⟨objection, rfl⟩
  | ok u => exact absurd (judge_eq_changed_iff.mpr ⟨rfl, hcheck⟩) h

/-- The verdict on a text: it stays, it is replaced by an accepted result, or it resists. -/
theorem formatText_cases (o : Options) (name code : Text) :
    (formatText o name code = .ok .unchanged ∧ ¬ o.Resists code) ∨
      (∃ result, formatText o name code = .ok (.changed result) ∧ ¬ o.Resists code) ∨
      (o.Resists code ∧ ((∃ f, formatText o name code = .error f) ∨
        ∃ message, formatText o name code = .ok (.refused message))) := by
  cases hformatted : formatted o.style code with
  | error failure =>
    have hresists : o.Resists code := .inl ⟨failure, hformatted⟩
    refine .inr (.inr ⟨hresists, ?_⟩)
    unfold formatText
    rw [hformatted]
    cases failure with
    | invalid e => exact .inr ⟨_, rfl⟩
    | fault f => exact .inl ⟨f, rfl⟩
  | ok result =>
    obtain ⟨style, hstyle⟩ := exists_style_of_formatted hformatted
    have htext : formatText o name code =
        if result = code then .ok .unchanged
        else if o.isChecked then o.style >>= (judge · name code result)
        else .ok (.changed result) :=
      formatText_of_formatted hformatted
    by_cases hsame : result = code
    · rw [if_pos hsame] at htext
      exact .inl ⟨htext, not_resists_of_formatted hformatted (.inl hsame)⟩
    rw [if_neg hsame] at htext
    cases hchecked : o.isChecked with
    | false =>
      have haccepts := (accepts_eq_true_iff hstyle code result).mpr (by simp [hchecked])
      rw [hchecked, if_neg Bool.false_ne_true] at htext
      exact .inr (.inl ⟨result, htext, not_resists_of_formatted hformatted (.inr haccepts)⟩)
    | true =>
      have hjudge : formatText o name code = judge style name code result := by
        rw [htext, hchecked, if_pos rfl, hstyle]
        rfl
      by_cases hchanged : judge style name code result = .ok (.changed result)
      · have haccepts := (formatText_eq_changed_iff.mp (hjudge.trans hchanged)).2.2
        exact .inr (.inl ⟨result, hjudge.trans hchanged,
          not_resists_of_formatted hformatted (.inr haccepts)⟩)
      · obtain ⟨objection, hcheck⟩ := exists_objection_of_judge hchanged
        refine .inr (.inr ⟨.inr ⟨style, result, objection, hstyle, hformatted, hsame, hchecked,
          hcheck⟩, ?_⟩)
        rw [hjudge, judge, hcheck]
        cases objection with
        | violation v => exact .inr ⟨_, rfl⟩
        | failure failure =>
          cases failure with
          | invalid e => exact .inr ⟨_, rfl⟩
          | fault f => exact .inl ⟨f, rfl⟩

/-! ## Visits -/

/-- The file cannot be opened for what is needed, or its text cannot be formatted. -/
def Fails (session : Session) (access : Access) (o : Options) (disk : Disk) (name : Text) : Prop :=
  (∃ e, session.opened access disk name = .error e) ∨
    ∃ code, session.opened access disk name = .ok code ∧ o.Resists code

/-- The file that is named holds its formatting, which differs from the text that was read and passed
the checks where there are some. No other file has changed. -/
def Replaces (session : Session) (o : Options) (name : Text) (before after : Disk) : Prop :=
  ∃ p code style result, session.locate name = some p ∧ session.read before name = .ok code ∧
    o.style = .ok style ∧ GDWorkbench.format style code = .ok result ∧ result ≠ code ∧
    (o.isChecked = true → Safety.check style code result = .ok ()) ∧
    ∀ q, after.file? q = if p = q then some result else before.file? q

theorem replaces_of_changed {disk : Disk} {name code result : Text}
    (hread : session.read disk name = .ok code)
    (h : formatText o name code = .ok (.changed result)) :
    Replaces session o name disk (session.write disk name result) := by
  obtain ⟨p, content, hp, -, -⟩ := Session.read_eq_ok hread
  obtain ⟨hformatted, hne, haccepts⟩ := formatText_eq_changed_iff.mp h
  obtain ⟨style, hstyle⟩ := exists_style_of_formatted hformatted
  have hformat : GDWorkbench.format style code = .ok result := by
    rw [hstyle] at hformatted
    exact hformatted
  refine ⟨p, code, style, result, hp, hread, hstyle, hformat, hne,
    (accepts_eq_true_iff hstyle code result).mp haccepts, fun q => ?_⟩
  rw [Session.write_of_locate hp, Disk.file?_write]

theorem addName_ne_nil (name : Text) (names : List Text) : addName name names ≠ [] := by
  unfold addName
  split
  · rename_i hmem
    rintro rfl
    simp at hmem
  · simp

/-- What a visit that fails does: it breaks off, or it is noted and leaves the disk alone. -/
theorem reformat_of_fails {s : State} {name : Text} (h : Fails session .updating o s.progress.disk name) :
    (∃ crash, reformat session o s name = .error crash) ∨
      ∃ t, reformat session o s name = .ok t ∧ t.progress.disk = s.progress.disk ∧
        t.failed ≠ [] := by
  unfold reformat visit
  rcases h with ⟨e, hopened⟩ | ⟨code, hopened, hresists⟩
  · rw [hopened]
    exact .inr ⟨_, rfl, rfl, addName_ne_nil name s.failed⟩
  · rw [hopened]
    rcases formatText_cases o name code with ⟨-, hnot⟩ | ⟨result, -, hnot⟩ | ⟨-, hverdict⟩
    · exact absurd hresists hnot
    · exact absurd hresists hnot
    · dsimp only
      rcases hverdict with ⟨f, hverdict⟩ | ⟨message, hverdict⟩
      · rw [hverdict]
        exact .inl ⟨_, rfl⟩
      · rw [hverdict]
        exact .inr ⟨_, rfl, rfl, addName_ne_nil name s.failed⟩

/-- What any other visit does: at most it replaces the content of its file. -/
theorem reformat_of_not_fails {s : State} {name : Text}
    (h : ¬ Fails session .updating o s.progress.disk name) :
    ∃ t, reformat session o s name = .ok t ∧ t.failed = s.failed ∧
      (t.progress.disk = s.progress.disk ∨
        Replaces session o name s.progress.disk t.progress.disk) := by
  unfold reformat visit
  cases hopened : session.opened .updating s.progress.disk name with
  | error e => exact absurd (.inl ⟨e, hopened⟩) h
  | ok code =>
    dsimp only
    rcases formatText_cases o name code with ⟨hverdict, -⟩ | ⟨result, hverdict, -⟩ | ⟨hresists, -⟩
    · rw [hverdict]
      exact ⟨s, rfl, rfl, .inl rfl⟩
    · rw [hverdict]
      have hread := (Session.opened_eq_ok_iff.mp hopened).1
      exact ⟨_, rfl, rfl, .inr (replaces_of_changed hread hverdict)⟩
    · exact absurd (.inr ⟨code, hopened, hresists⟩) h

/-! ## Runs -/

/-- The first visits of a run, and why they were broken off if they were. -/
def visits (session : Session) (o : Options) (names : List Text) (n : Nat) : State × Option Crash :=
  visitAll (reformat session o) ⟨session.start, [], []⟩ (names.take n)

def diskAfter (session : Session) (o : Options) (names : List Text) (n : Nat) : Disk :=
  (visits session o names n).1.progress.disk

section Runs

variable {names : List Text} {n : Nat} {s t : State} {crash : Crash}

theorem visits_succ (hn : n < names.length) (h : visits session o names n = (s, none)) :
    visits session o names (n + 1) = visitAll (reformat session o) s [names[n]] := by
  rw [visits, List.take_succ_eq_append_getElem hn]
  exact visitAll_append_of_done h _

theorem visits_succ_of_ok (hn : n < names.length) (h : visits session o names n = (s, none))
    (hvisit : reformat session o s names[n] = .ok t) : visits session o names (n + 1) = (t, none) := by
  simp [visits_succ hn h, visitAll, hvisit]

theorem visits_succ_of_error (hn : n < names.length) (h : visits session o names n = (s, none))
    (hvisit : reformat session o s names[n] = .error crash) :
    visits session o names (n + 1) = (s, some crash) := by
  simp [visits_succ hn h, visitAll, hvisit]

theorem visits_of_broken (h : visits session o names n = (s, some crash)) {m : Nat} (hm : n ≤ m) :
    visits session o names m = (s, some crash) := by
  have htake : names.take m = names.take n ++ (names.drop n).take (m - n) := by
    rw [← List.take_add, Nat.add_sub_cancel' hm]
  rw [visits, htake]
  exact visitAll_append_of_broken h _

/-- One visit of a run. Only a visit that does not fail may change the disk. -/
theorem diskAfter_succ (hn : n < names.length) :
    (Fails session .updating o (diskAfter session o names n) names[n] →
      diskAfter session o names (n + 1) = diskAfter session o names n) ∧
    (diskAfter session o names (n + 1) = diskAfter session o names n ∨
      Replaces session o names[n] (diskAfter session o names n)
        (diskAfter session o names (n + 1))) := by
  cases h : visits session o names n with
  | mk s ending =>
    have hdisk : diskAfter session o names n = s.progress.disk := by rw [diskAfter, h]
    cases ending with
    | some crash =>
      have hsame : diskAfter session o names (n + 1) = diskAfter session o names n := by
        rw [hdisk, diskAfter, visits_of_broken h (Nat.le_succ n)]
      exact ⟨fun _ => hsame, .inl hsame⟩
    | none =>
      rw [hdisk]
      by_cases hfails : Fails session .updating o s.progress.disk names[n]
      · have hsame : diskAfter session o names (n + 1) = s.progress.disk := by
          rcases reformat_of_fails hfails with ⟨crash, hvisit⟩ | ⟨t, hvisit, hkept, -⟩
          · rw [diskAfter, visits_succ_of_error hn h hvisit]
          · rw [diskAfter, visits_succ_of_ok hn h hvisit, hkept]
        exact ⟨fun _ => hsame, .inl hsame⟩
      · obtain ⟨t, hvisit, -, hchange⟩ := reformat_of_not_fails hfails
        refine ⟨fun h => absurd h hfails, ?_⟩
        rw [diskAfter, visits_succ_of_ok hn h hvisit]
        exact hchange

/-- A run that is not broken off has noted a failed file exactly if one of its visits failed. -/
theorem failed_eq_nil_iff (hn : n ≤ names.length) (h : visits session o names n = (s, none)) :
    s.failed = [] ↔
      ∀ k (hk : k < names.length), k < n →
        ¬ Fails session .updating o (diskAfter session o names k) names[k] := by
  induction n generalizing s with
  | zero =>
    cases h
    simp
  | succ n ih =>
    cases hbefore : visits session o names n with
    | mk r ending =>
      have hdisk : diskAfter session o names n = r.progress.disk := by rw [diskAfter, hbefore]
      cases ending with
      | some crash => cases (visits_of_broken hbefore (Nat.le_succ n)).symm.trans h
      | none =>
        have hlast := ih (by omega) hbefore
        have hsplit : (∀ k (hk : k < names.length), k < n + 1 →
              ¬ Fails session .updating o (diskAfter session o names k) names[k]) ↔
            (∀ k (hk : k < names.length), k < n →
              ¬ Fails session .updating o (diskAfter session o names k) names[k]) ∧
            ¬ Fails session .updating o r.progress.disk names[n] := by
          rw [← hdisk]
          constructor
          · exact fun hall => ⟨fun k hk hkn => hall k hk (by omega), hall n hn (by omega)⟩
          · rintro ⟨hall, hself⟩ k hk hkn
            rcases Nat.lt_succ_iff_lt_or_eq.mp hkn with hlt | rfl
            · exact hall k hk hlt
            · exact hself
        rw [hsplit, ← hlast]
        by_cases hfails : Fails session .updating o r.progress.disk names[n]
        · rcases reformat_of_fails hfails with ⟨crash, hvisit⟩ | ⟨t, hvisit, -, hfailed⟩
          · cases (visits_succ_of_error hn hbefore hvisit).symm.trans h
          · cases (visits_succ_of_ok hn hbefore hvisit).symm.trans h
            simp [hfailed, hfails]
        · obtain ⟨t, hvisit, hfailed, -⟩ := reformat_of_not_fails hfails
          cases (visits_succ_of_ok hn hbefore hvisit).symm.trans h
          simp [hfailed, hfails]

theorem file?_diskAfter_of_le {p : Path} {k : Nat} (hkn : k ≤ n) (hn : n ≤ names.length)
    (hp : ∀ j (hj : j < names.length), k ≤ j → j < n → session.locate names[j] ≠ some p) :
    (diskAfter session o names n).file? p = (diskAfter session o names k).file? p := by
  induction hkn with
  | refl => rfl
  | @step n hkn ih =>
    rw [← ih (by omega) fun j hj hkj hjn => hp j hj hkj (by omega)]
    rcases (diskAfter_succ hn).2 with hsame | ⟨q, code, style, result, hq, -, -, -, -, -, hafter⟩
    · rw [hsame]
    · have hne : q ≠ p := fun h => hp n hn hkn (Nat.lt_succ_self n) (h ▸ hq)
      rw [hafter p, if_neg hne]

theorem visits_length (session : Session) (o : Options) (names : List Text) :
    visits session o names names.length =
      visitAll (reformat session o) ⟨session.start, [], []⟩ names := by
  rw [visits, List.take_length]

end Runs

end Format

end GDWorkbench.Tool

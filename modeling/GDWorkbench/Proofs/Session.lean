import GDWorkbench.Session

/-!
What a disk holds after something was written to it, which files are opened, and walks over files: `Progress.Walk` relates
the state before a row of visits to the state after it, so that what a tool does to one file carries
over to all files it visits by induction on the walk.
-/

namespace GDWorkbench

variable {p : Path}

/-! ## Writing -/

namespace Disk

variable {d : Disk} {content : Text}

theorem file?_map {q : Path} (hfile : d.isFile p) :
    Disk.file? { d with files := d.files.map fun f => if f.1 = p then (p, content) else f } q =
      if p = q then some content else d.file? q := by
  -- A file that is replaced keeps its path, so the same entry is found as before.
  have hsame : (fun f : Path × Text => decide (f.1 = q)) ∘
      (fun f => if f.1 = p then (p, content) else f) = fun f => decide (f.1 = q) := by
    funext f
    by_cases hf : f.1 = p <;> simp [hf]
  have hmap := List.find?_map (p := fun f : Path × Text => decide (f.1 = q))
    (f := fun f => if f.1 = p then (p, content) else f) (l := d.files)
  simp only [file?]
  rw [hmap, hsame]
  cases hfound : d.files.find? fun f => f.1 = q with
  | none =>
    have hne : p ≠ q := by
      rintro rfl
      simp [isFile, file?, hfound] at hfile
    simp [hne]
  | some f =>
    have hf : f.1 = q := by simpa using List.find?_some hfound
    by_cases hq : p = q
    · simp [hf, hq]
    · have hne : f.1 ≠ p := fun h => hq (h.symm.trans hf)
      simp [hne, hq]

theorem file?_append {q : Path} (hfile : d.isFile p = false) :
    Disk.file? { d with files := d.files ++ [(p, content)] } q =
      if p = q then some content else d.file? q := by
  simp only [file?, List.find?_append]
  by_cases hq : p = q
  · subst hq
    have hnone : (d.files.find? fun f => f.1 = p) = none := by
      simpa [isFile, file?] using hfile
    simp [hnone]
  · simp [hq]

/-- After a write its path holds what was written, and every other path what it held. -/
theorem file?_write (d : Disk) (p q : Path) (content : Text) :
    (d.write p content).file? q = if p = q then some content else d.file? q := by
  cases hfile : d.isFile p with
  | true => rw [write, if_pos hfile, file?_map hfile]
  | false => rw [write, hfile, if_neg Bool.false_ne_true, file?_append hfile]

theorem locked_write (d : Disk) (p : Path) (content : Text) : (d.write p content).locked = d.locked := by
  unfold write
  split <;> rfl

theorem read_eq_ok_iff : d.read p = .ok content ↔ d.file? p = some content := by
  unfold read
  cases d.file? p with
  | some found => simp
  | none => simp; grind

end Disk

namespace Session

variable {session : Session} {disk : Disk} {path : Text}

theorem read_eq_ok {code : Text} (h : session.read disk path = .ok code) :
    ∃ p content, session.locate path = some p ∧ disk.file? p = some content ∧
      withLineFeeds content = code := by
  unfold read at h
  cases hp : session.locate path with
  | none => simp [hp] at h
  | some p =>
    cases hcontent : disk.read p with
    | error e => simp [hp, hcontent, Except.map] at h
    | ok content =>
      simp only [hp, hcontent, Except.map, Except.ok.injEq] at h
      exact ⟨p, content, rfl, Disk.read_eq_ok_iff.mp hcontent, h⟩

theorem file?_eq_none {e : OpenError}
    (h : session.read disk path = .error e) (hp : session.locate path = some p) :
    disk.file? p = none := by
  cases hfile : disk.file? p with
  | none => rfl
  | some content => simp [read, hp, Disk.read_eq_ok_iff.mpr hfile, Except.map] at h

/-- A file is opened as it is read, unless it is locked and may be written. -/
theorem opened_eq_ok_iff {access : Access} {code : Text} :
    session.opened access disk path = .ok code ↔
      session.read disk path = .ok code ∧
        (access = .updating → session.isLocked disk path = false) := by
  cases access with
  | reading => simp [opened]
  | updating => cases hlocked : session.isLocked disk path <;> simp [opened, hlocked]

theorem isLocked_eq {content : Text} (hp : session.locate path = some p)
    (hcontent : disk.file? p = some content) :
    session.isLocked disk path = disk.locked.contains p := by
  simp [isLocked, hp, Disk.isLocked, Disk.isFile, hcontent]

/-- What cannot be opened for updating and is not locked is no file. -/
theorem file?_eq_none_of_opened {e : OpenError}
    (h : session.opened .updating disk path = .error e) (hp : session.locate path = some p)
    (hfree : p ∉ disk.locked) : disk.file? p = none := by
  cases hlocked : session.isLocked disk path with
  | false =>
    rw [opened, hlocked] at h
    exact file?_eq_none h hp
  | true => simp [isLocked, hp, Disk.isLocked, hfree] at hlocked

theorem write_of_locate (hp : session.locate path = some p) (disk : Disk) (content : Text) :
    session.write disk path content = disk.write p content := by
  rw [write, hp]

end Session

/-! ## Walks -/

namespace Progress

/-- Visits of files in turn, from one state to another. -/
inductive Walk {σ : Type} (visit : σ → Text → Except Crash σ) : σ → List Text → σ → Prop where
  | nil (s : σ) : Walk visit s [] s
  | cons {s t u : σ} {file : Text} {files : List Text} (head : visit s file = .ok t)
      (tail : Walk visit t files u) : Walk visit s (file :: files) u

section Append

variable {σ : Type} {visit : σ → Text → Except Crash σ} {s t : σ} {first : List Text}

theorem visitAll_append_of_done (h : visitAll visit s first = (t, none)) (second : List Text) :
    visitAll visit s (first ++ second) = visitAll visit t second := by
  induction first generalizing s with
  | nil =>
    cases h
    rfl
  | cons file first ih =>
    rw [visitAll] at h
    rw [List.cons_append, visitAll]
    cases hvisit : visit s file with
    | ok u =>
      rw [hvisit] at h
      exact ih h
    | error crash =>
      rw [hvisit] at h
      cases h

theorem visitAll_append_of_broken {crash : Crash} (h : visitAll visit s first = (t, some crash))
    (second : List Text) : visitAll visit s (first ++ second) = (t, some crash) := by
  induction first generalizing s with
  | nil => cases h
  | cons file first ih =>
    rw [visitAll] at h
    rw [List.cons_append, visitAll]
    cases hvisit : visit s file with
    | ok u =>
      rw [hvisit] at h
      exact ih h
    | error crash =>
      rw [hvisit] at h
      exact h

end Append

/-- The files in front of the first visit that breaks off are walked, and all files if none does. -/
theorem exists_walk {σ : Type} (visit : σ → Text → Except Crash σ) (s : σ) (files : List Text) :
    ∃ visited, visited <+: files ∧ ((visitAll visit s files).2 = none → visited = files) ∧
      Walk visit s visited (visitAll visit s files).1 := by
  induction files generalizing s with
  | nil => exact ⟨[], List.prefix_rfl, fun _ => rfl, .nil s⟩
  | cons file files ih =>
    cases hvisit : visit s file with
    | error crash =>
      rw [visitAll, hvisit]
      exact ⟨[], List.nil_prefix, nofun, .nil s⟩
    | ok t =>
      obtain ⟨visited, hprefix, hall, hwalk⟩ := ih t
      rw [visitAll, hvisit]
      exact ⟨file :: visited, List.cons_prefix_cons.mpr ⟨rfl, hprefix⟩,
        fun hnone => congrArg _ (hall hnone), .cons hvisit hwalk⟩

end Progress

end GDWorkbench

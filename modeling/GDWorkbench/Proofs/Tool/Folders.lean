import Mathlib.Data.List.Nodup
import GDWorkbench.Session
import GDWorkbench.Proofs.Text

/-!
The files that the tools find by themselves. A folder stands for the scripts below it that can be reached
without going into an excluded folder, each of them once, and the name that a script is given leads to
it. Any other path stands for itself.
-/

namespace GDWorkbench

open List

theorem Path.below?_eq_some_iff {folder p below : Path} :
    Path.below? folder p = some below ↔ p = folder ++ below ∧ below ≠ [] := by
  fun_induction Path.below? folder p with
  | case1 => simp_all [eq_comm]
  | case2 p hne =>
    constructor
    · rintro ⟨rfl⟩
      exact ⟨rfl, fun h => hne h⟩
    · rintro ⟨rfl, -⟩
      rfl
  | case3 => simp
  | case4 name folder p ih => simp [ih]
  | case5 name folder other p hne => simp [Ne.symm hne]

theorem Path.fileName?_eq_some_iff {p : Path} {name : Text} : p.fileName? = some name ↔ p = [name] := by
  fun_cases Path.fileName? p with
  | case1 name => simp
  | case2 p hne =>
    simp only [reduceCtorEq, false_iff]
    exact hne name

theorem Path.folderName?_eq_some_iff {p : Path} {name : Text} :
    p.folderName? = some name ↔ ∃ next rest, p = name :: next :: rest := by
  fun_cases Path.folderName? p with
  | case1 name next rest => simp
  | case2 p hne =>
    simp only [reduceCtorEq, false_iff, not_exists]
    exact hne name

namespace Disk

variable {d : Disk} {folder below : Path} {name ending : Text} {names excluded : List Text}

/-! ## What is in a folder -/

theorem perm_insertName : insertName name names ~ name :: names := by
  induction names with
  | nil => rfl
  | cons other names ih =>
    rw [insertName]
    split
    · exact (ih.cons other).trans (.swap name other names)
    · rfl

theorem mem_sortedNames : name ∈ sortedNames names ↔ name ∈ names := by
  induction names with
  | nil => simp [sortedNames]
  | cons other names ih =>
    change name ∈ (if (sortedNames names).contains other then sortedNames names
      else insertName other (sortedNames names)) ↔ _
    rw [mem_cons, ← ih]
    split
    · rename_i hother
      exact ⟨.inr, fun h => h.elim (· ▸ List.contains_iff_mem.mp hother) id⟩
    · rw [perm_insertName.mem_iff, mem_cons]

theorem nodup_sortedNames : (sortedNames names).Nodup := by
  induction names with
  | nil => exact nodup_nil
  | cons name names ih =>
    change (if (sortedNames names).contains name then sortedNames names
      else insertName name (sortedNames names)).Nodup
    split
    · exact ih
    · rename_i hname
      exact perm_insertName.nodup_iff.mpr (nodup_cons.mpr ⟨by simpa using hname, ih⟩)

theorem isFile_iff {p : Path} : d.isFile p ↔ ∃ f ∈ d.files, f.1 = p := by
  simp [isFile, file?]

theorem mem_filesIn : name ∈ d.filesIn folder ↔ d.isFile (folder ++ [name]) := by
  have hname (p : Path) :
      (Path.below? folder p).bind Path.fileName? = some name ↔ p = folder ++ [name] := by
    simp only [Option.bind_eq_some_iff, Path.below?_eq_some_iff, Path.fileName?_eq_some_iff]
    exact ⟨fun ⟨_, h, hbelow⟩ => hbelow ▸ h.1, fun h => ⟨_, ⟨h, cons_ne_nil _ _⟩, rfl⟩⟩
  simp only [filesIn, mem_sortedNames, mem_filterMap, hname, isFile_iff]

theorem isSome_below?_concat {p : Path} : (Path.below? (folder ++ [name]) p).isSome ↔
    ∃ next rest, Path.below? folder p = some (name :: next :: rest) := by
  simp only [Option.isSome_iff_exists, Path.below?_eq_some_iff, append_assoc, singleton_append]
  constructor
  · rintro ⟨below, rfl, hbelow⟩
    obtain ⟨next, rest, rfl⟩ := exists_cons_of_ne_nil hbelow
    exact ⟨next, rest, rfl, cons_ne_nil _ _⟩
  · rintro ⟨next, rest, rfl, -⟩
    exact ⟨next :: rest, rfl, cons_ne_nil _ _⟩

theorem mem_foldersIn : name ∈ d.foldersIn folder ↔ d.isFolder (folder ++ [name]) := by
  have haround (p : Path) : (Path.below? folder p).bind Path.folderName? = some name ↔
      (Path.below? (folder ++ [name]) p).isSome := by
    rw [isSome_below?_concat]
    simp only [Option.bind_eq_some_iff, Path.folderName?_eq_some_iff]
    exact ⟨fun ⟨_, h, next, rest, hbelow⟩ => ⟨next, rest, hbelow ▸ h⟩,
      fun ⟨next, rest, h⟩ => ⟨_, h, next, rest, rfl⟩⟩
  have hlisted (p : Path) : (Path.below? folder p).bind head? = some name ↔
      p = folder ++ [name] ∨ (Path.below? (folder ++ [name]) p).isSome := by
    rw [isSome_below?_concat, ← and_iff_left (a := p = folder ++ [name]) (cons_ne_nil name []),
      ← Path.below?_eq_some_iff, Option.bind_eq_some_iff]
    constructor
    · rintro ⟨below, hbelow, hhead⟩
      obtain ⟨rest, rfl⟩ := head?_eq_some_iff.mp hhead
      cases rest with
      | nil => exact .inl hbelow
      | cons next rest => exact .inr ⟨next, rest, hbelow⟩
    · rintro (hbelow | ⟨next, rest, hbelow⟩) <;> exact ⟨_, hbelow, rfl⟩
  simp only [foldersIn, mem_sortedNames, mem_append, mem_filterMap, haround, hlisted, isFolder,
    Bool.or_eq_true, any_eq_true, contains_iff_mem, List.isEmpty_iff, append_eq_nil_iff, cons_ne_nil,
    and_false, false_or, and_or_left, exists_or, exists_eq_right]
  rw [← or_assoc, or_comm (a := ∃ f ∈ d.files, _)]

/-! ## Walks -/

/-- A file can be reached from a folder, by its path from there, without going into an excluded
folder. -/
inductive Reaches (d : Disk) (excluded : List Text) : Path → Path → Prop where
  | file {folder : Path} {name : Text} (found : d.isFile (folder ++ [name])) :
      Reaches d excluded folder [name]
  | inside {folder : Path} {name : Text} {below : Path} (entered : d.isFolder (folder ++ [name]))
      (allowed : name ∉ excluded) (found : Reaches d excluded (folder ++ [name]) below) :
      Reaches d excluded folder (name :: below)

theorem Reaches.isFile (h : Reaches d excluded folder below) : d.isFile (folder ++ below) := by
  induction h with
  | file found => exact found
  | inside _ _ _ ih => rwa [append_assoc] at ih

def HasEnding (ending : Text) (p : Path) : Prop :=
  ∃ name ∈ p.getLast?, Text.endsWith name ending

theorem mem_walk_succ {depth : Nat} :
    below ∈ d.walk ending excluded (depth + 1) folder ↔
      (∃ name, below = [name] ∧ d.isFile (folder ++ [name]) ∧ Text.endsWith name ending) ∨
      ∃ name rest, below = name :: rest ∧ d.isFolder (folder ++ [name]) ∧ name ∉ excluded ∧
        rest ∈ d.walk ending excluded depth (folder ++ [name]) := by
  simp only [walk, mem_append, mem_map, mem_filter, mem_filesIn, mem_flatMap, mem_foldersIn,
    Bool.not_eq_true', ← Bool.not_eq_true, contains_iff_mem]
  constructor
  · rintro (⟨name, ⟨hfile, hends⟩, rfl⟩ | ⟨name, ⟨hfolder, hallowed⟩, rest, hrest, rfl⟩)
    · exact .inl ⟨name, rfl, hfile, hends⟩
    · exact .inr ⟨name, rest, rfl, hfolder, hallowed, hrest⟩
  · rintro (⟨name, rfl, hfile, hends⟩ | ⟨name, rest, rfl, hfolder, hallowed, hrest⟩)
    · exact .inl ⟨name, ⟨hfile, hends⟩, rfl⟩
    · exact .inr ⟨name, ⟨hfolder, hallowed⟩, rest, hrest, rfl⟩

theorem HasEnding.cons (name : Text) (hbelow : below ≠ []) :
    HasEnding ending (name :: below) ↔ HasEnding ending below := by
  rw [HasEnding, HasEnding, getLast?_cons_of_ne_nil hbelow]

theorem Reaches.ne_nil (h : Reaches d excluded folder below) : below ≠ [] := by
  cases h <;> exact cons_ne_nil _ _

/-- A walk finds what it can reach within its depth. -/
theorem mem_walk_iff (depth : Nat) : below ∈ d.walk ending excluded depth folder ↔
    Reaches d excluded folder below ∧ HasEnding ending below ∧ below.length ≤ depth := by
  induction depth generalizing folder below with
  | zero =>
    simp only [walk, not_mem_nil, false_iff, Nat.le_zero_eq, length_eq_zero_iff, not_and]
    exact fun h _ => h.ne_nil
  | succ depth ih =>
    rw [mem_walk_succ]
    constructor
    · rintro (⟨name, rfl, hfile, hends⟩ | ⟨name, rest, rfl, hfolder, hallowed, hrest⟩)
      · exact ⟨.file hfile, ⟨name, rfl, hends⟩, Nat.succ_le_succ (Nat.zero_le depth)⟩
      · obtain ⟨hfound, hends, hlength⟩ := ih.mp hrest
        exact ⟨.inside hfolder hallowed hfound, (HasEnding.cons name hfound.ne_nil).mpr hends,
          Nat.succ_le_succ hlength⟩
    · rintro ⟨hfound, hends, hlength⟩
      cases hfound with
      | @file _ name hfile =>
        obtain ⟨_, ⟨⟩, hends⟩ := hends
        exact .inl ⟨name, rfl, hfile, hends⟩
      | @inside _ name rest hfolder hallowed hfound =>
        have hends := (HasEnding.cons name hfound.ne_nil).mp hends
        have hrest := ih.mpr ⟨hfound, hends, Nat.le_of_succ_le_succ hlength⟩
        exact .inr ⟨name, rest, rfl, hfolder, hallowed, hrest⟩

theorem nodup_walk (depth : Nat) (folder : Path) : (d.walk ending excluded depth folder).Nodup := by
  induction depth generalizing folder with
  | zero => exact nodup_nil
  | succ depth ih =>
    have hfiles : ((d.filesIn folder).filter (Text.endsWith · ending)).Nodup :=
      nodup_sortedNames.filter _
    have hfolders : ((d.foldersIn folder).filter fun name => !excluded.contains name).Nodup :=
      nodup_sortedNames.filter _
    refine nodup_append.mpr ⟨hfiles.map fun _ _ h => (cons.inj h).1, ?_, ?_⟩
    · refine nodup_flatMap.mpr ⟨fun name _ => (ih (folder ++ [name])).map fun _ _ h => (cons.inj h).2, ?_⟩
      refine hfolders.imp fun {name other} hne below hbelow hother => ?_
      obtain ⟨rest, -, rfl⟩ := mem_map.mp hbelow
      obtain ⟨rest', -, h⟩ := mem_map.mp hother
      exact hne (cons.inj h).1.symm
    -- What is found in a folder further below has a longer path.
    · rintro below hbelow other hother rfl
      obtain ⟨name, -, rfl⟩ := mem_map.mp hbelow
      obtain ⟨name', -, hrest⟩ := mem_flatMap.mp hother
      obtain ⟨rest, hrest, h⟩ := mem_map.mp hrest
      exact ((mem_walk_iff depth).mp hrest).1.ne_nil (cons.inj h).2

theorem length_le_depth {p : Path} (h : d.isFile p) : p.length ≤ d.depth := by
  obtain ⟨f, hf, rfl⟩ := isFile_iff.mp h
  have hle (files : List (Path × Text)) (hf : f ∈ files) :
      f.1.length ≤ files.foldr (fun f depth => max f.1.length depth) 0 := by
    induction files with
    | nil => exact absurd hf not_mem_nil
    | cons g files ih =>
      rcases mem_cons.mp hf with rfl | hf
      · exact Nat.le_max_left _ _
      · exact Nat.le_trans (ih hf) (Nat.le_max_right _ _)
  exact hle d.files hf

theorem mem_filesBelow_iff : below ∈ d.filesBelow ending excluded folder ↔
    Reaches d excluded folder below ∧ HasEnding ending below := by
  rw [filesBelow, mem_walk_iff]
  refine and_congr_right fun hfound => and_iff_left ?_
  calc below.length ≤ (folder ++ below).length := by simp
    _ ≤ d.depth := length_le_depth hfound.isFile

/-- Every name on the disk can be a part of a path: it is not empty, it does not end a part, and it is
none of the two names for the folder itself and the folder around it. -/
def HasNames (d : Disk) : Prop :=
  ∀ f ∈ d.files, ∀ name ∈ f.1, name ≠ [] ∧ '/' ∉ name ∧ name ≠ ['.'] ∧ name ≠ ['.', '.']

instance : Decidable d.HasNames :=
  inferInstanceAs (Decidable (∀ f ∈ d.files, ∀ name ∈ f.1,
    name ≠ [] ∧ '/' ∉ name ∧ name ≠ ['.'] ∧ name ≠ ['.', '.']))

end Disk

namespace Session

variable {session : Session} {outside : Option Path} {path : Text} {p below : Path}

/-! ## Names of files -/

theorem follow_append {folder : Path} {names rest : List Text} :
    follow outside folder (names ++ rest) =
      (follow outside folder names).bind fun folder => follow outside folder rest := by
  fun_induction follow outside folder names <;> simp_all [follow]

theorem follow_names (h : ∀ name ∈ below, name ≠ [] ∧ name ≠ ['.'] ∧ name ≠ ['.', '.']) :
    follow outside p below = some (p ++ below) := by
  induction below generalizing p with
  | nil => simp [follow]
  | cons name below ih =>
    obtain ⟨⟨hne, hdot, hdots⟩, hbelow⟩ := forall_mem_cons.mp h
    simp [follow, hne, hdot, hdots, ih hbelow]

/-- Where a longer path begins is settled by its first part. -/
theorem exists_locate_append (h : session.locate path = some p) :
    ∃ outside folder, ∀ rest,
      session.locate (path ++ rest) = follow outside folder (Text.splitAt '/' (path ++ rest)) := by
  cases path with
  | nil => simp [locate] at h
  | cons c path =>
    by_cases hc : c = '/'
    · subst hc
      simp only [locate] at h
      split at h
      · rename_i hbase
        exact ⟨some [], [], fun rest => by simp [locate, hbase]⟩
      · cases h
    · exact ⟨if session.base.isEmpty then some [] else none, session.folder,
        fun rest => by simp [locate, hc]⟩

theorem locate_joined (hpath : session.locate path = some p) (hne : below ≠ [])
    (hnames : ∀ name ∈ below, name ≠ [] ∧ '/' ∉ name ∧ name ≠ ['.'] ∧ name ≠ ['.', '.']) :
    session.locate (joined path below) = some (p ++ below) := by
  obtain ⟨outside, folder, hlocate⟩ := exists_locate_append hpath
  have hsplit : Text.splitAt '/' (Text.join ['/'] below) = below :=
    Text.splitAt_join hne fun name hname => (hnames name hname).2.1
  have hbelow : follow outside p below = some (p ++ below) :=
    follow_names fun name hname => ⟨(hnames name hname).1, (hnames name hname).2.2⟩
  have hstart := hlocate []
  rw [append_nil, hpath] at hstart
  unfold joined
  split
  · rename_i hends
    obtain ⟨front, rfl⟩ := Text.suffix_of_endsWith hends
    have hfront : follow outside folder (Text.splitAt '/' front) = some p := by
      rw [Text.splitAt_append_separator, follow_append] at hstart
      simpa [Text.splitAt, follow] using hstart.symm
    rw [hlocate, append_assoc, singleton_append, Text.splitAt_append_separator, follow_append, hfront,
      hsplit]
    exact hbelow
  · rw [hlocate, Text.splitAt_append_separator, follow_append, ← hstart, hsplit]
    exact hbelow

/-- What a path stands for: itself, unless it leads to a folder. A folder stands for the scripts below it,
except for those behind an excluded name. -/
def StandsFor (session : Session) (excluded : List Text) (path : Text) (names : List Text) : Prop :=
  match (session.locate path).filter session.disk.isFolder with
  | none => names = [path]
  | some folder => names.Nodup ∧ ∀ name, name ∈ names ↔ ∃ below,
      session.disk.Reaches excluded folder below ∧ Disk.HasEnding ".gd".toList below ∧
        name = joined path below ∧ session.locate name = some (folder ++ below)

theorem standsFor_expand (hnames : session.disk.HasNames) (excluded : List Text) (path : Text) :
    session.StandsFor excluded path (session.expand excluded path) := by
  unfold StandsFor expand
  cases hpath : session.locate path with
  | none => rfl
  | some folder =>
    by_cases hfolder : session.disk.isFolder folder
    · simp only [Option.filter_some, hfolder, if_true]
      -- Names of the disk stand unchanged in a path, so that different files have different names.
      have hlocate {below : Path} (h : below ∈ session.disk.filesBelow ".gd".toList excluded folder) :
          session.locate (joined path below) = some (folder ++ below) := by
        have hfound := (Disk.mem_filesBelow_iff.mp h).1
        obtain ⟨f, hf, hfile⟩ := Disk.isFile_iff.mp hfound.isFile
        exact locate_joined hpath hfound.ne_nil fun name hname =>
          hnames f hf name (hfile ▸ mem_append_right folder hname)
      constructor
      · refine Nodup.map_on (fun below hbelow other hother h => ?_) (Disk.nodup_walk _ folder)
        have heq : some (folder ++ below) = some (folder ++ other) :=
          (hlocate hbelow).symm.trans (h ▸ hlocate hother)
        exact append_cancel_left (Option.some.inj heq)
      · intro name
        rw [mem_map]
        constructor
        · rintro ⟨below, hbelow, rfl⟩
          obtain ⟨hfound, hends⟩ := Disk.mem_filesBelow_iff.mp hbelow
          exact ⟨below, hfound, hends, rfl, hlocate hbelow⟩
        · rintro ⟨below, hfound, hends, rfl, -⟩
          exact ⟨below, Disk.mem_filesBelow_iff.mpr ⟨hfound, hends⟩, rfl⟩
    · simp [Option.filter_some, hfolder]

/-- Paths are expanded one by one. On a disk whose names can be parts of paths, each of them stands for the
scripts that are reached from it, or for itself if it is no folder. -/
theorem expandAll_standsFor (hnames : session.disk.HasNames) (excluded paths : List Text) :
    ∃ found : Text → List Text, session.expandAll excluded paths = paths.flatMap found ∧
      ∀ path ∈ paths, session.StandsFor excluded path (found path) :=
  ⟨session.expand excluded, rfl, fun path _ => standsFor_expand hnames excluded path⟩

/-- A project with an add-on, and with another folder of that name further below. -/
def projectWithAddons : Session where
  disk :=
    { files :=
        [(["main.gd".toList], []), (["addons".toList, "tool.gd".toList], []),
          (["game".toList, "player.gd".toList], []), (["game".toList, "notes.txt".toList], []),
          (["game".toList, "levels".toList, "one.gd".toList], []),
          (["game".toList, "addons".toList, "copy.gd".toList], [])]
      folders := []
      locked := [] }
  base := "/project".toList
  folder := []
  arguments := []
  input := []

theorem expandAll_standsFor_projectWithAddons :
    projectWithAddons.disk.HasNames ∧
      ∃ found : Text → List Text,
        projectWithAddons.expandAll ["addons".toList]
            ["game/".toList, "main.gd".toList, "addons".toList] =
          ["game/".toList, "main.gd".toList, "addons".toList].flatMap found ∧
        ∀ path ∈ ["game/".toList, "main.gd".toList, "addons".toList],
          projectWithAddons.StandsFor ["addons".toList] path (found path) :=
  ⟨by decide, expandAll_standsFor (by decide) _ _⟩

example :
    projectWithAddons.expandAll ["addons".toList] ["game/".toList, "main.gd".toList, "addons".toList] =
      ["game/player.gd".toList, "game/levels/one.gd".toList, "main.gd".toList, "addons/tool.gd".toList] := by
  decide

end Session

end GDWorkbench

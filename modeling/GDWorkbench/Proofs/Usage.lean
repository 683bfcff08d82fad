import GDWorkbench.Usage

/-!
What a fitting command line tells: it fits one of the forms, and its options are options of that
form.
-/

namespace GDWorkbench.Usage

open List

theorem mem_of_best {fit : Fit} : ∀ {fits : List Fit}, best fits = some fit → fit ∈ fits
  | first :: rest, h => by
    unfold best at h
    split at h
    · exact mem_cons.mpr (.inl (Option.some.inj h).symm)
    · rename_i other hother
      split at h
      · exact mem_cons_of_mem _ (mem_of_best (hother.trans h))
      · exact mem_cons.mpr (.inl (Option.some.inj h).symm)

theorem exists_form_of_fits {u : Usage} {words arguments : List Text} {options : List Item}
    (h : u.reply words = .fits arguments options) :
    ∃ form ∈ u.forms, ∃ items, form.fit items = some ⟨arguments, options, []⟩ := by
  unfold reply at h
  split at h
  · cases h
  · rename_i items _
    split at h
    · cases h
    split at h
    · cases h
    split at h
    · rename_i hbest
      cases h
      obtain ⟨form, hform, hfit⟩ := mem_filterMap.mp (mem_of_best hbest)
      exact ⟨form, hform, items, hfit⟩
    · cases h
    · cases h

/-! ## Options -/

theorem isOption_of_takeOption {spec : Spec} {left left' : List Item} {item : Item}
    (h : takeOption spec left = some (item, left')) : item.isOption spec.name := by
  obtain ⟨found, hfound, heq⟩ := Option.map_eq_some_iff.mp h
  cases heq
  exact find?_some hfound

namespace Fit

variable {fit fit' : Fit}

/-- What comes to a fit are options of these, and no arguments. -/
structure Takes (specs : List Spec) (fit fit' : Fit) : Prop where
  arguments : fit'.arguments = fit.arguments
  options : ∀ item ∈ fit'.options,
    item ∈ fit.options ∨ ∃ spec ∈ specs, item.isOption spec.name = true

theorem Takes.refl (specs : List Spec) (fit : Fit) : Takes specs fit fit :=
  ⟨rfl, fun _ => .inl⟩

theorem Takes.trans {specs : List Spec} {fit fit' fit'' : Fit} (h : Takes specs fit fit')
    (h' : Takes specs fit' fit'') : Takes specs fit fit'' where
  arguments := h'.arguments.trans h.arguments
  options item hitem := (h'.options item hitem).elim (h.options item) .inr

theorem takes_option {specs : List Spec} {spec : Spec} {fit : Fit} {item : Item} {left : List Item}
    (hspec : spec ∈ specs) (htake : takeOption spec fit.left = some (item, left)) :
    Takes specs fit { fit with options := fit.options ++ [item], left } where
  arguments := rfl
  options other hother := by
    rcases mem_append.mp hother with hother | hother
    · exact .inl hother
    · rw [mem_singleton.mp hother]
      exact .inr ⟨spec, hspec, isOption_of_takeOption htake⟩

theorem takes_acceptAll {specs all : List Spec} (hspecs : specs ⊆ all) (fit : Fit) :
    Takes all fit (fit.acceptAll specs) := by
  induction specs generalizing fit with
  | nil => exact .refl all fit
  | cons spec specs ih =>
    obtain ⟨hspec, hrest⟩ := cons_subset.mp hspecs
    refine Takes.trans ?_ (ih hrest _)
    dsimp only
    split
    · rename_i htake
      exact takes_option hspec htake
    · exact .refl all fit

theorem takes_requireAll {specs all : List Spec} (hspecs : specs ⊆ all)
    (h : fit.requireAll specs = some fit') : Takes all fit fit' := by
  induction specs generalizing fit with
  | nil =>
    cases h
    exact .refl all _
  | cons spec specs ih =>
    obtain ⟨hspec, hrest⟩ := cons_subset.mp hspecs
    rw [requireAll, foldlM_cons] at h
    obtain ⟨next, hnext, hlast⟩ := Option.bind_eq_some_iff.mp h
    obtain ⟨⟨item, left⟩, htake, hnext⟩ := Option.bind_eq_some_iff.mp hnext
    cases hnext
    exact (takes_option hspec htake).trans (ih hrest hlast)

theorem takes_takeCommand (specs : List Spec) {command : Option Text}
    (h : fit.takeCommand command = some fit') : Takes specs fit fit' := by
  cases command with
  | none =>
    cases h
    exact .refl specs fit
  | some word =>
    obtain ⟨⟨found, left⟩, -, h⟩ := Option.bind_eq_some_iff.mp h
    dsimp only at h
    split at h
    · cases h
      exact ⟨rfl, fun _ => .inl⟩
    · cases h

theorem takeArguments_options {arity : Arity}
    (h : fit.takeArguments arity = some fit') : fit'.options = fit.options := by
  cases arity with
  | zero =>
    cases h
    rfl
  | one =>
    obtain ⟨⟨found, left⟩, -, hfit⟩ := Option.bind_eq_some_iff.mp h
    cases hfit
    rfl
  | many =>
    dsimp only [takeArguments] at h
    split at h
    · cases h
    · cases h
      rfl

end Fit

namespace Form

variable {form : Form} {items : List Item} {fit : Fit}

/-- A form takes options of its own only, and arguments only if it has some. -/
theorem of_fit (h : form.fit items = some fit) :
    (form.arguments = .zero → fit.arguments = []) ∧
      ∀ item ∈ fit.options,
        ∃ spec ∈ form.required ++ form.accepted, item.isOption spec.name := by
  obtain ⟨commanded, hcommand, h⟩ := Option.bind_eq_some_iff.mp h
  obtain ⟨required, hrequire, h⟩ := Option.bind_eq_some_iff.mp h
  obtain ⟨full, harguments, h⟩ := Option.bind_eq_some_iff.mp h
  cases h
  have hstart := (Fit.takes_takeCommand _ hcommand).trans
    (Fit.takes_requireAll (subset_append_left form.required form.accepted) hrequire)
  have hend := Fit.takes_acceptAll (subset_append_right form.required form.accepted) full
  constructor
  · intro hzero
    rw [hzero] at harguments
    cases harguments
    exact hend.arguments.trans hstart.arguments
  · intro item hitem
    rcases hend.options item hitem with hitem | hspec
    · rw [Fit.takeArguments_options harguments] at hitem
      exact (hstart.options item hitem).resolve_left not_mem_nil
    · exact hspec

theorem exists_spec_of_has (h : form.fit items = some fit) {name : String}
    (hname : has fit.options name) :
    ∃ spec ∈ form.required ++ form.accepted, spec.name = name.toList := by
  obtain ⟨item, hitem, hoption⟩ := any_eq_true.mp hname
  obtain ⟨spec, hspec, hof⟩ := (of_fit h).2 item hitem
  refine ⟨spec, hspec, ?_⟩
  cases item with
  | argument text => cases hoption
  | option given value =>
    simp only [Item.isOption, decide_eq_true_eq] at hof hoption
    exact hof.symm.trans hoption

end Form

end GDWorkbench.Usage

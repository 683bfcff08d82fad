import GDWorkbench.Tree

/-!
Results that may be missing, and rules for computing with them: `Ensures` speaks of a result if there
is one, `Gives` says that there is one and what it is like, and `Succeeds` only that there is one.
`Delivers` is for results that are there under a condition.
-/

namespace GDWorkbench

open List

theorem exists_of_bind_eq_ok {ε α β : Type} {x : Except ε α} {f : α → Except ε β} {b : β}
    (h : x >>= f = .ok b) : ∃ a, x = .ok a ∧ f a = .ok b := by
  cases x with
  | error e => cases h
  | ok a => exact ⟨a, rfl, h⟩

theorem eq_ok_of_toOption {ε α : Type} {x : Except ε α} {a : α} (h : x.toOption = some a) :
    x = .ok a := by
  cases x with
  | error e => cases h
  | ok b => exact congrArg Except.ok (Option.some.inj h)

theorem exists_eq_ok_of_any {ε α : Type} {x : Except ε α} {p : α → Prop} [DecidablePred p]
    (h : x.toOption.any (fun a => decide (p a))) : ∃ a, x = .ok a ∧ p a := by
  cases x with
  | error e => cases h
  | ok a => exact ⟨a, rfl, of_decide_eq_true h⟩

/-- Keeping what is found is looking everywhere, and then leaving out where nothing is. -/
theorem filterMapM_eq_bind {ε α β : Type} (f : α → Except ε (Option β)) (xs : List α) :
    xs.filterMapM f = xs.mapM f >>= fun found => .ok (found.filterMap id) := by
  induction xs with
  | nil => rfl
  | cons x xs ih =>
    rw [filterMapM_cons, mapM_cons, ih]
    cases f x with
    | error e => rfl
    | ok found => cases found <;> cases xs.mapM f <;> rfl

theorem forall_mem_reduceOption {β : Type} {R : β → Prop} {found : List (Option β)}
    (h : ∀ x ∈ found, ∀ y ∈ x, R y) : ∀ y ∈ found.filterMap id, R y := by
  simpa using fun y hy => h (some y) hy y rfl

theorem Tree.mem_of_part {t c : Tree} {i : Nat} (h : t.part i = .ok c) : c ∈ t.children := by
  unfold Tree.part at h
  split at h
  · cases h
  · split at h
    · rename_i hget
      cases h
      exact mem_of_getElem? hget
    · cases h

def Ensures {α : Type} (x : Except Fault α) (Q : α → Prop) : Prop :=
  ∀ a, x = .ok a → Q a

section Ensures

variable {α β : Type} {x : Except Fault α} {Q : α → Prop} {R : β → Prop} {f : α → Except Fault β}
  {xs : List α}

theorem ensures_ok {a : α} (h : Q a) : Ensures (.ok a) Q :=
  fun _ hb => Except.ok.inj hb ▸ h

theorem ensures_error {f : Fault} : Ensures (.error f) Q :=
  fun _ h => nomatch h

theorem ensures_true (x : Except Fault α) : Ensures x fun _ => True :=
  fun _ _ => trivial

theorem ensures_self (x : Except Fault α) : Ensures x fun a => x = .ok a :=
  fun _ ha => ha

theorem Ensures.mono {Q' : α → Prop} (hx : Ensures x Q) (h : ∀ a, Q a → Q' a) : Ensures x Q' :=
  fun a ha => h a (hx a ha)

theorem Ensures.bind (hx : Ensures x Q) (hf : ∀ a, Q a → Ensures (f a) R) :
    Ensures (x >>= f) R := by
  intro b hb
  cases x with
  | error e => cases hb
  | ok a => exact hf a (hx a rfl) b hb

theorem Ensures.bind_eq {g : α → Except Fault β} (hx : Ensures x Q) (h : ∀ a, Q a → f a = g a) :
    (x >>= f) = x >>= g := by
  cases x with
  | error e => rfl
  | ok a => exact h a (hx a rfl)

theorem Ensures.skip (hf : ∀ a, Ensures (f a) R) : Ensures (x >>= f) R :=
  (ensures_true x).bind fun a _ => hf a

theorem Ensures.ite {c : Prop} [Decidable c] {x y : Except Fault α}
    (hx : Ensures x Q) (hy : Ensures y Q) : Ensures (if c then x else y) Q := by
  split
  · exact hx
  · exact hy

theorem Ensures.mapM (h : ∀ x ∈ xs, Ensures (f x) R) :
    Ensures (xs.mapM f) fun ys => ∀ y ∈ ys, R y := by
  induction xs with
  | nil => exact ensures_ok (by simp)
  | cons x xs ih =>
    obtain ⟨hx, hxs⟩ := forall_mem_cons.mp h
    rw [mapM_cons]
    refine hx.bind fun y hy => (ih hxs).bind fun ys hys => ensures_ok ?_
    exact forall_mem_cons.mpr ⟨hy, hys⟩

theorem Ensures.mapM_of_ne_nil (hne : xs ≠ []) (h : ∀ x ∈ xs, Ensures (f x) R) :
    Ensures (xs.mapM f) fun ys => ys ≠ [] ∧ ∀ y ∈ ys, R y := by
  cases xs with
  | nil => exact absurd rfl hne
  | cons x xs =>
    obtain ⟨hx, hxs⟩ := forall_mem_cons.mp h
    rw [mapM_cons]
    exact hx.bind fun y hy => (Ensures.mapM hxs).bind fun ys hys =>
      ensures_ok ⟨cons_ne_nil y ys, forall_mem_cons.mpr ⟨hy, hys⟩⟩

theorem Ensures.filterMapM {f : α → Except Fault (Option β)}
    (h : ∀ x ∈ xs, Ensures (f x) fun found => ∀ y ∈ found, R y) :
    Ensures (xs.filterMapM f) fun ys => ∀ y ∈ ys, R y := by
  rw [filterMapM_eq_bind]
  exact (Ensures.mapM h).bind fun found hfound => ensures_ok (forall_mem_reduceOption hfound)

end Ensures

def Gives {ε α : Type} (x : Except ε α) (Q : α → Prop) : Prop :=
  ∃ a, x = .ok a ∧ Q a

section Gives

variable {ε α β : Type} {x : Except ε α} {Q Q' : α → Prop} {R : β → Prop}
  {f : α → Except ε β} {xs : List α}

theorem gives_ok {a : α} (h : Q a) : Gives (.ok a : Except ε α) Q :=
  ⟨a, rfl, h⟩

theorem Gives.mono (hx : Gives x Q) (h : ∀ a, Q a → Q' a) : Gives x Q' := by
  obtain ⟨a, ha, hQ⟩ := hx
  exact ⟨a, ha, h a hQ⟩

theorem Gives.bind (hx : Gives x Q) (hf : ∀ a, Q a → Gives (f a) R) : Gives (x >>= f) R := by
  obtain ⟨a, rfl, hQ⟩ := hx
  exact hf a hQ

theorem Gives.mapM (h : ∀ x ∈ xs, Gives (f x) R) :
    Gives (xs.mapM f) fun ys => ∀ y ∈ ys, R y := by
  induction xs with
  | nil => exact gives_ok (by simp)
  | cons x xs ih =>
    obtain ⟨hx, hxs⟩ := forall_mem_cons.mp h
    rw [mapM_cons]
    refine hx.bind fun y hy => (ih hxs).bind fun ys hys => gives_ok ?_
    exact forall_mem_cons.mpr ⟨hy, hys⟩

theorem Gives.filterMapM {f : α → Except ε (Option β)}
    (h : ∀ x ∈ xs, Gives (f x) fun found => ∀ y ∈ found, R y) :
    Gives (xs.filterMapM f) fun ys => ∀ y ∈ ys, R y := by
  rw [filterMapM_eq_bind]
  exact (Gives.mapM h).bind fun found hfound => gives_ok (forall_mem_reduceOption hfound)

end Gives

def Succeeds {ε α : Type} (x : Except ε α) : Prop :=
  Gives x fun _ => True

section Succeeds

variable {ε α β : Type} {x : Except ε α} {f : α → Except ε β} {xs : List α}

theorem succeeds_iff : Succeeds x ↔ ∃ a, x = .ok a :=
  ⟨fun ⟨a, ha, _⟩ => ⟨a, ha⟩, fun ⟨a, ha⟩ => ⟨a, ha, trivial⟩⟩

theorem succeeds_ok {a : α} : Succeeds (.ok a : Except ε α) :=
  gives_ok trivial

theorem succeeds_of_isOk (h : x.isOk) : Succeeds x := by
  cases x with
  | error e => cases h
  | ok a => exact succeeds_ok

theorem Gives.succeeds {Q : α → Prop} (h : Gives x Q) : Succeeds x :=
  h.mono fun _ _ => trivial

theorem Succeeds.gives {x : Except Fault α} {Q : α → Prop} (h : Succeeds x) (hx : Ensures x Q) :
    Gives x Q := by
  obtain ⟨a, ha, -⟩ := h
  exact ⟨a, ha, hx a ha⟩

theorem Succeeds.bind {R : β → Prop} (hx : Succeeds x)
    (hf : ∀ a, Gives (f a) R) : Gives (x >>= f) R :=
  Gives.bind hx fun a _ => hf a

theorem Succeeds.mapM (h : ∀ x ∈ xs, Succeeds (f x)) :
    Succeeds (xs.mapM f) :=
  (Gives.mapM h).succeeds

theorem Succeeds.filterMapM {f : α → Except ε (Option β)}
    (h : ∀ x ∈ xs, Succeeds (f x)) : Succeeds (xs.filterMapM f) :=
  (Gives.filterMapM (R := fun _ => True) fun x hx => (h x hx).mono fun _ _ _ _ => trivial).succeeds

theorem succeeds_bind_iff :
    Succeeds (x >>= f) ↔ ∃ a, x = .ok a ∧ Succeeds (f a) := by
  cases x with
  | error e => exact ⟨fun ⟨_, h, _⟩ => (nomatch h), fun ⟨_, h, _⟩ => (nomatch h)⟩
  | ok a => exact ⟨fun h => ⟨a, rfl, h⟩, fun ⟨_, ha, h⟩ => Except.ok.inj ha ▸ h⟩

theorem Succeeds.bind_iff {P : Prop} (hx : Succeeds x)
    (hf : ∀ a, Succeeds (f a) ↔ P) : Succeeds (x >>= f) ↔ P := by
  obtain ⟨a, rfl, -⟩ := hx
  exact hf a

theorem not_succeeds_bind_iff :
    ¬ Succeeds (x >>= f) ↔ ¬ Succeeds x ∨ ∃ a, x = .ok a ∧ ¬ Succeeds (f a) := by
  cases x with
  | error e => exact iff_of_true nofun (.inl nofun)
  | ok a =>
    constructor
    · exact fun h => .inr ⟨a, rfl, h⟩
    · rintro (h | ⟨_, ⟨⟩, h⟩)
      · exact absurd succeeds_ok h
      · exact h

theorem succeeds_mapM_iff :
    Succeeds (xs.mapM f) ↔ ∀ x ∈ xs, Succeeds (f x) := by
  refine ⟨fun h => ?_, .mapM⟩
  induction xs with
  | nil => exact forall_mem_nil _
  | cons x xs ih =>
    rw [mapM_cons] at h
    obtain ⟨y, hy, h⟩ := succeeds_bind_iff.mp h
    obtain ⟨ys, hys, -⟩ := succeeds_bind_iff.mp h
    exact forall_mem_cons.mpr ⟨⟨y, hy, trivial⟩, ih ⟨ys, hys, trivial⟩⟩

theorem succeeds_filterMapM_iff {f : α → Except ε (Option β)} :
    Succeeds (xs.filterMapM f) ↔ ∀ x ∈ xs, Succeeds (f x) := by
  rw [filterMapM_eq_bind, ← succeeds_mapM_iff]
  exact ⟨fun h => (succeeds_bind_iff.mp h).elim fun found hfound => ⟨found, hfound.1, trivial⟩,
    fun h => h.bind fun _ => succeeds_ok⟩

end Succeeds

/-- What holds of the result if there is one, and that there is one if `sure`. -/
def Delivers {α : Type} (sure : Prop) (x : Except Fault α) (Q : α → Prop) : Prop :=
  Ensures x Q ∧ (sure → Succeeds x)

section Delivers

variable {α β : Type} {sure : Prop} {x : Except Fault α} {Q Q' : α → Prop} {R : β → Prop}

theorem Gives.delivers (h : Gives x Q) : Delivers sure x Q := by
  obtain ⟨a, rfl, ha⟩ := h
  exact ⟨ensures_ok ha, fun _ => succeeds_ok⟩

theorem delivers_ok {a : α} (h : Q a) : Delivers sure (.ok a) Q :=
  (gives_ok h).delivers

theorem Delivers.gives (h : Delivers sure x Q) (hsure : sure) : Gives x Q :=
  (h.2 hsure).gives h.1

theorem delivers_self (h : Delivers sure x Q) : Delivers sure x fun a => x = .ok a ∧ Q a :=
  ⟨fun a ha => ⟨ha, h.1 a ha⟩, h.2⟩

theorem Delivers.mono (hx : Delivers sure x Q) (h : ∀ a, Q a → Q' a) : Delivers sure x Q' :=
  ⟨hx.1.mono h, hx.2⟩

theorem Delivers.bind {f : α → Except Fault β} (hx : Delivers sure x Q)
    (hf : ∀ a, Q a → Delivers sure (f a) R) : Delivers sure (x >>= f) R :=
  ⟨hx.1.bind fun a ha => (hf a ha).1, fun h => (hx.gives h).bind fun a ha => (hf a ha).2 h⟩

end Delivers

/-! ## Asking one after the other -/

/-- `g` asks `p` about the elements in order, and goes on as long as the answer is `go`. -/
structure Asks {ε α : Type} (p : α → Except ε Bool) (go : Bool) (g : List α → Except ε Bool) : Prop where
  nil : g [] = .ok go
  cons (x : α) (xs : List α) : g (x :: xs) = p x >>= fun answer =>
    if answer = go then g xs else .ok answer

section Asks

variable {ε α : Type} {p : α → Except ε Bool} {go : Bool} {g : List α → Except ε Bool}
  {xs : List α}

theorem Asks.eq_ok_iff (h : Asks p go g) : g xs = .ok go ↔ ∀ x ∈ xs, p x = .ok go := by
  induction xs with
  | nil => exact ⟨fun _ => forall_mem_nil _, fun _ => h.nil⟩
  | cons x xs ih =>
    rw [h.cons, forall_mem_cons, ← ih]
    cases p x with
    | error e => exact ⟨nofun, nofun⟩
    | ok answer =>
      change (if answer = go then g xs else .ok answer) = .ok go ↔ _
      split
      · rename_i heq
        simp [heq]
      · rename_i hne
        simp [hne]

theorem Asks.exists_of_ne (h : Asks p go g) {answer : Bool} (hanswer : g xs = .ok answer)
    (hne : answer ≠ go) : ∃ x ∈ xs, p x = .ok answer := by
  induction xs with
  | nil => exact absurd (Except.ok.inj (hanswer.symm.trans h.nil)) hne
  | cons x xs ih =>
    rw [h.cons] at hanswer
    obtain ⟨found, hfound, hanswer⟩ := exists_of_bind_eq_ok hanswer
    split at hanswer
    · obtain ⟨y, hy, hpy⟩ := ih hanswer
      exact ⟨y, mem_cons_of_mem x hy, hpy⟩
    · exact ⟨x, mem_cons_self, hfound.trans hanswer⟩

/-- Asking fails at the first element about which there is no answer, if it comes to it. -/
theorem Asks.not_succeeds_iff (h : Asks p go g) :
    ¬ Succeeds (g xs) ↔ ∃ before x rest, xs = before ++ x :: rest ∧ (∀ y ∈ before, p y = .ok go) ∧
      ¬ Succeeds (p x) := by
  constructor
  · intro hfails
    induction xs with
    | nil => exact absurd (h.nil ▸ succeeds_ok) hfails
    | cons x xs ih =>
      rw [h.cons] at hfails
      cases hx : p x with
      | error e =>
        exact ⟨[], x, xs, rfl, forall_mem_nil _, hx ▸ nofun⟩
      | ok answer =>
        rw [hx] at hfails
        change ¬ Succeeds (if answer = go then g xs else .ok answer) at hfails
        split at hfails
        · rename_i heq
          obtain ⟨before, y, rest, rfl, hbefore, hy⟩ := ih hfails
          exact ⟨x :: before, y, rest, rfl, forall_mem_cons.mpr ⟨heq ▸ hx, hbefore⟩, hy⟩
        · exact absurd succeeds_ok hfails
  · rintro ⟨before, x, rest, rfl, hbefore, hx⟩ hsucceeds
    induction before with
    | nil =>
      rw [nil_append, h.cons] at hsucceeds
      obtain ⟨answer, hanswer, -⟩ := succeeds_bind_iff.mp hsucceeds
      exact hx ⟨answer, hanswer, trivial⟩
    | cons y before ih =>
      obtain ⟨hy, hbefore⟩ := forall_mem_cons.mp hbefore
      rw [cons_append, h.cons, hy] at hsucceeds
      change Succeeds (if go = go then _ else _) at hsucceeds
      rw [if_pos rfl] at hsucceeds
      exact ih hbefore hsucceeds

theorem Asks.succeeds_of_isPrefix (h : Asks p go g) {ys : List α} (hstart : ys <+: xs)
    (hxs : Succeeds (g xs)) : Succeeds (g ys) := by
  refine Classical.byContradiction fun hys => ?_
  obtain ⟨more, rfl⟩ := hstart
  obtain ⟨before, x, rest, rfl, hbefore, hx⟩ := h.not_succeeds_iff.mp hys
  refine h.not_succeeds_iff.mpr ⟨before, x, rest ++ more, ?_, hbefore, hx⟩ hxs
  rw [append_assoc, cons_append]

end Asks

end GDWorkbench

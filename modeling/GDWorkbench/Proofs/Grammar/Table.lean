import GDWorkbench.Parse.Stack

/-!
The rows of the automaton. A state is its row with the references looked up, so that what is checked of
every row is true of every state. The facts are evaluated row by row. Everything that is proved about
parsing rests on what they say and not on the rows themselves.
-/

namespace GDWorkbench

theorem Kind.ctorIdx_le (k : Kind) : k.ctorIdx ≤ Kind.rawString.ctorIdx := by
  cases k <;> decide

theorem Fragment.ctorIdx_le (f : Fragment) : f.ctorIdx ≤ Fragment.moreEqualEntries.ctorIdx := by
  cases f <;> decide

instance (priority := low) Kind.decidableForall (p : Kind → Prop) [DecidablePred p] : Decidable (∀ k, p k) :=
  decidable_of_iff (∀ n ≤ Kind.rawString.ctorIdx, p (Kind.ofNat n))
    ⟨fun h k => Kind.ofNat_ctorIdx k ▸ h k.ctorIdx k.ctorIdx_le, fun h _ _ => h _⟩

instance (priority := low) Fragment.decidableForall (p : Fragment → Prop) [DecidablePred p] : Decidable (∀ f, p f) :=
  decidable_of_iff (∀ n ≤ Fragment.moreEqualEntries.ctorIdx, p (Fragment.ofNat n))
    ⟨fun h f => Fragment.ofNat_ctorIdx f ▸ h f.ctorIdx f.ctorIdx_le, fun h _ _ => h _⟩

instance (priority := low) Nonterminal.decidableForall (p : Nonterminal → Prop) [DecidablePred p] :
    Decidable (∀ head, p head) :=
  decidable_of_iff ((∀ k, p (.node k)) ∧ ∀ f, p (.part f))
    ⟨fun h head => by
      cases head with
      | node k => exact h.1 k
      | part f => exact h.2 f,
    fun h => ⟨fun k => h (.node k), fun f => h (.part f)⟩⟩

namespace Automaton

open List Parse Row

variable {number : Nat} {x : Head} {head : Nonterminal} {t : Terminal} {p : Production}

/-- The row of a state; a number that no state has stands for an empty one. -/
def row (number : Nat) : Row :=
  ((blocks[number / width]?).bind (·[number % width]?)).getD default

theorem row_mem (number : Nat) : row number = default ∨ ∃ rows ∈ blocks, row number ∈ rows := by
  unfold row
  cases hrows : blocks[number / width]? with
  | none => exact .inl rfl
  | some rows =>
    cases hrow : rows[number % width]? with
    | none => exact .inl (by simp [hrow])
    | some r =>
      refine .inr ⟨rows, mem_of_getElem? hrows, ?_⟩
      simpa [hrow] using mem_of_getElem? hrow

/-- What is true of the empty row and of those in the table is true of all rows. -/
theorem forall_row {check : Row → Bool} (hempty : check default)
    (hblocks : ∀ rows ∈ blocks, ∀ r ∈ rows, check r) (number : Nat) :
    check (row number) := by
  rcases row_mem number with hrow | ⟨rows, hrows, hrow⟩
  · rw [hrow, hempty]
  · exact hblocks rows hrows _ hrow

theorem state_eq (number : Nat) :
    (state number).shifts = (row number).shifts ∧ (state number).nodes = (row number).nodes ∧
      (state number).parts = (row number).parts ∧
      (state number).reductions = (row number).reductions.filterMap Reduction.resolve := by
  unfold state row states
  rw [getElem?_map]
  cases blocks[number / width]? with
  | none => exact ⟨rfl, rfl, rfl, rfl⟩
  | some rows =>
    simp only [Option.map_some, Option.bind_some, getElem?_map]
    cases rows[number % width]? with
    | none => exact ⟨rfl, rfl, rfl, rfl⟩
    | some r => exact ⟨rfl, rfl, rfl, rfl⟩

/-! ## Edges -/

def State.next? (s : State) : Head → Option Nat
  | .terminal t => s.shift? t
  | .nonterminal head => s.goto? head

def Row.edges (r : Row) : List (Head × Nat) :=
  r.shifts.map (fun (t, target) => (Head.terminal t, target)) ++
    (r.nodes.map (fun (k, target) => (Head.nonterminal (.node k), target)) ++
      r.parts.map fun (f, target) => (Head.nonterminal (.part f), target))

theorem mem_of_lookup {α β : Type} [BEq α] [LawfulBEq α] {entries : List (α × β)} {key : α}
    {value : β} (h : entries.lookup key = some value) : (key, value) ∈ entries := by
  obtain ⟨before, after, hentries, -⟩ := lookup_eq_some_iff.mp h
  rw [hentries]
  exact mem_append_right _ mem_cons_self

theorem mem_edges {target : Nat}
    (h : (state number).next? x = some target) : (x, target) ∈ (row number).edges := by
  obtain ⟨hshifts, hnodes, hparts, -⟩ := state_eq number
  simp only [edges, mem_append, mem_map]
  cases x with
  | terminal t =>
    rw [State.next?, State.shift?, hshifts] at h
    exact .inl ⟨_, mem_of_lookup h, rfl⟩
  | nonterminal head =>
    rw [State.next?] at h
    cases head with
    | node k =>
      rw [State.goto?, hnodes] at h
      exact .inr (.inl ⟨_, mem_of_lookup h, rfl⟩)
    | part f =>
      rw [State.goto?, hparts] at h
      exact .inr (.inr ⟨_, mem_of_lookup h, rfl⟩)

def Row.goto? (r : Row) : Nonterminal → Option Nat
  | .node k => r.nodes.lookup k
  | .part f => r.parts.lookup f

theorem goto?_state (number : Nat) (head : Nonterminal) :
    (state number).goto? head = (row number).goto? head := by
  obtain ⟨-, hnodes, hparts, -⟩ := state_eq number
  cases head <;> simp [State.goto?, goto?, hnodes, hparts]

/-! ## Complete productions -/

/-- The whole text is complete only at its end, and a production without symbols only where it can begin. -/
def Row.isComplete (r : Row) : Bool :=
  r.reductions.all fun x =>
    (x.head != .node .start || lookaheads[x.lookahead]? == some [.endOfText]) &&
      (x.head.productions[x.index]?).all fun p => !p.symbols.isEmpty || (r.goto? x.head).isSome

theorem isComplete_blocks : ∀ rows ∈ blocks, ∀ r ∈ rows, r.isComplete := by decide +kernel

theorem mem_of_action? (h : (state number).action? t = some (.reduce head p)) :
    ∃ r ∈ (row number).reductions, r.head = head ∧ head.productions[r.index]? = some p ∧
      ∃ lookahead, lookaheads[r.lookahead]? = some lookahead ∧ t ∈ lookahead := by
  unfold State.action? at h
  split at h
  · cases h
  · obtain ⟨⟨lookahead, head', p'⟩, hfind, heq⟩ := Option.map_eq_some_iff.mp h
    obtain ⟨rfl, rfl⟩ : head' = head ∧ p' = p := by simpa using heq
    have hmem := mem_of_find?_eq_some hfind
    have ht := find?_some hfind
    rw [(state_eq number).2.2.2, mem_filterMap] at hmem
    obtain ⟨r, hr, hresolve⟩ := hmem
    obtain ⟨found, hlookahead, hresolve⟩ := Option.bind_eq_some_iff.mp hresolve
    obtain ⟨q, hproduction, hresolve⟩ := Option.bind_eq_some_iff.mp hresolve
    obtain ⟨rfl, rfl, rfl⟩ : found = lookahead ∧ r.head = head' ∧ q = p' := by
      simpa using hresolve
    exact ⟨r, hr, rfl, hproduction, found, hlookahead, elem_iff.mp ht⟩

end Automaton

end GDWorkbench

import GDWorkbench.Proofs.Grammar.Table

/-!
What a state knows of the productions it has begun. This is found from the states that complete one,
against the edges: the state before a symbol knows the production up to that symbol, down to the one where
the production can begin. So a production that a state completes has been read from its first symbol to
its last.
-/

namespace GDWorkbench

namespace Nonterminal

def code : Nonterminal → Nat
  | .node k => 2 * k.ctorIdx
  | .part f => 2 * f.ctorIdx + 1

theorem code_inj {x y : Nonterminal} (h : x.code = y.code) : x = y := by
  cases x <;> cases y <;> simp only [code] at h
  case node.node k l =>
    rw [← Kind.ofNat_ctorIdx k, ← Kind.ofNat_ctorIdx l, show k.ctorIdx = l.ctorIdx by omega]
  case part.part f g =>
    rw [← Fragment.ofNat_ctorIdx f, ← Fragment.ofNat_ctorIdx g, show f.ctorIdx = g.ctorIdx by omega]
  all_goals omega

/-- A set of nonterminals as a number, which is fast to compare. -/
def bits (heads : List Nonterminal) : Nat :=
  heads.foldr (fun head set => set ||| 1 <<< head.code) 0

theorem testBit_bits {head : Nonterminal} {heads : List Nonterminal} :
    (bits heads).testBit head.code ↔ head ∈ heads := by
  induction heads with
  | nil => simp [bits]
  | cons x heads ih =>
    have hbit : (1 <<< x.code).testBit head.code ↔ head = x := by
      rw [Nat.one_shiftLeft, Nat.testBit_two_pow, decide_eq_true_iff]
      exact ⟨fun h => (code_inj h).symm, fun h => h ▸ rfl⟩
    rw [bits, List.foldr_cons, Nat.testBit_or, Bool.or_eq_true, hbit, List.mem_cons, or_comm]
    exact or_congr_right ih

def isWithin (heads others : List Nonterminal) : Bool :=
  (bits heads ||| bits others).beq (bits others)

theorem mem_of_isWithin {heads others : List Nonterminal} (h : isWithin heads others) {head : Nonterminal}
    (hhead : head ∈ heads) : head ∈ others := by
  rw [← testBit_bits, ← Nat.eq_of_beq_eq_true h, Nat.testBit_or, testBit_bits.mpr hhead, Bool.true_or]

end Nonterminal

namespace Automaton

open List Parse Row

variable {number : Nat} {x : Head} {head : Nonterminal} {t : Terminal} {p : Production}

/-- What has been read of a production, the last symbol first. -/
structure Progress where
  head : Nonterminal
  read : List Head

def Progress.of (head : Nonterminal) (p : Production) : Progress :=
  ⟨head, (p.symbols.map headOf).reverse⟩

/-- What had been read before the symbol, if anything. -/
def Progress.before? (x : Head) : Progress → Option Progress
  | ⟨head, y :: z :: read⟩ => if x = y then some ⟨head, z :: read⟩ else none
  | _ => none

def Row.completed (r : Row) : List Progress :=
  r.reductions.filterMap fun x => (x.head.productions[x.index]?).map (.of x.head)

def before {α : Type} (symbol : α → Head) (known : Nat → List Progress) (entries : List (α × Nat)) :
    List Progress :=
  entries.flatMap fun (x, target) => (known target).filterMap (·.before? (symbol x))

-- list by list, since many rows have a list in common, and what it gives is then evaluated once
def Row.before (known : Nat → List Progress) : Row → List Progress
  | ⟨shifts, _, nodes, parts⟩ =>
    Automaton.before .terminal known shifts ++ (Automaton.before (.nonterminal <| .node ·) known nodes ++
      Automaton.before (.nonterminal <| .part ·) known parts)

/-- The productions that a state has begun and of which so many symbols are left. -/
def known : Nat → Nat → List Progress
  | 0, number => (row number).completed
  | left + 1, number => (row number).before (known left)

theorem Row.mem_before {r : Row} {known : Nat → List Progress} {done : Progress} :
    done ∈ r.before known ↔
      ∃ x target, (x, target) ∈ r.edges ∧ ∃ p ∈ known target, p.before? x = some done := by
  simp only [Row.before, Automaton.before, edges, mem_append, mem_flatMap, mem_filterMap, mem_map,
    Prod.exists, Prod.mk.injEq]
  constructor
  · rintro (⟨t, target, h, hp⟩ | ⟨k, target, h, hp⟩ | ⟨f, target, h, hp⟩)
    · exact ⟨_, target, .inl ⟨t, _, h, rfl, rfl⟩, hp⟩
    · exact ⟨_, target, .inr (.inl ⟨k, _, h, rfl, rfl⟩), hp⟩
    · exact ⟨_, target, .inr (.inr ⟨f, _, h, rfl, rfl⟩), hp⟩
  · rintro ⟨x, target, ⟨t, _, h, rfl, rfl⟩ | ⟨k, _, h, rfl, rfl⟩ | ⟨f, _, h, rfl, rfl⟩, hp⟩
    · exact .inl ⟨t, _, h, hp⟩
    · exact .inr (.inl ⟨k, _, h, hp⟩)
    · exact .inr (.inr ⟨f, _, h, hp⟩)

theorem Progress.eq_of_before? {p done : Progress} (h : p.before? x = some done) :
    p = ⟨done.head, x :: done.read⟩ := by
  unfold before? at h
  split at h
  · split at h
    · subst x
      cases h
      rfl
    · cases h
  · cases h

/-- What is known of a production is its first symbols. -/
theorem exists_of_known {left : Nat} {p : Progress} (h : p ∈ known left number) :
    ∃ q ∈ p.head.productions, ∃ rest, rest.length = left ∧
      q.symbols.map headOf = p.read.reverse ++ rest := by
  induction left generalizing number p with
  | zero =>
    obtain ⟨r, -, hr⟩ := mem_filterMap.mp h
    obtain ⟨q, hq, rfl⟩ := Option.map_eq_some_iff.mp hr
    exact ⟨q, mem_of_getElem? hq, [], rfl, by simp [Progress.of]⟩
  | succ left ih =>
    obtain ⟨x, target, -, next, hnext, hp⟩ := mem_before.mp h
    obtain rfl := Progress.eq_of_before? hp
    obtain ⟨q, hq, rest, rfl, hsymbols⟩ := ih hnext
    exact ⟨q, hq, x :: rest, rfl, by simpa using hsymbols⟩

/-- No production has more symbols. -/
def mostSymbols : Nat := 7

theorem length_symbols_le (head : Nonterminal) :
    ∀ p ∈ head.productions, p.symbols.length ≤ mostSymbols := by
  revert head
  decide +kernel

def Progress.isBegun (p : Progress) : Bool :=
  !p.read.isEmpty

/-- The productions that a state has begun. -/
def begun (number : Nat) : List Progress :=
  (range mostSymbols).flatMap fun left => (known left number).filter (·.isBegun)

/-- A state that is entered with a terminal has begun something, and none is entered with the end of the
text. -/
def isEntered (x : Head) (target : Nat) : Bool :=
  match x with
  | .terminal t => t != .endOfText && !(begun target).isEmpty
  | .nonterminal _ => true

def Progress.endsWith (x : Head) : Progress → Bool
  | ⟨_, []⟩ => true
  | ⟨_, y :: _⟩ => x = y

/-- What is being made, if only its first symbol has been read. -/
def Progress.first? : Progress → Option Nonterminal
  | ⟨head, [_]⟩ => some head
  | _ => none

def firsts {α : Type} (entries : List (α × Nat)) : List Nonterminal :=
  entries.flatMap fun (_, target) => (begun target).filterMap (·.first?)

/-- Whether what is begun behind a symbol has been read up to it, and can begin where the symbol is its
first. -/
def isLinkedBy {α : Type} (symbol : α → Head) (heads : List Nonterminal) (entries : List (α × Nat)) : Bool :=
  entries.all (fun (x, target) =>
      isEntered (symbol x) target && (begun target).all (·.endsWith (symbol x))) &&
    Nonterminal.isWithin (firsts entries) heads

def Row.heads (r : Row) : List Nonterminal :=
  r.nodes.map (.node ·.1) ++ r.parts.map (.part ·.1)

-- list by list again, and no list is compared with the row it is in but by its first heads
def Row.isLinked (r : Row) : Bool :=
  isLinkedBy .terminal r.heads r.shifts && (isLinkedBy (.nonterminal <| .node ·) r.heads r.nodes &&
    isLinkedBy (.nonterminal <| .part ·) r.heads r.parts)

/-- Every edge leads to what follows from the row it leaves, and the first state has begun nothing. -/
theorem isLinked_blocks : (∀ rows ∈ blocks, ∀ r ∈ rows, r.isLinked) ∧ ∀ p, p ∉ begun 0 := by
  have h : (∀ rows ∈ blocks, ∀ r ∈ rows, r.isLinked) ∧ (begun 0).isEmpty := by decide +kernel
  exact ⟨h.1, fun _ hp => ne_nil_of_mem hp (isEmpty_iff.mp h.2)⟩

theorem linked_of_isLinkedBy {α : Type} {symbol : α → Head} {heads : List Nonterminal}
    {entries : List (α × Nat)} (h : isLinkedBy symbol heads entries) {a : α} {target : Nat}
    (hentry : (a, target) ∈ entries) :
    isEntered (symbol a) target ∧
      ∀ p ∈ begun target, p.endsWith (symbol a) ∧ ∀ head ∈ p.first?, head ∈ heads := by
  rw [isLinkedBy, Bool.and_eq_true, all_eq_true] at h
  have hedge := h.1 _ hentry
  rw [Bool.and_eq_true, all_eq_true] at hedge
  refine ⟨hedge.1, fun p hp => ⟨hedge.2 p hp, fun head hhead => ?_⟩⟩
  exact Nonterminal.mem_of_isWithin h.2
    (mem_flatMap.mpr ⟨_, hentry, mem_filterMap.mpr ⟨p, hp, hhead⟩⟩)

theorem linked_of_next? {target : Nat} (h : (state number).next? x = some target) :
    isEntered x target ∧
      ∀ p ∈ begun target, p.endsWith x ∧ ∀ head ∈ p.first?, head ∈ (row number).heads := by
  have hlinked := forall_row (by decide) isLinked_blocks.1 number
  rw [isLinked, Bool.and_eq_true, Bool.and_eq_true] at hlinked
  have hedge := mem_edges h
  simp only [edges, mem_append, mem_map] at hedge
  rcases hedge with ⟨_, hentry, rfl, rfl⟩ | ⟨_, hentry, rfl, rfl⟩ | ⟨_, hentry, rfl, rfl⟩
  · exact linked_of_isLinkedBy hlinked.1 hentry
  · exact linked_of_isLinkedBy hlinked.2.1 hentry
  · exact linked_of_isLinkedBy hlinked.2.2 hentry

theorem exists_goto?_of_mem_heads (h : head ∈ (row number).heads) :
    ∃ target, (row number).goto? head = some target := by
  rw [← Option.isSome_iff_exists, ← Option.ne_none_iff_isSome]
  simp only [heads, mem_append, mem_map] at h
  rcases h with ⟨e, he, rfl⟩ | ⟨e, he, rfl⟩
  · exact fun hnone => by simpa using lookup_eq_none_iff.mp hnone e he
  · exact fun hnone => by simpa using lookup_eq_none_iff.mp hnone e he

section Known

variable {left target : Nat} {y : Head} {read : List Head} (hleft : left < mostSymbols)

include hleft

theorem mem_begun (h : ⟨head, y :: read⟩ ∈ known left number) : ⟨head, y :: read⟩ ∈ begun number :=
  mem_flatMap.mpr ⟨left, mem_range.mpr hleft, mem_filter.mpr ⟨h, rfl⟩⟩

theorem not_known_first : ⟨head, y :: read⟩ ∉ known left 0 :=
  fun h => isLinked_blocks.2 _ (mem_begun hleft h)

theorem eq_of_next? (hnext : (state number).next? x = some target)
    (h : ⟨head, y :: read⟩ ∈ known left target) : x = y := by
  simpa [Progress.endsWith] using ((linked_of_next? hnext).2 _ (mem_begun hleft h)).1

theorem exists_goto?_of_next? (hnext : (state number).next? x = some target)
    (h : ⟨head, [y]⟩ ∈ known left target) :
    x = y ∧ ∃ target, (row number).goto? head = some target :=
  ⟨eq_of_next? hleft hnext h,
    exists_goto?_of_mem_heads (((linked_of_next? hnext).2 _ (mem_begun hleft h)).2 head rfl)⟩

theorem known_of_next? {z : Head} (hnext : (state number).next? x = some target)
    (h : ⟨head, y :: z :: read⟩ ∈ known left target) :
    x = y ∧ ⟨head, z :: read⟩ ∈ known (left + 1) number := by
  have hxy := eq_of_next? hleft hnext h
  exact ⟨hxy, mem_before.mpr ⟨x, target, mem_edges hnext, _, h, if_pos hxy⟩⟩

end Known

theorem exists_known_of_shift? {target : Nat} (h : (state number).shift? t = some target) :
    t ≠ .endOfText ∧ ∃ left head y read, ⟨head, y :: read⟩ ∈ known left target := by
  have hentered := (linked_of_next? (x := .terminal t) h).1
  simp only [isEntered, Bool.and_eq_true, bne_iff_ne, Bool.not_eq_true', isEmpty_eq_false_iff] at hentered
  obtain ⟨ht, hbegun⟩ := hentered
  obtain ⟨⟨head, read⟩, hmem⟩ := exists_mem_of_ne_nil _ hbegun
  obtain ⟨left, -, hmem⟩ := mem_flatMap.mp hmem
  obtain ⟨hmem, hread⟩ := mem_filter.mp hmem
  cases read with
  | nil => cases hread
  | cons y read => exact ⟨ht, left, head, y, read, hmem⟩

/-- A production is complete only where all of it has been read. -/
theorem known_of_action? (h : (state number).action? t = some (.reduce head p)) :
    p ∈ head.productions ∧ .of head p ∈ known 0 number ∧
      (p.symbols = [] → ∃ target, (row number).goto? head = some target) ∧
      (head = .node .start → t = .endOfText) := by
  obtain ⟨r, hr, rfl, hproduction, lookahead, hlookahead, ht⟩ := mem_of_action? h
  have hcomplete := all_eq_true.mp (forall_row (by decide) isComplete_blocks number) r hr
  rw [Bool.and_eq_true, hlookahead, hproduction] at hcomplete
  refine ⟨mem_of_getElem? hproduction, mem_filterMap.mpr ⟨r, hr, by rw [hproduction]; rfl⟩, fun hempty => ?_,
    fun hhead => ?_⟩
  · simpa [hempty, Option.isSome_iff_exists] using hcomplete.2
  · have hend : lookahead = [.endOfText] := by simpa [hhead] using hcomplete.1
    simpa [hend] using ht

end Automaton

end GDWorkbench

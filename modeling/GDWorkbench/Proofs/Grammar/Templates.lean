import GDWorkbench.Proofs.Parse.Conformance

/-!
What can stand among the children of a node. A template bounds rows of labels: so many places in front,
each with the labels that may stand there, and then any number of labels from one more place. Templates
are computed for the items of a rule from a table with templates of its symbols. The table is right if the
templates computed for every rule are within those of the table, which is checked rule by rule; then the
children of every node that conforms to the grammar have the template of their kind.
-/

namespace GDWorkbench

open List

variable {l : Label} {labels : List Label}

abbrev Place := Option (List Label)

namespace Place

def admits : Place → Label → Bool
  | none, _ => true
  | some labels, l => decide (l ∈ labels)

def isEmpty : Place → Bool
  | some [] => true
  | _ => false

def union : Place → Place → Place
  | some a, some b => some (a ++ b)
  | _, _ => none

def isWithin : Place → Place → Bool
  | _, none => true
  | none, some _ => false
  | some a, some b => a.all fun l => decide (l ∈ b)

theorem admits_union {p q : Place} (h : p.admits l ∨ q.admits l) : (p.union q).admits l := by
  cases p <;> cases q <;> simp_all [union, admits]

theorem admits_of_isWithin {p q : Place} (hpq : p.isWithin q) (h : p.admits l) : q.admits l := by
  cases p <;> cases q <;> simp_all [isWithin, admits]

/-- Whether only labels of the set may stand there. -/
def staysIn (allowed : Label → Bool) : Place → Bool
  | some labels => labels.all allowed
  | none => false

theorem allowed_of_admits {allowed : Label → Bool} {p : Place} (hp : p.staysIn allowed) (h : p.admits l) :
    allowed l := by
  cases p with
  | none => cases hp
  | some labels => exact all_eq_true.mp hp l (of_decide_eq_true h)

theorem not_admits_of_isEmpty {p : Place} (h : p.isEmpty) (l : Label) : p.admits l = false := by
  match p with
  | some [] => rfl
  | some (_ :: _) => cases h
  | none => cases h

end Place

/-! ## Templates -/

structure Template where
  front : List Place
  rest : Place

/-- Labels for the places in front, and then labels from the last place. -/
inductive Place.Row (rest : Place) : List Place → List Label → Prop
  | rest {labels : List Label} (all : ∀ l ∈ labels, rest.admits l = true) : Row rest [] labels
  | place {p : Place} {l : Label} {front : List Place} {labels : List Label}
      (first : p.admits l = true) (more : Row rest front labels) :
      Row rest (p :: front) (l :: labels)

variable {rest : Place} {front : List Place}

/-- Where nothing is admitted behind the front, a row is as long as the front. -/
theorem Place.Row.length_eq
    (hempty : rest.isEmpty) (h : rest.Row front labels) : labels.length = front.length := by
  induction h with
  | @rest labels hall =>
    refine congrArg length (eq_nil_iff_forall_not_mem.mpr fun l hl => ?_)
    exact Bool.false_ne_true ((not_admits_of_isEmpty hempty l).symm.trans (hall l hl))
  | place hfirst hmore ih => rw [length_cons, length_cons, ih]

namespace Template

def Fits (s : Template) (labels : List Label) : Prop :=
  s.rest.Row s.front labels

def anything : Template :=
  ⟨[], none⟩

def exactly (places : List Place) : Template :=
  ⟨places, some []⟩

def append (s t : Template) : Template :=
  if s.rest.isEmpty then ⟨s.front ++ t.front, t.rest⟩
  else ⟨s.front, t.front.foldr Place.union (s.rest.union t.rest)⟩

/-- Whether places in front and a last place are within others. -/
def isWithinRow (rest rest' : Place) : List Place → List Place → Bool
  | front, [] => front.all (·.isWithin rest') && rest.isWithin rest'
  | [], _ :: _ => false
  | p :: front, q :: front' => p.isWithin q && isWithinRow rest rest' front front'

/-- Whether every row of the first template has the second one. -/
def isWithin (s t : Template) : Bool :=
  isWithinRow s.rest t.rest s.front t.front

theorem fits_exactly (labels : List Label) :
    (exactly (labels.map fun l => some [l])).Fits labels := by
  induction labels with
  | nil => exact .rest nofun
  | cons l labels ih => exact .place (by simp [Place.admits]) ih

theorem admits_foldr_union {places : List Place}
    (h : rest.admits l ∨ ∃ p ∈ places, p.admits l) :
    (places.foldr Place.union rest).admits l := by
  induction places with
  | nil => simpa using h
  | cons p places ih =>
    rw [foldr_cons]
    apply Place.admits_union
    rcases h with h | ⟨q, hq, h⟩
    · exact .inr (ih (.inl h))
    · rcases mem_cons.mp hq with rfl | hq
      · exact .inl h
      · exact .inr (ih (.inr ⟨q, hq, h⟩))

theorem admits_of_mem (h : rest.Row front labels) :
    ∀ l ∈ labels, rest.admits l ∨ ∃ p ∈ front, p.admits l := by
  induction h with
  | rest hall => exact fun l hl => .inl (hall l hl)
  | @place p first front labels hfirst hmore ih =>
    refine forall_mem_cons.mpr ⟨.inr ⟨p, mem_cons_self, hfirst⟩, fun l hl => ?_⟩
    rcases ih l hl with hrest | ⟨q, hq, hadmits⟩
    · exact .inl hrest
    · exact .inr ⟨q, mem_cons_of_mem p hq, hadmits⟩

def staysIn (allowed : Label → Bool) (s : Template) : Bool :=
  s.front.all (·.staysIn allowed) && s.rest.staysIn allowed

theorem Fits.of_staysIn {s : Template} {allowed : Label → Bool} (h : s.Fits labels)
    (hs : s.staysIn allowed) : ∀ l ∈ labels, allowed l := by
  obtain ⟨hfront, hrest⟩ := Bool.and_eq_true_iff.mp hs
  intro l hl
  rcases admits_of_mem h l hl with hadmits | ⟨p, hp, hadmits⟩
  · exact Place.allowed_of_admits hrest hadmits
  · exact Place.allowed_of_admits (all_eq_true.mp hfront p hp) hadmits

theorem Fits.append {s t : Template} {first second : List Label} (hs : s.Fits first)
    (ht : t.Fits second) : (s.append t).Fits (first ++ second) := by
  obtain ⟨front, rest⟩ := s
  unfold Template.append
  split
  · rename_i hempty
    change rest.Row front first at hs
    change t.rest.Row (front ++ t.front) (first ++ second)
    induction hs with
    | rest hall =>
      rw [length_eq_zero_iff.mp ((Place.Row.rest hall).length_eq hempty)]
      exact ht
    | place hfirst hmore ih => exact .place hfirst (ih hempty)
  · rename_i hopen
    change rest.Row front first at hs
    change (t.front.foldr Place.union (rest.union t.rest)).Row front (first ++ second)
    induction hs with
    | @rest labels hall =>
      refine .rest fun l hl => admits_foldr_union ?_
      rcases mem_append.mp hl with hl | hl
      · exact .inl (Place.admits_union (.inl (hall l hl)))
      · exact (admits_of_mem ht l hl).imp_left fun h => Place.admits_union (.inr h)
    | place hfirst hmore ih => exact .place hfirst (ih hopen)

theorem Fits.of_isWithin {s t : Template} (hst : s.isWithin t)
    (hs : s.Fits labels) : t.Fits labels := by
  obtain ⟨front, rest⟩ := s
  obtain ⟨front', rest'⟩ := t
  change isWithinRow rest rest' front front' at hst
  change rest.Row front labels at hs
  change rest'.Row front' labels
  induction hs generalizing front' with
  | rest hall =>
    cases front' with
    | nil =>
      have hrest : rest.isWithin rest' := by simpa [isWithinRow] using hst
      exact .rest fun l hl => Place.admits_of_isWithin hrest (hall l hl)
    | cons q front' => cases hst
  | @place p l front labels hfirst hmore ih =>
    cases front' with
    | nil =>
      have hsplit : p.isWithin rest' ∧ isWithinRow rest rest' front [] := by
        simpa [isWithinRow, and_assoc] using hst
      cases ih [] hsplit.2 with
      | rest hall =>
        refine .rest (forall_mem_cons.mpr ⟨?_, hall⟩)
        exact Place.admits_of_isWithin hsplit.1 hfirst
    | cons q front' =>
      obtain ⟨hpq, hst⟩ := Bool.and_eq_true_iff.mp hst
      exact .place (Place.admits_of_isWithin hpq hfirst) (ih front' hst)

end Template

/-! ## Templates of rules -/

def Build.template : Build → Template → Template
  | .splice, s => s
  | .node k, _ => .exactly [some [.node k]]
  | .collapse k, s =>
    match s.front with
    | [] => .exactly [s.rest.union (some [.node k])]
    | [p] => .exactly [if s.rest.isEmpty then p else p.union (some [.node k])]
    | _ => .exactly [some [.node k]]

theorem Build.fits_template (b : Build) {s : Template} (h : s.Fits labels) :
    (b.template s).Fits (b.labels labels) := by
  have hone (p : Place) (l : Label) (hl : p.admits l) : (Template.exactly [p]).Fits [l] :=
    .place hl (.rest nofun)
  cases b with
  | splice => exact h
  | node k => exact Template.fits_exactly [.node k]
  | collapse k =>
    have hnode : Place.admits (some [.node k]) (.node k) := by simp [Place.admits]
    obtain ⟨front, rest⟩ := s
    rw [Build.labels]
    cases h with
    | @rest labels hall =>
      change (Template.exactly [rest.union (some [.node k])]).Fits _
      split
      · rename_i hlength
        obtain ⟨l, rfl⟩ := length_eq_one_iff.mp hlength
        exact hone _ l (Place.admits_union (.inl (hall l mem_cons_self)))
      · exact hone _ _ (Place.admits_union (.inr hnode))
    | @place p l front labels hfirst hmore =>
      cases hmore with
      | place hsecond hmore =>
        rw [if_neg (by simp)]
        exact hone _ _ hnode
      | @rest labels hall =>
        change (Template.exactly [if rest.isEmpty then p else p.union (some [.node k])]).Fits _
        cases labels with
        | nil =>
          rw [if_pos length_singleton]
          refine hone _ l ?_
          split
          · exact hfirst
          · exact Place.admits_union (.inl hfirst)
        | cons second labels =>
          have hopen : rest.isEmpty = false := by
            by_contra hempty
            cases (Place.Row.rest hall).length_eq (Bool.not_eq_false _ ▸ hempty)
          rw [hopen, if_neg (by simp)]
          exact hone _ _ (Place.admits_union (.inr hnode))

/-- Templates of symbols. A fragment may keep all of its tokens or not. -/
structure Templates where
  node : Kind → Place
  part : Fragment → Bool → Template

namespace Templates

mutual

def ofItem (table : Templates) (full : Bool) : Item → List Template
  | .mark t | .leaf t => [.exactly ((t.labels full).map fun l => some [l])]
  | .node k => [.exactly [table.node k]]
  | .part f => [table.part f (f.keepsTokens.getD full)]
  | .choice alternatives => ofChoice table full alternatives

def ofChoice (table : Templates) (full : Bool) : List (List Item) → List Template
  | [] => []
  | items :: rest => ofItems table full items ++ ofChoice table full rest

def ofItems (table : Templates) (full : Bool) : List Item → List Template
  | [] => [.exactly []]
  | item :: items =>
    (ofItem table full item).flatMap fun s => (ofItems table full items).map s.append

end

/-- Whether the templates of a rule are within the template of its symbol. -/
def covers (table : Templates) (full : Bool) (s : Template) (alternatives : List Alternative) : Bool :=
  alternatives.all fun a => (table.ofItems full a.items).all fun t => (a.build.template t).isWithin s

/-- The templates of all rules are within those of the table. -/
structure IsClosed (table : Templates) : Prop where
  node (k : Kind) : table.covers k.keepsTokens (.exactly [table.node k]) k.alternatives = true
  part (f : Fragment) (full : Bool) : table.covers full (table.part f full) f.alternatives = true

def ofHead (table : Templates) (full : Bool) : Nonterminal → Template
  | .node k => .exactly [table.node k]
  | .part f => table.part f full

variable {table : Templates} {full : Bool}

theorem mem_ofChoice {alternatives : List (List Item)} {chosen : List Item}
    (h : chosen ∈ alternatives) {s : Template} (hs : s ∈ table.ofItems full chosen) :
    s ∈ table.ofChoice full alternatives := by
  induction alternatives with
  | nil => cases h
  | cons items rest ih =>
    rw [ofChoice, mem_append]
    rcases mem_cons.mp h with rfl | h
    · exact .inl hs
    · exact .inr (ih h)

/-- What an item and the items behind it stand for, one after the other. -/
theorem exists_fits_cons {item : Item} {items : List Item} {first rest : List Label}
    (hfirst : ∃ s ∈ table.ofItem full item, s.Fits first)
    (hrest : ∃ s ∈ table.ofItems full items, s.Fits rest) :
    ∃ s ∈ table.ofItems full (item :: items), s.Fits (first ++ rest) := by
  obtain ⟨s, hs, hfirst⟩ := hfirst
  obtain ⟨t, ht, hrest⟩ := hrest
  refine ⟨s.append t, ?_, hfirst.append hrest⟩
  rw [ofItems, mem_flatMap]
  exact ⟨s, hs, mem_map_of_mem ht⟩

theorem fits_of_covers {s : Template} {alternatives : List Alternative} {a : Alternative}
    (h : table.covers full s alternatives) (ha : a ∈ alternatives)
    (hfits : ∃ t ∈ table.ofItems full a.items, t.Fits labels) : s.Fits (a.build.labels labels) := by
  obtain ⟨t, ht, hfits⟩ := hfits
  have hwithin := all_eq_true.mp (all_eq_true.mp h a ha) t ht
  exact (a.build.fits_template hfits).of_isWithin hwithin

mutual

theorem fits_of_spells (htable : table.IsClosed) {full : Bool} {items : List Item}
    {labels : List Label} :
    Spells Fragment.keepsTokens full items labels → ∃ s ∈ table.ofItems full items, s.Fits labels
  | .nil full => ⟨_, mem_cons_self, Template.fits_exactly []⟩
  | .terminal hitem hmore => by
    refine exists_fits_cons ?_ (fits_of_spells htable hmore)
    rcases hitem with rfl | rfl
    all_goals exact ⟨_, mem_cons_self, Template.fits_exactly _⟩
  | .node hone hmore => by
    have hfirst := fits_of_yields htable (fun _ h => Nonterminal.node.inj h ▸ rfl) hone
    exact exists_fits_cons ⟨_, mem_cons_self, hfirst⟩ (fits_of_spells htable hmore)
  | .part hone hmore => by
    have hfirst := fits_of_yields htable (fun _ h => by cases h) hone
    exact exists_fits_cons ⟨_, mem_cons_self, hfirst⟩ (fits_of_spells htable hmore)
  | .choice hmem hone hmore => by
    obtain ⟨s, hs, hfits⟩ := fits_of_spells htable hone
    exact exists_fits_cons ⟨s, mem_ofChoice hmem hs, hfits⟩ (fits_of_spells htable hmore)

theorem fits_of_yields (htable : table.IsClosed) {full : Bool} {head : Nonterminal}
    {labels : List Label} (hfull : ∀ k, head = .node k → full = k.keepsTokens) :
    Yields Fragment.keepsTokens full head labels → (table.ofHead full head).Fits labels
  | .intro hmem hspells => by
    have hfits := fits_of_spells htable hspells
    cases head with
    | node k =>
      rw [hfull k rfl] at hfits
      exact fits_of_covers (htable.node k) hmem hfits
    | part f => exact fits_of_covers (htable.part f full) hmem hfits

end

end Templates

/-! ## The table -/

namespace Label

def nodes (kinds : List Kind) : Place :=
  some (kinds.map .node)

def leaves (terminals : List Terminal) : Place :=
  some (terminals.map .leaf)

def members : Place :=
  nodes [.passStmt, .enumStmt, .signalStmt, .extendsStmt, .classnameExtendsStmt, .classnameStmt,
    .classVarStmt, .staticClassVarStmt, .constStmt, .docstrStmt, .classDef, .propertyBodyDef,
    .funcDef, .staticFuncDef, .abstractFuncDef, .annot]

def statements : Place :=
  nodes [.passStmt, .returnStmt, .funcVarStmt, .breakStmt, .breakpointStmt, .continueStmt, .exprStmt,
    .constStmt, .ifStmt, .whileStmt, .forStmt, .forStmtTyped, .matchStmt, .annot]

def branches : Place :=
  nodes [.pattern, .matchBranch, .guardedMatchBranch]

def arguments : Place :=
  nodes [.funcArgVariadic, .funcArgRegular, .funcArgInf, .funcArgTyped]

def accessors : Place :=
  nodes [.propertyDelegateSet, .propertyDelegateGet, .propertyCustomSetter, .propertyCustomGetter]

def comparators : Place :=
  leaves [.greater, .less, .equalEqual, .bangEqual, .lessEqual, .greaterEqual]

end Label

open Label in
def Kind.makes : Kind → Place
  | .singleClassStmt | .compoundClassStmt => members
  | .singleFuncStmt | .compoundFuncStmt => statements
  | .funcArg => arguments
  | .matchBranch => branches
  | .propertyCustomEtter => accessors
  | k => if k.alternatives.all fun a => decide (a.build = .node k) then nodes [k] else none

open Label in
def Fragment.template : Fragment → Bool → Template
  | .classStmt, false | .simpleClassStmt, false | .classBody, false | .classStmts, false
  | .moreClassStmts, false => ⟨[], members⟩
  | .annotations, false => ⟨[], nodes [.annot]⟩
  | .funcSuite, false | .funcBody, false | .funcStmt, false | .simpleFuncStmt, false
  | .funcStmts, false | .moreFuncStmts, false | .lambdaSuite, false | .lambdaBody, false
  | .standaloneLambdaStmt, false => ⟨[], statements⟩
  | .varTyped, false | .forIteratorVarTyped, false =>
    .exactly [leaves [.identifier], leaves [.typeHint]]
  | .matchBody, false | .matchBranches, false => ⟨[], branches⟩
  | .elifBranches, false => ⟨[], nodes [.elifBranch]⟩
  | .moreFuncArgs, false => ⟨[], arguments⟩
  | .propertyDelegates, false | .customEtters, false => ⟨[], accessors⟩
  | .compOp, true => .exactly [comparators]
  | .assnmntOp, true | .plusAtom, false => .exactly [none]
  | .attr, true => .exactly [leaves [.dot], leaves [.identifier, .kwGet, .kwSet]]
  | _, _ => .anything

def Templates.table : Templates :=
  ⟨Kind.makes, Fragment.template⟩

theorem Templates.isClosed_table : table.IsClosed where
  node := by decide +kernel
  part := by decide +kernel

/-! ## Children -/

open Label in
def Kind.children : Kind → Template
  | .start => ⟨[], members⟩
  | .classDef => ⟨[leaves [.identifier]], members⟩
  | .funcDef => ⟨[nodes [.funcHeader]], statements⟩
  | .staticFuncDef => .exactly [nodes [.funcDef]]
  | .staticClassVarStmt => .exactly [nodes [.classVarStmt]]
  | .abstractFuncDef => .exactly [nodes [.abstractFuncHeader]]
  | .funcHeader | .abstractFuncHeader =>
    ⟨[leaves [.identifier], nodes [.funcArgs]], leaves [.typeHint]⟩
  | .funcArgs => ⟨[], arguments.union (nodes [.trailingComma])⟩
  | .funcArgVariadic => .exactly [nodes [.funcArgRegular, .funcArgTyped]]
  | .funcArgRegular | .funcArgInf | .funcArgTyped | .classnameStmt | .signalStmt | .enumNamed
  | .enumElement | .annot | .funcVarEmpty | .funcVarAssigned | .funcVarTyped | .funcVarTypedAssgnd
  | .funcVarInf | .constAssigned | .constTypedAssigned | .constInf => ⟨[leaves [.identifier]], none⟩
  | .classVarEmpty | .classVarAssigned | .classVarTyped | .classVarTypedAssgnd | .classVarInf =>
    ⟨[leaves [.identifier]], (leaves [.typeHint]).union (nodes [.expr, .inlinePropertyBody])⟩
  | .inlinePropertyBody | .propertyBodyDef => ⟨[], accessors⟩
  | .propertyCustomSetter => ⟨[leaves [.kwSet], leaves [.identifier]], statements⟩
  | .propertyCustomGetter => ⟨[leaves [.kwGet]], (nodes [.propertyCustomGetterArgs]).union statements⟩
  | .lambda => ⟨[nodes [.lambdaHeader]], statements⟩
  | .enumStmt => .exactly [nodes [.enumRegular, .enumNamed]]
  | .funcVarStmt =>
    .exactly [nodes [.funcVarEmpty, .funcVarAssigned, .funcVarTyped, .funcVarTypedAssgnd, .funcVarInf]]
  | .classVarStmt =>
    .exactly [nodes [.classVarEmpty, .classVarAssigned, .classVarTyped, .classVarTypedAssgnd,
      .classVarInf]]
  | .constStmt => .exactly [nodes [.constAssigned, .constTypedAssigned, .constInf]]
  | .ifStmt => ⟨[nodes [.ifBranch]], nodes [.elifBranch, .elseBranch]⟩
  | .ifBranch | .elifBranch | .whileStmt => ⟨[nodes [.expr]], statements⟩
  | .elseBranch => ⟨[], statements⟩
  | .forStmt => ⟨[leaves [.identifier], nodes [.expr]], statements⟩
  | .forStmtTyped => ⟨[leaves [.identifier], leaves [.typeHint], nodes [.expr]], statements⟩
  | .matchStmt => ⟨[nodes [.expr]], branches⟩
  | .matchBranch => ⟨[nodes [.pattern]], statements⟩
  | .guardedMatchBranch => ⟨[nodes [.pattern], nodes [.expr]], statements⟩
  | .exprStmt => .exactly [nodes [.expr]]
  | .pattern | .expr | .parPattern | .parExpr => .exactly [none]
  | .comparison | .aslessComparison => .exactly [none, comparators, none]
  | .assnmntExpr => .exactly [none, none, none]
  | .subscrExpr => .exactly [none, none]
  | .getattrCall => ⟨[nodes [.getattr]], none⟩
  | .standaloneCall => ⟨[leaves [.identifier, .kwGet, .kwSet]], none⟩
  | .string => .exactly [leaves [.longString, .regularString]]
  | .rawString => .exactly [leaves [.longRawString, .rawString]]
  | .aslessActualNotTest => .exactly [leaves [.kwNot, .bang], none]
  | .aslessActualNegExpr => .exactly [leaves [.minus], none]
  | .aslessActualBitwNot => .exactly [leaves [.tilde], none]
  | .getattr | .uniqueNodePath | .path | .listPattern | .attrPattern => ⟨[none], none⟩
  | _ => .anything

/-- Whether the pieces of an alternative have the template of the node that they make. One piece alone is
handed on if it can be. -/
def Alternative.isFaithful (full : Bool) (a : Alternative) : Bool :=
  match a.build with
  | .splice => true
  | .node k => (Templates.table.ofItems full a.items).all (·.isWithin k.children)
  | .collapse k => (Templates.table.ofItems full a.items).all fun s =>
    s.front.length = 1 && s.rest.isEmpty || s.isWithin k.children

theorem isFaithful_of_mem (rule : Kind) :
    ∀ a ∈ rule.alternatives, a.isFaithful rule.keepsTokens := by
  revert rule
  decide +kernel

theorem Kind.Expands.fits {k : Kind}
    (h : k.Expands Fragment.keepsTokens labels) : k.children.Fits labels := by
  obtain ⟨rule, a, ha, hmakes, hspells⟩ := h
  obtain ⟨s, hs, hfits⟩ := Templates.fits_of_spells Templates.isClosed_table hspells
  have hfaithful := isFaithful_of_mem rule a ha
  unfold Alternative.isFaithful at hfaithful
  cases hbuild : a.build with
  | splice =>
    rw [hbuild] at hmakes
    cases hmakes
  | node j =>
    rw [hbuild] at hmakes hfaithful
    obtain rfl : j = k := hmakes
    exact hfits.of_isWithin (all_eq_true.mp hfaithful s hs)
  | collapse j =>
    rw [hbuild] at hmakes hfaithful
    obtain ⟨rfl, hlength⟩ := hmakes
    have htemplate := all_eq_true.mp hfaithful s hs
    rw [Bool.or_eq_true, Bool.and_eq_true] at htemplate
    rcases htemplate with ⟨hone, hempty⟩ | hwithin
    · exact absurd ((hfits.length_eq hempty).trans (of_decide_eq_true hone)) hlength
    · exact hfits.of_isWithin hwithin

end GDWorkbench

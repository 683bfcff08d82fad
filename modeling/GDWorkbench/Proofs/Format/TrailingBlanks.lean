import GDWorkbench.Proofs.Comments.Gathering
import GDWorkbench.Proofs.Format.BlockComments
import GDWorkbench.Proofs.Format.Crowding
import GDWorkbench.Proofs.Format.LineEnds

/-!
Formatted files have no white space at the ends of lines. Statements are laid out in lines that are clean,
and the first of them is not empty, so that annotations may be put in front of it. Between statements stand
comments, of which white space at the end is cut off, and empty lines.
-/

namespace GDWorkbench

open List Text GDWorkbench.Tree

namespace Format

variable {ts : List Tree} {line : Line} {lines : List Line} {t : Tree} {text : Text}

def Outcome.IsLaid (outcome : Outcome) : Prop :=
  Ensures outcome fun result => Laid result.1

def StatementFormatter.Lays (format : StatementFormatter) : Prop :=
  ∀ {t c}, t.IsShown → c.settings.End → Outcome.IsLaid (format t c)

def BlockFormatter.Cleans (block : BlockFormatter) : Prop :=
  ∀ {ts c}, (∀ t ∈ ts, t.IsShown) → c.settings.End → Ensures (block ts c) fun result => LinesClean result.1

theorem exists_of_kind (t : Tree) :
    Ensures t.kind fun kind => ∃ span children, t = .node kind span children := by
  cases t with
  | token => exact ensures_error
  | node kind span children => exact ensures_ok ⟨span, children, rfl⟩

/-! ## Annotations -/

namespace Annotations

variable {body : BodyFormatter} (hbody : body.Cleans) {c : Context} (hc : c.settings.End)

include hbody hc

theorem laid_standaloneLines (ht : t.IsShown) : Outcome.IsLaid (standaloneLines body t c) :=
  .skip fun _ => (laid_concrete hbody isClean_nil hc ht).bind fun _ hlines =>
    .skip fun _ => ensures_ok hlines

theorem clean_allStandaloneLines (h : ∀ t ∈ ts, t.IsShown) :
    Ensures (allStandaloneLines body c ts) LinesClean := by
  induction ts with
  | nil => exact ensures_ok linesClean_nil
  | cons t ts ih =>
    obtain ⟨ht, hts⟩ := forall_mem_cons.mp h
    exact (laid_standaloneLines hbody hc ht).bind fun result hresult => (ih hts).bind
      fun more hmore => ensures_ok (linesClean_append.mpr ⟨hresult.clean, hmore⟩)

theorem clean_putBefore {pending : List Tree} (hpending : ∀ t ∈ pending, t.IsShown)
    (hline : line.text.ends) : Ensures (putBefore body c pending line) LinesClean := by
  refine .skip fun texts => .skip fun commented => Ensures.ite (ensures_ok ?_)
    ((clean_allStandaloneLines hbody hc hpending).bind fun lines hlines => ensures_ok ?_)
  · exact (laid_singleton (ends_append (ends_cons (ends_trim hline)))).clean
  · exact linesClean_append.mpr ⟨hlines, (laid_singleton hline).clean⟩

end Annotations

/-! ## Comments and empty lines between statements -/

theorem clean_commentLines {c : Context} {comments : List (Option Text)}
    (h : ∀ comment, some comment ∈ comments → comment.ends) (n : Int) :
    Ensures (commentLines c n comments) fun lines => ∀ line ∈ lines, line.IsClean := by
  induction comments generalizing n with
  | nil => exact ensures_ok (forall_mem_nil _)
  | cons comment comments ih =>
    have hrest := ih (fun d hd => h d (mem_cons_of_mem _ hd)) (n + 1)
    cases comment with
    | none =>
      exact hrest.bind fun lines hlines => ensures_ok (forall_mem_cons.mpr ⟨isClean_nil, hlines⟩)
    | some comment =>
      have hcomment : comment.ends := h comment mem_cons_self
      have hline : Ensures (standaloneComment c n comment) IsClean := by
        unfold standaloneComment
        split
        · refine ensures_ok (.inr ?_)
          split
          · exact hcomment
          · exact ends_append hcomment
        · exact ensures_error
      exact hline.bind fun line hline => hrest.bind fun lines hlines =>
        ensures_ok (forall_mem_cons.mpr ⟨hline, hlines⟩)

theorem clean_blanksBetween {c : Context} (hc : c.settings.End) (first last : Int) :
    Ensures (blanksBetween c first last) fun lines => ∀ line ∈ lines, line.IsClean := by
  refine (clean_commentLines (fun comment h => ?_) _).bind fun lines hlines => ensures_ok ?_
  · exact hc.standalone comment (mem_of_mem_between (mem_of_mem_take h))
  · exact fun line hline => hlines line ((squeeze_sublist lines).subset hline)

/-! ## Blocks -/

namespace Block

theorem clean_separators {lines : List Text} (h : ∀ line ∈ lines, line.IsClean) :
    LinesClean (separators lines) := by
  intro line hline
  obtain ⟨text, htext, rfl⟩ := mem_map.mp hline
  exact h text htext

/-- The block has got some more lines, and those are clean. -/
structure State.GoesOn (s s' : State) : Prop where
  lines : ∃ more, s'.lines = s.lines ++ more ∧ LinesClean more
  pending : ∀ t ∈ s'.pending, t.IsShown

theorem State.GoesOn.trans {s s' s'' : State} (h : s.GoesOn s') (h' : s'.GoesOn s'') : s.GoesOn s'' := by
  obtain ⟨more, hmore, hclean⟩ := h.lines
  obtain ⟨rest, hrest, hclean'⟩ := h'.lines
  exact ⟨⟨more ++ rest, by rw [hrest, hmore, append_assoc], linesClean_append.mpr ⟨hclean, hclean'⟩⟩,
    h'.pending⟩

section

variable {c : Context} (hc : c.settings.End)

include hc

theorem clean_blanksBefore (s : State) (kind : Kind) (t : Tree) :
    Ensures (blanksBefore c s kind t) fun lines => ∀ line ∈ lines, line.IsClean := by
  refine .skip fun n => .skip fun first => .skip fun m => (clean_blanksBetween hc n m).bind
    fun lines hlines => ensures_ok fun line hline => ?_
  split at hline
  · exact hlines line ((dropWhile_sublist _).subset hline)
  · rcases eq_nil_or_mem_of_mem_beforeStatement hline with rfl | hline
    · exact isClean_nil
    · rcases eq_nil_or_mem_of_mem_afterStatement hline with rfl | hline
      · exact isClean_nil
      · exact hlines line hline

/-- A block does not begin with an empty line. -/
theorem laid_blanksBefore {s : State} (hfirst : s.previousKind = none) (kind : Kind) (t : Tree) :
    Ensures (blanksBefore c s kind t) fun blanks =>
      ∀ lines, Laid lines → Laid (separators blanks ++ lines) := by
  refine .skip fun n => .skip fun first => .skip fun m => (clean_blanksBetween hc n m).bind
    fun blanks hblanks => ensures_ok fun lines hlines => ?_
  rw [hfirst]
  have hhead := Blanks.head?_dropEmpty blanks
  have hclean : ∀ line ∈ Blanks.dropEmpty blanks, line.IsClean :=
    fun line hline => hblanks line ((dropWhile_sublist _).subset hline)
  cases hdrop : Blanks.dropEmpty blanks with
  | nil => exact hlines
  | cons line rest =>
    rw [hdrop] at hhead hclean
    obtain ⟨hline, hrest⟩ := forall_mem_cons.mp hclean
    have hends : line.ends := hline.resolve_left fun hnil => hhead (congrArg some hnil)
    exact laid_cons hends (linesClean_append.mpr ⟨clean_separators hrest, hlines.clean⟩)

variable {format : StatementFormatter} (hformat : format.Lays) {body : BodyFormatter} (hbody : body.Cleans)

include hformat hbody

theorem goesOn_statement {s : State} (hs : ∀ t ∈ s.pending, t.IsShown) (ht : t.IsShown) (kind : Kind)
    {blanks : List Text} (hblanks : ∀ line ∈ blanks, line.IsClean) :
    Ensures (statement format body c s kind t blanks) s.GoesOn := by
  have hstate {lines : List Line} (hlines : LinesClean lines) (previous : Option Int) :
      s.GoesOn ⟨(if s.pending.isEmpty then s.lines ++ separators blanks else s.lines) ++ lines,
        previous, some kind, []⟩ := by
    refine ⟨?_, forall_mem_nil _⟩
    split
    · exact ⟨separators blanks ++ lines, append_assoc _ _ _,
        linesClean_append.mpr ⟨clean_separators hblanks, hlines⟩⟩
    · exact ⟨lines, rfl, hlines⟩
  refine (hformat ht hc).bind fun result hresult => ?_
  obtain ⟨lines, previous⟩ := result
  dsimp only at hresult ⊢
  split
  · exact ensures_ok (hstate hresult.clean previous)
  · exact ensures_error
  · obtain ⟨first, rest, heq, hfirst, hrest⟩ := hresult.exists_cons
    cases heq
    exact (Annotations.clean_putBefore hbody hc hs hfirst).bind fun before hbefore =>
      ensures_ok (hstate (linesClean_append.mpr ⟨hbefore, hrest⟩) previous)

theorem goesOn_step {s : State} (hs : ∀ t ∈ s.pending, t.IsShown) (ht : t.IsShown) (inFunction : Bool)
    (following : Option Tree) : Ensures (step inFunction format body c s t following) s.GoesOn := by
  refine .skip fun kind => .skip fun belongs => Ensures.ite
    (ensures_ok ⟨⟨[], (append_nil _).symm, linesClean_nil⟩, ?_⟩) ((clean_blanksBefore hc s kind t).bind
      fun blanks hblanks => Ensures.ite (ensures_ok ⟨⟨_, rfl, clean_separators hblanks⟩, ?_⟩)
        (goesOn_statement hc hformat hbody hs ht kind hblanks))
  · exact forall_mem_append.mpr ⟨hs, forall_mem_singleton.mpr ht⟩
  · exact forall_mem_singleton.mpr ht

theorem goesOn_steps {s : State} (hs : ∀ t ∈ s.pending, t.IsShown) (inFunction : Bool)
    (hts : ∀ t ∈ ts, t.IsShown) : Ensures (steps inFunction format body c s ts) s.GoesOn := by
  induction ts generalizing s with
  | nil => exact ensures_ok ⟨⟨[], (append_nil _).symm, linesClean_nil⟩, hs⟩
  | cons t ts ih =>
    obtain ⟨ht, hts⟩ := forall_mem_cons.mp hts
    exact (goesOn_step hc hformat hbody hs ht inFunction ts.head?).bind fun s' hs' =>
      (ih hs'.pending hts).mono fun _ => hs'.trans

omit hbody in
/-- What stands in front of the first statement does not begin with an empty line. -/
theorem laid_firstStep (ht : t.IsShown) (hannot : t.isKind .annot = false) (inFunction : Bool)
    (previous : Option Int) (following : Option Tree) :
    Ensures (step inFunction format body c ⟨[], previous, none, []⟩ t following) fun s =>
      Laid s.lines ∧ s.pending = [] := by
  cases t with
  | token => exact ensures_error
  | node kind span children =>
    rw [step_eq rfl (belongsToNextIn_of_not_isKind inFunction hannot),
      makesAbstract_of_not_isKind hannot following]
    exact (laid_blanksBefore hc rfl kind _).bind fun blanks hblanks =>
      (hformat ht hc).bind fun result hresult => ensures_ok ⟨hblanks result.1 hresult, rfl⟩

theorem laid_steps (ht : t.IsShown) (hannot : t.isKind .annot = false) (inFunction : Bool)
    (hts : ∀ t ∈ ts, t.IsShown) (previous : Option Int) :
    Ensures (steps inFunction format body c ⟨[], previous, none, []⟩ (t :: ts)) fun s => Laid s.lines := by
  refine (laid_firstStep hc hformat ht hannot inFunction previous ts.head?).bind fun s hs => ?_
  have hpending : ∀ u ∈ s.pending, u.IsShown := hs.2 ▸ forall_mem_nil _
  refine (goesOn_steps hc hformat hbody hpending inFunction hts).mono fun s' hs' => ?_
  obtain ⟨more, hmore, hclean⟩ := hs'.lines
  exact hmore ▸ hs.1.append hclean

end

end Block

section

variable {format : StatementFormatter} (hformat : format.Lays) {body : BodyFormatter} (hbody : body.Cleans)
  {c : Context} (hc : c.settings.End)

include hformat hbody hc

theorem clean_block (inFunction : Bool) (hts : ∀ t ∈ ts, t.IsShown) :
    Ensures (block inFunction format body ts c) fun result => LinesClean result.1 := by
  refine (Block.goesOn_steps hc hformat hbody (forall_mem_nil _) inFunction hts).bind fun s hs =>
    .skip fun previous => (clean_blanksBetween hc _ _).bind fun tail htail => ensures_ok ?_
  obtain ⟨more, hmore, hclean⟩ := hs.lines
  refine linesClean_append.mpr ⟨hmore ▸ hclean, Block.clean_separators fun line hline => ?_⟩
  exact htail line ((dropEmptyEnd_sublist tail).subset hline)

theorem laid_block (inFunction : Bool) (ht : t.IsShown) (hannot : t.isKind .annot = false)
    (hts : ∀ t ∈ ts, t.IsShown) : Outcome.IsLaid (block inFunction format body (t :: ts) c) := by
  refine (Block.laid_steps hc hformat hbody ht hannot inFunction hts c.previous).bind fun s hs =>
    .skip fun previous => (clean_blanksBetween hc _ _).bind fun tail htail => ensures_ok ?_
  refine hs.append (Block.clean_separators fun line hline => ?_)
  exact htail line ((dropEmptyEnd_sublist tail).subset hline)

end

/-! ## Statements of functions -/

namespace Statement

variable {c : Context} (hc : c.settings.End)

theorem laid_simple (htext : text.ends) (t : Tree) : Outcome.IsLaid (simple text t c) :=
  .skip fun _ => ensures_ok (laid_singleton (ends_append htext))

variable {block : BlockFormatter} (hblock : block.Cleans)

include hblock in
theorem cleans_body : (body block).Cleans :=
  fun hts hc => (hblock hts hc).bind fun _ hresult => ensures_ok hresult

include hc hblock

theorem laid_under {header : List Line} (hheader : Laid header) {statements : List Tree}
    (hstatements : ∀ t ∈ statements, t.IsShown) (previous : Option Int) :
    Outcome.IsLaid (under block header statements previous c) := by
  have hchild : (c.child previous).settings.End := hc
  exact (hblock hstatements hchild).bind fun result hresult => ensures_ok (hheader.append hresult)

theorem laid_behind (before : Text) (t : Tree) {e : Tree} (he : e.HasShown) (afterLine : Option Int) :
    Outcome.IsLaid (behind block before t e afterLine c) :=
  .skip fun _ => (laid_expression (cleans_body hblock) isClean_nil hc he).bind fun _ hlines =>
    .skip fun _ => ensures_ok hlines

theorem laid_around (before : Text) {after : Text} (hafter : after.IsClean) (t : Tree) {inner : Tree}
    (hinner : inner.IsShown) : Outcome.IsLaid (around block before after t inner c) :=
  .skip fun _ => .skip fun _ => (laid_concrete (cleans_body hblock) hafter hc hinner).bind
    fun _ hlines => .skip fun _ => ensures_ok hlines

/-! ### Variables and constants -/

theorem laid_assigned (before : Text) (t : Tree) {e : Tree} (he : e.HasShown) :
    Outcome.IsLaid (assigned block before t e c) :=
  .skip fun n => laid_behind hc hblock before t he n

theorem laid_declared (modifier : Text) (ht : t.IsNeat) : Outcome.IsLaid (declared block modifier t c) := by
  refine (ht.part 0).bind fun inner hinner => (exists_of_kind inner).bind fun kind hkind =>
    (hinner.word 0).bind fun name hname => ?_
  obtain ⟨span, children, rfl⟩ := hkind
  have hvalue (h : kind.holdsNoList) (i : Nat) :
      Ensures ((Tree.node kind span children).part i) Tree.HasShown :=
    fun u hu => hinner.hasShown_child h (mem_of_part hu)
  cases kind
  case classVarEmpty | funcVarEmpty => exact laid_simple (ends_append hname) _
  case classVarTyped | funcVarTyped =>
    exact (hinner.word 1).bind fun type htype => laid_simple (ends_append htype) _
  case classVarAssigned | funcVarAssigned | classVarInf | funcVarInf =>
    exact (hvalue rfl 1).bind fun e he => laid_assigned hc hblock _ _ he
  case classVarTypedAssgnd | funcVarTypedAssgnd =>
    exact (hinner.word 1).bind fun type htype => (hvalue rfl 2).bind fun e he =>
      laid_assigned hc hblock _ _ he
  all_goals exact ensures_error

theorem laid_constant (ht : t.IsNeat) : Outcome.IsLaid (constant block t c) := by
  refine (ht.part 0).bind fun inner hinner => (exists_of_kind inner).bind fun kind hkind =>
    .skip fun name => ?_
  obtain ⟨span, children, rfl⟩ := hkind
  have hvalue (h : kind.holdsNoList) : Ensures (Tree.node kind span children).lastPart Tree.HasShown :=
    fun u hu => hinner.hasShown_child h (mem_of_part hu)
  cases kind
  case constAssigned | constInf => exact (hvalue rfl).bind fun e he => laid_assigned hc hblock _ _ he
  case constTypedAssigned =>
    exact (hinner.word 1).bind fun type htype => (hvalue rfl).bind fun e he =>
      laid_assigned hc hblock _ _ he
  all_goals exact ensures_error

/-! ### Branches -/

theorem laid_branch (before : Text) (i : Nat) (ht : t.IsNeat) (hkind : t.label.holdsNoList) :
    Outcome.IsLaid (branch block before i t c) := by
  have hstatements : ∀ u ∈ t.children.drop (i + 1), u.IsShown :=
    fun u hu => ht.hasShown (Label.not_isList hkind) u (mem_of_mem_drop hu)
  have hcolon : IsClean [':'] := .inr (by decide)
  exact Ensures.bind (fun e he => ht.hasShown_child hkind (mem_of_part he)) fun e he => .skip fun n =>
    (laid_expression (cleans_body hblock) hcolon hc he).bind fun header hheader =>
    .skip fun last => laid_under hc hblock hheader hstatements last

theorem laid_ifBranch (ht : t.IsNeat) : Outcome.IsLaid (ifBranch block t c) := by
  refine (exists_of_kind t).bind fun kind hkind => ?_
  obtain ⟨span, children, rfl⟩ := hkind
  cases kind
  case ifBranch | elifBranch => exact laid_branch hc hblock _ 0 ht rfl
  case elseBranch =>
    exact .skip fun n => laid_under hc hblock (laid_singleton (ends_append (by decide)))
      (ht.hasShown rfl) n
  all_goals exact ensures_error

theorem clean_moreBranches (previous : Option Int) (h : ∀ t ∈ ts, t.IsNeat) :
    Ensures (moreBranches block c previous ts) fun result => LinesClean result.1 := by
  induction ts generalizing previous with
  | nil => exact ensures_ok linesClean_nil
  | cons t ts ih =>
    obtain ⟨ht, hts⟩ := forall_mem_cons.mp h
    refine .skip fun n => .skip fun first => .skip fun m => (clean_blanksBetween hc n m).bind
      fun blanks hblanks => (laid_ifBranch hc hblock ht).bind fun result hresult =>
      (ih result.2 hts).bind fun rest hrest => ensures_ok ?_
    exact linesClean_append.mpr
      ⟨linesClean_append.mpr ⟨Block.clean_separators hblanks, hresult.clean⟩, hrest⟩

theorem laid_branches (hne : ts ≠ []) (h : ∀ t ∈ ts, t.IsNeat) :
    Outcome.IsLaid (branches block c ts) := by
  cases ts with
  | nil => exact absurd rfl hne
  | cons t ts =>
    obtain ⟨ht, hts⟩ := forall_mem_cons.mp h
    exact (laid_ifBranch hc hblock ht).bind fun result hresult =>
      (clean_moreBranches hc hblock result.2 hts).bind fun rest hrest => ensures_ok (hresult.append hrest)

theorem laid_returned (ht : t.IsNeat) (hkind : t.label.holdsNoList) :
    Outcome.IsLaid (returned block t c) := by
  unfold returned
  split
  · exact laid_simple (by decide) t
  · rename_i e rest heq
    exact .skip fun n => laid_behind hc hblock _ t (ht.hasShown_child hkind (heq ▸ mem_cons_self)) n

omit hc in
theorem lays_format : (format block).Lays := by
  intro t c ht hc
  refine (exists_of_kind t).bind fun kind hkind => ?_
  obtain ⟨span, children, rfl⟩ := hkind
  have hneat : ∀ u ∈ children, u.IsNeat := fun u hu => ht.neat.child hu
  cases kind
  case passStmt | breakStmt | breakpointStmt | continueStmt => exact laid_simple (by decide) _
  case funcVarStmt => exact laid_declared hc hblock _ ht.neat
  case constStmt => exact laid_constant hc hblock ht.neat
  case exprStmt =>
    exact Ensures.bind (fun e he => ht.neat.hasShown_child rfl (mem_of_part he)) fun e he =>
      .skip fun n => laid_behind hc hblock _ _ he n
  case returnStmt => exact laid_returned hc hblock ht.neat rfl
  case ifStmt => exact laid_branches hc hblock (ht.neat.children_ne_nil rfl) hneat
  case whileStmt | matchStmt | matchBranch => exact laid_branch hc hblock _ 0 ht.neat rfl
  case forStmt => exact .skip fun name => laid_branch hc hblock _ 1 ht.neat rfl
  case forStmtTyped => exact .skip fun name => .skip fun type => laid_branch hc hblock _ 2 ht.neat rfl
  case guardedMatchBranch =>
    exact .skip fun pattern => .skip fun u => .skip fun text => laid_branch hc hblock _ 1 ht.neat rfl
  case annot => exact Annotations.laid_standaloneLines (cleans_body hblock) hc ht
  all_goals exact ensures_error

end Statement

theorem cleans_functionBlock (depth : Nat) : (functionBlock depth).Cleans := by
  induction depth with
  | zero => exact fun _ _ => ensures_error
  | succ depth ih =>
    exact fun hts hc => clean_block (Statement.lays_format ih) (Statement.cleans_body ih) hc true hts

/-! ## Properties -/

namespace Property

variable {functions : BlockFormatter} (hfunctions : functions.Cleans) {c : Context} (hc : c.settings.End)

include hfunctions hc

theorem laid_setter (ht : t.HasShown) : Outcome.IsLaid (setter functions t c) :=
  .skip fun _ => Ensures.ite ensures_error (.skip fun n => .skip fun _ =>
    Statement.laid_under hc hfunctions (laid_singleton (ends_append (by decide)))
      (fun u hu => ht u (mem_of_mem_drop hu)) n)

theorem laid_getter (ht : t.HasShown) : Outcome.IsLaid (getter functions t c) := by
  have hstatements (k : Nat) : ∀ u ∈ t.children.drop k, u.IsShown := fun u hu => ht u (mem_of_mem_drop hu)
  refine .skip fun second => .skip fun kind => Ensures.ite (.skip fun _ => .skip fun n => ?_)
    (.skip fun _ => .skip fun n => ?_)
  all_goals
    exact Statement.laid_under hc hfunctions (laid_singleton (ends_concat (by decide))) (hstatements _) n

omit hfunctions hc in
theorem laid_delegate (ht : t.IsNeat) : Outcome.IsLaid (delegate t c) :=
  .skip fun _ => .skip fun _ => (ht.word 2).bind fun _ hright =>
    ensures_ok (laid_singleton (ends_append (ends_append hright)))

omit hc in
theorem lays_format : (format functions).Lays := by
  intro t c ht hc
  refine (exists_of_kind t).bind fun kind hkind => ?_
  obtain ⟨span, children, rfl⟩ := hkind
  cases kind
  case propertyDelegateSet | propertyDelegateGet => exact laid_delegate ht.neat
  case propertyCustomGetter => exact laid_getter hfunctions hc (ht.neat.hasShown rfl)
  case propertyCustomSetter => exact laid_setter hfunctions hc (ht.neat.hasShown rfl)
  all_goals exact ensures_error

omit hfunctions hc in
theorem clean_withComma (n : Option Int) (h : LinesClean lines) : LinesClean (withComma n lines) := by
  induction lines with
  | nil => exact h
  | cons line lines ih =>
    obtain ⟨hline, hlines⟩ := linesClean_cons.mp h
    rw [withComma]
    split
    · exact (laid_cons (ends_concat (by decide)) hlines).clean
    · exact linesClean_cons.mpr ⟨hline, ih hlines⟩

omit hfunctions hc in
theorem laid_withComma (n : Option Int) (h : Laid lines) : Laid (withComma n lines) := by
  obtain ⟨line, rest, rfl, hends, hrest⟩ := h.exists_cons
  rw [withComma]
  split
  · exact laid_cons (ends_concat (by decide)) hrest
  · exact laid_cons hends (clean_withComma n hrest)

omit hfunctions hc in
/-- A comma may be added to the lines of the block, nothing else. -/
theorem ensures_bodyLines {R : List Line → Prop} (hcomma : ∀ n lines, R lines → R (withComma n lines))
    {parts : List Tree} {previous : Option Int} (h : Ensures (block false (format functions)
      (Statement.body functions) parts (c.child previous)) fun result => R result.1) :
    Ensures (bodyLines functions parts previous c) fun result => R result.1 := by
  refine h.bind fun result hresult => ?_
  obtain ⟨lines, last⟩ := result
  dsimp only at hresult ⊢
  split
  · exact ensures_error
  · exact .skip fun _ => ensures_ok hresult
  · refine .skip fun _ => Ensures.ite ?_ (ensures_ok hresult)
    exact .skip fun n => ensures_ok (hcomma n lines hresult)

omit hc in
/-- The parts of a property are no annotations, so that the first of them begins the lines. -/
theorem laid_standalone (ht : t.HasShown) (hannot : ∀ u ∈ t.children, u.isKind .annot = false)
    (hc : c.settings.End) : Outcome.IsLaid (standalone functions t c) := by
  refine .skip fun n => ?_
  have hchild : (c.child n).settings.End := hc
  cases hparts : t.children with
  | nil => exact .skip fun _ => ensures_error
  | cons first rest =>
    have hshown : ∀ u ∈ first :: rest, u.IsShown := hparts ▸ (ht : ∀ u ∈ t.children, u.IsShown)
    obtain ⟨hfirst, hrest⟩ := forall_mem_cons.mp hshown
    exact ensures_bodyLines (fun n _ => laid_withComma n) (laid_block (lays_format hfunctions)
      (Statement.cleans_body hfunctions) hchild false hfirst (hannot first (hparts ▸ mem_cons_self)) hrest)

theorem laid_afterLine {property : Tree} (hproperty : property.HasShown) (line : Line) :
    Ensures (afterLine functions property c line) Laid := by
  have hheader : ends (line.text ++ [':']) := ends_concat (by decide)
  have hchild (n : Option Int) : (c.child n).settings.End := hc
  unfold afterLine
  split
  · exact ensures_ok (laid_singleton hheader)
  · exact .skip fun n => (ensures_bodyLines (fun n _ => clean_withComma n)
      (clean_block (lays_format hfunctions) (Statement.cleans_body hfunctions) (hchild n) false
        hproperty)).bind fun result hresult => ensures_ok (laid_cons hheader hresult)

end Property

/-! ## Statements of classes -/

namespace Declaration

variable {functions : BlockFormatter} (hfunctions : functions.Cleans) {c : Context} (hc : c.settings.End)

include hfunctions hc

theorem laid_enumeration (ht : t.IsNeat) (hkind : t.label.holdsNoList) :
    Outcome.IsLaid (enumeration functions t c) := by
  refine Ensures.bind (fun u hu => ht.hasShown_child hkind (mem_of_part hu)) fun inner hinner =>
    Ensures.ite (.skip fun name => ?_) ?_
  all_goals
    exact (hinner.part _).bind fun list hlist =>
      Statement.laid_around hc hfunctions _ isClean_nil t hlist

theorem laid_signal (ht : t.IsNeat) (hshown : t.HasShown) : Outcome.IsLaid (signal functions t c) := by
  refine (ht.word 0).bind fun name hname => ?_
  have hbare (isBare : Bool) : Outcome.IsLaid (if isBare then
      Statement.simple ("signal ".toList ++ name) t c
    else do Statement.around functions ("signal ".toList ++ name) [] t (← t.lastPart) c) :=
    Ensures.ite (Statement.laid_simple (ends_append hname) t) ((hshown.part _).bind fun list hlist =>
      Statement.laid_around hc hfunctions _ isClean_nil t hlist)
  exact Ensures.ite (.skip fun isBare => hbare isBare) (.skip fun _ => hbare _)

omit hfunctions hc in
theorem isClean_path (h : ∀ t ∈ ts, t.IsShown) : Ensures (path ts) IsClean := by
  unfold path
  split
  · exact ensures_ok isClean_nil
  · rename_i hne
    refine (Ensures.mapM_of_ne_nil (by simpa using hne) fun t ht => (h t ht).ends_line).bind
      fun texts htexts => ensures_ok (.inr (ends_cons ?_))
    exact ends_join_of_forall ['.'] htexts.1 htexts.2

omit hfunctions hc in
theorem laid_extending (ht : t.HasShown) : Outcome.IsLaid (extending t c) :=
  (ht.part 0).bind fun _ hbase => hbase.ends_line.bind fun _ htext =>
    (isClean_path fun u hu => ht u (mem_of_mem_drop hu)).bind fun _ hpath =>
    Statement.laid_simple (ends_append_isClean (ends_append htext) hpath) t

omit hfunctions hc in
theorem laid_namedExtending (ht : t.HasShown) : Outcome.IsLaid (namedExtending t c) :=
  .skip fun _ => (ht.part 3).bind fun _ hbase => hbase.ends_line.bind fun _ htext =>
    (isClean_path fun u hu => ht u (mem_of_mem_drop hu)).bind fun _ hpath =>
    Statement.laid_simple (ends_append_isClean (ends_append htext) hpath) t

theorem laid_variableLines (modifier : String) {statement : Tree} (hstatement : statement.IsNeat)
    (hkind : statement.isKind .classVarStmt) :
    Outcome.IsLaid (variableLines functions modifier statement c) := by
  obtain ⟨span, children, rfl⟩ := exists_of_isKind hkind
  have hlabel : ∀ u ∈ children, u.label.holdsNoList :=
    fun u hu => hstatement.expands.fits.of_staysIn (by decide) _ (mem_map_of_mem hu)
  refine (Statement.laid_declared hc hfunctions _ hstatement).bind fun result hresult => ?_
  refine Ensures.bind (fun u hu => mem_of_part hu) fun t ht => ?_
  obtain ⟨lines, last⟩ := result
  refine Ensures.ite (ensures_ok hresult) ?_
  dsimp only at hresult ⊢
  split
  · exact ensures_error
  · rename_i line hline
    refine Ensures.bind (fun u hu => (hstatement.child ht).hasShown_child (hlabel t ht) (mem_of_part hu))
      fun property hproperty => (Property.laid_afterLine hfunctions hc hproperty line).bind
      fun more hmore => ensures_ok (hresult.dropLast_append hmore)

theorem laid_functionHeader (modifier : String) {stop : String} (hstop : IsClean stop.toList)
    (ht : t.IsNeat) (hshown : t.HasShown) :
    Outcome.IsLaid (functionHeader functions modifier stop t c) := by
  refine .skip fun name => Ensures.ite ((ht.word 2).bind fun result hresult => ?_) ?_
  · exact (hshown.part 1).bind fun list hlist => Statement.laid_around hc hfunctions _
      (.inr (ends_append_isClean (ends_append hresult) hstop)) t hlist
  · exact (hshown.part 1).bind fun list hlist => Statement.laid_around hc hfunctions _ hstop t hlist

theorem laid_function (modifier : String) (ht : t.IsNeat) (hkind : t.isKind .funcDef) :
    Outcome.IsLaid (function functions modifier t c) := by
  obtain ⟨span, children, rfl⟩ := exists_of_isKind hkind
  have hcolon : IsClean ":".toList := .inr (by decide)
  refine Ensures.bind (fun u hu => mem_of_part hu) fun header hheader =>
    (laid_functionHeader hfunctions hc modifier hcolon (ht.child hheader)
      (ht.hasShown_child rfl hheader)).bind fun result hresult => ?_
  exact Statement.laid_under hc hfunctions hresult
    (fun u hu => ht.hasShown rfl u (mem_of_mem_tail hu)) _

variable {classes : BlockFormatter} (hclasses : classes.Cleans)

include hclasses

omit hfunctions in
theorem laid_innerClass (ht : t.HasShown) : Outcome.IsLaid (innerClass classes t c) :=
  .skip fun n => .skip fun _ => Statement.laid_under hc hclasses
    (laid_singleton (ends_concat (by decide))) (fun u hu => ht u (mem_of_mem_tail hu)) n

omit hc in
theorem lays_format : (format functions classes).Lays := by
  intro t c ht hc
  refine (exists_of_kind t).bind fun kind hkind => ?_
  obtain ⟨span, children, rfl⟩ := hkind
  have hone {k : Kind} (hplace : kind.children.staysIn (· = .node k)) (i : Nat) :
      Ensures ((Tree.node kind span children).part i) fun u => u.IsNeat ∧ u.isKind k := by
    intro u hu
    have hmem : u ∈ children := mem_of_part hu
    have hlabel := ht.neat.expands.fits.of_staysIn hplace _ (mem_map_of_mem hmem)
    exact ⟨ht.neat.child hmem, isKind_iff_label.mpr (of_decide_eq_true hlabel)⟩
  cases kind
  case passStmt => exact Statement.laid_simple (by decide) _
  case enumStmt => exact laid_enumeration hfunctions hc ht.neat rfl
  case signalStmt => exact laid_signal hfunctions hc ht.neat (ht.neat.hasShown rfl)
  case extendsStmt => exact laid_extending (ht.neat.hasShown rfl)
  case classnameStmt =>
    exact (ht.neat.word 0).bind fun name hname => Statement.laid_simple (ends_append hname) _
  case classnameExtendsStmt => exact laid_namedExtending (ht.neat.hasShown rfl)
  case classVarStmt => exact laid_variableLines hfunctions hc _ ht.neat rfl
  case staticClassVarStmt =>
    exact (hone (k := .classVarStmt) (by decide) 0).bind fun u hu =>
      laid_variableLines hfunctions hc _ hu.1 hu.2
  case constStmt => exact Statement.laid_constant hc hfunctions ht.neat
  case docstrStmt =>
    exact ((ht.neat.hasShown rfl).part 0).bind fun inner hinner =>
      Statement.laid_around hc hfunctions _ isClean_nil _ hinner
  case classDef => exact laid_innerClass hc hclasses (ht.neat.hasShown rfl)
  case funcDef => exact laid_function hfunctions hc _ ht.neat rfl
  case staticFuncDef =>
    exact (hone (k := .funcDef) (by decide) 0).bind fun u hu => laid_function hfunctions hc _ hu.1 hu.2
  case abstractFuncDef =>
    exact Ensures.bind (fun u hu => mem_of_part hu) fun u hu =>
      laid_functionHeader hfunctions hc _ isClean_nil (ht.neat.child hu) (ht.neat.hasShown_child rfl hu)
  case annot => exact Annotations.laid_standaloneLines (Statement.cleans_body hfunctions) hc ht
  case propertyBodyDef =>
    refine Property.laid_standalone hfunctions (ht.neat.hasShown rfl) (fun u hu => ?_) hc
    have hstays : Kind.propertyBodyDef.children.staysIn (· ≠ .node .annot) := by decide
    have hlabel := ht.neat.expands.fits.of_staysIn hstays _ (mem_map_of_mem hu)
    exact Bool.eq_false_iff.mpr fun hannot =>
      of_decide_eq_true hlabel (isKind_iff_label.mp hannot)
  all_goals exact ensures_error

end Declaration

theorem cleans_classBlock {functions : BlockFormatter} (hfunctions : functions.Cleans) (depth : Nat) :
    (classBlock functions depth).Cleans := by
  induction depth with
  | zero => exact fun _ _ => ensures_error
  | succ depth ih =>
    exact fun hts hc => clean_block (Declaration.lays_format hfunctions ih)
      (Statement.cleans_body hfunctions) hc false hts

/-! ## Comments inside statements -/

theorem isClean_join_gap {comments : List Text} (htext : text.IsClean)
    (h : ∀ comment ∈ comments, comment.ends) : (join Attach.gap (text :: comments)).IsClean := by
  cases comments with
  | nil => simpa [join] using htext
  | cons comment comments =>
    rw [join, intercalate_cons_cons]
    exact .inr (ends_append (ends_join_of_forall Attach.gap (cons_ne_nil _ _) h))

theorem clean_inlineFromEnd {comments : List (Option Text)}
    (hcomments : ∀ comment, some comment ∈ comments → comment.ends) (hlines : LinesClean lines) :
    LinesClean (Attach.inlineFromEnd comments lines) := by
  induction lines generalizing comments with
  | nil => exact hlines
  | cons line lines ih =>
    obtain ⟨hline, hrest⟩ := linesClean_cons.mp hlines
    have hbetween (first last : Option Int) :
        ∀ comment, some comment ∈ between comments first last → comment.ends :=
      fun comment hcomment => hcomments comment (mem_of_mem_between hcomment)
    obtain ⟨_ | n, text⟩ := line
    · exact linesClean_cons.mpr ⟨hline, ih hcomments hrest⟩
    · rw [Attach.inlineFromEnd, linesClean_cons]
      refine ⟨isClean_join_gap hline fun comment hcomment => ?_, ih (hbetween none (some n)) hrest⟩
      obtain ⟨entry, hentry, rfl⟩ := mem_filterMap.mp hcomment
      exact hbetween (some n) none comment hentry

theorem clean_withComments {settings : Settings} (hsettings : settings.End) (hlines : LinesClean lines) :
    LinesClean (withComments settings lines) := by
  have hall : LinesClean (lines ++ [emptyLine]).reverse := by
    intro line hline
    rcases mem_append.mp (mem_reverse.mp hline) with hline | hline
    · exact hlines line hline
    · exact mem_singleton.mp hline ▸ isClean_nil
  have hinline := clean_inlineFromEnd hsettings.inline hall
  intro line hline
  rcases Attach.exists_of_mem_standalone hline with hline | ⟨margin, comment, htext, hcomment, -⟩
  · exact hinline line (mem_reverse.mp hline)
  · rw [htext]
    exact .inr (ends_append (hsettings.standalone comment hcomment))

/-! ## Files -/

section Files

variable {code : Text} {comments : List Token} (hcomments : parseComments code = .ok comments)

include hcomments

theorem ends_of_mem_byLine (wanted : Text → Bool) {comment : Text}
    (h : some comment ∈ Comments.byLine wanted code comments) : comment.ends := by
  obtain ⟨token, htoken, rfl⟩ := Comments.exists_of_mem_byLine h
  obtain ⟨hhash, -⟩ := (Comments.gathered_of_parseComments hcomments).place_of_mem htoken
  exact ends_trimEnd (mem_of_head? hhash) (by decide)

theorem end_settings (style : Style) : Ensures (settings style code comments) Settings.End :=
  .skip fun _ => ensures_ok ⟨fun _ => ends_of_mem_byLine hcomments Text.allBlank,
    fun _ => ends_of_mem_byLine hcomments fun before => !allBlank before⟩

end Files

theorem clean_fileLines {settings : Settings} (hsettings : settings.End) (ht : t.HasShown) :
    Ensures (fileLines settings t) LinesClean :=
  (cleans_classBlock (cleans_functionBlock _) _ (c := ⟨settings, 0, some 0⟩) ht hsettings).bind
    fun _ hresult => ensures_ok hresult

end Format

section Sources

variable {style : Format.Style} {code result : Text} {t : Tree} (hparse : parse code = .ok t)
  (hshort : ∀ token ∈ t.tokens, token.isLong = false)

include hparse hshort

theorem isSolid_of_parse : ∀ token ∈ t.tokens, token.content.IsSolid := by
  intro token htoken
  obtain ⟨hscanned, hignored, hmade⟩ := Parse.isKept_of_parse hparse token htoken
  exact hscanned.isSolid hignored hmade (hshort token htoken)

theorem hasShown_of_parse : t.HasShown := by
  obtain ⟨-, hkind, -⟩ := isRegular_of_parse hparse
  have hlabel : t.label = .node .start := isKind_iff_label.mp (decide_eq_true hkind)
  have hneat : t.IsNeat := ⟨conforms_of_parse hparse, by rw [hlabel]; rfl,
    fun token htoken => (isSolid_of_parse hparse hshort token htoken).ends, hshort⟩
  exact hneat.hasShown (by rw [hlabel]; rfl)

/-- The formatted code in lines. -/
theorem exists_lines_of_format (h : format style code = .ok result) :
    ∃ lines : List Text, result = unlines lines ∧ ∀ line ∈ lines, line.IsPiece := by
  obtain ⟨t', comments, hparse', hcomments, htree⟩ := exists_of_format h
  obtain rfl : t' = t := Except.ok.inj (hparse'.symm.trans hparse)
  obtain ⟨s, lines, hs, hlines, rfl⟩ := Format.ofTree_eq_ok_iff.mp htree
  refine ⟨_, rfl, fun text htext => ?_⟩
  obtain ⟨line, hline, rfl⟩ := mem_map.mp htext
  have hmem : line ∈ Format.withComments s lines := by
    rw [Format.withComments_eq]
    exact mem_append_left _ hline
  have hgathered := Comments.gathered_of_parseComments hcomments
  have htidy : s.Tidy .lineFeed :=
    Format.tidy_settings (x := .lineFeed) style code
      (fun token htoken => hgathered.not_mem_of_mem htoken) s hs
  have htokens : t'.Tidy .lineFeed :=
    fun token htoken => (isSolid_of_parse hparse hshort token htoken).onLine
  have hend := Format.end_settings hcomments style s hs
  exact ⟨Format.tidy_withComments htidy (Format.tidy_fileLines htidy htokens lines hlines) line hmem,
    Format.clean_withComments hend
      (Format.clean_fileLines hend (hasShown_of_parse hparse hshort) lines hlines) line hmem⟩

/-- Formatted code without strings in three marks has no white space at the end of a line, and a line feed
ends its last line. -/
theorem format_no_trailing_blanks (h : format style code = .ok result) :
    (∀ line ∈ splitAt '\n' result, ∀ c ∈ line.getLast?, isBlank c = false) ∧
      (result = [] ∨ result.getLast? = some '\n') := by
  obtain ⟨lines, rfl, hlines⟩ := exists_lines_of_format hparse hshort h
  have hall : ∀ line ∈ lines ++ [[]], line.IsPiece :=
    forall_mem_append.mpr ⟨hlines, forall_mem_singleton.mpr isPiece_nil⟩
  constructor
  · rw [← join_append_nil, splitAt_join (append_ne_nil_of_right_ne_nil _ (cons_ne_nil _ _))
      fun line hline => (hall line hline).onLine]
    intro line hline c hc
    rcases (hall line hline).isClean with rfl | hends
    · cases hc
    · rw [ends, Option.mem_def.mp hc] at hends
      simpa using hends
  · rcases eq_nil_or_concat lines with rfl | ⟨front, last, rfl⟩
    · exact .inl rfl
    · exact .inr (by simp [unlines])

end Sources

def raggedCode : Text :=
  "var a = [1,2,]  \n\t\n# b \nvar c\t# d\t".toList

theorem format_no_trailing_blanks_ragged :
    ∃ result, format ⟨100, none, 2⟩ raggedCode = .ok result ∧
      (∀ line ∈ splitAt '\n' result, ∀ c ∈ line.getLast?, isBlank c = false) ∧
      (result = [] ∨ result.getLast? = some '\n') ∧
      result = "var a = [\n\t1,\n\t2,\n]\n\n# b\nvar c  # d\n".toList := by
  obtain ⟨hshort, hresult⟩ :
      (parse raggedCode).toOption.any (fun t => decide (∀ token ∈ t.tokens, token.isLong = false)) ∧
      (format ⟨100, none, 2⟩ raggedCode).toOption =
        some "var a = [\n\t1,\n\t2,\n]\n\n# b\nvar c  # d\n".toList := by decide +kernel
  obtain ⟨t, hparse, hshort⟩ := exists_eq_ok_of_any hshort
  have hformat := eq_ok_of_toOption hresult
  obtain ⟨hlines, hlast⟩ := format_no_trailing_blanks hparse hshort hformat
  exact ⟨_, hformat, hlines, hlast, rfl⟩

end GDWorkbench

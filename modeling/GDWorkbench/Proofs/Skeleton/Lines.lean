import GDWorkbench.Proofs.Text
import GDWorkbench.Skeleton

/-!
Lines of a skeleton and the blocks that their indentation makes. A line that ends with a colon opens a
block. Items stand in a sound row if their names are words and every `elif` and `else` is directly behind
a branch that it can continue. The lines of a sound row get deeper below such a line only, continue the
branches that they seem to continue, and no block is without lines exactly if no item has an empty body.
-/

namespace GDWorkbench.Skeleton

open List

variable {items : List Item}

variable {above below : List Text} {line name : Text} {item : Item} {depth : Nat}

/-! ## Lines -/

def isMargin (c : Char) : Bool :=
  c = '\t' || c = ' '

def indentation (line : Text) : Text :=
  line.takeWhile isMargin

def content (line : Text) : Text :=
  line.dropWhile isMargin

def opensBlock (line : Text) : Bool :=
  line.getLast? = some ':'

/-- The second line is indented as the first one, and then some more. -/
def isDeeper (line next : Text) : Bool :=
  (indentation line).isPrefixOf (indentation next) && indentation line != indentation next

/-- Every line that opens a block has a deeper line right below. -/
def fillsBlocks : List Text → Bool
  | [] => true
  | line :: below => (!opensBlock line || below.head?.any (isDeeper line)) && fillsBlocks below

/-- The indentation of a line goes on only right below a line that opens a block. -/
def deepensInBlocks : List Text → Bool
  | [] => true
  | line :: below =>
    (opensBlock line || below.head?.all fun next => (indentation next).isPrefixOf (indentation line)) &&
      deepensInBlocks below

def isBranch (line : Text) : Bool :=
  content line = Header.ifOne.text || content line = Header.elifOne.text

def isLaterBranch (line : Text) : Bool :=
  content line = Header.elifOne.text || content line = Header.elseOnly.text

/-- There is a branch of this indentation above, with nothing but deeper lines below it. -/
def Continues (margin : Text) (above : List Text) : Prop :=
  ∃ front branch between, above = front ++ branch :: between ∧ isBranch branch = true ∧
    indentation branch = margin ∧ ∀ line ∈ between, isDeeper branch line = true

/-- Later branches continue a branch, where other lines stand above. -/
def ContinuesBranches (above lines : List Text) : Prop :=
  ∀ front line back, lines = front ++ line :: back → isLaterBranch line = true →
    Continues (indentation line) (above ++ front)

theorem continuesBranches_nil (above : List Text) : ContinuesBranches above [] :=
  fun front _ _ h _ => absurd h.symm (append_ne_nil_of_right_ne_nil front (cons_ne_nil _ _))

theorem continuesBranches_cons {lines : List Text}
    (hline : isLaterBranch line → Continues (indentation line) above)
    (hlines : ContinuesBranches (above ++ [line]) lines) : ContinuesBranches above (line :: lines) := by
  intro front later back h hlater
  cases front with
  | nil =>
    cases h
    rw [append_nil]
    exact hline hlater
  | cons first front =>
    cases h
    have hcontinues := hlines front later back rfl hlater
    rwa [append_assoc] at hcontinues

theorem continuesBranches_append {first second : List Text}
    (hfirst : ContinuesBranches above first) (hsecond : ContinuesBranches (above ++ first) second) :
    ContinuesBranches above (first ++ second) := by
  induction first generalizing above with
  | nil => rwa [append_nil] at hsecond
  | cons line first ih =>
    refine continuesBranches_cons (fun hlater => ?_) (ih ?_ ?_)
    · have hcontinues := hfirst [] line first rfl hlater
      rwa [append_nil] at hcontinues
    · intro front later back h hlater
      have hcontinues := hfirst (line :: front) later back (by rw [h, cons_append]) hlater
      rwa [append_assoc]
    · rwa [append_assoc]

/-! ## Items -/

def IsName (name : Text) : Prop :=
  name ≠ [] ∧ ∀ c ∈ name, Text.isBlank c = false

namespace Header

def isBranch : Header → Bool
  | .ifOne | .elifOne => true
  | _ => false

def isLater : Header → Bool
  | .elifOne | .elseOnly => true
  | _ => false

def IsNamed : Header → Prop
  | .className name | .function name | .forIn name => IsName name
  | _ => True

end Header

def words : List String :=
  ["pass", "1", "return", "return 1", "break", "breakpoint", "continue"]

/-- Items of one line that opens no block. -/
inductive IsLine : Item → Prop
  | word {text : String} (known : text ∈ words) : IsLine (.word text)
  | assignment {name : Text} {value : String} (named : IsName name)
      (known : value ∈ [noValue, someValue]) : IsLine (.assignment name value)

/-- Rows of items in which later branches stand right behind branches. The first item may be a later
branch if a branch is right before the row. -/
inductive Sound : Bool → List Item → Prop
  | nil (ready : Bool) : Sound ready []
  | line {ready : Bool} {item : Item} {rest : List Item} (line : IsLine item)
      (more : Sound false rest) : Sound ready (item :: rest)
  | stub {ready : Bool} {name : Text} {rest : List Item} (named : IsName name)
      (more : Sound false rest) : Sound ready (.stub name :: rest)
  | block {ready : Bool} {header : Header} {body rest : List Item} (named : header.IsNamed)
      (later : header.isLater = true → ready = true) (inner : Sound false body)
      (more : Sound header.isBranch rest) : Sound ready (.block header body :: rest)

theorem Sound.ready {ready : Bool} (h : Sound false items) : Sound ready items := by
  cases h with
  | nil => exact .nil ready
  | line hline hmore => exact .line hline hmore
  | stub hnamed hmore => exact .stub hnamed hmore
  | block hnamed hlater hinner hmore =>
    exact .block hnamed (fun h => absurd (hlater h) Bool.false_ne_true) hinner hmore

theorem Sound.append {ready : Bool} {first second : List Item} (hfirst : Sound ready first)
    (hsecond : Sound false second) : Sound ready (first ++ second) := by
  induction hfirst with
  | nil => exact hsecond.ready
  | line hline hmore ih => exact .line hline ih
  | stub hnamed hmore ih => exact .stub hnamed ih
  | block hnamed hlater hinner hmore ihinner ih => exact .block hnamed hlater hinner ih

mutual

def Item.isFilled : Item → Bool
  | .block _ body => !body.isEmpty && areFilled body
  | _ => true

def areFilled : List Item → Bool
  | [] => true
  | item :: rest => item.isFilled && areFilled rest

end

theorem areFilled_append (first second : List Item) :
    areFilled (first ++ second) = (areFilled first && areFilled second) := by
  induction first with
  | nil => rfl
  | cons item first ih => rw [cons_append, areFilled, areFilled, ih, Bool.and_assoc]

/-! ## Lines of items -/

open GDWorkbench.Skeleton.Item (margin stubBody lines linesOf)

section Margin

variable (depth : Nat)

theorem isMargin_of_mem_margin : ∀ c ∈ margin depth, isMargin c := by
  intro c hc
  rw [(mem_replicate.mp hc).2]
  rfl

theorem indentation_append (text : Text) :
    indentation (margin depth ++ text) = margin depth ++ indentation text :=
  takeWhile_append_of_pos (isMargin_of_mem_margin depth)

theorem content_append (text : Text) : content (margin depth ++ text) = content text :=
  dropWhile_append_of_pos (isMargin_of_mem_margin depth)

theorem opensBlock_append {text : Text} (h : text ≠ []) :
    opensBlock (margin depth ++ text) = opensBlock text := by
  rw [opensBlock, opensBlock, getLast?_append, getLast?_eq_some_getLast h]
  rfl

theorem margin_prefix_succ : margin depth <+: margin (depth + 1) :=
  ⟨['\t'], replicate_succ'.symm⟩

end Margin

theorem isDeeper_iff {next : Text} : isDeeper line next ↔
      indentation line <+: indentation next ∧ indentation line ≠ indentation next := by
  rw [isDeeper, Bool.and_eq_true, isPrefixOf_iff_prefix, bne_iff_ne]

theorem opensBlock_of_isLaterBranch (h : isLaterBranch line) : opensBlock line := by
  have hcontent : (content line).getLast? = some ':' := by
    rcases Bool.or_eq_true_iff.mp h with h | h
    all_goals
      rw [of_decide_eq_true h]
      rfl
  have hline : indentation line ++ content line = line := takeWhile_append_dropWhile
  rw [opensBlock, ← hline, getLast?_append, hcontent]
  rfl

namespace Header

variable (header : Header) (depth : Nat)

theorem indentation_text : indentation header.text = [] := by
  cases header <;> rfl

theorem content_text : content header.text = header.text := by
  cases header <;> rfl

theorem opensBlock_text : opensBlock header.text := by
  have hcolon : ∃ front, header.text = front ++ [':'] := by
    cases header with
    | className name => exact ⟨"class ".toList ++ name, rfl⟩
    | function name => exact ⟨_, (append_assoc _ "()".toList [':']).symm⟩
    | forIn name => exact ⟨_, (append_assoc _ " in 1".toList [':']).symm⟩
    | ifOne => exact ⟨"if 1".toList, rfl⟩
    | elifOne => exact ⟨"elif 1".toList, rfl⟩
    | elseOnly => exact ⟨"else".toList, rfl⟩
    | whileOne => exact ⟨"while 1".toList, rfl⟩
  obtain ⟨front, htext⟩ := hcolon
  rw [htext, opensBlock, getLast?_concat]
  rfl

theorem text_ne_nil : header.text ≠ [] := by
  cases header <;> exact cons_ne_nil _ _

theorem isBranch_line : Skeleton.isBranch (margin depth ++ header.text) = header.isBranch := by
  rw [Skeleton.isBranch, content_append, content_text]
  cases header <;> rfl

theorem isLaterBranch_line : isLaterBranch (margin depth ++ header.text) = header.isLater := by
  rw [isLaterBranch, content_append, content_text]
  cases header <;> rfl

theorem indentation_line : indentation (margin depth ++ header.text) = margin depth := by
  rw [indentation_append, indentation_text, append_nil]

theorem opensBlock_line : opensBlock (margin depth ++ header.text) := by
  rw [opensBlock_append depth header.text_ne_nil, opensBlock_text]

end Header

/-- A text that is a line for itself: it begins with no blank and opens no block. -/
structure IsPlain (text : Text) : Prop where
  ne_nil : text ≠ []
  indentation_eq : indentation text = []
  opensBlock_eq : opensBlock text = false

theorem isPlain_word {text : String} (h : text ∈ words) : IsPlain text.toList := by
  have hwords : ∀ text ∈ words, text.toList ≠ [] ∧ indentation text.toList = [] ∧
      opensBlock text.toList = false := by decide
  obtain ⟨hne, hindentation, hopens⟩ := hwords text h
  exact ⟨hne, hindentation, hopens⟩

theorem isMargin_eq_false {c : Char} (h : Text.isBlank c = false) : isMargin c = false := by
  rw [isMargin, Bool.or_eq_false_iff]
  constructor
  all_goals
    refine decide_eq_false fun hc => ?_
    rw [hc] at h
    exact absurd h (by decide)

theorem isPlain_assignment {value : String} (hname : IsName name)
    (hvalue : value ∈ [noValue, someValue]) : IsPlain (name ++ " = ".toList ++ value.toList) := by
  obtain ⟨c, rest, rfl⟩ := exists_cons_of_ne_nil hname.1
  have hlast : ∀ value ∈ [noValue, someValue], ∃ last : Char, last ≠ ':' ∧
      value.toList.getLast? = some last := by
    intro value hvalue
    rcases mem_cons.mp hvalue with rfl | hvalue
    · exact ⟨'e', by decide, by decide⟩
    · rw [mem_singleton.mp hvalue]
      exact ⟨'1', by decide, by decide⟩
  refine ⟨cons_ne_nil _ _, ?_, ?_⟩
  · rw [append_assoc, cons_append, indentation,
      takeWhile_cons_of_neg (by simp [isMargin_eq_false (hname.2 c mem_cons_self)])]
  · obtain ⟨last, hne, hlast⟩ := hlast value hvalue
    rw [opensBlock, getLast?_append, hlast]
    exact decide_eq_false fun h => hne (Option.some.inj h)

theorem IsLine.exists_isPlain (h : IsLine item) :
    ∃ text, IsPlain text ∧ ∀ depth, lines depth item = [margin depth ++ text] := by
  cases h with
  | word hknown => exact ⟨_, isPlain_word hknown, fun depth => rfl⟩
  | assignment hnamed hknown =>
    refine ⟨_, isPlain_assignment hnamed hknown, fun depth => ?_⟩
    rw [lines, ← append_assoc, ← append_assoc]

theorem IsLine.isFilled (h : IsLine item) : item.isFilled := by
  cases h <;> rfl

namespace IsPlain

variable {text : Text} (h : IsPlain text) (depth : Nat)

include h

theorem indentation_line : indentation (margin depth ++ text) = margin depth := by
  rw [indentation_append, h.indentation_eq, append_nil]

theorem opensBlock_line : opensBlock (margin depth ++ text) = false := by
  rw [opensBlock_append depth h.ne_nil, h.opensBlock_eq]

end IsPlain

theorem opensBlock_stubBody (depth : Nat) : opensBlock (margin depth ++ stubBody) = false := by
  rw [opensBlock_append depth (by decide)]
  decide

theorem indentation_stubBody (depth : Nat) :
    indentation (margin depth ++ stubBody) = margin depth ++ "    ".toList := by
  rw [indentation_append]
  rfl

theorem lineFeed_not_mem_append (depth : Nat) {text : Text} (h : '\n' ∉ text) :
    '\n' ∉ margin depth ++ text := by
  rw [mem_append, not_or]
  exact ⟨fun hmem => absurd (mem_replicate.mp hmem).2 (by decide), h⟩

theorem IsName.lineFeed_not_mem (h : IsName name) {front back : Text} (hfront : '\n' ∉ front)
    (hback : '\n' ∉ back) : '\n' ∉ front ++ name ++ back := by
  rw [mem_append, mem_append, not_or, not_or]
  exact ⟨⟨hfront, fun hmem => absurd (h.2 _ hmem) (by decide)⟩, hback⟩

theorem Header.IsNamed.lineFeed_not_mem {header : Header} (h : header.IsNamed) :
    '\n' ∉ header.text := by
  cases header with
  | className name | function name | forIn name =>
    exact IsName.lineFeed_not_mem h (by decide) (by decide)
  | ifOne | elifOne | elseOnly | whileOne => decide

theorem IsLine.lineFeed_not_mem (h : IsLine item) (depth : Nat) : ∀ line ∈ lines depth item, '\n' ∉ line := by
  cases h with
  | word hknown =>
    have hwords : ∀ text ∈ words, '\n' ∉ text.toList := by decide
    exact forall_mem_singleton.mpr (lineFeed_not_mem_append depth (hwords _ hknown))
  | assignment hnamed hknown =>
    have hvalues : ∀ value ∈ [noValue, someValue], '\n' ∉ value.toList := by decide
    rw [lines, forall_mem_singleton, append_assoc, append_assoc]
    refine lineFeed_not_mem_append depth (hnamed.lineFeed_not_mem not_mem_nil ?_)
    rw [mem_append, not_or]
    exact ⟨by decide, hvalues _ hknown⟩

/-! ## Blocks -/

/-- The first line of these is indented no more than to some depth. -/
def IsWithin (depth : Nat) (below : List Text) : Prop :=
  ∀ line ∈ below.head?, indentation line <+: margin depth

theorem IsWithin.succ (h : IsWithin depth below) : IsWithin (depth + 1) below := by
  intro line hline
  exact (h line hline).trans (margin_prefix_succ depth)

theorem IsWithin.any_isDeeper (h : IsWithin depth below)
    (hline : indentation line = margin depth) : below.head?.any (isDeeper line) = false := by
  cases hhead : below.head? with
  | none => rfl
  | some next =>
    refine Bool.eq_false_iff.mpr fun hdeeper => ?_
    obtain ⟨hstarts, hne⟩ := isDeeper_iff.mp hdeeper
    have hback := h next hhead
    rw [← hline] at hback
    exact hne (hstarts.eq_of_length_le hback.length_le)

theorem IsWithin.deepensInBlocks_cons (h : IsWithin depth below)
    (hline : opensBlock line ∨ margin depth <+: indentation line)
    (hbelow : deepensInBlocks below) : deepensInBlocks (line :: below) := by
  rw [deepensInBlocks, hbelow, Bool.and_true, Bool.or_eq_true]
  refine hline.imp_right fun hstarts => ?_
  cases hhead : below.head? with
  | none => rfl
  | some next => exact isPrefixOf_iff_prefix.mpr ((h next hhead).trans hstarts)

theorem Sound.exists_line {ready : Bool} {rest : List Item} (h : Sound ready (item :: rest)) (depth : Nat) :
    ∃ line more, lines depth item = line :: more ∧ indentation line = margin depth := by
  cases h with
  | line hline hmore =>
    obtain ⟨text, hplain, hlines⟩ := hline.exists_isPlain
    exact ⟨_, _, hlines depth, hplain.indentation_line depth⟩
  | stub hnamed hmore => exact ⟨_, _, rfl, Header.indentation_line _ depth⟩
  | block hnamed hlater hinner hmore => exact ⟨_, _, rfl, Header.indentation_line _ depth⟩

theorem Sound.isWithin {ready : Bool} (h : Sound ready items)
    (hbelow : IsWithin depth below) :
    IsWithin depth (linesOf depth items ++ below) := by
  cases items with
  | nil => exact hbelow
  | cons item rest =>
    obtain ⟨line, more, hlines, hindentation⟩ := h.exists_line depth
    intro first hfirst
    rw [linesOf, hlines] at hfirst
    obtain rfl : line = first := Option.some.inj hfirst
    exact hindentation ▸ prefix_rfl

section Blocks

variable {ready : Bool} {items : List Item} (h : Sound ready items)

include h

/-- All lines are indented at least to the depth of their items. -/
theorem Sound.prefix_indentation (depth : Nat) :
    ∀ line ∈ linesOf depth items, margin depth <+: indentation line := by
  induction h generalizing depth with
  | nil => exact forall_mem_nil _
  | line hline hmore ih =>
    obtain ⟨text, hplain, hlines⟩ := hline.exists_isPlain
    rw [linesOf, hlines, singleton_append, forall_mem_cons, hplain.indentation_line]
    exact ⟨prefix_rfl, ih depth⟩
  | stub hnamed hmore ih =>
    rw [linesOf, lines, forall_mem_append, forall_mem_cons, forall_mem_singleton,
      Header.indentation_line, indentation_stubBody]
    exact ⟨⟨prefix_rfl, prefix_append _ _⟩, ih depth⟩
  | block hnamed hlater hinner hmore ihinner ih =>
    rw [linesOf, lines, forall_mem_append, forall_mem_cons, Header.indentation_line]
    refine ⟨⟨prefix_rfl, fun line hline => ?_⟩, ih depth⟩
    exact (margin_prefix_succ depth).trans (ihinner (depth + 1) line hline)

theorem Sound.forall_isDeeper {header : Text} (hheader : indentation header = margin depth) :
    ∀ line ∈ linesOf (depth + 1) items, isDeeper header line := by
  intro line hline
  have hstarts := h.prefix_indentation (depth + 1) line hline
  rw [isDeeper_iff, hheader]
  refine ⟨(margin_prefix_succ depth).trans hstarts, fun heq => ?_⟩
  have hlength := hstarts.length_le
  rw [← heq, margin, margin, length_replicate, length_replicate] at hlength
  omega

/-- No block is without lines exactly if no item has an empty body. -/
theorem Sound.fillsBlocks_linesOf (hbelow : IsWithin depth below) :
    fillsBlocks (linesOf depth items ++ below) = (areFilled items && fillsBlocks below) := by
  induction h generalizing depth below with
  | nil => rfl
  | line hline hmore ih =>
    obtain ⟨text, hplain, hlines⟩ := hline.exists_isPlain
    rw [linesOf, hlines, singleton_append, cons_append, fillsBlocks,
      hplain.opensBlock_line, ih hbelow, areFilled, hline.isFilled]
    rfl
  | @stub _ name rest hnamed hmore ih =>
    have hdeeper : isDeeper (margin depth ++ (Header.function name).text) (margin depth ++ stubBody) =
        true := by
      rw [isDeeper_iff, Header.indentation_line, indentation_stubBody]
      exact ⟨prefix_append _ _, fun heq => nomatch append_right_eq_self.mp heq.symm⟩
    rw [linesOf, lines, cons_append, singleton_append, cons_append, cons_append,
      fillsBlocks, fillsBlocks, opensBlock_stubBody, ih hbelow, areFilled]
    simp [hdeeper, Item.isFilled]
  | @block _ header body rest hnamed hlater hinner hmore ihinner ih =>
    have hwithin := hmore.isWithin hbelow
    have hfilled : (linesOf (depth + 1) body ++ (linesOf depth rest ++ below)).head?.any
        (isDeeper (margin depth ++ header.text)) = !body.isEmpty := by
      cases body with
      | nil => exact hwithin.any_isDeeper (header.indentation_line depth)
      | cons item inner =>
        obtain ⟨line, more, hlines, -⟩ := hinner.exists_line (depth + 1)
        have hdeeper := hinner.forall_isDeeper (header.indentation_line depth)
        rw [linesOf, hlines] at hdeeper ⊢
        exact hdeeper line mem_cons_self
    rw [linesOf, lines, cons_append, cons_append, append_assoc, fillsBlocks, hfilled,
      ihinner hwithin.succ, ih hbelow, areFilled, Item.isFilled, header.opensBlock_line]
    simp [Bool.and_assoc]

theorem Sound.deepensInBlocks_linesOf (hbelow : IsWithin depth below)
    (hdeepens : deepensInBlocks below) :
    deepensInBlocks (linesOf depth items ++ below) := by
  induction h generalizing depth below with
  | nil => exact hdeepens
  | line hline hmore ih =>
    obtain ⟨text, hplain, hlines⟩ := hline.exists_isPlain
    rw [linesOf, hlines, singleton_append, cons_append]
    refine (hmore.isWithin hbelow).deepensInBlocks_cons (.inr ?_) (ih hbelow hdeepens)
    exact (hplain.indentation_line _).symm ▸ prefix_rfl
  | @stub _ name rest hnamed hmore ih =>
    rw [linesOf, lines, cons_append, singleton_append, cons_append, cons_append]
    have hbody : deepensInBlocks ((margin depth ++ stubBody) :: (linesOf depth rest ++ below)) := by
      refine (hmore.isWithin hbelow).deepensInBlocks_cons (.inr ?_) (ih hbelow hdeepens)
      rw [indentation_stubBody]
      exact prefix_append _ _
    rw [deepensInBlocks, Header.opensBlock_line, hbody]
    rfl
  | block hnamed hlater hinner hmore ihinner ih =>
    have hwithin := (hmore.isWithin hbelow).succ
    rw [linesOf, lines, cons_append, cons_append, append_assoc]
    exact (hinner.isWithin hwithin).deepensInBlocks_cons (.inl (Header.opensBlock_line _ depth))
      (ihinner hwithin (ih hbelow hdeepens))

theorem Sound.continuesBranches_linesOf
    (hready : ready → Continues (margin depth) above) :
    ContinuesBranches above (linesOf depth items) := by
  have hplain {line : Text} (hopens : opensBlock line = false) (above : List Text) :
      isLaterBranch line → Continues (indentation line) above :=
    fun hlater => absurd (opensBlock_of_isLaterBranch hlater) (by simp [hopens])
  induction h generalizing depth above with
  | nil => exact continuesBranches_nil above
  | line hline hmore ih =>
    obtain ⟨text, htext, hlines⟩ := hline.exists_isPlain
    rw [linesOf, hlines, singleton_append]
    exact continuesBranches_cons (hplain (htext.opensBlock_line depth) _)
      (ih fun h => absurd h Bool.false_ne_true)
  | stub hnamed hmore ih =>
    rw [linesOf, lines, cons_append, singleton_append]
    refine continuesBranches_cons (fun hlater => ?_) ?_
    · rw [Header.isLaterBranch_line] at hlater
      cases hlater
    · exact continuesBranches_cons (hplain (opensBlock_stubBody depth) _)
        (ih fun h => absurd h Bool.false_ne_true)
  | @block ready header body rest hnamed hlater hinner hmore ihinner ih =>
    have hheader := header.indentation_line depth
    rw [linesOf, lines]
    refine continuesBranches_append (continuesBranches_cons (fun h => ?_) ?_) (ih fun h => ?_)
    · rw [header.isLaterBranch_line] at h
      rw [hheader]
      exact hready (hlater h)
    · exact ihinner fun h => absurd h Bool.false_ne_true
    · refine ⟨above, _, _, rfl, ?_, hheader, hinner.forall_isDeeper hheader⟩
      rw [header.isBranch_line, h]

theorem Sound.lineFeed_not_mem (depth : Nat) : ∀ line ∈ linesOf depth items, '\n' ∉ line := by
  induction h generalizing depth with
  | nil => exact forall_mem_nil _
  | line hline hmore ih =>
    rw [linesOf, forall_mem_append]
    exact ⟨hline.lineFeed_not_mem depth, ih depth⟩
  | @stub _ name rest hnamed hmore ih =>
    rw [linesOf, lines, forall_mem_append, forall_mem_cons, forall_mem_singleton]
    refine ⟨⟨?_, ?_⟩, ih depth⟩
    · have hheader : (Header.function name).IsNamed := hnamed
      exact lineFeed_not_mem_append depth hheader.lineFeed_not_mem
    · exact lineFeed_not_mem_append depth (by decide)
  | block hnamed hlater hinner hmore ihinner ih =>
    rw [linesOf, lines, forall_mem_append, forall_mem_cons]
    exact ⟨⟨lineFeed_not_mem_append depth hnamed.lineFeed_not_mem, ihinner (depth + 1)⟩, ih depth⟩

end Blocks

/-! ## Texts -/

/-- The lines of a text that ends with a line feed unless it is empty. -/
def linesOfText (text : Text) : List Text :=
  (Text.splitAt '\n' text).dropLast

theorem Sound.linesOfText_text {ready : Bool} (h : Sound ready items) :
    linesOfText (text items) = linesOf 0 items := by
  have hlines : ∀ line ∈ linesOf 0 items ++ [[]], '\n' ∉ line := by
    rw [forall_mem_append]
    exact ⟨h.lineFeed_not_mem 0, forall_mem_singleton.mpr not_mem_nil⟩
  rw [linesOfText, text, Text.splitAt_join (by simp) hlines, dropLast_concat]

end GDWorkbench.Skeleton

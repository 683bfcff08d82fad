import GDWorkbench.Proofs.Format.Characters
import GDWorkbench.Proofs.Format.Insertion

/-!
Characters in formatted files. Statements, blocks and comments are laid out in lines without foreign
characters, as expressions are, if there are none in the tokens and comments of the file. These are pieces
of its source; so there is no carriage return in the formatted text if there is none in the source.
-/

namespace GDWorkbench

open List Text Format.Affixes Format.Context GDWorkbench.Tree

variable {x : Foreign} {comments : List Token} {text : Text}

theorem Comments.exists_of_mem_byLine {wanted : Text → Bool} {code : Text}
    {comment : Text} (h : some comment ∈ byLine wanted code comments) :
    ∃ token ∈ comments, comment = trimEnd token.content := by
  rcases mem_cons.mp h with h | h
  · cases h
  · obtain ⟨⟨line, i⟩, -, hentry⟩ := mem_map.mp h
    dsimp only at hentry
    split at hentry
    · rename_i text column honLine
      split at hentry
      · obtain ⟨token, htoken, heq⟩ := Option.map_eq_some_iff.mp honLine
        cases heq
        exact ⟨token, mem_of_find?_eq_some htoken, (Option.some.inj hentry).symm⟩
      · cases hentry
    · cases hentry

namespace Format

variable {ts : List Tree} {line : Line} {lines : List Line} {t : Tree}

/-! ## Annotations -/

namespace Annotations

variable {body : BodyFormatter} (hbody : BodyFormatter.Keeps x body) {c : Context}
  (hc : c.settings.Tidy x)

include hbody hc

theorem tidy_standaloneLines (ht : t.Tidy x) : OutcomeTidy x (standaloneLines body t c) := by
  refine .skip fun first => (tidy_concrete hbody
    (tidy_mk tidy_nil tidy_nil) hc ht).bind fun lines hlines =>
    .skip fun last => ensures_ok hlines

theorem tidy_allStandaloneLines (h : ∀ t ∈ ts, t.Tidy x) :
    Ensures (allStandaloneLines body c ts) (LinesTidy x) := by
  induction ts with
  | nil => exact ensures_ok linesTidy_nil
  | cons t ts ih =>
    obtain ⟨ht, hts⟩ := forall_mem_cons.mp h
    refine (tidy_standaloneLines hbody hc ht).bind fun result hresult =>
      (ih hts).bind fun more hmore => ensures_ok ?_
    exact linesTidy_append.mpr ⟨hresult, hmore⟩

theorem tidy_putBefore {pending : List Tree} (hpending : ∀ t ∈ pending, t.Tidy x)
    (hline : Text.Tidy x line.text) : Ensures (putBefore body c pending line) (LinesTidy x) := by
  have hmargin := tidy_margin hc
  have hstatement : Text.Tidy x (trim line.text) := hline.sublist (trim_sublist _)
  refine (Ensures.mapM fun t ht => tidy_line (hpending t ht)).bind fun texts htexts =>
    .skip fun commented => ?_
  have htext : Text.Tidy x (join [' '] texts) := tidy_join (by simp) htexts
  refine Ensures.ite (ensures_ok ?_) ((tidy_allStandaloneLines hbody hc hpending).bind
    fun lines hlines => ensures_ok ?_)
  · simp [hmargin, htext, hstatement]
  · simp [hlines, hline]

end Annotations

/-! ## Comments and empty lines between statements -/

theorem CommentsTidy.between {comments : List (Option Text)} (h : CommentsTidy x comments)
    (first last : Option Int) : CommentsTidy x (between comments first last) :=
  fun comment hcomment => h comment (mem_of_mem_between hcomment)

section Blanks

variable {c : Context} (hc : c.settings.Tidy x)

include hc

theorem tidy_commentLines {comments : List (Option Text)} (h : CommentsTidy x comments) (n : Int) :
    Ensures (commentLines c n comments) fun lines => ∀ line ∈ lines, Text.Tidy x line := by
  induction comments generalizing n with
  | nil => exact ensures_ok (forall_mem_nil _)
  | cons comment comments ih =>
    have hrest := ih (fun d hd => h d (mem_cons_of_mem _ hd)) (n + 1)
    cases comment with
    | none =>
      refine hrest.bind fun lines hlines => ensures_ok ?_
      exact forall_mem_cons.mpr ⟨tidy_nil, hlines⟩
    | some comment =>
      have hcomment : Text.Tidy x comment := h comment mem_cons_self
      have hline : Ensures (standaloneComment c n comment) (Text.Tidy x) := by
        unfold standaloneComment
        split
        · refine ensures_ok ?_
          split
          · exact hcomment
          · exact tidy_append.mpr ⟨tidy_margin hc, hcomment⟩
        · exact ensures_error
      refine hline.bind fun line hline => hrest.bind fun lines hlines => ensures_ok ?_
      exact forall_mem_cons.mpr ⟨hline, hlines⟩

theorem tidy_blanksBetween (first last : Int) :
    Ensures (blanksBetween c first last) fun lines => ∀ line ∈ lines, Text.Tidy x line := by
  have hcomments : CommentsTidy x ((between c.settings.standalone (some (first + 1))
      (some last)).take (last - (first + 1)).toNat) :=
    fun comment h => hc.standalone.between _ _ comment (mem_of_mem_take h)
  refine (tidy_commentLines hc hcomments _).bind fun lines hlines => ensures_ok ?_
  exact fun line hline => hlines line ((squeeze_sublist lines).subset hline)

end Blanks

/-! ## Blocks -/

namespace Block

theorem tidy_separators {lines : List Text} (h : ∀ line ∈ lines, Text.Tidy x line) :
    LinesTidy x (separators lines) := by
  intro line hline
  obtain ⟨text, htext, rfl⟩ := mem_map.mp hline
  exact h text htext

structure State.Tidy (x : Foreign) (s : State) : Prop where
  lines : LinesTidy x s.lines
  pending : ∀ t ∈ s.pending, t.Tidy x

section

variable {c : Context} (hc : c.settings.Tidy x)

include hc

theorem tidy_blanksBefore (s : State) (kind : Kind) (t : Tree) :
    Ensures (blanksBefore c s kind t) fun lines => ∀ line ∈ lines, Text.Tidy x line := by
  refine .skip fun n => .skip fun first =>
    .skip fun m => (tidy_blanksBetween hc n m).bind fun lines hlines => ensures_ok ?_
  have hadded {line : Text} (h : line = [] ∨ line ∈ lines) : Text.Tidy x line := by
    rcases h with rfl | h
    · exact tidy_nil
    · exact hlines line h
  intro line hline
  split at hline
  · exact hlines line ((dropWhile_sublist _).subset hline)
  · refine hadded ((eq_nil_or_mem_of_mem_beforeStatement hline).elim .inl fun hline => ?_)
    exact eq_nil_or_mem_of_mem_afterStatement hline

variable {format : StatementFormatter} (hformat : StatementFormatter.Keeps x format)
  {body : BodyFormatter} (hbody : BodyFormatter.Keeps x body) {s : State} (hs : s.Tidy x) {t : Tree}
  (ht : t.Tidy x)

include hformat hbody hs ht

theorem tidy_statement (kind : Kind) {blanks : List Text}
    (hblanks : ∀ line ∈ blanks, Text.Tidy x line) :
    Ensures (statement format body c s kind t blanks) (State.Tidy x) := by
  have hseparated : (LinesTidy x)
      (if s.pending.isEmpty then s.lines ++ separators blanks else s.lines) := by
    split
    · exact linesTidy_append.mpr ⟨hs.lines, tidy_separators hblanks⟩
    · exact hs.lines
  have hstate {lines : List Line} (hlines : LinesTidy x lines) (previous : Option Int) :
      State.Tidy x ⟨(if s.pending.isEmpty then s.lines ++ separators blanks else s.lines) ++ lines,
        previous, some kind, []⟩ :=
    ⟨linesTidy_append.mpr ⟨hseparated, hlines⟩, forall_mem_nil _⟩
  refine (hformat ht hc).bind fun result hresult => ?_
  obtain ⟨lines, previous⟩ := result
  dsimp only at hresult ⊢
  split
  · exact ensures_ok (hstate hresult previous)
  · exact ensures_error
  · obtain ⟨hfirst, hrest⟩ := linesTidy_cons.mp hresult
    refine (Annotations.tidy_putBefore hbody hc hs.pending hfirst).bind fun before hbefore =>
      ensures_ok (hstate ?_ previous)
    exact linesTidy_append.mpr ⟨hbefore, hrest⟩

theorem tidy_step (inFunction : Bool) (following : Option Tree) :
    Ensures (step inFunction format body c s t following) (State.Tidy x) := by
  refine .skip fun kind => .skip fun belongs => ?_
  refine Ensures.ite (ensures_ok ⟨hs.lines, ?_⟩) ((tidy_blanksBefore hc s kind t).bind
    fun blanks hblanks => Ensures.ite (ensures_ok ⟨?_, ?_⟩)
      (tidy_statement hc hformat hbody hs ht kind hblanks))
  · exact forall_mem_append.mpr ⟨hs.pending, forall_mem_singleton.mpr ht⟩
  · exact linesTidy_append.mpr ⟨hs.lines, tidy_separators hblanks⟩
  · exact forall_mem_singleton.mpr ht

omit hs ht in
theorem tidy_steps (inFunction : Bool) (hts : ∀ t ∈ ts, t.Tidy x) {s : State}
    (hs : s.Tidy x) : Ensures (steps inFunction format body c s ts) (State.Tidy x) := by
  induction ts generalizing s with
  | nil => exact ensures_ok hs
  | cons t ts ih =>
    obtain ⟨ht, hts⟩ := forall_mem_cons.mp hts
    exact (tidy_step hc hformat hbody hs ht inFunction ts.head?).bind fun _ hs => ih hts hs

end

end Block

theorem keeps_block (inFunction : Bool) {format : StatementFormatter}
    (hformat : StatementFormatter.Keeps x format) {body : BodyFormatter}
    (hbody : BodyFormatter.Keeps x body) :
    BlockFormatter.Keeps x (block inFunction format body) := by
  intro ts c hts hc
  have hstart : Block.State.Tidy x ⟨[], c.previous, none, []⟩ := ⟨linesTidy_nil, forall_mem_nil _⟩
  refine (Block.tidy_steps hc hformat hbody inFunction hts hstart).bind fun s hs =>
    .skip fun previous => (tidy_blanksBetween hc _ _).bind fun tail htail => ensures_ok ?_
  refine linesTidy_append.mpr ⟨hs.lines, Block.tidy_separators fun line hline => ?_⟩
  exact htail line ((dropEmptyEnd_sublist tail).subset hline)

/-! ## Statements of functions -/

namespace Statement

section

variable {before : Text}

variable {c : Context} (hc : c.settings.Tidy x)

include hc

theorem tidy_simple (htext : Text.Tidy x text) (t : Tree) : OutcomeTidy x (simple text t c) := by
  refine .skip fun n => ensures_ok ?_
  simp [tidy_margin hc, htext]

variable {block : BlockFormatter} (hblock : BlockFormatter.Keeps x block)

include hblock

omit hc in
theorem keeps_body : BodyFormatter.Keeps x (body block) :=
  fun hts hc => (hblock hts hc).bind fun _ hresult => ensures_ok hresult

theorem tidy_under {header : List Line} (hheader : LinesTidy x header) {statements : List Tree}
    (hstatements : ∀ t ∈ statements, t.Tidy x) (previous : Option Int) :
    OutcomeTidy x (under block header statements previous c) := by
  have hchild : (c.child previous).settings.Tidy x := hc
  refine (hblock hstatements hchild).bind fun result hresult => ensures_ok ?_
  exact linesTidy_append.mpr ⟨hheader, hresult⟩

theorem tidy_behind (hbefore : Text.Tidy x before) (t : Tree) {e : Tree}
    (he : e.Tidy x) (afterLine : Option Int) :
    OutcomeTidy x (behind block before t e afterLine c) :=
  .skip fun _ => (tidy_expression (keeps_body hblock)
    (tidy_mk hbefore not_mem_nil) hc he).bind fun _ hlines =>
    .skip fun _ => ensures_ok hlines

theorem tidy_around {after : Text} (hbefore : Text.Tidy x before)
    (hafter : Text.Tidy x after) (t : Tree) {inner : Tree} (hinner : inner.Tidy x) :
    OutcomeTidy x (around block before after t inner c) :=
  .skip fun _ => .skip fun _ =>
    (tidy_concrete (keeps_body hblock) (tidy_mk hbefore hafter) hc hinner).bind
    fun _ hlines => .skip fun _ => ensures_ok hlines

/-! ### Variables and constants -/

theorem tidy_assigned (hbefore : Text.Tidy x before) (t : Tree) {e : Tree}
    (he : e.Tidy x) : OutcomeTidy x (assigned block before t e c) :=
  .skip fun n => tidy_behind hc hblock hbefore t he n

theorem tidy_declared {modifier : Text} (hmodifier : Text.Tidy x modifier)
    (ht : t.Tidy x) : OutcomeTidy x (declared block modifier t c) := by
  refine (ht.part 0).bind fun inner hinner => .skip fun kind =>
    (hinner.word 0).bind fun name hname => ?_
  have hhead : Text.Tidy x (modifier ++ "var ".toList ++ name) := by
    simp [hmodifier, hname]
  have hsigned {sign : String} (hsign : Text.Tidy x sign.toList) :
      Text.Tidy x (modifier ++ "var ".toList ++ name ++ sign.toList) :=
    tidy_append.mpr ⟨hhead, hsign⟩
  have htyped {type : Text} (htype : Text.Tidy x type) :
      Text.Tidy x (modifier ++ "var ".toList ++ name ++ ": ".toList ++ type) :=
    tidy_append.mpr ⟨hsigned (by simp), htype⟩
  cases kind
  case classVarEmpty | funcVarEmpty => exact tidy_simple hc hhead inner
  case classVarTyped | funcVarTyped =>
    exact (hinner.word 1).bind fun type htype => tidy_simple hc (htyped htype) inner
  case classVarAssigned | funcVarAssigned | classVarInf | funcVarInf =>
    exact (hinner.part 1).bind fun e he => tidy_assigned hc hblock (hsigned (by simp)) inner he
  case classVarTypedAssgnd | funcVarTypedAssgnd =>
    refine (hinner.word 1).bind fun type htype => (hinner.part 2).bind fun e he =>
      tidy_assigned hc hblock ?_ inner he
    exact tidy_append.mpr ⟨htyped htype, by simp⟩
  all_goals exact ensures_error

theorem tidy_constant (ht : t.Tidy x) : OutcomeTidy x (constant block t c) := by
  refine (ht.part 0).bind fun inner hinner => .skip fun kind =>
    (hinner.word 0).bind fun name hname => ?_
  have hsigned {sign : String} (hsign : Text.Tidy x sign.toList) :
      Text.Tidy x ("const ".toList ++ name ++ sign.toList) :=
    tidy_append.mpr ⟨by simp [hname], hsign⟩
  cases kind
  case constAssigned | constInf =>
    exact (hinner.part _).bind fun e he => tidy_assigned hc hblock (hsigned (by simp)) inner he
  case constTypedAssigned =>
    refine (hinner.word 1).bind fun type htype => (hinner.part _).bind fun e he =>
      tidy_assigned hc hblock ?_ inner he
    have hcolon : Text.Tidy x ("const ".toList ++ name ++ ": ".toList) := hsigned (by simp)
    exact tidy_append.mpr ⟨tidy_append.mpr ⟨hcolon, htype⟩, by simp⟩
  all_goals exact ensures_error

/-! ### Branches -/

theorem tidy_branch (hbefore : Text.Tidy x before) (i : Nat)
    (ht : t.Tidy x) : OutcomeTidy x (branch block before i t c) := by
  have hcolon : Text.Tidy x [':'] := by simp
  have hstatements : ∀ u ∈ t.children.drop (i + 1), u.Tidy x :=
    fun u hu => ht.child (mem_of_mem_drop hu)
  exact (ht.part i).bind fun e he => .skip fun n =>
    (tidy_expression (keeps_body hblock) (tidy_mk hbefore hcolon) hc he).bind
    fun header hheader => .skip fun last => tidy_under hc hblock hheader hstatements last

theorem tidy_ifBranch (ht : t.Tidy x) : OutcomeTidy x (ifBranch block t c) := by
  refine .skip fun kind => ?_
  cases kind
  case ifBranch | elifBranch =>
    exact tidy_branch hc hblock (by simp) 0 ht
  case elseBranch =>
    refine .skip fun n => tidy_under hc hblock ?_ (fun u hu => ht.child hu) n
    simp [tidy_margin hc]
  all_goals exact ensures_error

theorem tidy_moreBranches (previous : Option Int) (h : ∀ t ∈ ts, t.Tidy x) :
    OutcomeTidy x (moreBranches block c previous ts) := by
  induction ts generalizing previous with
  | nil => exact ensures_ok linesTidy_nil
  | cons t ts ih =>
    obtain ⟨ht, hts⟩ := forall_mem_cons.mp h
    refine .skip fun n => .skip fun first =>
      .skip fun m => (tidy_blanksBetween hc n m).bind fun blanks hblanks =>
      (tidy_ifBranch hc hblock ht).bind fun result hresult =>
      (ih result.2 hts).bind fun rest hrest => ensures_ok ?_
    exact linesTidy_append.mpr
      ⟨linesTidy_append.mpr ⟨Block.tidy_separators hblanks, hresult⟩, hrest⟩

theorem tidy_branches (h : ∀ t ∈ ts, t.Tidy x) : OutcomeTidy x (branches block c ts) := by
  cases ts with
  | nil => exact ensures_ok linesTidy_nil
  | cons t ts =>
    obtain ⟨ht, hts⟩ := forall_mem_cons.mp h
    refine (tidy_ifBranch hc hblock ht).bind fun result hresult =>
      (tidy_moreBranches hc hblock result.2 hts).bind fun rest hrest => ensures_ok ?_
    exact linesTidy_append.mpr ⟨hresult, hrest⟩

theorem tidy_forLoop (ht : t.Tidy x) : OutcomeTidy x (forLoop block t c) := by
  refine (ht.word 0).bind fun name hname => tidy_branch hc hblock ?_ 1 ht
  simp [hname]

theorem tidy_typedForLoop (ht : t.Tidy x) : OutcomeTidy x (typedForLoop block t c) := by
  refine (ht.word 0).bind fun name hname => (ht.word 1).bind fun type htype =>
    tidy_branch hc hblock ?_ 2 ht
  simp [hname, htype]

theorem tidy_guarded (ht : t.Tidy x) : OutcomeTidy x (guarded block t c) := by
  refine (ht.part 0).bind fun inner hinner => (hinner.part 0).bind fun u hu =>
    (tidy_line hu).bind fun pattern hpattern => tidy_branch hc hblock ?_ 1 ht
  simp [hpattern]

theorem tidy_returned (ht : t.Tidy x) : OutcomeTidy x (returned block t c) := by
  unfold returned
  split
  · exact tidy_simple hc (by simp) t
  · rename_i e rest heq
    exact .skip fun n => tidy_behind hc hblock (by simp) t (ht.child (heq ▸ mem_cons_self)) n

omit hc in
theorem keeps_format : StatementFormatter.Keeps x (format block) := by
  intro t c ht hc
  have hchildren : ∀ u ∈ t.children, u.Tidy x := fun u hu => ht.child hu
  refine .skip fun kind => ?_
  cases kind
  case passStmt | breakStmt | breakpointStmt | continueStmt =>
    exact tidy_simple hc (by simp) t
  case funcVarStmt => exact tidy_declared hc hblock not_mem_nil ht
  case constStmt => exact tidy_constant hc hblock ht
  case exprStmt =>
    exact (ht.part 0).bind fun e he => .skip fun n => tidy_behind hc hblock not_mem_nil t he n
  case returnStmt => exact tidy_returned hc hblock ht
  case ifStmt => exact tidy_branches hc hblock hchildren
  case whileStmt | matchStmt | matchBranch =>
    exact tidy_branch hc hblock (by simp) 0 ht
  case forStmt => exact tidy_forLoop hc hblock ht
  case forStmtTyped => exact tidy_typedForLoop hc hblock ht
  case guardedMatchBranch => exact tidy_guarded hc hblock ht
  case annot => exact Annotations.tidy_standaloneLines (keeps_body hblock) hc ht
  all_goals exact ensures_error

end

end Statement

theorem keeps_functionBlock (depth : Nat) : BlockFormatter.Keeps x (functionBlock depth) := by
  induction depth with
  | zero => exact fun _ _ => ensures_error
  | succ depth ih =>
    exact keeps_block true (Statement.keeps_format ih) (Statement.keeps_body ih)

/-! ## Properties -/

namespace Property

variable {functions : BlockFormatter} (hfunctions : BlockFormatter.Keeps x functions) {c : Context}
  (hc : c.settings.Tidy x)

include hfunctions hc

theorem tidy_setter (ht : t.Tidy x) : OutcomeTidy x (setter functions t c) := by
  refine (ht.part 1).bind fun argument hargument => Ensures.ite ensures_error ?_
  refine .skip fun n => hargument.tokenText.bind fun text htext =>
    Statement.tidy_under hc hfunctions ?_ (fun u hu => ht.child (mem_of_mem_drop hu)) n
  simp [tidy_margin hc, htext]

theorem tidy_getter (ht : t.Tidy x) : OutcomeTidy x (getter functions t c) := by
  have hmargin := tidy_margin hc
  have hstatements (k : Nat) : ∀ u ∈ t.children.drop k, u.Tidy x :=
    fun u hu => ht.child (mem_of_mem_drop hu)
  have hheader {arguments : Text} (h : Text.Tidy x arguments) (n : Option Int) :
      LinesTidy x [⟨n, c.margin ++ "get".toList ++ arguments ++ [':']⟩] := by
    simp [hmargin, h]
  refine (ht.part 1).bind fun second hsecond => .skip fun kind => Ensures.ite
    ((tidy_line hsecond).bind fun text htext => .skip fun n => ?_)
    ((ensures_ok (Q := (Text.Tidy x)) not_mem_nil).bind fun text htext => .skip fun n => ?_)
  all_goals exact Statement.tidy_under hc hfunctions (hheader htext n) (hstatements _) n

omit hfunctions in
theorem tidy_delegate (ht : t.Tidy x) : OutcomeTidy x (delegate t c) := by
  refine .skip fun n => (ht.word 0).bind fun left hleft =>
    (ht.word 2).bind fun right hright => ensures_ok ?_
  simp [tidy_margin hc, hleft, hright]

omit hc in
theorem keeps_format : StatementFormatter.Keeps x (format functions) := by
  intro t c ht hc
  refine .skip fun kind => ?_
  cases kind
  case propertyDelegateSet | propertyDelegateGet => exact tidy_delegate hc ht
  case propertyCustomGetter => exact tidy_getter hfunctions hc ht
  case propertyCustomSetter => exact tidy_setter hfunctions hc ht
  all_goals exact ensures_error

omit hfunctions hc in
theorem tidy_withComma (n : Option Int) (h : LinesTidy x lines) : LinesTidy x (withComma n lines) := by
  induction lines with
  | nil => exact h
  | cons line lines ih =>
    obtain ⟨hline, hlines⟩ := linesTidy_cons.mp h
    rw [withComma]
    split
    · simp [hline, hlines]
    · exact linesTidy_cons.mpr ⟨hline, ih hlines⟩

theorem tidy_bodyLines {parts : List Tree} (h : ∀ t ∈ parts, t.Tidy x) (previous : Option Int) :
    OutcomeTidy x (bodyLines functions parts previous c) := by
  have hchild : (c.child previous).settings.Tidy x := hc
  refine (keeps_block false (keeps_format hfunctions) (Statement.keeps_body hfunctions) h
    hchild).bind fun result hresult => ?_
  obtain ⟨lines, last⟩ := result
  dsimp only at hresult ⊢
  split
  · exact ensures_error
  · exact .skip fun _ => ensures_ok hresult
  · refine .skip fun _ => Ensures.ite ?_ (ensures_ok hresult)
    exact .skip fun n => ensures_ok (tidy_withComma n hresult)

omit hc in
theorem keeps_standalone : StatementFormatter.Keeps x (standalone functions) :=
  fun ht hc => .skip fun n => tidy_bodyLines hfunctions hc (fun _ hu => ht.child hu) n

theorem tidy_afterLine {property : Tree} (hproperty : property.Tidy x) (hline : Text.Tidy x line.text) :
    Ensures (afterLine functions property c line) (LinesTidy x) := by
  have hchildren : ∀ u ∈ property.children, u.Tidy x := fun u hu => hproperty.child hu
  have hheader : Text.Tidy x (line.text ++ [':']) := by simp [hline]
  unfold afterLine
  split
  · exact ensures_ok (linesTidy_cons.mpr ⟨hheader, linesTidy_nil⟩)
  · refine .skip fun n => (tidy_bodyLines hfunctions hc hchildren n).bind
      fun result hresult => ensures_ok ?_
    exact linesTidy_cons.mpr ⟨hheader, hresult⟩

end Property

/-! ## Statements of classes -/

namespace Declaration

variable {modifier : String}

variable {functions : BlockFormatter} (hfunctions : BlockFormatter.Keeps x functions) {c : Context}
  (hc : c.settings.Tidy x)

include hfunctions hc

theorem tidy_enumeration (ht : t.Tidy x) : OutcomeTidy x (enumeration functions t c) := by
  refine (ht.part 0).bind fun inner hinner => Ensures.ite
    ((hinner.word 0).bind fun name hname => (hinner.part _).bind fun list hlist =>
      Statement.tidy_around hc hfunctions ?_ not_mem_nil t hlist)
    ((hinner.part _).bind fun list hlist =>
      Statement.tidy_around hc hfunctions ?_ not_mem_nil t hlist)
  · simp [hname]
  · simp

theorem tidy_signal (ht : t.Tidy x) : OutcomeTidy x (signal functions t c) := by
  refine (ht.word 0).bind fun name hname => ?_
  have hhead : Text.Tidy x ("signal ".toList ++ name) := by simp [hname]
  have hbare (isBare : Bool) : OutcomeTidy x (if isBare then
      Statement.simple ("signal ".toList ++ name) t c
    else do Statement.around functions ("signal ".toList ++ name) [] t (← t.lastPart) c) :=
    Ensures.ite (Statement.tidy_simple hc hhead t) ((ht.part _).bind fun list hlist =>
      Statement.tidy_around hc hfunctions hhead not_mem_nil t hlist)
  exact Ensures.ite (.skip fun isBare => hbare isBare) (.skip fun _ => hbare _)

omit hfunctions hc in
theorem tidy_path (h : ∀ t ∈ ts, t.Tidy x) : Ensures (path ts) (Text.Tidy x) := by
  refine Ensures.ite (ensures_ok tidy_nil) ((Ensures.mapM fun t ht =>
    tidy_line (h t ht)).bind fun texts htexts => ensures_ok ?_)
  exact tidy_cons.mpr ⟨by simp, tidy_join (by simp) htexts⟩

omit hfunctions in
theorem tidy_extending (ht : t.Tidy x) : OutcomeTidy x (extending t c) := by
  refine (ht.part 0).bind fun base hbase => (tidy_line hbase).bind fun text htext =>
    (tidy_path fun u hu => ht.child (mem_of_mem_drop hu)).bind fun path hpath =>
    Statement.tidy_simple hc ?_ t
  simp [htext, hpath]

omit hfunctions in
theorem tidy_named (ht : t.Tidy x) : OutcomeTidy x (named t c) := by
  refine (ht.word 0).bind fun name hname => Statement.tidy_simple hc ?_ t
  simp [hname]

omit hfunctions in
theorem tidy_namedExtending (ht : t.Tidy x) : OutcomeTidy x (namedExtending t c) := by
  refine (ht.word 1).bind fun name hname => (ht.part 3).bind fun base hbase =>
    (tidy_line hbase).bind fun text htext =>
    (tidy_path fun u hu => ht.child (mem_of_mem_drop hu)).bind fun path hpath =>
    Statement.tidy_simple hc ?_ t
  simp [hname, htext, hpath]

theorem tidy_variableLines (hmodifier : Text.Tidy x modifier.toList) {statement : Tree}
    (hstatement : statement.Tidy x) :
    OutcomeTidy x (variableLines functions modifier statement c) := by
  refine (Statement.tidy_declared hc hfunctions hmodifier hstatement).bind fun result hresult =>
    (hstatement.part 0).bind fun t ht => ?_
  obtain ⟨lines, last⟩ := result
  refine Ensures.ite (ensures_ok hresult) ?_
  dsimp only at hresult ⊢
  split
  · exact ensures_error
  · rename_i line hline
    have hlast : Text.Tidy x line.text := hresult line (mem_of_getLast? hline)
    refine (ht.part _).bind fun property hproperty =>
      (Property.tidy_afterLine hfunctions hc hproperty hlast).bind fun more hmore => ensures_ok ?_
    exact linesTidy_append.mpr ⟨hresult.sublist (dropLast_sublist _), hmore⟩

theorem tidy_docstring (ht : t.Tidy x) : OutcomeTidy x (docstring functions t c) :=
  (ht.part 0).bind fun _ hinner =>
    Statement.tidy_around hc hfunctions tidy_nil tidy_nil t hinner

theorem tidy_functionHeader {stop : String} (hmodifier : Text.Tidy x modifier.toList)
    (hstop : Text.Tidy x stop.toList) (ht : t.Tidy x) :
    OutcomeTidy x (functionHeader functions modifier stop t c) := by
  refine (ht.word 0).bind fun name hname => ?_
  have hbefore : Text.Tidy x (modifier.toList ++ "func ".toList ++ name) := by
    simp [hmodifier, hname]
  refine Ensures.ite
    ((ht.word 2).bind fun result hresult => (ht.part 1).bind fun list hlist =>
      Statement.tidy_around hc hfunctions hbefore ?_ t hlist)
    ((ht.part 1).bind fun list hlist => Statement.tidy_around hc hfunctions hbefore ?_ t hlist)
  · simp [hresult, hstop]
  · exact hstop

theorem tidy_function (hmodifier : Text.Tidy x modifier.toList)
    (ht : t.Tidy x) : OutcomeTidy x (function functions modifier t c) :=
  (ht.part 0).bind fun _ hheader =>
    (tidy_functionHeader hfunctions hc hmodifier (by simp) hheader).bind fun _ hresult =>
    Statement.tidy_under hc hfunctions hresult (fun _ hu => ht.child (mem_of_mem_tail hu)) _

variable {classes : BlockFormatter} (hclasses : BlockFormatter.Keeps x classes)

include hclasses

omit hfunctions in
theorem tidy_innerClass (ht : t.Tidy x) : OutcomeTidy x (innerClass classes t c) := by
  refine .skip fun n => (ht.word 0).bind fun name hname =>
    Statement.tidy_under hc hclasses ?_ (fun u hu => ht.child (mem_of_mem_tail hu)) n
  simp [tidy_margin hc, hname]

omit hc in
theorem keeps_format : StatementFormatter.Keeps x (format functions classes) := by
  intro t c ht hc
  refine .skip fun kind => ?_
  cases kind
  case passStmt => exact Statement.tidy_simple hc (by simp) t
  case enumStmt => exact tidy_enumeration hfunctions hc ht
  case signalStmt => exact tidy_signal hfunctions hc ht
  case extendsStmt => exact tidy_extending hc ht
  case classnameStmt => exact tidy_named hc ht
  case classnameExtendsStmt => exact tidy_namedExtending hc ht
  case classVarStmt => exact tidy_variableLines hfunctions hc (by simp) ht
  case staticClassVarStmt =>
    exact (ht.part 0).bind fun _ hu => tidy_variableLines hfunctions hc (by simp) hu
  case constStmt => exact Statement.tidy_constant hc hfunctions ht
  case docstrStmt => exact tidy_docstring hfunctions hc ht
  case classDef => exact tidy_innerClass hc hclasses ht
  case funcDef => exact tidy_function hfunctions hc (by simp) ht
  case staticFuncDef =>
    exact (ht.part 0).bind fun _ hu => tidy_function hfunctions hc (by simp) hu
  case abstractFuncDef =>
    exact (ht.part 0).bind fun _ hu => tidy_functionHeader hfunctions hc (by simp) (by simp) hu
  case annot => exact Annotations.tidy_standaloneLines (Statement.keeps_body hfunctions) hc ht
  case propertyBodyDef => exact Property.keeps_standalone hfunctions ht hc
  all_goals exact ensures_error

end Declaration

theorem keeps_classBlock {functions : BlockFormatter}
    (hfunctions : BlockFormatter.Keeps x functions) (depth : Nat) :
    BlockFormatter.Keeps x (classBlock functions depth) := by
  induction depth with
  | zero => exact fun _ _ => ensures_error
  | succ depth ih =>
    exact keeps_block false (Declaration.keeps_format hfunctions ih)
      (Statement.keeps_body hfunctions)

/-! ## Comments inside statements -/

namespace Attach

theorem tidy_presentOnes {comments : List (Option Text)} (h : CommentsTidy x comments) :
    ∀ comment ∈ presentOnes comments, Text.Tidy x comment := by
  intro comment hcomment
  obtain ⟨entry, hentry, rfl⟩ := mem_filterMap.mp hcomment
  exact h comment hentry

theorem tidy_inlineFromEnd {comments : List (Option Text)} (hcomments : CommentsTidy x comments)
    (hlines : LinesTidy x lines) :
    LinesTidy x (inlineFromEnd comments lines) := by
  induction lines generalizing comments with
  | nil => exact hlines
  | cons line lines ih =>
    obtain ⟨hline, hrest⟩ := linesTidy_cons.mp hlines
    obtain ⟨_ | n, text⟩ := line
    · exact linesTidy_cons.mpr ⟨hline, ih hcomments hrest⟩
    · refine linesTidy_cons.mpr ⟨?_, ih (hcomments.between _ _) hrest⟩
      exact tidy_join (by simp [gap])
        (forall_mem_cons.mpr ⟨hline, tidy_presentOnes (hcomments.between _ _)⟩)

end Attach

/-! ## Files -/

theorem LinesTidy.reverse (h : LinesTidy x lines) : LinesTidy x lines.reverse :=
  fun line hline => h line (mem_reverse.mp hline)

theorem tidy_withComments {settings : Settings} (hsettings : settings.Tidy x)
    (hlines : LinesTidy x lines) : LinesTidy x (withComments settings lines) := by
  have hall : LinesTidy x (lines ++ [⟨none, []⟩]) := by simp [hlines]
  have hinline := (Attach.tidy_inlineFromEnd hsettings.inline hall.reverse).reverse
  have hunit : x.char ≠ settings.unitText.headD '\t' := by
    cases hunit : settings.unitText with
    | nil => simp
    | cons c rest => exact (tidy_cons.mp (hunit ▸ hsettings.unitText)).1
  intro line hline
  rcases Attach.exists_of_mem_standalone hline with hline | ⟨margin, comment, htext, hcomment, hmargin⟩
  · exact hinline line hline
  · rw [htext]
    exact tidy_append.mpr ⟨fun h => hunit (hmargin _ h), hsettings.standalone comment hcomment⟩

theorem tidy_byLine (hcomments : ∀ token ∈ comments, Text.Tidy x token.content) (wanted : Text → Bool)
    (code : Text) : CommentsTidy x (Comments.byLine wanted code comments) := by
  intro comment hcomment
  obtain ⟨token, htoken, rfl⟩ := Comments.exists_of_mem_byLine hcomment
  exact (hcomments token htoken).sublist (trimEnd_sublist _)

theorem tidy_settings (style : Style) (code : Text)
    (hcomments : ∀ token ∈ comments, Text.Tidy x token.content) :
    Ensures (settings style code comments) (Settings.Tidy x) := by
  have hunit : Ensures style.unit fun unit => Text.Tidy x unit.2 := by
    unfold Style.unit
    split
    · exact ensures_ok (by simp)
    · exact ensures_error
    · exact ensures_ok (by simp [Text.Tidy, mem_replicate])
    · exact ensures_error
  exact hunit.bind fun unit hunit => ensures_ok
    ⟨hunit, tidy_byLine hcomments _ code, tidy_byLine hcomments (fun t => !allBlank t) code⟩

theorem tidy_fileLines {settings : Settings} (hsettings : settings.Tidy x)
    (ht : t.Tidy x) : Ensures (fileLines settings t) (LinesTidy x) :=
  (keeps_classBlock (keeps_functionBlock _) _ (c := ⟨settings, 0, some 0⟩)
    (fun _ hu => ht.child hu) hsettings).bind fun _ hresult => ensures_ok hresult

theorem tidy_ofTree (style : Style) (code : Text) (ht : t.Tidy x)
    (hcomments : ∀ token ∈ comments, Text.Tidy x token.content) :
    Ensures (ofTree style code t comments) fun result =>
      ∃ lines : List Text, result = join ['\n'] lines ∧ ∀ line ∈ lines, Text.Tidy x line := by
  refine (tidy_settings style code hcomments).bind fun settings hsettings =>
    (tidy_fileLines hsettings ht).bind fun lines hlines =>
    ensures_ok ⟨_, rfl, fun text htext => ?_⟩
  obtain ⟨line, hline, rfl⟩ := mem_map.mp htext
  exact tidy_withComments hsettings hlines line hline

end Format

/-! ## Sources -/

namespace Comments

theorem divides_skipped : Reader.Divides skipped :=
  (Lexeme.divides_reader .longString).orElse ((Lexeme.divides_reader .regularString).orElse
    ((Reader.divides_char _).seq (Reader.divides_run _)))

theorem content_of_mem_readUpTo {bound : Nat} {c : Cursor} {found tokens : List Token}
    (h : readUpTo text bound c found = .ok tokens) {token : Token} (htoken : token ∈ tokens) :
    token ∈ found ∨ token.content <:+: c.rest := by
  induction bound generalizing c found with
  | zero =>
    cases h
    exact .inl (mem_reverse.mp htoken)
  | succ bound ih =>
    simp only [readUpTo] at h
    split at h
    · cases h
      exact .inl (mem_reverse.mp htoken)
    · split at h
      · rename_i taken rest hskipped
        refine (ih h).imp_right fun hpiece => hpiece.trans ?_
        exact ⟨taken, [], by simp [Cursor.past, divides_skipped hskipped]⟩
      · split at h
        · rename_i taken rest hcomment
          have hrest := Lexeme.divides_comment hcomment
          rcases ih h with hfound | hpiece
          · rcases mem_cons.mp hfound with rfl | hfound
            · exact .inr ⟨[], rest, hrest.symm⟩
            · exact .inl hfound
          · exact .inr (hpiece.trans ⟨taken, [], by simp [Cursor.past, hrest]⟩)
        · cases h

end Comments

theorem tidy_of_format {style : Format.Style} {code result : Text}
    (hcode : Text.Tidy .carriageReturn code) (h : format style code = .ok result) :
    Text.Tidy .carriageReturn result := by
  obtain ⟨t, comments, htree, hcomments, hresult⟩ := exists_of_format h
  have htokens : t.Tidy .carriageReturn := by
    refine Parse.holds_of_readUpTo (P := fun token => Text.Tidy _ token.content) ?_ ?_ ?_ htree
    · intro token htoken
      rw [htoken]
      exact tidy_of_isWritten (by decide)
    · intro token htoken
      refine Text.Tidy.sublist (tidy_append.mpr ⟨hcode, ?_⟩) htoken.sublist
      exact (by decide : '\r' ∉ ['\n'])
    · exact fun frame hframe => absurd hframe not_mem_nil
  have htidy : ∀ token ∈ comments, Text.Tidy .carriageReturn token.content := fun token htoken =>
    hcode.sublist
      ((Comments.content_of_mem_readUpTo hcomments htoken).resolve_left not_mem_nil).sublist
  obtain ⟨lines, rfl, hlines⟩ := Format.tidy_ofTree style code htokens htidy result hresult
  exact tidy_join (by decide : '\r' ∉ ['\n']) hlines

end GDWorkbench

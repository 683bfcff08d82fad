import GDWorkbench.Print
import GDWorkbench.Proofs.Results
import GDWorkbench.Proofs.Text

/-!
Characters in what is printed. Printing writes visible characters and blanks by itself, so that any other
character, such as a carriage return, is in a text that is printed only if it is in the tree.
-/

namespace GDWorkbench

open List

variable {t : Text}

namespace Text

/-- The characters that printing and the layout write by themselves inside of lines. -/
@[simp]
def isWritten (c : Char) : Bool :=
  c = '\t' || (' ' ≤ c && c ≤ '~')

/-- A character that is written only where it was found. -/
structure Foreign where
  char : Char
  foreign : isWritten char = false

namespace Foreign

def carriageReturn : Foreign := ⟨'\r', by decide⟩

def lineFeed : Foreign := ⟨'\n', by decide⟩

end Foreign

@[simp]
theorem Foreign.ne (x : Foreign) {c : Char} (h : isWritten c) : x.char ≠ c := by
  rintro rfl
  exact Bool.false_ne_true (x.foreign.symm.trans h)

/-- Without some foreign character. -/
def Tidy (x : Foreign) (t : Text) : Prop :=
  x.char ∉ t

variable {x : Foreign} {ts : List Text}

@[simp]
theorem tidy_nil : Tidy x [] :=
  not_mem_nil

@[simp]
theorem tidy_cons {c : Char} : Tidy x (c :: t) ↔ x.char ≠ c ∧ Tidy x t := by
  simp [Tidy]

theorem tidy_of_isWritten (h : t.all isWritten) : Tidy x t :=
  fun hx => x.ne (all_eq_true.mp h x.char hx) rfl

@[simp]
theorem tidy_append {u : Text} : Tidy x (t ++ u) ↔ Tidy x t ∧ Tidy x u := by
  simp [Tidy]

theorem Tidy.sublist {u : Text} (h : Tidy x u) (htu : t.Sublist u) : Tidy x t :=
  fun hmem => h (htu.subset hmem)

theorem trimEnd_sublist (t : Text) : (Text.trimEnd t).Sublist t := by
  rw [← reverse_sublist, Text.trimEnd, reverse_reverse]
  exact dropWhile_sublist _

theorem trim_sublist (t : Text) : (Text.trim t).Sublist t :=
  (trimEnd_sublist _).trans (dropWhile_sublist _)

theorem sublist_of_mem_lines {line : Text} (h : line ∈ Text.lines t) : line.Sublist t := by
  fun_induction Text.lines t generalizing line with
  | case1 => cases h
  | case2 rest ih =>
    rcases mem_cons.mp h with rfl | h
    · exact nil_sublist _
    · exact ((ih h).cons _).cons _
  | case3 c rest _ _ ih =>
    rcases mem_cons.mp h with rfl | h
    · exact nil_sublist _
    · exact (ih h).cons _
  | case4 c rest _ _ hnil ih =>
    obtain rfl := mem_singleton.mp h
    exact (nil_sublist rest).cons_cons c
  | case5 c rest _ _ first more hlines ih =>
    rw [hlines] at ih
    rcases mem_cons.mp h with rfl | h
    · exact (ih mem_cons_self).cons_cons c
    · exact (ih (mem_cons_of_mem first h)).cons c

theorem tidy_flatten (h : ∀ t ∈ ts, Tidy x t) : Tidy x ts.flatten := by
  simpa [Tidy] using h

theorem tidy_join {separator : Text} (hseparator : Tidy x separator)
    (h : ∀ t ∈ ts, Tidy x t) : Tidy x (Text.join separator ts) := by
  induction ts with
  | nil => simp [Text.join]
  | cons t ts ih =>
    obtain ⟨ht, hts⟩ := forall_mem_cons.mp h
    cases ts with
    | nil => simpa [Text.join] using ht
    | cons u ts =>
      rw [Text.join, intercalate_cons_cons]
      exact tidy_append.mpr ⟨tidy_append.mpr ⟨ht, hseparator⟩, ih hts⟩

theorem Tidy.replace {new : Text} (h : Tidy x t) (hnew : Tidy x new) (part : Text) :
    Tidy x (Text.replace part new t) := by
  have hfrom (skip : Nat) : Tidy x (Text.replaceFrom part new skip t) := by
    induction t generalizing skip with
    | nil => simp [Text.replaceFrom]
    | cons c t ih =>
      obtain ⟨hc, ht⟩ := tidy_cons.mp h
      cases skip with
      | succ skip => exact ih ht skip
      | zero =>
        rw [Text.replaceFrom]
        split
        · exact tidy_append.mpr ⟨hnew, ih ht _⟩
        · exact tidy_cons.mpr ⟨hc, ih ht 0⟩
  unfold Text.replace
  split
  · exact h
  · exact hfrom 0

end Text

open Text (tidy_nil tidy_cons tidy_append tidy_join)

variable {x : Text.Foreign}

/-! ## Trees -/

section Print

def Tree.Tidy (x : Text.Foreign) (t : Tree) : Prop :=
  ∀ token ∈ t.tokens, Text.Tidy x token.content

namespace Tree

theorem Tidy.child {t u : Tree} (h : t.Tidy x) (hu : u ∈ t.children) : u.Tidy x := by
  have hall (ts : List Tree) (hts : u ∈ ts) {token : Token} (htoken : token ∈ u.tokens) :
      token ∈ tokensAll ts := by
    induction ts with
    | nil => cases hts
    | cons t ts ih =>
      rw [tokensAll, mem_append]
      rcases mem_cons.mp hts with rfl | hts
      · exact .inl htoken
      · exact .inr (ih hts)
  cases t with
  | token token => cases hu
  | node kind span children => exact fun token htoken => h token (hall children hu htoken)

theorem Tidy.tokenText {t : Tree} (h : t.Tidy x) : Ensures t.tokenText (Text.Tidy x) := by
  cases t with
  | token token => exact ensures_ok (h token mem_cons_self)
  | node => exact ensures_error

theorem Tidy.tidy_getD_tokenText {t : Tree} (h : t.Tidy x) :
    Text.Tidy x (t.tokenText.toOption.getD []) := by
  cases htext : t.tokenText with
  | error f => exact tidy_nil
  | ok text => exact h.tokenText text htext

theorem Tidy.part {t : Tree} (h : t.Tidy x) (i : Nat) : Ensures (t.part i) (Tree.Tidy x) :=
  fun _ hu => h.child (mem_of_part hu)

theorem Tidy.word {t : Tree} (h : t.Tidy x) (i : Nat) : Ensures (t.word i) (Text.Tidy x) :=
  (h.part i).bind fun _ hu => hu.tokenText

end Tree

/-! ## Parts -/

/-- The texts of a tree have the property where there are some. -/
structure Printed.Tidy (x : Text.Foreign) (p : Printed) : Prop where
  whole : Ensures p.whole (Text.Tidy x)
  bare : Ensures p.bare (Text.Tidy x)
  statement : Ensures p.statement (Text.Tidy x)

def Parts.Tidy (x : Text.Foreign) (ps : Parts) : Prop :=
  ∀ p ∈ ps, p.1.Tidy x ∧ p.2.Tidy x

namespace Parts

variable {ps : Parts}

theorem Tidy.sublist {qs : Parts} (h : Parts.Tidy x ps) (hqs : qs.Sublist ps) : Parts.Tidy x qs :=
  fun _ hp => h _ (hqs.subset hp)

theorem Tidy.at? (h : Parts.Tidy x ps) (i : Nat) :
    Ensures (ps.at? i) fun p => p.1.Tidy x ∧ p.2.Tidy x := by
  rw [Parts.at?]
  split
  · rename_i hp
    exact ensures_ok (h _ (mem_of_getElem? hp))
  · exact ensures_error

theorem Tidy.whole (h : Parts.Tidy x ps) (i : Nat) : Ensures (Parts.whole ps i) (Text.Tidy x) :=
  (h.at? i).bind fun _ hp => hp.2.whole

theorem Tidy.bare (h : Parts.Tidy x ps) (i : Nat) : Ensures (Parts.bare ps i) (Text.Tidy x) :=
  (h.at? i).bind fun _ hp => hp.2.bare

theorem Tidy.tokenText (h : Parts.Tidy x ps) (i : Nat) : Ensures (Parts.tokenText ps i) (Text.Tidy x) :=
  (h.at? i).bind fun _ hp => hp.1.tokenText

theorem Tidy.wholes (h : Parts.Tidy x ps) :
    Ensures (Parts.wholes ps) fun ts => ∀ t ∈ ts, Text.Tidy x t := by
  induction ps with
  | nil => exact ensures_ok (by simp)
  | cons p ps ih =>
    obtain ⟨hp, hps⟩ := forall_mem_cons.mp h
    refine hp.2.whole.bind fun text htext => (ih hps).bind fun texts htexts => ensures_ok ?_
    exact forall_mem_cons.mpr ⟨htext, htexts⟩

theorem Tidy.bares (h : Parts.Tidy x ps) :
    Ensures (Parts.bares ps) fun ts => ∀ t ∈ ts, Text.Tidy x t := by
  induction ps with
  | nil => exact ensures_ok (by simp)
  | cons p ps ih =>
    obtain ⟨hp, hps⟩ := forall_mem_cons.mp h
    refine hp.2.bare.bind fun text htext => (ih hps).bind fun texts htexts => ensures_ok ?_
    exact forall_mem_cons.mpr ⟨htext, htexts⟩

end Parts

/-! ## Tokens -/

namespace StringLiteral

theorem tidy_inner (h : Text.Tidy x t) : Text.Tidy x (inner t) :=
  h.sublist ((dropLast_sublist _).trans (tail_sublist t))

theorem tidy_swapMarks (h : Text.Tidy x t) {old new : Char} (hold : x.char ≠ old)
    (hnew : x.char ≠ new) : Text.Tidy x (swapMarks old new t) :=
  (h.replace (by simp [hold]) _).replace (by simp [hnew]) _

theorem tidy_short (h : Text.Tidy x t) : Text.Tidy x (short t) := by
  have hinner := tidy_inner h
  have hmarks : x.char ≠ '"' ∧ x.char ≠ '\'' := ⟨by simp, by simp⟩
  have hmark : x.char ≠ (preferredMark (inner t)) := by
    unfold preferredMark
    split
    · exact hmarks.1
    · exact hmarks.2
  have htext : Text.Tidy x (if preferredMark (inner t) = '"' && Text.startsWith t ['\''] then
      swapMarks '\'' '"' (inner t)
    else if preferredMark (inner t) = '\'' && Text.startsWith t ['"'] then
      swapMarks '"' '\'' (inner t)
    else inner t) := by
    split
    · exact tidy_swapMarks hinner hmarks.2 hmarks.1
    · split
      · exact tidy_swapMarks hinner hmarks.1 hmarks.2
      · exact hinner
  exact tidy_append.mpr ⟨tidy_cons.mpr ⟨hmark, htext⟩, tidy_cons.mpr ⟨hmark, not_mem_nil⟩⟩

theorem tidy_long (h : Text.Tidy x t) : Text.Tidy x (long t) := by
  unfold long
  split
  · exact tidy_short (tidy_inner (tidy_inner h))
  · exact h

theorem tidy_normal (terminal : Terminal) (h : Text.Tidy x t) : Text.Tidy x (normal terminal t) := by
  have htail : Text.Tidy x t.tail := h.sublist (tail_sublist t)
  unfold normal
  split
  · exact tidy_long h
  · exact tidy_long htail
  · exact tidy_short h
  · exact tidy_short htail
  · exact h

end StringLiteral

/-! ## Nodes -/

namespace Print

variable {ps : Parts} (h : Parts.Tidy x ps) {left right : String}

@[simp]
theorem tidy_enclosed : Text.Tidy x (enclosed left t right) ↔
    (Text.Tidy x left.toList ∧ Text.Tidy x t) ∧ Text.Tidy x right.toList := by
  rw [enclosed, tidy_append, tidy_append]

theorem tidy_comma : Text.Tidy x comma := by
  simp [comma]

include h

theorem tidy_operations : Ensures (operations ps) (Text.Tidy x) := by
  induction ps using operations.induct with
  | case1 first operator second operand rest ih =>
    obtain ⟨⟨-, hoperator⟩, hlater⟩ := forall_mem_cons.mp h
    obtain ⟨⟨-, hoperand⟩, hrest⟩ := forall_mem_cons.mp hlater
    refine hoperator.whole.bind fun sign hsign => hoperand.whole.bind fun text htext =>
      (ih hrest).bind fun later hlater => ensures_ok ?_
    split <;> simp [hsign, htext, hlater]
  | case2 ps hnone =>
    unfold operations
    split
    · exact absurd rfl (hnone _ _ _ _ _)
    · exact ensures_ok tidy_nil

theorem tidy_chain : Ensures (chain ps) (Text.Tidy x) := by
  refine (tidy_operations (h.sublist (tail_sublist ps))).bind fun later hlater =>
    (h.whole 0).bind fun first hfirst => ensures_ok ?_
  simp [hfirst, hlater]

theorem tidy_arguments : Ensures (arguments ps) (Text.Tidy x) := by
  refine (h.sublist filter_sublist).bares.bind fun texts htexts => ensures_ok ?_
  exact tidy_join tidy_comma htexts

theorem tidy_call : Ensures (call ps) (Text.Tidy x) := by
  refine (h.whole 0).bind fun callee hcallee =>
    (tidy_arguments (h.sublist (tail_sublist ps))).bind fun text htext => ensures_ok ?_
  simp [hcallee, htext]

theorem tidy_subscript : Ensures (subscript ps) (Text.Tidy x) := by
  refine (h.whole 0).bind fun base hbase => (h.bare 1).bind fun index hindex => ensures_ok ?_
  simp [hbase, hindex]

theorem tidy_elements (hleft : Text.Tidy x left.toList)
    (hright : Text.Tidy x right.toList) :
    Ensures (elements left right ps) (Text.Tidy x) := by
  refine (h.sublist filter_sublist).bares.bind fun texts htexts => ensures_ok ?_
  refine tidy_enclosed.mpr ⟨⟨hleft, tidy_append.mpr ⟨tidy_join tidy_comma htexts, ?_⟩⟩, hright⟩
  split <;> simp

theorem tidy_entries (hleft : Text.Tidy x left.toList)
    (hright : Text.Tidy x right.toList) :
    Ensures (entries left right ps) (Text.Tidy x) := by
  refine h.wholes.bind fun texts htexts => ensures_ok ?_
  exact tidy_enclosed.mpr ⟨⟨hleft, tidy_join tidy_comma htexts⟩, hright⟩

theorem tidy_negation : Ensures (negation ps) (Text.Tidy x) := by
  refine (h.whole 0).bind fun sign hsign => (h.tokenText 0).bind fun word _ =>
    (h.whole 1).bind fun text htext => ensures_ok ?_
  split <;> simp [hsign, htext]

theorem tidy_awaited : Ensures (awaited ps) (Text.Tidy x) := by
  have hwords : ∀ p ∈ ps.dropLast, Ensures p.1.tokenText (Text.Tidy x) :=
    fun p hp => (h p ((dropLast_sublist _).subset hp)).1.tokenText
  refine (Ensures.mapM hwords).bind fun words hwords => (h.whole _).bind fun text htext =>
    ensures_ok ?_
  have hjoined : Text.Tidy x (Text.join [' '] words) := tidy_join (by simp) hwords
  simp [hjoined, htext]

theorem tidy_optionalBare {introduction : String}
    (hintroduction : Text.Tidy x introduction.toList) (i : Nat) :
    Ensures (optionalBare introduction ps i) (Text.Tidy x) := by
  unfold optionalBare
  split
  · refine (h.bare i).bind fun text htext => ensures_ok ?_
    exact tidy_append.mpr ⟨hintroduction, htext⟩
  · exact ensures_ok tidy_nil

theorem tidy_lambdaHeader : Ensures (lambdaHeader ps) (Text.Tidy x) := by
  refine (h.at? 0).bind fun first hfirst => (h.whole _).bind fun list hlist => ?_
  have hname : Text.Tidy x
      (if !first.1.isNode then ' ' :: first.1.tokenText.toOption.getD [] else []) := by
    split
    · exact tidy_cons.mpr ⟨by simp, hfirst.1.tidy_getD_tokenText⟩
    · exact tidy_nil
  have hfunc : Text.Tidy x "func".toList := by simp
  have hcolon : Text.Tidy x [':'] := by simp
  refine Ensures.ite ((h.tokenText _).bind fun hint hhint => ensures_ok ?_) (ensures_ok ?_)
  · have harrow : Text.Tidy x " -> ".toList := by simp
    simp only [tidy_append, hfunc, hname, hlist, harrow, hhint, hcolon, and_self]
  · simp only [tidy_append, hfunc, hname, hlist, tidy_nil, hcolon, and_self]

theorem tidy_lambda : Ensures (lambda ps) (Text.Tidy x) := by
  unfold lambda
  split
  · rename_i header body
    obtain ⟨hheader, hbody⟩ := forall_mem_cons.mp h
    refine hheader.2.whole.bind fun text htext =>
      (forall_mem_singleton.mp hbody).2.statement.bind fun statement hstatement =>
      ensures_ok ?_
    simp [htext, hstatement]
  · exact ensures_error

omit h in
theorem everyOther_sublist (ps : Parts) : (everyOther ps).Sublist ps := by
  induction ps using everyOther.induct with
  | case1 p q rest ih => exact (ih.cons _).cons_cons _
  | case2 ps hnone =>
    unfold everyOther
    split
    · exact absurd rfl (hnone _ _ _)
    · exact Sublist.refl _

theorem tidy_annot : Ensures (whole .annot ps) (Text.Tidy x) := by
  refine (h.whole 0).bind fun name hname =>
    Ensures.ite ((h.whole 1).bind fun text htext => ensures_ok ?_) (ensures_ok ?_)
  · simp [hname, htext]
  · simp [hname]

theorem tidy_whole (kind : Kind) : Ensures (whole kind ps) (Text.Tidy x) := by
  have hsigned {sign : Char} (hsign : x.char ≠ sign) (i : Nat) :
      Ensures (do return sign :: (← ps.whole i)) (Text.Tidy x) :=
    (h.whole i).bind fun text htext => ensures_ok (tidy_cons.mpr ⟨hsign, htext⟩)
  have hwords : ∀ p ∈ ps, Ensures p.1.tokenText (Text.Tidy x) := fun p hp => (h p hp).1.tokenText
  cases kind
  case expr => exact h.bare 0
  case aslessActualNotTest | notPattern => exact tidy_negation h
  case aslessActualNegExpr | negPattern => exact hsigned (by simp) 1
  case aslessActualBitwNot | bitwNotPattern => exact hsigned (by simp) 1
  case awaitExpr => exact tidy_awaited h
  case standaloneCall | getattrCall => exact tidy_call h
  case getattr | uniqueNodePath =>
    exact h.wholes.bind fun texts htexts => ensures_ok (Text.tidy_flatten htexts)
  case subscrExpr => exact tidy_subscript h
  case array | arrayPattern | annotationArgs => exact tidy_elements h (by simp) (by simp)
  case dict | dictPattern | funcArgs | signalArgs | listPattern =>
    exact tidy_entries h (by simp) (by simp)
  case enumBody =>
    exact Ensures.ite (ensures_ok (by simp)) (tidy_entries h (by simp) (by simp))
  case cDictElement | eqDictElement =>
    refine (h.bare 0).bind fun key hkey => (h.bare 1).bind fun value hvalue => ensures_ok ?_
    simp [hkey, hvalue]
  case kvPairPattern =>
    refine (h.whole 0).bind fun key hkey => (h.whole 1).bind fun value hvalue => ensures_ok ?_
    simp [hkey, hvalue]
  case string => exact h.whole 0
  case rawString | getNode | nodePath | stringName => exact hsigned (by simp) 0
  case path =>
    exact (Ensures.mapM hwords).bind fun texts htexts => ensures_ok (Text.tidy_flatten htexts)
  case lambda => exact tidy_lambda h
  case lambdaHeader => exact tidy_lambdaHeader h
  case funcArgVariadic | varCapturePattern =>
    refine (h.whole 0).bind fun text htext => ensures_ok ?_
    simp [htext]
  case funcArgRegular =>
    refine (h.tokenText 0).bind fun name hname => (tidy_optionalBare h (by simp) 1).bind
      fun value hvalue => ensures_ok ?_
    simp [hname, hvalue]
  case funcArgInf =>
    refine (h.tokenText 0).bind fun name hname => (h.bare 1).bind fun value hvalue => ensures_ok ?_
    simp [hname, hvalue]
  case funcArgTyped =>
    refine (h.tokenText 0).bind fun name hname => (h.tokenText 1).bind fun type htype =>
      (tidy_optionalBare h (by simp) 2).bind fun value hvalue => ensures_ok ?_
    simp [hname, htype, hvalue]
  case enumElement =>
    refine (h.bare 0).bind fun name hname => (tidy_optionalBare h (by simp) 1).bind
      fun value hvalue => ensures_ok ?_
    simp [hname, hvalue]
  case signalArgRegular => exact h.tokenText 0
  case signalArgTyped =>
    refine (h.tokenText 0).bind fun name hname => (h.tokenText 1).bind fun type htype =>
      ensures_ok ?_
    simp [hname, htype]
  case annot => exact tidy_annot h
  case attrPattern =>
    refine (h.sublist (everyOther_sublist ps)).wholes.bind fun texts htexts => ensures_ok ?_
    exact tidy_join (by simp) htexts
  case callPattern =>
    refine (h.whole 0).bind fun callee hcallee => (h.whole 1).bind fun text htext => ensures_ok ?_
    simp [hcallee, htext]
  case parPattern =>
    exact (h.whole 0).bind fun text htext =>
      ensures_ok (by simp [htext])
  case notInOp | trailingComma | propertyCustomGetterArgs | etcPattern | wildcardPattern =>
    exact ensures_ok (by simp)
  -- What is left are chains of operators, and nodes that are printed nowhere.
  all_goals first | exact tidy_chain h | exact ensures_error

theorem tidy_declaration {word sign : String} (hword : Text.Tidy x word.toList)
    (hsign : Text.Tidy x sign.toList) (value : Nat) :
    Ensures (declaration word ps sign value) (Text.Tidy x) := by
  refine (h.tokenText 0).bind fun name hname => (h.bare value).bind fun text htext => ensures_ok ?_
  simp [hname, htext, hword, hsign]

theorem tidy_typedDeclaration {word : String} (hword : Text.Tidy x word.toList) :
    Ensures (typedDeclaration word ps) (Text.Tidy x) := by
  refine (h.tokenText 0).bind fun name hname => (h.tokenText 1).bind fun type htype =>
    (h.bare 2).bind fun text htext => ensures_ok ?_
  simp [hname, htype, htext, hword]

theorem tidy_statement (kind : Kind) : Ensures (statement kind ps) (Text.Tidy x) := by
  cases kind
  case passStmt | breakpointStmt => exact ensures_ok (by simp)
  case funcVarStmt | constStmt => exact (h.at? 0).bind fun _ hp => hp.2.statement
  case exprStmt => exact h.whole 0
  case returnStmt =>
    refine (h.bare 0).bind fun text htext => ensures_ok ?_
    simp [htext]
  case funcVarEmpty =>
    refine (h.tokenText 0).bind fun name hname => ensures_ok ?_
    simp [hname]
  case funcVarAssigned | funcVarInf | funcVarTyped | constAssigned | constInf =>
    exact tidy_declaration h (by simp) (by simp) 1
  case funcVarTypedAssgnd | constTypedAssigned => exact tidy_typedDeclaration h (by simp)
  all_goals exact ensures_error

theorem tidy_node (kind : Kind) : Printed.Tidy x (node kind ps) := by
  by_cases hkind : kind = .parExpr
  · subst hkind
    refine ⟨fun text htext => ?_, h.bare 0, ensures_error⟩
    cases hbare : ps.bare 0 with
    | error f => simp [node, hbare, Except.map] at htext
    | ok bare =>
      obtain rfl : enclosed "(" bare ")" = text := by
        simpa [node, hbare, Except.map] using htext
      simp [h.bare 0 bare hbare]
  · have hnode : node kind ps = ⟨whole kind ps, whole kind ps, statement kind ps⟩ := by
      unfold node
      split
      · exact absurd rfl hkind
      · rfl
    rw [hnode]
    exact ⟨tidy_whole h kind, tidy_whole h kind, tidy_statement h kind⟩

end Print

/-! ## Trees -/

namespace Tree

mutual

theorem tidy_print (t : Tree) (h : t.Tidy x) : Printed.Tidy x t.print := by
  cases t with
  | token token =>
    have htext := StringLiteral.tidy_normal token.terminal (h token mem_cons_self)
    exact ⟨ensures_ok htext, ensures_ok htext, ensures_error⟩
  | node kind span children =>
    exact Print.tidy_node (tidy_printAll children fun t ht => h.child ht) kind

theorem tidy_printAll (ts : List Tree) (h : ∀ t ∈ ts, t.Tidy x) : Parts.Tidy x (printAll ts) := by
  cases ts with
  | nil => exact forall_mem_nil _
  | cons t ts =>
    obtain ⟨ht, hts⟩ := forall_mem_cons.mp h
    exact forall_mem_cons.mpr ⟨⟨ht, tidy_print t ht⟩, tidy_printAll ts hts⟩

end

theorem tidy_line {t : Tree} (h : t.Tidy x) : Ensures t.line (Text.Tidy x) :=
  (tidy_print t h).whole

theorem tidy_bareLine {t : Tree} (h : t.Tidy x) : Ensures t.bareLine (Text.Tidy x) :=
  (tidy_print t h).bare

end Tree

end Print

end GDWorkbench

import GDWorkbench.Proofs.Comments.Division
import GDWorkbench.Proofs.Layout.Kept
import GDWorkbench.Proofs.Parse.Frames

/-!
Gathering comments and parsing agree on where comments are. The scanner of the parser divides a text
into pieces, and each of them is a string, or plain, or made of line ends and comments. So reading a text
from its beginning to its end divides it, and gathering the comments finds those of that division. The
strings of the division are in the tree, since no production drops a string.
-/

namespace GDWorkbench

open List Token Comments.StringAt GDWorkbench.Tree

variable {t : Terminal} {tokens : List Token}

def Terminal.isString : Terminal → Bool
  | .longString | .regularString | .longRawString | .rawString => true
  | _ => false

def Token.isString (t : Token) : Bool :=
  t.terminal.isString

def Tree.strings (t : Tree) : List Token :=
  t.tokens.filter isString

open Comments (Division StringAt isPlain)

theorem Comments.Division.plain_append {start : Nat} {before rest : Text} {strings comments : List Part}
    (hbefore : ∀ c ∈ before, isPlain c)
    (h : Division (start + before.length) rest strings comments) :
    Division start (before ++ rest) strings comments := by
  induction before generalizing start with
  | nil => exact h
  | cons c before ih =>
    obtain ⟨hc, hbefore⟩ := forall_mem_cons.mp hbefore
    refine .plain hc (ih hbefore ?_)
    rwa [Nat.add_assoc, Nat.add_comm 1, ← length_cons]

namespace Reader

/-- What is read adds comments to a division at most, and no strings. -/
def Neutral (a : Reader) : Prop :=
  ∀ ⦃text taken rest : Text⦄, a text = some (taken, rest) →
    ∀ ⦃start : Nat⦄ ⦃strings comments : List Part⦄,
      Division (start + taken.length) rest strings comments →
        ∃ comments, Division start text strings comments

theorem neutral_of_isPlain {a : Reader} (hdivides : Divides a)
    (hplain : ∀ ⦃text taken rest : Text⦄, a text = some (taken, rest) →
      ∀ c ∈ taken, isPlain c) : Neutral a := by
  intro text taken rest h start strings comments hdivision
  rw [hdivides h]
  exact ⟨comments, hdivision.plain_append (hplain h)⟩

/-- A test that fails on the three characters which are not plain. -/
theorem isPlain_of_fails {p : Char → Bool} (hhash : p '#' = false) (hdouble : p '"' = false)
    (hsingle : p '\'' = false) {c : Char} (h : p c) : isPlain c := by
  simp only [isPlain, Bool.and_eq_true, bne_iff_ne]
  refine ⟨⟨?_, ?_⟩, ?_⟩ <;> rintro rfl
  · rw [hhash] at h
    cases h
  · rw [hdouble] at h
    cases h
  · rw [hsingle] at h
    cases h

section Tests

variable {p : Char → Bool} (hhash : p '#' = false) (hdouble : p '"' = false) (hsingle : p '\'' = false)

include hhash hdouble hsingle

theorem neutral_char : Neutral (char p) := by
  refine neutral_of_isPlain (divides_char p) fun text taken rest h c hc => ?_
  obtain ⟨d, rfl, hd, -⟩ := char_cases h
  rw [mem_singleton.mp hc]
  exact isPlain_of_fails hhash hdouble hsingle hd

theorem neutral_run : Neutral (run p) := by
  refine neutral_of_isPlain (divides_run p) fun text taken rest h c hc => ?_
  cases h
  exact isPlain_of_fails hhash hdouble hsingle (all_eq_true.mp all_takeWhile c hc)

end Tests

theorem neutral_literal {word : Text} (hword : word.all isPlain) : Neutral (literal word) := by
  refine neutral_of_isPlain (divides_literal word) fun text taken rest h => ?_
  obtain ⟨left, -, heq⟩ := Option.map_eq_some_iff.mp h
  cases heq
  exact all_eq_true.mp hword

variable {a b : Reader}

theorem Neutral.seq (ha : Neutral a) (hb : Neutral b) : Neutral (seq a b) := by
  intro text taken rest h start strings comments hdivision
  obtain ⟨first, left, second, hfirst, hsecond, rfl⟩ := seq_cases h
  rw [length_append, ← Nat.add_assoc] at hdivision
  obtain ⟨comments, hdivision⟩ := hb hsecond hdivision
  exact ha hfirst hdivision

theorem Neutral.orElse (ha : Neutral a) (hb : Neutral b) : Neutral (orElse a b) := by
  intro text taken rest h
  rcases orElse_cases h with h | h
  · exact ha h
  · exact hb h

theorem Neutral.opt (ha : Neutral a) : Neutral (opt a) := by
  apply ha.orElse
  intro text taken rest h start strings comments hdivision
  cases h
  exact ⟨comments, hdivision⟩

theorem Neutral.manyUpTo (ha : Neutral a) (bound : Text) : Neutral (manyUpTo a bound) := by
  induction bound with
  | nil =>
    intro text taken rest h start strings comments hdivision
    cases h
    exact ⟨comments, hdivision⟩
  | cons c bound ih => exact (ha.seq ih).opt

theorem Neutral.many (ha : Neutral a) : Neutral (many a) :=
  fun text _ _ h => ha.manyUpTo text h

theorem Neutral.many1 (ha : Neutral a) : Neutral (many1 a) :=
  ha.seq ha.many

end Reader

namespace Lexeme

open Reader

theorem neutral_comment : Neutral comment := by
  intro text taken rest h start strings comments hdivision
  obtain ⟨first, left, body, hfirst, hbody, rfl⟩ := seq_cases h
  obtain ⟨c, rfl, hc, rfl⟩ := char_cases hfirst
  obtain rfl : c = '#' := by simpa using hc
  cases hbody
  rw [← takeWhile_append_dropWhile (p := (· != '\n')) (l := left)]
  refine ⟨_, .comment ?_ ?_ hdivision⟩
  · intro hline
    have hall := all_eq_true.mp all_takeWhile _ hline
    cases hall
  · intro c hc
    have hstops := head?_dropWhile_not (· != '\n') left
    rw [hc] at hstops
    simpa using hstops

theorem neutral_identifier : Neutral identifier :=
  (neutral_char (by decide) (by decide) (by decide)).seq
    (neutral_run (by decide) (by decide) (by decide))

theorem neutral_integer : Neutral integer :=
  (neutral_char rfl rfl rfl).seq (neutral_run rfl rfl rfl)

theorem neutral_blank? : Neutral blank? :=
  (neutral_char rfl rfl rfl).opt

theorem neutral_typePath : Neutral typePath :=
  neutral_identifier.seq
    (neutral_blank?.seq ((neutral_char rfl rfl rfl).seq (neutral_blank?.seq neutral_identifier))).many

theorem neutral_typeHint : Neutral typeHint := by
  have hsecond := neutral_blank?.seq ((neutral_char (p := (· == ',')) rfl rfl rfl).seq
    (neutral_blank?.seq neutral_typePath))
  exact neutral_typePath.seq ((neutral_char rfl rfl rfl).seq
    (neutral_typePath.seq (hsecond.opt.seq (neutral_char rfl rfl rfl)))).opt

theorem neutral_number : Neutral number := by
  have hsign : Neutral sign? := (neutral_char rfl rfl rfl).opt
  have hexponent : Neutral exponent := (neutral_char rfl rfl rfl).seq (hsign.seq neutral_integer)
  have hpoint : Neutral (char (· == '.')) := neutral_char rfl rfl rfl
  have hdecimal : Neutral decimal :=
    (neutral_integer.seq (hpoint.seq neutral_integer.opt)).orElse (hpoint.seq neutral_integer)
  exact hsign.seq ((neutral_integer.seq hexponent).orElse
    ((hdecimal.seq hexponent.opt).orElse neutral_integer))

theorem neutral_lineFeed : Neutral lineFeed :=
  (neutral_char rfl rfl rfl).opt.seq (neutral_char rfl rfl rfl)

theorem isPlain_spelling (t : Terminal) : t.spelling.all (fun word => word.all isPlain) := by
  cases t <;> decide

theorem neutral_reader (ht : t.isString = false) : Neutral (reader t) := by
  unfold reader
  split
  · exact (neutral_char rfl rfl rfl).opt.seq ((neutral_literal rfl).seq
      ((neutral_char rfl rfl rfl).seq (neutral_run rfl rfl rfl)))
  · exact (neutral_char rfl rfl rfl).opt.seq ((neutral_literal rfl).seq
      ((neutral_char rfl rfl rfl).seq (neutral_run rfl rfl rfl)))
  · exact neutral_typeHint
  · exact neutral_number
  · cases ht
  · cases ht
  · cases ht
  · exact neutral_identifier
  · cases ht
  · exact ((neutral_lineFeed.seq (neutral_run rfl rfl rfl)).orElse neutral_comment).many1
  · exact (neutral_char rfl rfl rfl).many1
  · exact (neutral_char rfl rfl rfl).seq ((neutral_run rfl rfl rfl).seq neutral_lineFeed)
  · exact neutral_comment
  · split
    · rename_i word hword
      have hplain := isPlain_spelling t
      rw [hword] at hplain
      exact neutral_literal hplain
    · intro text taken rest h
      cases h

theorem exists_stringAt (ht : t.isString) {text taken rest : Text}
    (h : reader t text = some (taken, rest)) :
    ∃ before string, taken = before ++ string ∧ (∀ c ∈ before, isPlain c) ∧
      StringAt string rest := by
  have hplainOf : ∀ {string : Text}, StringAt string rest → ∃ before s, string = before ++ s ∧
      (∀ c ∈ before, isPlain c) ∧ StringAt s rest :=
    fun hstring => ⟨[], _, rfl, by simp, hstring⟩
  have hraw : ∀ {read : Reader}, (∀ {text string}, read text = some (string, rest) →
        StringAt string rest) → ∀ {text}, seq rawMark read text = some (taken, rest) →
      ∃ before s, taken = before ++ s ∧ (∀ c ∈ before, isPlain c) ∧ StringAt s rest := by
    intro read hread text h
    obtain ⟨before, left, string, hbefore, hstring, rfl⟩ := seq_cases h
    refine ⟨before, string, rfl, ?_, hread hstring⟩
    obtain ⟨c, rfl, hc, -⟩ := char_cases hbefore
    exact forall_mem_singleton.mpr
      (isPlain_of_fails (p := fun c => c == 'r' || c == 'R') rfl rfl rfl hc)
  cases t <;> try cases ht
  · rcases orElse_cases h with h | h
    · exact hraw (of_longString (.inl rfl)) h
    · exact hraw (of_longString (.inr rfl)) h
  · rcases orElse_cases h with h | h
    · exact hplainOf (of_longString (.inl rfl) h)
    · exact hplainOf (of_longString (.inr rfl) h)
  · rcases orElse_cases h with h | h
    · exact hraw (of_shortString (.inl rfl)) h
    · exact hraw (of_shortString (.inr rfl)) h
  · rcases orElse_cases h with h | h
    · exact hplainOf (of_shortString (.inl rfl) h)
    · exact hplainOf (of_shortString (.inr rfl) h)

end Lexeme

/-! ## Strings of a text and of its tree -/

theorem Terminal.isString_of_spelling {word : Text} (h : t.spelling = some word) : t.isString = false := by
  cases t <;> first | rfl | cases h

/-- A terminal is read by a reader for strings just if it is a string. -/
theorem Lexicon.exists_reader {l : Lexicon} {text taken rest : Text}
    (h : l.read text = some (t, taken, rest)) :
    ∃ u, Lexeme.reader u text = some (taken, rest) ∧ u.isString = t.isString := by
  obtain ⟨u, hread, rfl⟩ := exists_of_read h
  refine ⟨u, hread, ?_⟩
  rcases spelling_wordFor l u taken with hsame | ⟨word, hword, -⟩
  · rw [hsame]
  · rw [Terminal.isString_of_spelling hword]
    by_cases hwords : u.readsWords
    · cases u <;> first | rfl | cases hwords
    · rw [wordFor, if_neg hwords] at hword
      exact Terminal.isString_of_spelling hword

/-- Reading a text to its end divides it, and the strings of the division are those read. -/
theorem Lexed.exists_division {c stop : Cursor} {pieces : List Token} (h : Lexed c pieces stop)
    (hstop : stop.rest = []) :
    ∃ strings comments, Division c.offset c.rest strings comments ∧
      (pieces.filter isString).map part? = strings.map some := by
  induction h with
  | nil c => exact ⟨[], [], hstop ▸ .nil _, rfl⟩
  | @cons c stop l terminal taken rest pieces hread hmore ih =>
    obtain ⟨strings, comments, hdivision, hstrings⟩ := ih hstop
    obtain ⟨u, hreader, hsame⟩ := Lexicon.exists_reader hread
    have hrest : c.rest = taken ++ rest := Lexeme.divides_reader u hreader
    have htoken : (c.token terminal taken (c.past taken rest)).isString = terminal.isString := rfl
    cases hstring : terminal.isString with
    | true =>
      obtain ⟨before, string, rfl, hplain, hat⟩ :=
        Lexeme.exists_stringAt (hsame.trans hstring) hreader
      refine ⟨⟨c.offset, before ++ string⟩ :: strings, comments, ?_, ?_⟩
      · rw [hrest]
        exact .string hplain hat hdivision
      · rw [filter_cons_of_pos (htoken.trans hstring), map_cons, hstrings]
        rfl
    | false =>
      obtain ⟨comments, hdivision⟩ := Lexeme.neutral_reader (hsame.trans hstring) hreader hdivision
      refine ⟨strings, comments, hdivision, ?_⟩
      rw [filter_cons_of_neg (ne_true_of_eq_false (htoken.trans hstring)), hstrings]

theorem Layout.isString_of_isMade (t : Token) (h : IsMade t) : t.isString = false := by
  unfold isString
  rcases h with h | h | h <;> rw [h] <;> rfl

namespace Parse

variable {code : Text} {tree : Tree} {parts : List Part}

def dropsString : Symbol → Bool
  | .mark t => t.isString
  | _ => false

theorem keeps_strings (head : Nonterminal) :
    ∀ p ∈ head.productions, ∀ s ∈ p.symbols, dropsString s = false := by
  revert head
  decide +kernel

/-- The trees of a frame hold the strings of its word. -/
structure HoldsStrings (frame : Frame) (word : List Token) : Prop where
  strings : (tokensAll frame.trees).filter isString =
    word.filter isString
  terminal : ∀ t, frame.head = .terminal t → ∀ u ∈ word, u.terminal = t

theorem strings_frames {frames : List (Symbol × Frame)} {words : List (List Token)}
    (h : Forall₂ (fun f word => HoldsStrings f.2 word) frames words)
    (hheads : ∀ f ∈ frames, headOf f.1 = f.2.head) (hkeeps : ∀ f ∈ frames, dropsString f.1 = false) :
    (tokensAll (frames.flatMap keep)).filter isString =
      words.flatten.filter isString := by
  induction h with
  | nil => rfl
  | @cons f word frames words hframe hframes ih =>
    obtain ⟨hhead, hheads⟩ := forall_mem_cons.mp hheads
    obtain ⟨hkeep, hkeeps⟩ := forall_mem_cons.mp hkeeps
    have hfirst : (tokensAll (keep f)).filter isString = word.filter isString := by
      obtain ⟨symbol, frame⟩ := f
      cases symbol with
      | mark t =>
        have hnone : word.filter isString = [] := by
          rw [filter_eq_nil_iff]
          intro u hu
          rw [isString, hframe.terminal t hhead.symm u hu]
          exact ne_true_of_eq_false hkeep
        rw [hnone]
        rfl
      | leaf t => exact hframe.strings
      | node k => exact hframe.strings
      | part f => exact hframe.strings
    rw [flatMap_cons, tokensAll_append, filter_append, hfirst, ih hheads hkeeps,
      flatten_cons, filter_append]

theorem tracks_strings : Tracks HoldsStrings where
  shift state t :=
    { strings := rfl
      terminal := by
        intro terminal h u hu
        cases h
        rw [mem_singleton.mp hu] }
  complete := by
    intro head p hp frames words hsymbols hheads hwords target
    refine ⟨?_, nofun⟩
    rw [tokensAll_build]
    refine strings_frames hwords hheads fun f hf => keeps_strings head p hp f.1 ?_
    rw [← hsymbols]
    exact mem_map_of_mem hf

theorem strings_of_parse (h : parse code = .ok tree) :
    tree.strings = (scanned code).filter isString := by
  obtain ⟨state, extent, hholds⟩ := tracks_strings.parse h
  have hstream : (stream code).filter isString = (scanned code).filter isString :=
    Layout.filter_runFrom Layout.isString_of_isMade (fault_scanned h)
  rw [← hstream]
  simpa [Tree.strings, tokensAll] using hholds.strings

/-- Parsing divides a text, and the strings of the division are those of the tree. -/
theorem exists_division_of_parse (h : parse code = .ok tree) :
    ∃ strings comments, Division 0 code strings comments ∧
      tree.strings.map part? = strings.map some := by
  obtain ⟨pieces, stop, hlexed, hstop, hscanned⟩ := lexed_scanned h
  obtain ⟨strings, comments, hdivision, hstrings⟩ := hlexed.exists_division hstop
  refine ⟨strings, comments, hdivision.of_append, ?_⟩
  rw [strings_of_parse h, ← hscanned, filter_filter, ← hstrings]
  congr 1
  refine filter_congr fun t _ => ?_
  unfold isString
  cases t.terminal <;> rfl

theorem exists_part (h : tokens.map part? = parts.map some) {t : Token} (ht : t ∈ tokens) :
    ∃ p ∈ parts, t.part? = some p := by
  have hmem : t.part? ∈ parts.map some := h ▸ mem_map_of_mem ht
  obtain ⟨p, hp, heq⟩ := mem_map.mp hmem
  exact ⟨p, hp, heq.symm⟩

theorem exists_token (h : tokens.map part? = parts.map some) {p : Part} (hp : p ∈ parts) :
    ∃ t ∈ tokens, t.part? = some p := by
  have hmem : some p ∈ tokens.map part? := h ▸ mem_map_of_mem hp
  exact mem_map.mp hmem

/-- Gathering the comments of a text that is parsed succeeds. Comments and strings stand where their
tokens say, no comment overlaps a string of the tree, and every number sign is in one or the other. -/
theorem parseComments_agrees {code : Text} {tree : Tree} (h : parse code = .ok tree) :
    ∃ comments, parseComments code = .ok comments ∧
      (∀ t ∈ comments ++ tree.strings, t.StandsIn code) ∧
      (∀ c ∈ comments, ∀ s ∈ tree.strings, ∀ i, ¬ (c.Covers i ∧ s.Covers i)) ∧
      ∀ i, code[i]? = some '#' →
        (∃ s ∈ tree.strings, s.Covers i) ∨ ∃ c ∈ comments, c.Covers i := by
  obtain ⟨strings, found, hdivision, hstrings⟩ := exists_division_of_parse h
  obtain ⟨comments, hread, hcomments⟩ := hdivision.exists_parseComments
  obtain ⟨hstand, hstand'⟩ := hdivision.standsIn
  refine ⟨comments, hread, ?_, ?_, ?_⟩
  · refine forall_mem_append.mpr ⟨fun c hc => ?_, fun s hs => ?_⟩
    · obtain ⟨p, hp, hpart⟩ := exists_part hcomments hc
      exact ⟨p, hpart, hstand' p hp⟩
    · obtain ⟨p, hp, hpart⟩ := exists_part hstrings hs
      exact ⟨p, hpart, hstand p hp⟩
  · rintro c hc s hs i ⟨⟨p, hpart, hp⟩, q, hqpart, hq⟩
    obtain ⟨p', hp', hsame⟩ := exists_part hcomments hc
    obtain ⟨q', hq', hsame'⟩ := exists_part hstrings hs
    obtain rfl := Option.some.inj (hpart.symm.trans hsame)
    obtain rfl := Option.some.inj (hqpart.symm.trans hsame')
    exact hdivision.apart q hq' p hp' i ⟨hq, hp⟩
  · intro i hi
    have hcovers := hdivision.exists_covers hi
    rw [Nat.zero_add] at hcovers
    refine hcovers.imp ?_ ?_
    · rintro ⟨p, hp, hcovers⟩
      obtain ⟨s, hs, hpart⟩ := exists_token hstrings hp
      exact ⟨s, hs, p, hpart, hcovers⟩
    · rintro ⟨p, hp, hcovers⟩
      obtain ⟨c, hc, hpart⟩ := exists_token hcomments hp
      exact ⟨c, hc, p, hpart, hcovers⟩

/-- Number signs and quotation marks in strings, raw strings, long strings and comments. -/
def marksEverywhere : Text :=
  ("var x = ['#', r\"\\\"#\", $\"#a\"] # it's \"one\" # of\n" ++
    "# \"\"\" two\nvar y = \"\"\"# '\n#\\\"\"\"\"# three").toList

theorem parseComments_agrees_marks :
    ∃ tree, parse marksEverywhere = .ok tree ∧
      ∃ comments, parseComments marksEverywhere = .ok comments ∧
        (∀ t ∈ comments ++ tree.strings, t.StandsIn marksEverywhere) ∧
        (∀ c ∈ comments, ∀ s ∈ tree.strings, ∀ i, ¬ (c.Covers i ∧ s.Covers i)) ∧
        ∀ i, marksEverywhere[i]? = some '#' →
          (∃ s ∈ tree.strings, s.Covers i) ∨ ∃ c ∈ comments, c.Covers i := by
  have hparses : (parse marksEverywhere).isOk = true := by decide +kernel
  cases h : parse marksEverywhere with
  | error e =>
    rw [h] at hparses
    cases hparses
  | ok tree => exact ⟨tree, rfl, parseComments_agrees h⟩

end Parse

end GDWorkbench

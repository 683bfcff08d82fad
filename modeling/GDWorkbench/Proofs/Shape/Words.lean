import GDWorkbench.Shape

/-!
Words and skeletons of shapes. Two shapes with the same skeleton are the same exactly if their words are,
and loosening a node does nothing that depends on words.

What is done to a node looks at its children in normal form and nowhere else. So a loosened shape is
loosened no further, and round brackets make no difference wherever they stand: a minus sign joins the
number behind it through any number of them.
-/

namespace GDWorkbench

namespace Shape

mutual

def decEq : (a b : Shape) → Decidable (a = b)
  | .word a, .word b => decidable_of_iff (a = b) (by simp)
  | .leaf s a, .leaf t b => decidable_of_iff (s = t ∧ a = b) (by simp)
  | .node j as, .node k bs =>
    have := decEqAll as bs
    decidable_of_iff (j = k ∧ as = bs) (by simp)
  | .word _, .leaf _ _ | .word _, .node _ _ | .leaf _ _, .word _ | .leaf _ _, .node _ _
  | .node _ _, .word _ | .node _ _, .leaf _ _ => .isFalse (by simp)

def decEqAll : (as bs : List Shape) → Decidable (as = bs)
  | [], [] => .isTrue rfl
  | a :: as, b :: bs =>
    have := decEq a b
    have := decEqAll as bs
    decidable_of_iff (a = b ∧ as = bs) (by simp)
  | [], _ :: _ | _ :: _, [] => .isFalse (by simp)

end

instance : DecidableEq Shape :=
  decEq

mutual

def words : Shape → List Text
  | .word text => [text]
  | .leaf _ _ => []
  | .node _ cs => wordsAll cs

def wordsAll : List Shape → List Text
  | [] => []
  | s :: ss => words s ++ wordsAll ss

end

mutual

def skeleton : Shape → Shape
  | .word _ => .word []
  | .leaf t text => .leaf t text
  | .node k cs => .node k (skeletonAll cs)

def skeletonAll : List Shape → List Shape
  | [] => []
  | s :: ss => skeleton s :: skeletonAll ss

end

theorem skeletonAll_eq_map (ss : List Shape) : skeletonAll ss = ss.map skeleton := by
  induction ss with
  | nil => rfl
  | cons s ss ih => rw [skeletonAll, ih, List.map_cons]

theorem wordsAll_eq_flatMap (ss : List Shape) : wordsAll ss = ss.flatMap words := by
  induction ss with
  | nil => rfl
  | cons s ss ih => rw [wordsAll, ih, List.flatMap_cons]

mutual

theorem length_words_skeleton : ∀ s : Shape, s.skeleton.words.length = s.words.length
  | .word _ => rfl
  | .leaf _ _ => rfl
  | .node _ cs => length_wordsAll_skeletonAll cs

theorem length_wordsAll_skeletonAll :
    ∀ ss : List Shape, (wordsAll (skeletonAll ss)).length = (wordsAll ss).length
  | [] => rfl
  | s :: ss => by
    simp only [skeletonAll, wordsAll, List.length_append, length_words_skeleton s,
      length_wordsAll_skeletonAll ss]

end

theorem length_words_eq {a b : Shape} (h : a.skeleton = b.skeleton) :
    a.words.length = b.words.length := by
  rw [← length_words_skeleton, h, length_words_skeleton]

mutual

/-- Shapes that differ in words at most are the same exactly if the words are. -/
theorem same_iff_words_eq : ∀ {a b : Shape}, a.skeleton = b.skeleton →
    (same a b ↔ a.words = b.words)
  | .word a, .word b, _ => by simp [same, words]
  | .leaf s a, .leaf t b, h => by
    obtain ⟨rfl, rfl⟩ : s = t ∧ a = b := by simpa [skeleton] using h
    simp [same, words]
  | .node j as, .node k bs, h => by
    obtain ⟨rfl, hall⟩ : j = k ∧ skeletonAll as = skeletonAll bs := by simpa [skeleton] using h
    simpa [same, words] using sameAll_iff_wordsAll_eq hall
  | .word _, .leaf _ _, h | .word _, .node _ _, h | .leaf _ _, .word _, h
  | .leaf _ _, .node _ _, h | .node _ _, .word _, h | .node _ _, .leaf _ _, h => by
    simp [skeleton] at h

theorem sameAll_iff_wordsAll_eq : ∀ {as bs : List Shape}, skeletonAll as = skeletonAll bs →
    (sameAll as bs ↔ wordsAll as = wordsAll bs)
  | [], [], _ => by simp [sameAll]
  | a :: as, b :: bs, h => by
    obtain ⟨hfirst, hrest⟩ := List.cons.inj h
    simp only [sameAll, Bool.and_eq_true, same_iff_words_eq hfirst, sameAll_iff_wordsAll_eq hrest,
      wordsAll]
    refine ⟨fun ⟨ha, has⟩ => by rw [ha, has], fun heq => ?_⟩
    exact List.append_inj heq (length_words_eq hfirst)
  | [], _ :: _, h | _ :: _, [], h => by simp [skeletonAll] at h

end

/-! ## Loosening -/

/-- Kinds whose nodes loosening does more to than to rename them. -/
def changes : Kind → Bool
  | .parExpr | .parPattern | .aslessActualNegExpr | .string | .rawString | .signalStmt | .start
  | .classDef | .inlinePropertyBody => true
  | _ => false

theorem loosenNode_of_not_changes {k : Kind} (h : changes k = false) (cs : List Shape) :
    loosenNode k cs = .node (plainKind k) cs := by
  cases k <;> first | rfl | cases h

def takesPair : Kind → Bool
  | .aslessActualNegExpr | .signalStmt => true
  | _ => false

theorem loosenNode_long {k : Kind} (h : takesPair k) (a b c : Shape) (rest : List Shape) :
    loosenNode k (a :: b :: c :: rest) = .node k (a :: b :: c :: rest) := by
  cases k <;> simp only [takesPair, Bool.false_eq_true] at h <;> simp only [loosenNode, plainKind]

/-- A signal without arguments loses nothing but an empty list of them. -/
theorem words_loosenNode_signal (cs : List Shape) :
    (loosenNode .signalStmt cs).words = wordsAll cs := by
  rcases cs with _ | ⟨a, _ | ⟨b, _ | ⟨c, rest⟩⟩⟩
  · rfl
  · rfl
  · rcases b with _ | _ | ⟨j, _ | ⟨s, ss⟩⟩ <;> rfl
  · rw [loosenNode_long rfl, words]

theorem words_loosenNode_negative (t : Terminal) (sign : Text) (s : Shape) :
    (loosenNode .aslessActualNegExpr [.leaf t sign, s]).words = s.words := by
  have hpair : (node .aslessActualNegExpr [.leaf t sign, s]).words = s.words := by
    simp [words, wordsAll]
  cases s with
  | word text => exact hpair
  | leaf u text => cases u <;> exact hpair
  | node j ss => exact hpair

theorem loosenAll_eq_map (ss : List Shape) : loosenAll ss = ss.map loosen := by
  induction ss with
  | nil => rfl
  | cons s ss ih => rw [loosenAll, ih, List.map_cons]

mutual

theorem skeleton_skeleton : ∀ s : Shape, s.skeleton.skeleton = s.skeleton
  | .word _ => rfl
  | .leaf _ _ => rfl
  | .node k cs => congrArg (Shape.node k) (skeletonAll_skeletonAll cs)

theorem skeletonAll_skeletonAll : ∀ ss : List Shape, skeletonAll (skeletonAll ss) = skeletonAll ss
  | [] => rfl
  | s :: ss => by simp only [skeletonAll, skeleton_skeleton s, skeletonAll_skeletonAll ss]

end

theorem isCompared_skeleton (s : Shape) : isCompared s.skeleton = isCompared s := by
  cases s with
  | word _ => rfl
  | leaf _ _ => rfl
  | node k cs => cases k <;> rfl

theorem filter_skeletonAll (ss : List Shape) :
    (skeletonAll ss).filter isCompared = skeletonAll (ss.filter isCompared) := by
  rw [skeletonAll_eq_map, skeletonAll_eq_map, List.filter_map]
  congr 1
  exact List.filter_congr fun s _ => isCompared_skeleton s

theorem skeleton_loosenNode (k : Kind) (cs : List Shape) :
    (loosenNode k (skeletonAll cs)).skeleton = (loosenNode k cs).skeleton := by
  by_cases hk : changes k = false
  · simp only [loosenNode_of_not_changes hk, skeleton, skeletonAll_skeletonAll]
  · have hnode (j : Kind) (ss : List Shape) :
        (Shape.node j (skeletonAll ss)).skeleton = (Shape.node j ss).skeleton :=
      skeleton_skeleton (.node j ss)
    have hlong {j : Kind} (hj : takesPair j) (a b c : Shape) (rest : List Shape) :
        (loosenNode j (skeletonAll (a :: b :: c :: rest))).skeleton =
          (loosenNode j (a :: b :: c :: rest)).skeleton := by
      rw [loosenNode_long hj, ← hnode]
      exact congrArg skeleton (loosenNode_long hj a.skeleton b.skeleton c.skeleton _)
    cases k <;> simp only [changes, not_true_eq_false] at hk
    case parExpr | parPattern =>
      cases cs with
      | nil => rfl
      | cons s rest => exact skeleton_skeleton s
    case string | rawString =>
      rcases cs with _ | ⟨_ | _ | _, rest⟩
      · rfl
      · exact hnode _ (.word _ :: rest)
      · rfl
      · exact hnode _ (.node _ _ :: rest)
    case aslessActualNegExpr =>
      rcases cs with _ | ⟨a, _ | ⟨b, _ | ⟨c, rest⟩⟩⟩
      · rfl
      · exact hnode _ [a]
      · cases b with
        | word text => exact hnode _ [a, .word text]
        | leaf t text => cases t <;> first | rfl | exact hnode _ [a, .leaf _ text]
        | node j ss => exact hnode _ [a, .node j ss]
      · exact hlong rfl a b c rest
    case signalStmt =>
      rcases cs with _ | ⟨a, _ | ⟨b, _ | ⟨c, rest⟩⟩⟩
      · rfl
      · exact hnode _ [a]
      · rcases b with _ | _ | ⟨j, _ | ⟨s, ss⟩⟩
        · exact hnode _ [a, .word _]
        · exact hnode _ [a, .leaf _ _]
        · exact hnode _ [a]
        · exact hnode _ [a, .node j (s :: ss)]
      · exact hlong rfl a b c rest
    case start | classDef =>
      simp only [loosenNode, filter_skeletonAll]
      exact hnode _ (cs.filter isCompared)
    case inlinePropertyBody => rfl

/-! ## The normal form -/

theorem loosenNode_plainKind {k : Kind} {cs : List Shape}
    (h : loosenNode k cs = .node (plainKind k) cs) :
    loosenNode (plainKind k) cs = .node (plainKind k) cs := by
  cases k <;> exact h

theorem loosenAll_eq_self {cs : List Shape} (h : ∀ c ∈ cs, c.loosen = c) : loosenAll cs = cs := by
  rw [loosenAll_eq_map, List.map_congr_left h, List.map_id']

theorem loosen_loosenNode (k : Kind) {cs : List Shape} (h : ∀ c ∈ cs, c.loosen = c) :
    (loosenNode k cs).loosen = loosenNode k cs := by
  have hcompared : loosenAll (cs.filter isCompared) = cs.filter isCompared :=
    loosenAll_eq_self fun c hc => h c (List.mem_filter.mp hc).1
  fun_cases loosenNode k cs with
  | case1 s rest => exact h s List.mem_cons_self
  | case2 s rest => exact h s List.mem_cons_self
  | case3 => rfl
  | case4 => rfl
  | case5 => rfl
  | case6 name j =>
    simp only [loosen, loosenAll, h name List.mem_cons_self]
    rfl
  | case7 => simp [loosen, hcompared, loosenNode]
  | case8 => simp [loosen, hcompared, loosenNode]
  | case9 => rfl
  | case10 =>
    rw [loosen, loosenAll_eq_self h]
    apply loosenNode_plainKind
    rw [loosenNode] <;> assumption

mutual

theorem loosen_loosen : ∀ s : Shape, s.loosen.loosen = s.loosen
  | .word _ => rfl
  | .leaf _ _ => rfl
  | .node k cs => loosen_loosenNode k (loosen_of_mem_loosenAll cs)

theorem loosen_of_mem_loosenAll : ∀ cs : List Shape, ∀ c ∈ loosenAll cs, c.loosen = c
  | [] => List.forall_mem_nil _
  | s :: ss => List.forall_mem_cons.mpr ⟨loosen_loosen s, loosen_of_mem_loosenAll ss⟩

end

/-! ## Brackets -/

mutual

/-- The second shape is the first one with round brackets put around parts of it, once or more. -/
inductive Bracketed : Shape → Shape → Prop
  | same (s : Shape) : Bracketed s s
  | node (k : Kind) {cs ds : List Shape} (children : AllBracketed cs ds) :
      Bracketed (.node k cs) (.node k ds)
  | expression {s u : Shape} (inner : Bracketed s u) : Bracketed s (.node .parExpr [u])
  | pattern {s u : Shape} (inner : Bracketed s u) : Bracketed s (.node .parPattern [u])

inductive AllBracketed : List Shape → List Shape → Prop
  | nil : AllBracketed [] []
  | cons {s u : Shape} {ss us : List Shape} (head : Bracketed s u) (tail : AllBracketed ss us) :
      AllBracketed (s :: ss) (u :: us)

end

mutual

theorem Bracketed.loosen_eq : ∀ {s u : Shape}, Bracketed s u → u.loosen = s.loosen
  | _, _, .same _ => rfl
  | _, _, .node k children => congrArg (loosenNode k) children.loosenAll_eq
  | _, _, .expression inner => inner.loosen_eq
  | _, _, .pattern inner => inner.loosen_eq

theorem AllBracketed.loosenAll_eq :
    ∀ {ss us : List Shape}, AllBracketed ss us → loosenAll us = loosenAll ss
  | _, _, .nil => rfl
  | _, _, .cons head tail => by rw [loosenAll, loosenAll, head.loosen_eq, tail.loosenAll_eq]

end

end Shape

/-- A loosened tree is loosened no further, and any other tree that differs from the first one in
brackets around expressions and patterns, and in places, is loosened to the same. -/
theorem Tree.loosen_is_normal_form (t : Tree) : t.loosen.loosen = t.loosen ∧
      ∀ u : Tree, t.shape.Bracketed u.shape → u.loosen = t.loosen :=
  ⟨t.shape.loosen_loosen, fun _ h => h.loosen_eq⟩

/-- A minus sign before a number, and before the number in two pairs of brackets. -/
theorem Tree.loosen_is_normal_form_minus :
    let minus : Tree := .token ⟨.minus, some ['-'], Span.nowhere, none⟩
    let one : Tree := .token ⟨.number, some ['1'], Span.nowhere, none⟩
    let t : Tree := .node .aslessActualNegExpr none [minus, one]
    let u : Tree := .node .parExpr none [.node .aslessActualNegExpr none
      [minus, .node .parExpr none [.node .parExpr none [one]]]]
    t.shape.Bracketed u.shape ∧ u.loosen = .leaf .number ['-', '1'] := by
  intro minus one t u
  have h : t.shape.Bracketed u.shape :=
    .expression (.node _ (.cons (.same _) (.cons (.expression (.expression (.same _))) .nil)))
  exact ⟨h, (t.loosen_is_normal_form.2 u h).trans rfl⟩

end GDWorkbench

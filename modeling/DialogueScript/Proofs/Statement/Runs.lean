import DialogueScript.Proofs.Ast
import DialogueScript.Proofs.Statement.CommandCourse

/-!
Reading statements that are written out gives back what they stand for. A run of statements is read
up to a line that ends it: one in fewer blocks, one that ends the body, or the command of the next
clause. As nested constructs end their own statements first, each clause goes to the construct it
was written for.
-/

namespace DialogueScript

open DialogueScript.Parser DialogueScript.Scanner

variable {j j' levels : Nat} {r c c' : Text} {terminators : KindSet} {pre : List Tree}

namespace Passage

/-- A single tree that stands for the statement. -/
def Means (x : Passage) (ts : List Tree) : Prop := ∃ t, Stmt.ofTree? t = some x.value ∧ ts = [t]

/-- Trees that stand for the statements, and for no expressions. -/
structure MeansAll (xs : List Passage) (ts : List Tree) : Prop where
  statements : Stmt.ofAll ts = values xs
  expressions : Expr.ofAll ts = []

lemma meansAll_nil : MeansAll [] [] := ⟨by simp [values], by simp⟩

lemma Means.cons {x : Passage} {xs : List Passage} {us vs : List Tree} (h : x.Means us)
    (hs : MeansAll xs vs) : MeansAll (x :: xs) (us ++ vs) := by
  obtain ⟨t, ht, rfl⟩ := h
  refine ⟨?_, ?_⟩
  · simp [Stmt.ofAll_cons, ht, hs.statements, values]
  · simp [Expr.ofAll_cons, Stmt.expr_eq_none ht, hs.expressions]

/-- The kind of the token that a statement starts with. -/
def first : Passage → Kind
  | line _ => .text
  | group lineGroup _ => arrowOf lineGroup
  | _ => .commandStart

/-- The keyword that a statement starts with, if it is a command. -/
def keyword? : Passage → Option Kind
  | ifChain .. => some .ifKw
  | onceChain .. => some .onceKw
  | set .. => some .setKw
  | jump _ => some .jumpKw
  | ret => some .returnKw
  | _ => none

/-- Keywords that continue or close a construct, and start none. -/
def ClauseOnly (terminators : KindSet) : Prop :=
  ∀ k, terminators.contains k = true → clauseKeywords.contains k = true

lemma clauseOnly_empty : ClauseOnly .empty := by
  intro k hk
  simp [KindSet.contains_empty] at hk

lemma ClauseOnly.union {s t : KindSet} (hs : ClauseOnly s) (ht : ClauseOnly t) :
    ClauseOnly (s.union t) := by
  intro k hk
  rw [KindSet.contains_union, Bool.or_eq_true] at hk
  exact hk.elim (hs k) (ht k)

/-- The line `c` in `j'` blocks can follow the statement where `j` blocks are open. -/
structure Follows (x : Passage) (j j' : Nat) (c : Text) : Prop where
  level : j' ≤ j
  arrow : ∀ lineGroup, x.group? = some lineGroup → kindOf j j' c ≠ arrowOf lineGroup

/-- A statement can be read in front of any line that can follow it. -/
def Reads (x : Passage) : Prop :=
  ∀ ⦃levels j terminators r j' c⦄, x.depth + 1 < levels → j + levels ≤ maxDepth →
    ClauseOnly terminators → LineOf j' c r → x.Follows j j' c →
    Course (Ahead j (x.text j ++ r)) [] (statement levels terminators) () x.Means (Ahead j r)

/-- A run of statements can be read up to any line that ends it. -/
def ReadsAll (xs : List Passage) : Prop :=
  ∀ ⦃levels j terminators r j' c⦄, depthAll xs + 1 < levels → j + levels ≤ maxDepth →
    ClauseOnly terminators → LineOf j' c r → j' ≤ j → EndsAt terminators j j' c →
    Course (Ahead j (textAll j xs ++ r)) [] (statementList (statement levels) terminators) ()
      (MeansAll xs) (Ahead j r)

/-! ### First lines -/

lemma lineOf_plain {t : Text} (h : Lexeme.PlainLine t) (hj : j ≤ maxDepth) (r : Text) :
    LineOf j (t ++ '\n' :: r) (lineAt j t ++ r) :=
  lineOf_lineAt (content_plain h.toPlainText r) (closesBlocks_plain h r) hj

/-- What the line of an item starts with. -/
def itemContent (lineGroup : Bool) (t r : Text) : Text :=
  (arrowOf lineGroup).chars ++ [' '] ++ (t ++ '\n' :: r)

lemma arrow_cases (lineGroup : Bool) :
    arrowOf lineGroup = .shortcutArrow ∨ arrowOf lineGroup = .lineGroupArrow := by
  cases lineGroup <;> simp [arrowOf]

lemma lineOf_item (lineGroup : Bool) (t r : Text) (hj : j ≤ maxDepth) :
    LineOf j (itemContent lineGroup t r)
      (lineAt j ((arrowOf lineGroup).chars ++ ' ' :: t) ++ r) := by
  have htext :
      itemContent lineGroup t r = ((arrowOf lineGroup).chars ++ ' ' :: t) ++ '\n' :: r := by
    simp [itemContent]
  rw [htext]
  refine lineOf_lineAt ⟨?_, ?_, ?_, ?_⟩ ?_ hj
  · simp
  · cases lineGroup <;> rintro _ ⟨⟩ <;> decide
  · cases lineGroup <;> rfl
  · cases lineGroup <;> rfl
  · cases lineGroup <;> rfl

lemma tokenAt_item {mode : Mode} (hm : mode.isIndentSensitive = true) (lineGroup : Bool) {t : Text}
    (h : Lexeme.PlainText t) (r : Text) :
    TokenAt mode (arrowOf lineGroup) (arrowOf lineGroup).chars [' '] (t ++ '\n' :: r) :=
  tokenAt_arrow hm (arrow_cases lineGroup) (h.trimmed.unspaced _)
    (h.commentless.startsComment_append r)

lemma kindOf_item (lineGroup : Bool) {t : Text} (h : Lexeme.PlainText t) (r : Text) :
    kindOf j j (itemContent lineGroup t r) = arrowOf lineGroup := by
  rw [kindOf_self, itemContent, (tokenAt_item rfl lineGroup h r).next]

lemma kindOf_text {t : Text} (h : Lexeme.PlainLine t) (r : Text) :
    kindOf j j (t ++ '\n' :: r) = .text := by
  have ht : TokenAt .statement .text t [] ('\n' :: r) := tokenAt_plain h rfl
  have hnext := ht.next
  rw [List.append_nil] at hnext
  rw [kindOf_self, hnext]

/-- The first line of a statement. -/
structure Opens (x : Passage) (j : Nat) (r c : Text) : Prop where
  line : LineOf j c (x.text j ++ r)
  kind : kindOf j j c = x.first
  keyword : keywordOf j j c = x.keyword?
  length : r.length < c.length

lemma opens_command {x : Passage} {k : Kind} {rest u : Text}
    (htext : x.text j = commandLine j k rest ++ u) (hk : IsCommand k)
    (hrest : rest.head?.all (· = ' ') = true) (hfirst : x.first = .commandStart)
    (hkeyword : x.keyword? = some k) (hj : j ≤ maxDepth) (r : Text) :
    x.Opens j r (commandContent k rest (u ++ r)) where
  line := by
    rw [htext, List.append_assoc]
    exact lineOf_command k rest _ hj
  kind := by rw [kindOf_command hk, hfirst]
  keyword := by rw [keywordOf_command hk hrest, hkeyword]
  length := by
    have := length_commandContent k rest (u ++ r)
    rw [List.length_append] at this
    omega

lemma opens (x : Passage) (h : x.WellFormed) (hj : j ≤ maxDepth) (r : Text) :
    ∃ c, x.Opens j r c := by
  cases x with
  | line t =>
    refine ⟨_, lineOf_plain h hj r, kindOf_text h r, ?_, by simp; omega⟩
    simp [keywordOf, kindOf_text h r, keyword?]
  | group lineGroup items =>
    rcases items with _ | ⟨⟨t, block⟩, more⟩
    · exact absurd rfl h.1
    · have ht := h.2.1
      refine ⟨itemContent lineGroup t (textAll (j + 1) block ++ (itemsText lineGroup j more ++ r)),
        ?_, kindOf_item lineGroup ht _, ?_, by simp [itemContent]; omega⟩
      · have hline :=
          lineOf_item lineGroup t (textAll (j + 1) block ++ (itemsText lineGroup j more ++ r)) hj
        simpa [text, itemsText] using hline
      · have hne : arrowOf lineGroup ≠ .commandStart := by cases lineGroup <;> simp [arrowOf]
        simp [keywordOf, kindOf_item lineGroup ht, keyword?, hne]
  | ifChain condition body elseIfs otherwise =>
    exact ⟨_, opens_command (by rw [text]) (by decide) rfl rfl rfl hj r⟩
  | onceChain condition body otherwise =>
    exact ⟨_, opens_command (by rw [text]) (by decide) (by cases condition <;> rfl) rfl rfl hj r⟩
  | set name digits =>
      exact ⟨_, opens_command (by rw [text, List.append_nil]) (by decide) rfl rfl rfl hj r⟩
  | jump name =>
      exact ⟨_, opens_command (by rw [text, List.append_nil]) (by decide) rfl rfl rfl hj r⟩
  | ret => exact ⟨_, opens_command (by rw [text, List.append_nil]) (by decide) rfl rfl rfl hj r⟩

/-! ### Runs -/

lemma group?_of_first {x : Passage} {lineGroup : Bool} (h : x.first = arrowOf lineGroup) :
    x.group? = some lineGroup := by
  cases x with
  | group g items => cases g <;> cases lineGroup <;> simp [first, arrowOf] at h <;> rfl
  | _ => cases lineGroup <;> simp [first, arrowOf] at h

/-- No statement starts with what ends a run. -/
lemma Opens.goesOn {x : Passage} (h : x.Opens j r c) (hterm : ClauseOnly terminators) :
    ¬ EndsAt terminators j j c := by
  rintro (hk | ⟨k, hk, hc⟩)
  · rw [h.kind] at hk
    cases x with
    | group g items => cases g <;> simp [first, arrowOf, endsBlock] at hk
    | _ => simp [first, endsBlock] at hk
  · rw [h.keyword] at hk
    have hclause := hterm k hc
    cases x <;> simp [keyword?] at hk <;> subst hk <;> exact absurd hclause (by decide)

lemma Opens.follows {x y : Passage} (h : y.Opens j r c) (hm : ¬ Merges x y) : x.Follows j j c := by
  refine ⟨le_rfl, fun lineGroup hx hk => hm ?_⟩
  rw [h.kind] at hk
  exact ⟨by simp [hx], by rw [hx, group?_of_first hk]⟩

/-- What ends a run is no arrow. -/
lemma follows_of_ends (x : Passage) (h : EndsAt terminators j j' c) (hj : j' ≤ j) :
    x.Follows j j' c := by
  refine ⟨hj, fun lineGroup _ hk => ?_⟩
  rcases h with h | ⟨k, h, -⟩
  · rw [hk] at h
    cases lineGroup <;> simp [arrowOf, endsBlock] at h
  · cases lineGroup <;> simp [keywordOf, hk, arrowOf] at h

lemma LineOf.length_le (h : LineOf j c r) : c.length ≤ r.length := by
  rw [h.eq, List.length_append]
  omega

/-- The line behind a statement that is followed by a run. -/
lemma next_line {x : Passage} {xs : List Passage} (hxs : WellFormedAll (x :: xs))
    (hlevel : j ≤ maxDepth) (hr : LineOf j' c r) (hj : j' ≤ j) (hend : EndsAt terminators j j' c) :
    ∃ j₂ c₂, LineOf j₂ c₂ (textAll j xs ++ r) ∧ x.Follows j j₂ c₂ := by
  rcases xs with _ | ⟨y, ys⟩
  · exact ⟨j', c, by simpa [textAll] using hr, follows_of_ends x hend hj⟩
  · obtain ⟨c₂, hopen⟩ := opens y hxs.2.2.1 hlevel (textAll j ys ++ r)
    refine ⟨j, c₂, ?_, hopen.follows (hxs.2.1 y (by simp))⟩
    rw [textAll, List.append_assoc]
    exact hopen.line

/-- A run starts with its first line, or it is over. -/
lemma first_line {xs : List Passage} (hxs : WellFormedAll xs) (hlevel : j ≤ maxDepth)
    (hr : LineOf j' c r) (hj : j' ≤ j) : ∃ j₂ c₂, LineOf j₂ c₂ (textAll j xs ++ r) ∧ j₂ ≤ j := by
  rcases xs with _ | ⟨x, xs⟩
  · exact ⟨j', c, by simpa [textAll] using hr, hj⟩
  · obtain ⟨c₂, hopen⟩ := opens x hxs.1 hlevel (textAll j xs ++ r)
    refine ⟨j, c₂, ?_, le_rfl⟩
    rw [textAll, List.append_assoc]
    exact hopen.line

lemma readsAll_nil : ReadsAll [] := by
  intro levels j terminators r j' c _ _ _ hr hj hend
  rw [textAll, List.nil_append, ahead_eq hr]
  refine (statementList_end (by omega) hend).mono ?_
  rintro _ rfl
  exact meansAll_nil

lemma readsAll_cons {x : Passage} {xs : List Passage} (hx : x.Reads) (hxs : ReadsAll xs)
    (hwell : WellFormedAll (x :: xs)) : ReadsAll (x :: xs) := by
  intro levels j terminators r j' c hd hl hterm hr hj hend
  rw [depthAll] at hd
  have hlevel : j ≤ maxDepth := by omega
  obtain ⟨c₁, hopen⟩ := opens x hwell.1 hlevel (textAll j xs ++ r)
  obtain ⟨j₂, c₂, hline, hfollows⟩ := next_line hwell hlevel hr hj hend
  have hstatement := hx (by omega) hl hterm hline hfollows
  have hrest := hxs (by omega) hl hterm hr hj hend
  have hne : c₂ ≠ c₁ := by
    rintro rfl
    have := LineOf.length_le hline
    have := hopen.length
    omega
  rw [ahead_eq hopen.line, ahead_eq hline] at hstatement
  rw [ahead_eq hline] at hrest
  rw [textAll, List.append_assoc, ahead_eq hopen.line]
  refine (statementList_cons (by omega) (hopen.goesOn hterm) hstatement hne hrest).mono ?_
  rintro _ ⟨us, vs, hus, hvs, rfl⟩
  exact hus.cons hvs

end Passage

end DialogueScript

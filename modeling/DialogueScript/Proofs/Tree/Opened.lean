import DialogueScript.Proofs.Tree.Clean

/-!
Constructs that are written as commands, and the keywords that they are known by. The children of
such a construct begin with a `<<` and its keyword.
-/

namespace DialogueScript

/-- The keywords that a construct can start with. -/
def Kind.openers : Kind → List Kind
  | .ifClause => [.ifKw]
  | .elseIfClause => [.elseifKw]
  | .elseClause | .onceElseClause => [.elseKw]
  | .onceClause => [.onceKw]
  | .setStmt => [.setKw]
  | .callStmt => [.callKw]
  | .declareStmt => [.declareKw]
  | .jumpStmt => [.jumpKw, .detourKw]
  | .returnStmt => [.returnKw]
  | .enumStmt => [.enumKw]
  | .enumCase => [.caseKw]
  | .lineCondition => [.ifKw, .onceKw]
  | _ => []

/-- The keyword of the command that a construct can end with, for a construct that starts with a
keyword and holds the command of its end as well. -/
def Kind.closers : Kind → List Kind
  | .enumStmt => [.endenumKw]
  | _ => []

/-- The nodes that are no construct with a keyword. -/
def Kind.isPlain (k : Kind) : Bool := k.openers.isEmpty && k ≠ .commandStart

namespace Tree

/-! ### Rows of trees -/

/-- Each `<<` among some trees has one of some keywords right behind it. -/
def Keyed (ks : List Kind) (cs : List Tree) : Prop :=
  ∀ before mark after, cs = before ++ .leaf mark :: after → mark.kind = .commandStart →
    ∃ keyword rest, after = .leaf keyword :: rest ∧ keyword.kind ∈ ks

section
variable {ks : List Kind} {cs ds : List Tree}

lemma keyed_of_ne (h : ∀ c ∈ cs, c.kind ≠ .commandStart) : Keyed ks cs := by
  rintro before mark after rfl hmark
  exact absurd hmark (h (.leaf mark) (by simp))

lemma keyed_pair {mark keyword : Token} (hk : keyword.kind ∈ ks)
    (hne : keyword.kind ≠ .commandStart) :
    Keyed ks [.leaf mark, .leaf keyword] := by
  intro before mark' after heq hmark'
  rcases before with _ | ⟨b, _ | ⟨b', before⟩⟩
  · simp only [List.nil_append, List.cons.injEq, leaf.injEq] at heq
    exact ⟨keyword, [], heq.2.symm, hk⟩
  · simp only [List.cons_append, List.nil_append, List.cons.injEq, leaf.injEq] at heq
    exact absurd (heq.2.1 ▸ hmark') hne
  · simp at heq

lemma Keyed.append (h : Keyed ks cs) (h' : Keyed ks ds) : Keyed ks (cs ++ ds) := by
  intro before mark after heq hmark
  rcases List.append_eq_append_iff.1 heq with ⟨zs, -, hds⟩ | ⟨zs, hcs, hafter⟩
  · exact h' zs mark after hds hmark
  · rcases zs with _ | ⟨z, zs⟩
    · exact h' [] mark after hafter.symm hmark
    · rw [List.cons_append, List.cons.injEq] at hafter
      obtain ⟨rfl, rfl⟩ := hafter
      obtain ⟨keyword, rest, rfl, hk⟩ := h before mark zs hcs hmark
      exact ⟨keyword, rest ++ ds, rfl, hk⟩

end

/-! ### Constructs -/

/-- The children of a construct begin with a `<<` and a keyword of the construct. Behind them there
is no `<<` but that of its end. -/
def Opened (k : Kind) (cs : List Tree) : Prop :=
  ∃ mark keyword rest, cs = .leaf mark :: .leaf keyword :: rest ∧ mark.kind = .commandStart ∧
    keyword.kind ∈ k.openers ∧ Keyed k.closers rest

/-- Every construct with a keyword begins with it. -/
def AllOpened (t : Tree) : Prop := ∀ k cs, node k cs ∈ t.subtrees → k.openers ≠ [] → Opened k cs

lemma allOpened_leaf (token : Token) : AllOpened (leaf token) := by
  intro k cs h
  simp [subtrees] at h

lemma allOpened_node {k : Kind} {cs : List Tree} (hk : k.openers ≠ [] → Opened k cs)
    (h : ∀ c ∈ cs, AllOpened c) : AllOpened (node k cs) := by
  intro j ds hmem hj
  rcases mem_subtrees_node.1 hmem with heq | ⟨c, hc, hmem⟩
  · injection heq with hkind hchildren
    subst hkind hchildren
    exact hk hj
  · exact h c hc j ds hmem hj

lemma allOpened_of_plain {k : Kind} {cs : List Tree} (hk : k.isPlain = true)
    (h : ∀ c ∈ cs, AllOpened c) :
    AllOpened (node k cs) := by
  refine allOpened_node (fun hopeners => absurd ?_ hopeners) h
  simp only [Kind.isPlain, Bool.and_eq_true, List.isEmpty_iff] at hk
  exact hk.1

/-- What stands behind a `<<` and a keyword decides. -/
lemma allOpened_command {cs : List Tree} (mark keyword : Token) (h : ∀ c ∈ cs, AllOpened c) :
    ∀ c ∈ leaf mark :: leaf keyword :: cs, AllOpened c :=
  List.forall_mem_cons.2 ⟨allOpened_leaf mark, List.forall_mem_cons.2 ⟨allOpened_leaf keyword, h⟩⟩

/-- A tree that can stand in a construct behind its keyword. -/
structure Unmarked (t : Tree) : Prop where
  allOpened : AllOpened t
  kind : t.kind ≠ .commandStart

lemma unmarked_of_plain {k : Kind} {cs : List Tree} (hk : k.isPlain = true)
    (h : ∀ c ∈ cs, AllOpened c) :
    Unmarked (node k cs) := by
  refine ⟨allOpened_of_plain hk h, ?_⟩
  simp only [Kind.isPlain, Bool.and_eq_true, decide_eq_true_eq] at hk
  exact hk.2

lemma keyed_of_unmarked {ks : List Kind} {cs : List Tree} (h : ∀ c ∈ cs, Unmarked c) :
    Keyed ks cs :=
  keyed_of_ne fun c hc => (h c hc).kind

section
variable {k : Kind} {mark keyword : Token} {cs : List Tree} (hmark : mark.kind = .commandStart)
  (hk : keyword.kind ∈ k.openers)
include hmark hk

lemma unmarked_of_opened (hcs : Keyed k.closers cs) (h : ∀ c ∈ cs, AllOpened c) :
    Unmarked (node k (.leaf mark :: .leaf keyword :: cs)) := by
  refine ⟨allOpened_node (fun _ => ⟨mark, keyword, cs, rfl, hmark, hk, hcs⟩)
    (allOpened_command mark keyword h), ?_⟩
  rintro rfl
  simp [Kind.openers] at hk

/-- A construct that does not hold the command of its end. -/
lemma unmarked_of_command (h : ∀ c ∈ cs, Unmarked c) :
    Unmarked (node k (.leaf mark :: .leaf keyword :: cs)) :=
  unmarked_of_opened hmark hk (keyed_of_unmarked h) fun c hc => (h c hc).allOpened

end

end Tree

end DialogueScript

import DialogueScript.Proofs.Tree.Forest

/-!
Trees without errors. The one error that a clean tree can hold is a direct child of a header that
has no colon.
-/

namespace DialogueScript

namespace Tree

mutual

/-- A tree and everything below it. -/
def subtrees : Tree → List Tree
  | leaf t => [leaf t]
  | node k cs => node k cs :: subtreesAll cs

def subtreesAll : List Tree → List Tree
  | [] => []
  | c :: cs => subtrees c ++ subtreesAll cs

end

lemma subtreesAll_eq (cs : List Tree) : subtreesAll cs = cs.flatMap subtrees := by
  induction cs with
  | nil => rw [subtreesAll, List.flatMap_nil]
  | cons c cs ih => rw [subtreesAll, List.flatMap_cons, ih]

lemma mem_subtrees_node {k : Kind} {cs : List Tree} {c : Tree} :
    c ∈ (node k cs).subtrees ↔ c = node k cs ∨ ∃ d ∈ cs, c ∈ d.subtrees := by
  rw [subtrees, subtreesAll_eq, List.mem_cons, List.mem_flatMap]

lemma self_mem_subtrees (t : Tree) : t ∈ t.subtrees := by
  cases t <;> rw [subtrees] <;> simp

/-- Everything below a tree but itself is a child of something. -/
lemma parent_of_mem (t : Tree) {c : Tree} (h : c ∈ t.subtrees) :
    c = t ∨ ∃ p ∈ t.subtrees, c ∈ p.children := by
  match t with
  | leaf token =>
    rw [subtrees, List.mem_singleton] at h
    exact .inl h
  | node k cs =>
    rcases mem_subtrees_node.1 h with rfl | ⟨d, hd, hc⟩
    · exact .inl rfl
    · rcases parent_of_mem d hc with rfl | ⟨p, hp, hcp⟩
      · exact .inr ⟨node k cs, self_mem_subtrees _, hd⟩
      · exact .inr ⟨p, mem_subtrees_node.2 (.inr ⟨d, hd, hp⟩), hcp⟩
termination_by t

lemma child_mem (t : Tree) {p c : Tree} (hp : p ∈ t.subtrees) (hc : c ∈ p.children) :
    c ∈ t.subtrees := by
  match t with
  | leaf token =>
    rw [subtrees, List.mem_singleton] at hp
    simp [hp, children] at hc
  | node k cs =>
    rcases mem_subtrees_node.1 hp with rfl | ⟨d, hd, hpd⟩
    · exact mem_subtrees_node.2 (.inr ⟨c, hc, self_mem_subtrees c⟩)
    · exact mem_subtrees_node.2 (.inr ⟨d, hd, child_mem d hpd hc⟩)
termination_by t

/-- Whether a header has its colon. -/
def hasColon (t : Tree) : Bool := t.children.any (·.kind = .colon)

/-- Whether a node holds an error node as a direct child. -/
def holdsError (t : Tree) : Bool := t.children.any (·.kind = .error)

/-- What is said of each single node or token: it is no error token, and it holds an error node only
if it is a header without a colon, and then it does. -/
structure Fine (t : Tree) : Prop where
  token : t.kind ≠ .errorToken
  error : t.holdsError = true ↔ t.kind = .header ∧ t.hasColon = false

/-- A tree that is no error, with everything below it as it should be. -/
structure Clean (t : Tree) : Prop where
  kind : t.kind ≠ .error
  fine : ∀ c ∈ t.subtrees, c.Fine

/-- The kinds of which nothing special is said. -/
def Ordinary (k : Kind) : Prop := k ≠ .error ∧ k ≠ .errorToken ∧ k ≠ .header

instance : DecidablePred Ordinary := fun _ => inferInstanceAs (Decidable (_ ∧ _))

lemma clean_leaf {token : Token} (h : Ordinary token.kind) : (leaf token).Clean := by
  refine ⟨h.1, fun c hc => ?_⟩
  obtain rfl : c = leaf token := by simpa [subtrees] using hc
  exact ⟨h.2.1, by simp [holdsError, children, kind, h.2.2]⟩

lemma fine_node {k : Kind} {cs : List Tree} (hk : (node k cs).Fine)
    (h : ∀ c ∈ cs, ∀ d ∈ c.subtrees, d.Fine) : ∀ c ∈ (node k cs).subtrees, c.Fine := by
  intro c hc
  rcases mem_subtrees_node.1 hc with rfl | ⟨d, hd, hc⟩
  · exact hk
  · exact h d hd c hc

lemma holdsError_node {cs : List Tree} (k : Kind) (h : ∀ c ∈ cs, c.Clean) :
    (node k cs).holdsError = false := by
  simp only [holdsError, children, List.any_eq_false, decide_eq_true_eq]
  exact fun c hc => (h c hc).kind

lemma clean_node {k : Kind} {cs : List Tree} (hk : Ordinary k) (h : ∀ c ∈ cs, c.Clean) :
    (node k cs).Clean :=
  ⟨hk.1, fine_node ⟨hk.2.1, by simp [holdsError_node k h, kind, hk.2.2]⟩ fun c hc => (h c hc).fine⟩

/-- A clean tree holds no errors at all just if each of its headers has a colon. -/
lemma Clean.free_iff {t : Tree} (h : t.Clean) :
    (∀ c ∈ t.subtrees, c.kind ≠ .error ∧ c.kind ≠ .errorToken) ↔
      ∀ c ∈ t.subtrees, c.kind = .header → c.hasColon = true := by
  refine ⟨fun hfree c hc hk => ?_, fun hcolon c hc => ⟨fun hk => ?_, (h.fine c hc).token⟩⟩
  · by_contra hn
    have herror := (h.fine c hc).error.2 ⟨hk, by simpa using hn⟩
    obtain ⟨d, hd, hkd⟩ := List.any_eq_true.1 herror
    exact (hfree d (child_mem t hc hd)).1 (by simpa using hkd)
  · rcases parent_of_mem t hc with rfl | ⟨p, hp, hcp⟩
    · exact h.kind hk
    · obtain ⟨hheader, hn⟩ := (h.fine p hp).error.1 (List.any_eq_true.2 ⟨c, hcp, by simpa using hk⟩)
      simp [hcolon p hp hheader] at hn

end Tree

end DialogueScript

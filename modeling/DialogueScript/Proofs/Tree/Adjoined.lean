import DialogueScript.Proofs.Scanner.Invariant
import DialogueScript.Proofs.Tree.Clean

/-!
The parts of a text, one behind the other. A part starts where the one in front of it ends; only
where it begins with one of some marks, blanks can stand between the two.
-/

namespace DialogueScript

/-- The token ends with these blanks, and they are all the trivia behind its own text. -/
structure Token.EndsIn (k : Token) (blanks : Text) : Prop where
  blank : blanks.all isBlank = true
  text : ∃ own, k.fullText = own ++ blanks
  total : k.trailing.total = Text.size blanks

/-- The tokens of dialogue and command text. -/
def Kind.isProse : Kind → Bool
  | .text | .textEscape | .commandText => true
  | _ => false

/-- The nodes that hold a text of several parts. -/
def Kind.holdsText : Kind → Bool
  | .lineText | .commandStmt => true
  | _ => false

lemma Kind.holdsText_cases {k : Kind} (h : k.holdsText = true) :
    k = .lineText ∨ k = .commandStmt := by
  unfold Kind.holdsText at h
  split at h
  · exact .inl rfl
  · exact .inr rfl
  · exact absurd h (by decide)

/-- What ends a text of another kind and is a part of this one. -/
def Kind.marks : Kind → List String
  | .lineText => [">>"]
  | .commandStmt => ["//", "#", "<<"]
  | _ => []

namespace Tree

/-- The parts that dialogue and command text consist of. -/
def isPart : Tree → Bool
  | leaf t => t.kind.isProse
  | node k _ => k = .interpolation

lemma kind_ne_header {t : Tree} (h : t.isPart = true) : t.kind ≠ .header := by
  cases t with
  | leaf token => rintro hk; simp [isPart, show token.kind = .header from hk, Kind.isProse] at h
  | node k cs => rintro rfl; simp [isPart] at h

lemma holdsError_of_leaf {t : Tree} (h : t.isNode = false) : t.holdsError = false := by
  cases t with
  | leaf token => rfl
  | node k cs => simp [isNode] at h

/-- Where the part `b`, with which the text `after` begins, stands behind the part `a`. -/
def Meets (marks : List String) (a b : Tree) (after : Text) : Prop :=
  ∃ last first blanks, a.tokens.getLast? = some last ∧ b.tokens.head? = some first ∧
    first.leading = [] ∧
    last.EndsIn blanks ∧
      (blanks = [] ∨ b.isNode = false ∧ marks.any (Text.startsWith after ·) = true)

/-- Parts meet wherever one stands behind another one in a row, in front of the text `after`. Of a
part with an error nothing is said. -/
def Adjoined (marks : List String) (cs : List Tree) (after : Text) : Prop :=
  ∀ i a b, cs[i]? = some a → cs[i + 1]? = some b → a.isPart = true → b.isPart = true →
    a.holdsError = false → Meets marks a b (textAll (cs.drop (i + 1)) ++ after)

section
variable {marks : List String} {a b c : Tree} {cs ds : List Tree} {after : Text}

lemma text_of_endsIn {last : Token} {blanks : Text} (hlast : a.tokens.getLast? = some last)
    (h : last.EndsIn blanks) : ∃ own, a.text = own ++ blanks := by
  obtain ⟨us, hus⟩ := List.getLast?_eq_some_iff.1 hlast
  obtain ⟨own, hown⟩ := h.text
  exact ⟨us.flatMap Token.fullText ++ own, by simp [text_eq_tokens, hus, hown]⟩

lemma Meets.append (h : Meets marks a b after) (more : Text) : Meets marks a b (after ++ more) := by
  obtain ⟨last, first, blanks, h1, h2, h3, h4, h5⟩ := h
  refine ⟨last, first, blanks, h1, h2, h3, h4, h5.imp id fun ⟨hleaf, hmark⟩ => ⟨hleaf, ?_⟩⟩
  obtain ⟨m, hm, hstart⟩ := List.any_eq_true.1 hmark
  exact List.any_eq_true.2 ⟨m, hm, Text.startsWith_append hstart more⟩

lemma adjoined_nil : Adjoined marks [] after := by simp [Adjoined]

lemma Adjoined.append (h : Adjoined marks cs after) (more : Text) :
    Adjoined marks cs (after ++ more) := by
  intro i a b hi hb ha hpart hfree
  rw [← List.append_assoc]
  exact (h i a b hi hb ha hpart hfree).append more

/-- A further tree at the end. -/
lemma Adjoined.concat (h : Adjoined marks cs (c.text ++ after))
    (hlast : ∀ a, cs.getLast? = some a → a.isPart = true → c.isPart = true → a.holdsError = false →
      Meets marks a c (c.text ++ after)) : Adjoined marks (cs ++ [c]) after := by
  intro i a b hi hb ha hpart hfree
  rcases Nat.lt_trichotomy (i + 1) cs.length with hlt | heq | hgt
  · rw [List.getElem?_append_left (by omega)] at hi
    rw [List.getElem?_append_left hlt] at hb
    rw [List.drop_append_of_le_length hlt.le, textAll_append, textAll_cons, textAll_nil,
      List.append_nil, List.append_assoc]
    exact h i a b hi hb ha hpart hfree
  · obtain rfl : c = b := by simpa [heq] using hb
    rw [List.getElem?_append_left (by omega)] at hi
    have hnewest : cs.getLast? = some a := by
      rw [List.getLast?_eq_getElem?, ← heq]
      exact hi
    rw [heq, List.drop_left, textAll_cons, textAll_nil, List.append_nil]
    exact hlast a hnewest ha hpart hfree
  · have hnone : (cs ++ [c])[i + 1]? = none := List.getElem?_eq_none (by simp; omega)
    simp [hnone] at hb

/-- Behind the last part anything else can follow. -/
lemma Adjoined.extend (h : Adjoined marks cs []) (hds : ∀ d ∈ ds, d.isPart = false) :
    Adjoined marks (cs ++ ds) [] := by
  induction ds using List.reverseRecOn with
  | nil => simpa using h
  | append_singleton ds d ih =>
    have hrest := ih fun c hc => hds c (List.mem_append_left _ hc)
    rw [← List.append_assoc]
    refine Adjoined.concat (hrest.append (d.text ++ [])) fun a _ _ hd => ?_
    simp [hds d (by simp)] at hd

end

/-- The parts among some trees stand together. -/
def Together (cs : List Tree) : Prop :=
  ∃ us vs ws, cs = us ++ vs ++ ws ∧ (∀ c ∈ us ++ ws, c.isPart = false) ∧ ∀ c ∈ vs, c.isPart = true

/-- What is said of the children of a node that holds a text: in a line they are parts and errors,
in a command the parts stand together, and in both the parts meet. -/
structure TextRow (k : Kind) (cs : List Tree) : Prop where
  parts : k = .lineText → ∀ c ∈ cs, c.isPart = true ∨ c.kind = .error
  together : k = .commandStmt → Together cs
  adjoined : k.holdsText = true → Adjoined k.marks cs []

lemma textRow_of_not {k : Kind} (h : k.holdsText = false) (cs : List Tree) : TextRow k cs :=
  ⟨by rintro rfl; simp [Kind.holdsText] at h, by rintro rfl; simp [Kind.holdsText] at h,
    by simp [h]⟩

end Tree

end DialogueScript

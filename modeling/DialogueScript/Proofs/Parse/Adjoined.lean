import DialogueScript.Proofs.Parse.Lossless
import DialogueScript.Proofs.Parse.Nesting
import DialogueScript.Proofs.Parse.Silent
import DialogueScript.Proofs.Tree.Located

/-!
Where the parts of a text stand in the text that is read. Nothing is between two of them but blanks
in front of a mark, which the part in front took for trivia since the mark could have ended the
text.
-/

set_option synthInstance.maxSize 4096

namespace DialogueScript

open DialogueScript.Tree

namespace Tree

/-- In every line and every command of a tree the parts meet. -/
def TextRows (t : Tree) : Prop := ∀ d ∈ t.subtrees, TextRow d.kind d.children

lemma textRows_leaf (token : Token) : (leaf token).TextRows := by
  intro d hd
  obtain rfl : d = leaf token := by simpa [subtrees] using hd
  exact ⟨by simp [children], fun _ => ⟨[], [], [], by simp [children]⟩, fun _ => adjoined_nil⟩

lemma textRows_node {k : Kind} {cs : List Tree} (hk : TextRow k cs) (h : ∀ c ∈ cs, c.TextRows) :
    (node k cs).TextRows := by
  intro d hd
  rcases mem_subtrees_node.1 hd with rfl | ⟨c, hc, hd⟩
  · exact hk
  · exact h c hc d hd

lemma textRows_of_not {k : Kind} {cs : List Tree} (hk : k.holdsText = false)
    (h : ∀ c ∈ cs, c.TextRows) :
    (node k cs).TextRows :=
  textRows_node (textRow_of_not hk cs) h

end Tree

namespace Parser

lemma holdsText_of_isExprKind {k : Kind} (h : k.isExprKind = true ∨ k = .argList) :
    k.holdsText = false := by
  rcases h with h | rfl
  · unfold Kind.isExprKind at h
    split at h
    all_goals first | rfl | exact absurd h (by decide)
  · rfl

lemma holdsText_of_holdsStatements {k : Kind} (h : k.holdsStatements = true) :
    k.holdsText = false := by
  unfold Kind.holdsStatements at h
  split at h
  all_goals first | rfl | exact absurd h (by decide)

/-- Trees in which the parts of every text meet, whatever the number of levels. -/
def TextRowsAt (_ : Nat) (t : Tree) : Prop := t.TextRows

instance : Tolerant TextRows where
  leaf token _ := textRows_leaf token
  name _ := textRows_of_not rfl
  error _ h := textRows_of_not rfl fun c hc => (h c hc).1

instance : Graded TextRowsAt where
  leaf _ token _ := textRows_leaf token
  node _ _ _ _ := textRows_node
  error _ := Tolerant.error (P := TextRows)
  expr _ _ := ExprTree.closed (P := TextRows) fun _ _ hk =>
    textRows_of_not (holdsText_of_isExprKind hk)

instance (n : Nat) (mode : Mode) : Adds true (TextRowsAt n) (advance mode) :=
  .advance mode textRows_leaf

/-- **In every line and every command the parts meet.** -/
instance : Layered TextRowsAt where
  token _ := textRows_leaf
  mono _ _ h := h
  flat _ _ _ hk _ := textRows_of_not (holdsText_of_holdsStatements hk)
  deeper _ _ _ hk := textRows_of_not (holdsText_of_holdsStatements hk)
  enum n _ :=
    grown_enum (Graded.leaf (P := TextRowsAt) n) (adds_enumTail n fun _ => textRows_of_not rfl)
      fun _ _ hk _ =>
      textRows_of_not (by rcases hk with rfl | rfl <;> rfl)

end Parser

namespace Located

variable {l a b : Located} {t : Tree} {i : Nat}

/-- Nothing is between two places in a text, without their trivia, but blanks; and these only in
front of a token that begins with one of the marks. -/
def Abuts (text : Text) (marks : List String) (a b : Located) : Prop :=
  ∃ before blanks after, text = before ++ blanks ++ after ∧ Text.size before = a.trimmedRange.stop ∧
    Text.size (before ++ blanks) = b.trimmedRange.start ∧ blanks.all isBlank = true ∧
    (blanks = [] ∨ b.isNode = false ∧ marks.any (Text.startsWith after ·) = true)

/-- Two parts in a row among the parts are two children in a row. -/
lemma next_of_together (h : Together l.tree.children)
    (ha : (l.children.filter (·.tree.isPart))[i]? = some a)
    (hb : (l.children.filter (·.tree.isPart))[i + 1]? = some b) :
    ∃ j, l.children[j]? = some a ∧ l.children[j + 1]? = some b := by
  obtain ⟨us, vs, ws, hcs, hapart, hparts⟩ := h
  have hmap : l.children.map tree = us ++ vs ++ ws := (map_tree_placeAll _).trans hcs
  obtain ⟨front, zs, hchildren, hfront, hzs⟩ := List.map_eq_append_iff.1 hmap
  obtain ⟨xs, ys, rfl, hxs, hys⟩ := List.map_eq_append_iff.1 hfront
  have hx : xs.filter (·.tree.isPart) = [] := List.filter_eq_nil_iff.2 fun c hc => by
    simp [hapart c.tree (List.mem_append_left _ (hxs ▸ List.mem_map_of_mem hc))]
  have hy : ys.filter (·.tree.isPart) = ys := List.filter_eq_self.2 fun c hc =>
    hparts c.tree (hys ▸ List.mem_map_of_mem hc)
  have hz : zs.filter (·.tree.isPart) = [] := List.filter_eq_nil_iff.2 fun c hc => by
    simp [hapart c.tree (List.mem_append_right _ (hzs ▸ List.mem_map_of_mem hc))]
  rw [hchildren, List.filter_append, List.filter_append, hx, hy, hz, List.nil_append,
    List.append_nil] at ha hb
  have hget {n : Nat} {c : Located} (hc : ys[n]? = some c) :
      (xs ++ ys ++ zs)[xs.length + n]? = some c := by
    obtain ⟨hlt, -⟩ := List.getElem?_eq_some_iff.1 hc
    rw [List.append_assoc, List.getElem?_append_right (Nat.le_add_right _ _),
      Nat.add_sub_cancel_left, List.getElem?_append_left hlt, hc]
  exact ⟨xs.length + i, hchildren ▸ hget ha, hchildren ▸ hget hb⟩

lemma of_getElem?_children {c : Located} (h : l.children[i]? = some c) :
    l.tree.children[i]? = some c.tree ∧
      c.offset = l.offset + Text.size (textAll (l.tree.children.take i)) := by
  rw [getElem?_children, Option.map_eq_some_iff] at h
  obtain ⟨d, hd, rfl⟩ := h
  exact ⟨hd, by rw [← Tree.sizeAll_eq]; rfl⟩

/-- Two children that meet abut in the text. -/
lemma abuts_of_meets (hl : l.Within t) (ht : t.TriviaFits) {marks : List String}
    (ha : l.children[i]? = some a) (hb : l.children[i + 1]? = some b)
    (h : Meets marks a.tree b.tree (textAll (l.tree.children.drop (i + 1)))) :
    Abuts t.text marks a b := by
  obtain ⟨-, front, back, htext, hoffset⟩ := hl.text
  obtain ⟨hatree, haoffset⟩ := of_getElem?_children ha
  obtain ⟨-, hboffset⟩ := of_getElem?_children hb
  obtain ⟨last, first, blanks, hlast, hfirst, hleading, hends, hstop⟩ := h.append back
  obtain ⟨own, hown⟩ := text_of_endsIn hlast hends
  have hsplit := textAll_split hatree
  rw [textAll_children (isNode_of_child hatree)] at hsplit
  have hsize : a.range.stop = a.offset + (Text.size own + Text.size blanks) := by
    rw [← Text.size_append, ← hown, ← Tree.size_eq]
    rfl
  obtain ⟨k, hk⟩ := Option.ne_none_iff_exists'.1 (mt List.head?_eq_none_iff.1
    (List.ne_nil_of_mem (List.mem_of_getLast? hlast)))
  obtain ⟨-, hastop⟩ :=
    trimmedRange_of_tokens a ((hl.of_child (List.mem_of_getElem? ha)).fits ht) hk hlast
  obtain ⟨hbstart, -⟩ :=
    trimmedRange_of_tokens b ((hl.of_child (List.mem_of_getElem? hb)).fits ht) hfirst
    (List.getLast?_eq_some_getLast (List.ne_nil_of_mem (List.mem_of_mem_head? hfirst)))
  refine ⟨front ++ textAll (l.tree.children.take i) ++ own, blanks,
    textAll (l.tree.children.drop (i + 1)) ++ back, by
      simp [htext, hsplit, hown], ?_, ?_, hends.1, hstop⟩
  · rw [hends.total, hsize, haoffset, hoffset] at hastop
    rw [Text.size_append, Text.size_append]
    omega
  · have htake : l.tree.children.take (i + 1) = l.tree.children.take i ++ [a.tree] := by
      rw [List.take_add_one, hatree]
      rfl
    have hstart : b.trimmedRange.start = b.offset := by
      rw [hbstart, hleading]
      rfl
    rw [hstart, hboffset, hoffset, htake, textAll_append, textAll_cons, textAll_nil, hown]
    simp

end Located

open DialogueScript.Parser ParserState

namespace Parse

lemma textRow_of_element (config : Config) (t : Text) {l : Located}
    (hl : l ∈ (ofText config t).root.elements) : TextRow l.tree.kind l.tree.children := by
  have hrows : (ofText config t).tree.TextRows := textRows_of_not (k := .sourceFile) rfl fun c hc =>
    layered_children (P := TextRowsAt) config t c (mem_trees.1 hc)
  exact hrows _ (Located.Within.of_element (ofText config t).root rfl l hl).text.1

section
variable {config : Config} {t : Text} (h : (ofText config t).diagnostics = []) {l : Located}
  (hl : l ∈ (ofText config t).root.elements)
include h hl

/-- A line consists of its parts. -/
lemma isPart_of_line (hk : l.kind = .lineText) : ∀ c ∈ l.tree.children, c.isPart = true := by
  intro c hc
  refine ((textRow_of_element config t hl).parts hk c hc).resolve_right fun herror => ?_
  have hmem := (Located.Within.of_element (ofText config t).root rfl l hl).text.1
  have hheader : l.tree.kind ≠ .header := by
    rw [show l.tree.kind = .lineText from hk]
    simp
  have hholds : l.tree.holdsError = true := List.any_eq_true.2 ⟨c, hc, by simpa using herror⟩
  simp [holdsError_of_silent h hmem hheader] at hholds

lemma together_of_element (hk : l.kind.holdsText = true) : Together l.tree.children := by
  rcases Kind.holdsText_cases hk with hline | hcommand
  · exact ⟨[], l.tree.children, [], by simp, by simp, isPart_of_line h hl hline⟩
  · exact (textRow_of_element config t hl).together hcommand

end

/-- **The parts of a text stand one behind the other**, if nothing is reported. A line consists of
its parts. In a line as in a command, nothing is between two parts that follow each other but
blanks, and these only in front of a part that begins with what ends a text of another kind. -/
theorem parts_adjoin (config : Config) (t : Text) (h : (ofText config t).diagnostics = []) :
    ∀ l ∈ (ofText config t).root.elements, l.kind.holdsText = true →
      (l.kind = .lineText → ∀ c ∈ l.children, c.tree.isPart = true) ∧
      (l.children.filter (·.tree.isPart)).IsChain (Located.Abuts t l.kind.marks) := by
  intro l hl hk
  have hwithin := Located.Within.of_element (ofText config t).root rfl l hl
  refine ⟨fun hline c hc => ?_, List.isChain_iff_getElem.2 fun i hi => ?_⟩
  · obtain ⟨n, hn⟩ := List.mem_iff_getElem?.1 hc
    exact isPart_of_line h hl hline _ (List.mem_of_getElem? (Located.of_getElem?_children hn).1)
  · obtain ⟨j, hja, hjb⟩ := Located.next_of_together (together_of_element h hl hk)
      (List.getElem?_eq_getElem (by omega)) (List.getElem?_eq_getElem hi)
    obtain ⟨hamem, hapart⟩ := List.mem_filter.1 (List.getElem_mem (Nat.lt_of_succ_lt hi))
    have hbpart := (List.mem_filter.1 (List.getElem_mem hi)).2
    have herror := holdsError_of_silent h (hwithin.of_child hamem).text.1 (kind_ne_header hapart)
    have hmeets :=
      (textRow_of_element config t hl).adjoined hk j _ _ (Located.of_getElem?_children hja).1
      (Located.of_getElem?_children hjb).1 hapart hbpart herror
    rw [List.append_nil] at hmeets
    have habuts := Located.abuts_of_meets hwithin (triviaFits config t none) hja hjb hmeets
    rwa [show (ofText config t).tree.text = t from (tree_holds_text config t none).2] at habuts

theorem parts_adjoin_line :
    (ofText {} "title: A\n---\nx > >> y\n===\n".toList).diagnostics = [] ∧
    ∃ l ∈ (ofText {} "title: A\n---\nx > >> y\n===\n".toList).root.elements, l.kind = .lineText ∧
      (l.children.filter (·.tree.isPart)).length = 5 ∧ (∀ c ∈ l.children, c.tree.isPart = true) ∧
      (l.children.filter (·.tree.isPart)).IsChain
        (Located.Abuts "title: A\n---\nx > >> y\n===\n".toList l.kind.marks) := by
  have h : (ofText {} "title: A\n---\nx > >> y\n===\n".toList).diagnostics = [] := by decide +kernel
  obtain ⟨l, hl, hk, hlength⟩ : ∃ l ∈
      (ofText {} "title: A\n---\nx > >> y\n===\n".toList).root.elements,
      l.kind = .lineText ∧ (l.children.filter (·.tree.isPart)).length = 5 := by decide +kernel
  obtain ⟨hparts, hchain⟩ := parts_adjoin {} _ h l hl (by rw [hk]; rfl)
  exact ⟨h, l, hl, hk, hlength, hparts hk, hchain⟩

/-- A line with blanks in front of `>>`, and a command with blanks in front of `#`: they are in no
part. -/
theorem parts_apart :
    ((ofText {} "title: A\n---\nx > >> y\n===\n".toList).diagnostics = [] ∧
      ¬ ∀ l ∈ (ofText {} "title: A\n---\nx > >> y\n===\n".toList).root.elements,
        l.kind = .lineText →
        l.children.IsChain fun a b => b.trimmedRange.start = a.trimmedRange.stop) ∧
    ((ofText {} "title: A\n---\n<<give \x7b$n\x7d #gems>>\n===\n".toList).diagnostics = [] ∧
      ¬ ∀ l ∈ (ofText {} "title: A\n---\n<<give \x7b$n\x7d #gems>>\n===\n".toList).root.elements,
        l.kind = .commandStmt → (l.children.filter (·.tree.isPart)).IsChain fun a b =>
          b.trimmedRange.start = a.trimmedRange.stop) := by
  decide +kernel

end Parse

end DialogueScript

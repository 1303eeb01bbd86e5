import DialogueScript.Proofs.Grammar.Framed
import DialogueScript.Proofs.Scanner.Closing

/-!
A node that starts with its title, behind some skipped lines. They become trivia of the title, and
nothing else of the node changes.
-/

namespace DialogueScript

namespace Tree

mutual

/-- Changes the first token of a tree. -/
def onFirst (f : Token → Token) : Tree → Tree
  | leaf t => leaf (f t)
  | node k cs => node k (onFirstAll f cs)

/-- Changes the first token of some trees in a row. -/
def onFirstAll (f : Token → Token) : List Tree → List Tree
  | [] => []
  | c :: cs => onFirst f c :: cs

end

end Tree

lemma Scanner.Skipping.looking {w : Text} {s s' : Scanner} (h : s.Skipping w s') :
    (s.looking .header).Skipping w (s'.looking .header) := by
  rw [Scanner.looking, Scanner.looking, settle_of_insensitive s rfl, settle_of_insensitive s' rfl]
  exact ⟨h.config, h.stack, h.rest, h.exhausted, h.terminated, h.titled, h.lineStart, h.lineStart',
    h.planDone, h.planDone'⟩

namespace ParserState

open DialogueScript.Parser

/-- Two states in front of the same title, the second one with some skipped lines before it. -/
structure Skipping (c : Change) (w : Text) (s s' : ParserState) : Prop where
  good : s.Good
  good' : s'.Good
  quiet : s.Quiet
  quiet' : s'.Quiet
  scanner : s.scanner.Skipping w s'.scanner
  sameTail : c.SameTail
  oldBase : c.oldBase = s.scanner.offset
  newBase : c.newBase = s'.scanner.offset + Text.size w
  oldFound : c.oldFound = s.diagnostics
  newFound : c.newFound = s'.diagnostics

lemma Abreast.complete {c : Change} {s s' : ParserState} (h : Abreast c s s') (k : Kind) :
    Abreast c (s.complete k) (s'.complete k) :=
  h.setForest rfl

namespace Skipping

variable {c : Change} {w : Text} {s s' : ParserState} (h : Skipping c w s s')
include h

lemma look : Skipping c w (s.look .header) (s'.look .header) where
  good := h.good.look .header
  good' := h.good'.look .header
  quiet := ⟨h.quiet.never, h.quiet.running⟩
  quiet' := ⟨h.quiet'.never, h.quiet'.running⟩
  scanner := h.scanner.looking
  sameTail := h.sameTail
  oldBase := h.oldBase.trans (Scanner.settle_offset _ _).symm
  newBase := h.newBase.trans (congrArg (· + Text.size w) (Scanner.settle_offset _ _).symm)
  oldFound := h.oldFound
  newFound := h.newFound

lemma setForest (f f' : Forest) (r r' : Record) : Skipping c w
    { s with forest := f, record := r } { s' with forest := f', record := r' } :=
  ⟨⟨h.good.scanner, h.good.silent⟩, ⟨h.good'.scanner, h.good'.silent⟩,
    ⟨h.quiet.never, h.quiet.running⟩, ⟨h.quiet'.never, h.quiet'.running⟩, h.scanner, h.sameTail,
    h.oldBase, h.newBase, h.oldFound, h.newFound⟩

lemma start : Skipping c w s.start s'.start := h.setForest _ _ _ _

lemma mark : Skipping c w s.mark s'.mark :=
  ⟨h.good.mark, h.good'.mark, ⟨h.quiet.never, h.quiet.running⟩,
    ⟨h.quiet'.never, h.quiet'.running⟩, h.scanner, h.sameTail, h.oldBase, h.newBase, h.oldFound,
    h.newFound⟩

lemma kindAt : s.kindAt .header = .titleKw ∧ s'.kindAt .header = .titleKw := by
  refine ⟨h.scanner.kind, ?_⟩
  rw [ParserState.kindAt, h.scanner.token]
  exact h.scanner.kind

lemma rangeAt : ∃ r : Range, s.rangeAt .header = ⟨c.oldBase + r.start, c.oldBase + r.stop⟩ ∧
    s'.rangeAt .header = ⟨c.newBase + r.start, c.newBase + r.stop⟩ := by
  rw [h.oldBase, h.newBase, h.good.rangeAt_eq, h.good'.rangeAt_eq]
  exact h.scanner.range

/-- Behind the title the two states cannot be told apart. -/
lemma take : Abreast c (s.take .header) (s'.take .header) := by
  obtain ⟨own, trailing, h1, h2⟩ := h.scanner.ahead_eq
  obtain ⟨hnil, hnil'⟩ := h.sameTail
  have halike := h.scanner.after
  rw [← h.oldBase, ← h.newBase] at halike
  obtain ⟨a1, a2, a3, a4, a5, a6⟩ := halike
  refine ⟨good_start (h.good.take .header), good_start (h.good'.take .header), ?_, rfl,
    ⟨[], ?_, ?_⟩, ⟨h.quiet.never, h.quiet.running⟩, ⟨h.quiet'.never, h.quiet'.running⟩⟩
  · rw [hnil, hnil']
    exact ⟨a1, a2, a3, a4, a5, a6⟩
  · change (s.take .header).diagnostics = c.oldFound ++ []
    rw [h.good.diagnostics_take, h1]
    simp [errorsOf, h.oldFound]
  · change (s'.take .header).diagnostics = c.newFound ++ []
    rw [h.good'.diagnostics_take, h2]
    simp [errorsOf, h.newFound]

end Skipping

end ParserState

namespace Parser

open ParserState

instance : Framed titleRest := by
  unfold titleRest
  infer_instance

/-- Headers that start with a title go on behind it. -/
lemma run_headers_of_title {s : ParserState} (hg : s.Good) (hk : s.kindAt .header = .titleKw) :
    headers.run s = (loop headerStep 1).run (titleHeader.after (s.look .header)) := by
  have hat : AtHeader s := by simp [AtHeader, hk]
  have hfirst : headerAt 0 .titleKw = titleHeader >>= fun _ => pure (.yield 1) := by
    simp only [headerAt, lt_irrefl, if_false]
  have hanswer : (headerStep 0).answer s = .yield 1 := by
    rw [headerStep, answer_bind, hg.answer_peekKind, hk, hfirst, answer_bind, answer_pure]
  have hafter : (headerStep 0).after s = titleHeader.after (s.look .header) := by
    rw [headerStep, after_bind, hg.answer_peekKind, hg.after_peekKind, hk, hfirst, after_bind,
      after_pure]
  rw [headers, run_loop_yield (fun a _ hg => Rule.good (headerStep a) hg) advances_headerStep hg hat
    hanswer, hafter]

section
variable {c : Change} {w : Text} {s s' : ParserState} (h : Skipping c w s s')
include h

/-- The title itself takes the skipped lines. -/
lemma alikeAbove_titleHeader : ∃ tree : Tree, AlikeAbove c (tree :: s.forest.inner)
    (tree.onFirst (Token.preceded (lineTrivia w)) :: s'.forest.inner) (titleHeader.after s)
    (titleHeader.after s') := by
  have hstart := h.start
  have hreads : Reading (advance .header >>= fun _ => titleRest) := Rule.reads
  have hadvance : ∀ u : ParserState, u.Good → u.kindAt .header = .titleKw →
      (advance .header >>= fun _ => titleRest).after u = titleRest.after (u.take .header) := by
    intro u hu hk
    rw [after_bind, hu.after_advance, if_neg (by simp [hk])]
  have halike : AlikeAbove c [.leaf (s.scanner.ahead .header).token]
      [.leaf (s'.scanner.ahead .header).token] (s.start.take .header) (s'.start.take .header) :=
    ⟨hstart.take, [], rfl, rfl⟩
  obtain ⟨-, hrest⟩ := Framed.frame (p := titleRest) halike h.sameTail
  rw [← hadvance _ hstart.good hstart.kindAt.1, ← hadvance _ hstart.good' hstart.kindAt.2] at hrest
  obtain ⟨ys, h1, h2⟩ := hrest.inner
  have hleft := hreads.inner_complete h.good .titleHeader
  have hright := hreads.inner_complete h.good' .titleHeader
  rw [titleHeader, after_node, after_node]
  generalize (advance .header >>= fun _ => titleRest).after s.start = u,
    (advance .header >>= fun _ => titleRest).after s'.start = u' at *
  refine ⟨.node .titleHeader (.leaf (s.scanner.ahead .header).token :: ys.reverse),
    hrest.abreast.complete _, [], ?_, ?_⟩
  · rw [hleft, Forest.trees, h1]
    simp
  · rw [hright, Forest.trees, h2, h.scanner.token]
    simp [Tree.onFirst, Tree.onFirstAll]

lemma alikeAbove_headers : headers.answer s = headers.answer s' ∧ ∃ tree : Tree,
    AlikeAbove c (tree :: s.forest.inner)
      (tree.onFirst (Token.preceded (lineTrivia w)) :: s'.forest.inner) (headers.after s)
      (headers.after s') := by
  obtain ⟨tree, htree⟩ := alikeAbove_titleHeader h.look
  obtain ⟨h1, h2⟩ := Framed.frame (p := loop headerStep 1) htree h.sameTail
  have hrun := run_headers_of_title h.good h.kindAt.1
  have hrun' := run_headers_of_title h.good' h.kindAt.2
  have hafter : headers.after s = (loop headerStep 1).after (titleHeader.after (s.look .header)) :=
    congrArg Prod.snd hrun
  have hafter' :
      headers.after s' = (loop headerStep 1).after (titleHeader.after (s'.look .header)) :=
    congrArg Prod.snd hrun'
  rw [hafter, hafter']
  refine ⟨?_, tree, h2⟩
  rw [Parser.answer, Parser.answer, hrun, hrun']
  exact h1

lemma alikeAbove_nodeParts : (nodeHeaders >>= fun _ => nodeTail).answer s =
      (nodeHeaders >>= fun _ => nodeTail).answer s' ∧ ∃ tree : Tree,
    AlikeAbove c (tree :: s.forest.inner)
      (tree.onFirst (Token.preceded (lineTrivia w)) :: s'.forest.inner)
      ((nodeHeaders >>= fun _ => nodeTail).after s)
        ((nodeHeaders >>= fun _ => nodeTail).after s') := by
  obtain ⟨h1, tree, h2⟩ := alikeAbove_headers h.look
  have hheaders : AlikeAbove c (tree :: s.forest.inner)
      (tree.onFirst (Token.preceded (lineTrivia w)) :: s'.forest.inner) (nodeHeaders.after s)
      (nodeHeaders.after s') := by
    simp only [nodeHeaders, after_bind, h.good.answer_peekRange, h.good.after_peekRange,
      h.good'.answer_peekRange, h.good'.after_peekRange, after_pure]
    rw [← h1]
    rcases titleProblem (headers.answer (s.look .header)) with _ | ⟨e, m⟩
    · exact h2
    · exact h2.report e m h.rangeAt
  obtain ⟨h3, h4⟩ := Framed.frame (p := nodeTail) hheaders h.sameTail
  rw [answer_bind, answer_bind, after_bind, after_bind]
  exact ⟨h3, tree, h4⟩

/-- **A node takes the skipped lines in front of it** into its first token. -/
lemma dialogueNode_skipping : ∃ tree : Tree,
    (dialogueNode.after s).forest.inner = tree :: s.forest.inner ∧
    (dialogueNode.after s').forest.inner =
      tree.onFirst (Token.preceded (lineTrivia w)) :: s'.forest.inner ∧
    Abreast c (dialogueNode.after s) (dialogueNode.after s') := by
  obtain ⟨h1, tree, h2⟩ := alikeAbove_nodeParts h.start
  obtain ⟨ys, h3, h4⟩ := h2.inner
  have habreast := h2.abreast.complete ((nodeHeaders >>= fun _ => nodeTail).answer s.start)
  have hleft := reading_nodeParts.inner_complete h.good
    ((nodeHeaders >>= fun _ => nodeTail).answer s.start)
  have hright := reading_nodeParts.inner_complete h.good'
    ((nodeHeaders >>= fun _ => nodeTail).answer s.start)
  rw [dialogueNode, after_bind, after_bind, after_pure, after_pure, after_nodeOf,
    after_nodeOf, ← h1]
  generalize (nodeHeaders >>= fun _ => nodeTail).answer s.start = k,
    (nodeHeaders >>= fun _ => nodeTail).after s.start = u,
    (nodeHeaders >>= fun _ => nodeTail).after s'.start = u' at *
  refine ⟨_, hleft, ?_, habreast⟩
  rw [hright, Forest.trees, Forest.trees, h3, h4]
  simp [Tree.onFirst, Tree.onFirstAll, ParserState.start, Forest.start]

/-- The first child of the root takes the skipped lines in front of it. -/
lemma next_skipping : ∃ tree : Tree, s.next.forest.inner = tree :: s.forest.inner ∧
    s'.next.forest.inner = tree.onFirst (Token.preceded (lineTrivia w)) :: s'.forest.inner ∧
    Abreast c s.next s'.next := by
  have hchild : child .titleKw = dialogueNode := by
    rw [child, if_neg (by simp), if_pos (by decide)]
  rw [ParserState.next, ParserState.next, h.kindAt.1, h.kindAt.2, hchild]
  exact dialogueNode_skipping h.mark.look

end

end Parser

end DialogueScript

import DialogueScript.Proofs.Grammar.Closed
import DialogueScript.Proofs.Parse.Children
import DialogueScript.Proofs.Scanner.Indentation
import DialogueScript.Proofs.Scanner.LineReader

/-!
The blocks of a script open and close within the children of the root. Each token that opens a block
has one behind it in the same child that closes it, so at every checkpoint no block is open. There
is one exception: where the last line has no break and a comment is left of it that belongs to no
token in front, the last child keeps its blocks open.
-/

namespace DialogueScript

open DialogueScript.Parser ParserState
open LineReader (Balanced)

/-- The kinds of the tokens of a tree, in the order of the text. -/
def Tree.tokenKinds (t : Tree) : List Kind := t.tokens.map (·.kind)

namespace Scanner

/-- Tokens that lead from one number of open blocks to another: none closes a block that is not
open. -/
structure Nests (depth : Nat) (ks : List Kind) (depth' : Nat) : Prop where
  nested : ∀ n, (ks.take n).count .dedent ≤ depth + (ks.take n).count .indent
  total : depth' + ks.count .dedent = depth + ks.count .indent

namespace Nests

variable {d d' d'' : Nat} {k : Kind} {ks : List Kind}

lemma nil (d : Nat) : Nests d [] d := ⟨by simp, by simp⟩

lemma snoc (h : Nests d ks d') (hk : d'' + [k].count .dedent = d' + [k].count .indent) :
    Nests d (ks ++ [k]) d'' := by
  have htotal := h.total
  have hwhole : d'' + (ks ++ [k]).count .dedent = d + (ks ++ [k]).count .indent := by
    rw [List.count_append, List.count_append]
    omega
  refine ⟨fun n => ?_, hwhole⟩
  rcases Nat.lt_or_ge ks.length n with hn | hn
  · rw [List.take_of_length_le (by rwa [List.length_append, List.length_singleton])]
    omega
  · rw [List.take_append_of_le_length hn]
    exact h.nested n

lemma balanced (h : Nests 0 ks 0) : Balanced ks := ⟨by simpa using h.nested, by simpa using h.total⟩

end Nests

end Scanner

open Scanner (Nests Outside Hanging)

/-- **Every rule** nests the blocks of the tokens that it takes. -/
lemma Reads.nests {s₀ s : ParserState} (h : Reads s₀ s) (hg : s₀.Good) : ∃ ts,
    s.forest.tokens = s₀.forest.tokens ++ ts ∧
      Nests s₀.scanner.stack.depth (ts.map (·.kind)) s.scanner.stack.depth := by
  refine h.keeps (I := fun u us => ∃ ts, us = s₀.forest.tokens ++ ts ∧
    Nests s₀.scanner.stack.depth (ts.map (·.kind)) u.stack.depth) hg ⟨[], by simp, .nil _⟩ ?_ ?_
  · rintro u us mode - ⟨ts, hts, hn⟩
    exact ⟨ts, hts, by rwa [Scanner.looking, Scanner.settle_stack]⟩
  · rintro u us mode hu ⟨ts, hts, hn⟩
    have hdepth := (hu.takes mode).depth_eq (hu.settle mode)
    rw [Scanner.settle_stack] at hdepth
    refine ⟨ts ++ [(u.ahead mode).token], by rw [hts, List.append_assoc], ?_⟩
    rw [List.map_append]
    exact hn.snoc hdepth

namespace ParserState

/-- The scanner knows where it stands in its line, behind the tokens so far. -/
def Tracked (config : Config) (s : ParserState) : Prop :=
  ∃ blocks, Scanner.Tracks config (s.forest.tokens.flatMap Token.fullText) blocks s.scanner

lemma Tracked.look {config : Config} {s : ParserState} (h : s.Tracked config) (hg : s.Good)
    (mode : Mode) : (s.look mode).Tracked config := by
  obtain ⟨blocks, ht⟩ := h
  exact ⟨blocks, (ht.settle hg.scanner.rising mode).setOutput _ _⟩

lemma Tracked.closesAll {config : Config} {s : ParserState} (h : s.Tracked config) :
    s.scanner.ClosesAll := by
  obtain ⟨blocks, ht⟩ := h
  exact ht.closing

end ParserState

/-- Every rule leads to where the scanner knows its line, if it did before. -/
lemma Reads.tracked {config : Config} {s₀ s : ParserState} (h : Reads s₀ s) (hg : s₀.Good)
    (h₀ : s₀.Tracked config) : s.Tracked config := by
  refine h.keeps
    (I := fun u ts => ∃ blocks, Scanner.Tracks config (ts.flatMap Token.fullText) blocks u)
    hg h₀ ?_ ?_
  · rintro u ts mode hu ⟨blocks, ht⟩
    exact ⟨blocks, (ht.settle hu.rising mode).setOutput _ _⟩
  · rintro u ts mode hu ⟨blocks, ht⟩
    have hafter := (hu.takes mode).tracks (hu.settle mode) (ht.settle hu.rising mode)
    rw [List.flatMap_append, List.flatMap_singleton]
    exact ⟨_, hafter.setOutput _ _⟩

namespace Parser

variable {config : Config} {s u : ParserState} {tree : Tree} {trees : List Tree}

/-- One child of the root opens and closes its own blocks. -/
lemma nests_next (hs : s.Ready) (ht : s.Tracked config) (ho : s.scanner.Outside)
    (htree : s.next.forest.inner = tree :: s.forest.inner) :
    BlocksClosed s.next ∧ s.next.Tracked config ∧
      Nests 0 tree.tokenKinds s.next.scanner.stack.depth := by
  have hlook := hs.good.mark.look .header
  have htracked : (s.mark.look .header).Tracked config :=
    Tracked.look (s := s.mark) ht hs.good.mark .header
  have houtside : (s.mark.look .header).scanner.Outside := (flat_look .header hs.good.mark ho).2
  have hreads : Reads (s.mark.look .header) s.next := reading_child _ hlook
  refine ⟨closed_child _ hlook ⟨hs.quiet.never, hs.quiet.running⟩ htracked.closesAll houtside,
    hreads.tracked hlook htracked, ?_⟩
  obtain ⟨ts, hts, hn⟩ := hreads.nests hlook
  have htokens : s.next.forest.tokens = s.forest.tokens ++ tree.tokens := by
    simp [Forest.tokens, htree, hs.follows_next.outer]
    rfl
  obtain rfl := List.append_cancel_left (htokens.symm.trans hts)
  rwa [houtside.stack] at hn

/-- What is known of the blocks in some children of the root and in front of each. -/
structure Nested (config : Config) (s : ParserState) (trees : List Tree) (u : ParserState) :
    Prop where
  closed : BlocksClosed u
  tracked : u.Tracked config
  empty : ∀ p ∈ u.checkpoints, p ∈ s.checkpoints ∨ p.stack = .empty
  nested : ∀ tree ∈ trees, ∃ depth, Nests 0 tree.tokenKinds depth
  earlier : ∀ tree ∈ trees.dropLast, Balanced tree.tokenKinds
  last : u.scanner.stack = .empty → ∀ tree ∈ trees, Balanced tree.tokenKinds

/-- **All children**: only behind the last of them a block can be open. -/
lemma Siblings.nested (h : Siblings s trees u) (hs : s.Ready) (ht : s.Tracked config)
    (hclosed : BlocksClosed s) : Nested config s trees u := by
  induction h with
  | nil s => exact ⟨hclosed, ht, fun p hp => .inl hp, by simp, by simp, by simp⟩
  | @cons s u tree trees hk htree hrest ih =>
    have houtside := hclosed.outside hk
    obtain ⟨hclosed', ht', hn⟩ := nests_next hs ht houtside htree
    obtain ⟨h1, h2, h3, h4, h5, h6⟩ := ih (hs.next hk) ht' hclosed'
    have hmark : s.next.checkpoints = s.checkpoints ++ [s.point] := hs.follows_next.checkpoints
    have hbalanced (hempty : s.next.scanner.stack = .empty) : Balanced tree.tokenKinds := by
      rw [hempty] at hn
      exact hn.balanced
    refine ⟨h1, h2, fun p hp => ?_, List.forall_mem_cons.2 ⟨⟨_, hn⟩, h4⟩, ?_, fun hempty =>
      List.forall_mem_cons.2 ⟨?_, h6 hempty⟩⟩
    · rcases h3 p hp with hp | hp
      · rw [hmark, List.mem_append, List.mem_singleton] at hp
        refine hp.imp_right fun heq => ?_
        rw [heq]
        exact houtside.stack
      · exact .inr hp
    · cases hrest with
      | nil => simp
      | cons hk' htree' hrest' =>
        rw [List.dropLast_cons_of_ne_nil (by simp)]
        exact List.forall_mem_cons.2 ⟨hbalanced (hclosed'.outside hk').stack, h5⟩
    · cases hrest with
      | nil => exact hbalanced hempty
      | cons hk' htree' hrest' => exact hbalanced (hclosed'.outside hk').stack

end Parser

namespace Parse

/-- **Blocks balance in every child of the root**, for a text with or without a last line break: no
child closes a block that it has not opened, all children but the last close every block that they
open, and no block is open in front of them. The same holds of the last child and of the end of the
text, unless the last line has no break and the end of the text has a comment in front of it that no
token in the last child took. -/
theorem blocks_balance (config : Config) (t : Text) : ∃ items last,
    (ofText config t).tree.children = items ++ [.leaf last] ∧ last.kind = .eof ∧
    (∀ item ∈ items, ∀ n,
      (item.tokenKinds.take n).count .dedent ≤ (item.tokenKinds.take n).count .indent) ∧
    (∀ item ∈ items.dropLast, Balanced item.tokenKinds) ∧
    (∀ p ∈ (ofText config t).checkpoints.dropLast, p.stack = .empty) ∧
    ((∀ item ∈ items, Balanced item.tokenKinds) ∧
      (∀ p ∈ (ofText config t).checkpoints, p.stack = .empty) ∨
      Text.isTerminated (Tree.textAll items) = false ∧
        Text.startsComment (Text.dropBlanks last.fullText) = true ∧
          Text.OneLine last.fullText) := by
  obtain ⟨trees, u, extra, h1, h2, -, -, -, heq⟩ := ofText_eq config t
  have hready := ready_initial config t
  have hstart : BlocksClosed (initial config t) :=
    .inl ⟨rfl, by simp [Scanner.PlanDone, initial, begun, Scanner.start, Scanner.atLine]⟩
  have htracked : (initial config t).Tracked config :=
    ⟨.empty, rfl, by simp [initial, begun, Scanner.start, Scanner.atLine], fun _ _ => ⟨rfl, rfl⟩,
      by simp [Scanner.ClosesAll, initial, begun, Scanner.start, Scanner.atLine],
      by simp [initial, begun, Scanner.start, Scanner.atLine]⟩
  obtain ⟨hclosed, ⟨blocks, htracks⟩, hempty, hnested, hearlier, hlast⟩ :=
    h1.nested hready htracked hstart
  have hcheckpoints : ∀ p ∈ u.checkpoints, p.stack = .empty := by
    simpa [initial, begun] using hempty
  have htext := text_eof (h1.past hready).ready.good h2
  rw [heq]
  refine ⟨trees, _, rfl, h2, fun item hitem n => ?_, hearlier, ?_, ?_⟩
  · obtain ⟨d, hn⟩ := hnested item hitem
    simpa using hn.nested n
  · simpa [assembled] using hcheckpoints
  · rcases hclosed with houtside | hhanging
    · left
      refine ⟨hlast houtside.stack, List.forall_mem_append.2 ⟨hcheckpoints, ?_⟩⟩
      simpa [ParserState.point] using houtside.stack
    · right
      have hne : u.scanner.rest ≠ [] := by
        intro hnil
        exact hhanging.comment (by rw [hnil]; rfl)
      have hmid := (htracks.midLine hhanging.midLine).2.2.resolve_left hne
      have hinner : u.forest.inner = trees.reverse := by
        simpa [initial, begun] using (h1.past hready).inner
      have houter : u.forest.outer = [] := by simpa [initial, begun] using (h1.past hready).outer
      have htokens : u.forest.tokens = Tree.tokensAll trees := by
        simp [Forest.tokens, hinner, houter, Tree.tokensAll_eq]
      rw [htokens, ← Tree.textAll_eq_tokens] at hmid
      rw [htext]
      exact ⟨hmid, hhanging.comment_left⟩

/-- A comment behind a `#` without text keeps the block in front of it open. -/
theorem not_blocks_balance : ¬ ∀ (config : Config) (t : Text),
    ∀ item ∈ (ofText config t).tree.children, Balanced item.tokenKinds := by
  intro h
  have hitem := h {} "title: A\n---\n-> a\n    b #//c".toList
  have htotal : ∃ item ∈ (ofText {} "title: A\n---\n-> a\n    b #//c".toList).tree.children,
      item.tokenKinds.count .dedent ≠ item.tokenKinds.count .indent := by decide +kernel
  obtain ⟨item, hmem, hne⟩ := htotal
  exact hne (hitem item hmem).total

end Parse

end DialogueScript

import DialogueScript.Proofs.Parse.Children
import DialogueScript.Proofs.Parse.Lossless

/-!
Errors within tokens. However often a token is looked at, and in whichever modes, its error is
reported when it is taken and only then. So the reports of such errors stand in the order of the
tokens in the tree, one for each token that is an error.
-/

namespace DialogueScript

/-- The size of some tokens in a row. -/
def Token.sizeAll : List Token → Nat
  | [] => 0
  | t :: ts => t.size + sizeAll ts

lemma Token.sizeAll_append (ts us : List Token) : sizeAll (ts ++ us) = sizeAll ts + sizeAll us := by
  induction ts with
  | nil => simp [sizeAll]
  | cons t ts ih => simp [sizeAll, ih, Nat.add_assoc]

/-- The ranges of the errors among some tokens in a row, of which the first starts at `position`. -/
def errorRanges (position : Nat) : List Token → List Range
  | [] => []
  | t :: ts =>
    (if t.kind = .errorToken then [t.range position] else []) ++ errorRanges (position + t.size) ts

lemma errorRanges_append (position : Nat) (ts us : List Token) : errorRanges position (ts ++ us) =
    errorRanges position ts ++ errorRanges (position + Token.sizeAll ts) us := by
  induction ts generalizing position with
  | nil => simp [errorRanges, Token.sizeAll]
  | cons t ts ih => simp [errorRanges, Token.sizeAll, ih, Nat.add_assoc]

/-- The ranges of the problems within tokens among some diagnostics. -/
def Diagnostic.lexicalRanges (ds : List Diagnostic) : List Range :=
  (ds.filter (·.problem.isLexical)).map (·.range)

open Diagnostic (lexicalRanges)

lemma Diagnostic.lexicalRanges_append (ds es : List Diagnostic) :
    lexicalRanges (ds ++ es) = lexicalRanges ds ++ lexicalRanges es := by
  simp [lexicalRanges]

lemma Diagnostic.lexicalRanges_bare (ds : List Diagnostic) :
    lexicalRanges (ds.map bare) = lexicalRanges ds := by
  rw [lexicalRanges, List.filter_map, List.map_map]
  rfl

/-! ### Places of tokens -/

namespace Located

mutual

lemma errorRanges_leavesOf (l : Located) : (t : Tree) → l.tree = t →
    ((leavesOf l t).filter (·.kind = .errorToken)).map ownRange = errorRanges l.offset t.tokens ∧
      Token.sizeAll t.tokens = t.size
  | .leaf t, h => by
    rw [leavesOf, Tree.size]
    by_cases hk : t.kind = .errorToken <;>
      simp [errorRanges, Token.sizeAll, kind, ownRange, h, Tree.kind, hk]
  | .node k cs, h => by
    rw [leavesOf, Tree.size, Tree.tokens]
    exact errorRanges_leavesOfAll l 0 l.offset cs

lemma errorRanges_leavesOfAll (l : Located) (index offset : Nat) : (cs : List Tree) →
    ((leavesOfAll l index offset cs).filter (·.kind = .errorToken)).map ownRange =
      errorRanges offset (Tree.tokensAll cs) ∧
      Token.sizeAll (Tree.tokensAll cs) = Tree.sizeAll cs
  | [] => by
    rw [leavesOfAll, Tree.tokensAll, Tree.sizeAll]
    exact ⟨rfl, rfl⟩
  | c :: cs => by
    obtain ⟨h1, h2⟩ := errorRanges_leavesOf (.child l index offset c) c rfl
    obtain ⟨h3, h4⟩ := errorRanges_leavesOfAll l (index + 1) (offset + c.size) cs
    rw [leavesOfAll, Tree.tokensAll, Tree.sizeAll, List.filter_append, List.map_append, h1, h3,
      errorRanges_append, h2, Token.sizeAll_append, h2, h4]
    exact ⟨rfl, rfl⟩

end

/-- Where the errors among the tokens of a tree stand. -/
lemma errorRanges_leaves (t : Tree) :
    ((root t).leaves.filter (·.kind = .errorToken)).map ownRange = errorRanges 0 t.tokens :=
  (errorRanges_leavesOf (root t) t rfl).1

end Located

/-! ### Reading -/

namespace ParserState

open DialogueScript.Parser

/-- What was reported within tokens is just what is wrong with the tokens that were taken. -/
structure Accounts (s : ParserState) : Prop where
  offset : s.scanner.offset = Token.sizeAll s.forest.tokens
  ranges : lexicalRanges s.diagnostics = errorRanges 0 s.forest.tokens

namespace Accounts

variable {s u : ParserState}

/-- Nothing is taken, and nothing is reported within a token. -/
lemma keep (h : s.Accounts) (hoff : u.scanner.offset = s.scanner.offset)
    (htokens : u.forest.tokens = s.forest.tokens)
    (hranges : lexicalRanges u.diagnostics = lexicalRanges s.diagnostics) : u.Accounts :=
  ⟨by rw [hoff, htokens, h.offset], by rw [hranges, htokens, h.ranges]⟩

lemma look (h : s.Accounts) (mode : Mode) : (s.look mode).Accounts :=
  h.keep (Scanner.settle_offset _ _) rfl rfl

lemma report (h : s.Accounts) (range : Range) (e : GrammarError) (m : String) :
    (s.report range e m).Accounts := by
  refine h.keep (by rw [scanner_report]) (by rw [forest_report]) ?_
  unfold ParserState.report
  split
  · rfl
  · simp [lexicalRanges, Problem.isLexical]

/-- An error is reported with the token that is taken. -/
lemma take (h : s.Accounts) (hg : s.Good) (mode : Mode) : (s.take mode).Accounts := by
  have ht := hg.scanner.takes mode
  have htokens :
      (s.take mode).forest.tokens = s.forest.tokens ++ [(s.scanner.ahead mode).token] := by
    rw [ParserState.take, Forest.tokens_add, Tree.tokens_leaf]
  constructor
  · have hoff := ht.offset_eq
    rw [Scanner.settle_offset] at hoff
    rw [htokens, Token.sizeAll_append, ← h.offset]
    simpa [ParserState.take, Token.sizeAll] using hoff
  · have herror : lexicalRanges (errorsOf (s.scanner.ahead mode) s.scanner.offset) =
        errorRanges s.scanner.offset [(s.scanner.ahead mode).token] := by
      have hiff := ht.error_iff
      cases he : (s.scanner.ahead mode).error with
      | none => simp [errorsOf, he, lexicalRanges, errorRanges, hiff]
      | some e => simp [errorsOf, he, lexicalRanges, errorRanges, hiff, Problem.isLexical]
    rw [hg.diagnostics_take, Diagnostic.lexicalRanges_append, h.ranges, herror, htokens,
      errorRanges_append, Nat.zero_add, ← h.offset]

lemma poll (h : s.Accounts) : (poll.after s).Accounts := by
  rcases poll_cases s with ⟨-, h1⟩ | ⟨-, -, h1⟩ | ⟨-, -, h1⟩ <;> rw [h1]
  · exact h
  · exact h.keep rfl rfl (by simp [ParserState.stop, lexicalRanges, Problem.isLexical])
  · exact h.keep rfl rfl rfl

end Accounts

end ParserState

open DialogueScript.Parser ParserState

/-- **Every rule reports what is wrong with the tokens it takes**, once for each. -/
lemma Reads.accounts {s₀ s : ParserState} (h : Reads s₀ s) (hg : s₀.Good) (ha : s₀.Accounts) :
    s.Accounts := by
  induction h with
  | refl => exact ha
  | look mode _ ih => exact (ih hg ha).look mode
  | take mode hr _ ih => exact (ih hg ha).take (hr.follows hg).good mode
  | report mode e m hr _ ih ih' => exact (ih' (hr.follows hg).good (ih hg ha)).report _ e m
  | poll _ ih => exact (ih hg ha).poll
  | node k hr _ ih ih' =>
    exact (ih' (good_start (hr.follows hg).good)
      ((ih hg ha).keep rfl (Forest.tokens_start _) rfl)).keep rfl (Forest.tokens_complete _ _) rfl
  | abandon hr _ ih ih' =>
    exact (ih' (good_start (hr.follows hg).good)
      ((ih hg ha).keep rfl (Forest.tokens_start _) rfl)).keep rfl (Forest.tokens_abandon _) rfl
  | around k hr _ ih ih' =>
    exact (ih' (good_precede (hr.follows hg).good)
      ((ih hg ha).keep rfl (Forest.tokens_precede _) rfl)).keep rfl (Forest.tokens_complete _ _) rfl

namespace Parse

lemma accounts_finalState (config : Config) (t : Text) : (finalState config t none).Accounts :=
  (whole_initial config t).keeps_script ⟨rfl, rfl⟩ (I := Accounts) ⟨rfl, rfl⟩
    (fun u hu => (hu.keep (u := u.mark) rfl rfl rfl).look .header)
    (fun _ hg _ _ ha => (reading_child _ hg).accounts hg ha)
    (fun _ _ ha => (ha.look .header).report _ _ _) fun _ hg ha => ha.take hg .header

/-- **Each error within a token is reported exactly once**: among the diagnostics of a parse, those
about the inside of a token stand where the tokens that are errors stand, one for each of them and
in the order of the text. -/
theorem lexical_diagnostics (config : Config) (t : Text) :
    ((ofText config t).diagnostics.filter (·.problem.isLexical)).map (·.range) =
      ((ofText config t).root.leaves.filter (·.kind = .errorToken)).map (·.ownRange) := by
  have hranges := (accounts_finalState config t).ranges
  have houter : (finalState config t none).forest.outer = [] := (whole_initial config t).script.2
  have htokens : (ofText config t).tree.tokens = (finalState config t none).forest.tokens := by
    simp [ofText, withCancel, ofState, Forest.tokens, Forest.trees, houter]
  have hlocated : lexicalRanges (ofText config t).diagnostics =
      lexicalRanges (finalState config t none).diagnostics := by
    rw [← Diagnostic.lexicalRanges_bare,
      ← Diagnostic.lexicalRanges_bare (finalState config t none).diagnostics]
    exact congrArg lexicalRanges (Diagnostic.map_bare_located t _)
  rw [Parse.root, Located.errorRanges_leaves, htokens, ← hranges]
  exact hlocated

end Parse

end DialogueScript

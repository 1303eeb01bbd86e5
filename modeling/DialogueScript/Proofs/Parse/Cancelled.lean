import DialogueScript.Parse.Reparse
import DialogueScript.Proofs.Grammar.StoppingRules
import DialogueScript.Proofs.Parse.Children
import DialogueScript.Proofs.Parse.Lossless

/-!
Parses that may be cancelled. One that is asked too seldom to be cancelled is the parse of the whole
text. One that is cancelled has found nothing but what the whole parse finds, keeps the rest of the
text in one error, and is of no use for parsing again.
-/

namespace DialogueScript

open DialogueScript.Parser ParserState

namespace Diagnostic

/-- What holds of the problems of some diagnostics does not depend on lines and columns. -/
lemma forall_problem_of_bare {P : Problem → Prop} {ds ls : List Diagnostic}
    (h : ls.map bare = ds.map bare) (hP : ∀ d ∈ ds, P d.problem) : ∀ d ∈ ls, P d.problem := by
  intro d hd
  obtain ⟨d', hd', hproblem, -⟩ := exists_of_map_bare h hd
  exact hproblem ▸ hP d' hd'

end Diagnostic

namespace Parser

/-- Taking the rest asks nothing and reports nothing. -/
instance : Stoppable advanceRest where
  onward s hg := by
    have hgood := (after_advanceRest hg).1
    rcases advanceRest_cases s with ⟨-, heq⟩ | ⟨-, heq⟩ <;> rw [heq] at hgood ⊢
    · exact .silent hgood rfl rfl rfl rfl
    · exact .silent hgood rfl rfl rfl rfl
  stops s h := by
    have hgood := (after_advanceRest h.good).1
    have hnil : Spared [] := by simp [Spared]
    left
    rcases advanceRest_cases s with ⟨hr, heq⟩ | ⟨hr, heq⟩ <;>
      rcases advanceRest_cases s.calm with ⟨hr', heq'⟩ | ⟨hr', heq'⟩
    · rw [heq] at hgood
      exact ⟨rfl, by rw [heq, heq']; rfl,
        heq ▸ h.step hgood (List.append_nil _).symm hnil rfl rfl rfl⟩
    · exact absurd hr hr'
    · exact absurd hr' hr
    · rw [heq] at hgood
      exact ⟨rfl, by rw [heq, heq']; rfl,
        heq ▸ h.step hgood (List.append_nil _).symm hnil rfl rfl rfl⟩

instance (nodes : Nat) : Stoppable (scriptTail nodes) := by
  have (range : Range) :=
    Stoppable.errorAt range (e := .emptyFile) (by decide) "expected at least one node"
  unfold scriptTail
  infer_instance

instance : Stoppable script := by
  rw [script]
  infer_instance

/-- Only the children of the root ask whether to stop. -/
lemma cancelled_script {s : ParserState} (hg : (items.after s).Good)
    (hc : (items.after s).cancelled = false) : (script.after s).cancelled = false := by
  rw [after_script hg hc, emptyFile]
  change (if _ then _ else _ : ParserState).cancelled = false
  split
  · rw [ParserState.report]
    split <;> exact hc
  · exact hc

/-- A script that was cancelled takes the rest of the text into one error, which is empty if nothing
was left, and then the end. -/
lemma script_of_cancelled {t : Text} {s : ParserState} (h : Whole t s)
    (hc : (items.after s).cancelled = true) : ∃ (rest : List Tree) (v : ParserState),
      (rest = [] ∨ ∃ token, rest = [.leaf token] ∧ token.kind = .errorToken ∧ token.fullText ≠ []) ∧
      v.Good ∧ v.kindAt .header = .eof ∧ v.scanner.rest = [] ∧ v.cancelled = true ∧
      v.forest = (items.after s).forest.add (.node .error rest) ∧
      v.diagnostics = (items.after s).diagnostics ∧ script.after s = v.take .header := by
  obtain ⟨hgood, -, -, -⟩ := h.items
  rw [after_script_of_cancelled hc, after_node]
  generalize items.after s = u at *
  obtain ⟨hv, hrest, -, hlevel⟩ := after_advanceRest (good_start hgood)
  have hinner : (advanceRest.after u.start).forest.inner = [] ∨ ∃ token : Token,
      (advanceRest.after u.start).forest.inner = [.leaf token] ∧ token.kind = .errorToken ∧
      token.fullText ≠ [] := by
    rcases advanceRest_cases u.start with ⟨-, heq⟩ | ⟨hnil, heq⟩ <;> rw [heq]
    · exact .inl rfl
    · exact .inr ⟨_, rfl, rfl, hnil⟩
  have hstack : (advanceRest.after u.start).scanner.stack = .empty := by
    rcases advanceRest_cases u.start with ⟨-, heq⟩ | ⟨-, heq⟩ <;> rw [heq] <;>
      simp only [Scanner.bumpRest] <;> split <;> rfl
  have hkept : (advanceRest.after u.start).cancelled = u.cancelled ∧
      (advanceRest.after u.start).diagnostics = u.diagnostics := by
    rcases advanceRest_cases u.start with ⟨-, heq⟩ | ⟨-, heq⟩ <;> rw [heq] <;> exact ⟨rfl, rfl⟩
  generalize advanceRest.after u.start = v at *
  have hvc := good_complete hv .error
  have hlevel : v.forest.outer = u.forest.inner :: u.forest.outer := hlevel
  have heof : (v.complete .error).kindAt .header = .eof := by
    -- nothing is left and no block is open, so only the end can stand next
    have htakes := hvc.scanner.takes .header
    have hfull := htakes.rest_eq
    rw [Scanner.settle_rest, scanner_complete, hrest] at hfull
    have hnil := (List.append_eq_nil_iff.1 hfull.symm).1
    rcases htakes.progress (hvc.scanner.settle .header) with h1 | ⟨-, -, h1, -⟩ | ⟨h1, -⟩
    · exact absurd hnil h1
    · rw [Scanner.settle_stack, scanner_complete, hstack] at h1
      exact absurd rfl h1
    · exact h1
  refine ⟨v.forest.trees, v.complete .error, ?_, hvc, heof, hrest, hkept.1.trans hc, ?_, hkept.2,
    hvc.after_bump .header⟩
  · rcases hinner with hi | ⟨token, hi, hk⟩
    · exact .inl (by rw [Forest.trees, hi, List.reverse_nil])
    · exact .inr ⟨token, by rw [Forest.trees, hi, List.reverse_singleton], hk⟩
  · simp [ParserState.complete, Forest.add, Forest.complete, hlevel]

/-- A script that was cancelled ends with an error for the rest of the text and with the end. -/
lemma trees_script_of_cancelled {t : Text} {s : ParserState} (h : Whole t s)
    (hc : (items.after s).cancelled = true) : ∃ trees rest eof,
      (script.after s).forest.trees = trees ++ [.node .error rest, .leaf eof] ∧
      (rest = [] ∨ ∃ token, rest = [.leaf token] ∧ token.kind = .errorToken) ∧
      eof.kind = .eof ∧ eof.fullText = [] := by
  obtain ⟨rest, v, h1, hv, hk, hrest, -, hforest, -, heq⟩ := script_of_cancelled h hc
  have hfull := hv.rest_take .header
  rw [hrest] at hfull
  refine ⟨(items.after s).forest.trees, rest, (v.scanner.ahead .header).token, ?_,
    h1.imp_right fun ⟨token, h, hk, _⟩ => ⟨token, h, hk⟩, hk,
    (List.append_eq_nil_iff.1 hfull.symm).1⟩
  rw [heq]
  simp [ParserState.take, Forest.add, Forest.trees, hforest]

end Parser

namespace Parse

/-- A parse that was cancelled, next to the parse of the whole text. -/
structure Cancelled (t : Text) (whole p : Parse) : Prop where
  /-- One diagnostic says so. Those before it are found in the whole text as well, those after it
  are errors within tokens. -/
  diagnostics : ∃ before stop after, p.diagnostics = before ++ stop :: after ∧
    stop.problem = .grammar .cancelled ∧ (∀ d ∈ before, d.problem ≠ .grammar .cancelled) ∧
    before.map Diagnostic.bare <+: whole.diagnostics.map Diagnostic.bare ∧
    ∀ d ∈ after, d.problem.isLexical = true
  /-- The rest of the text is one error, which is empty if nothing was left. -/
  tree : ∃ trees rest eof, p.tree = .node .sourceFile (trees ++ [.node .error rest, .leaf eof]) ∧
    (rest = [] ∨ ∃ token, rest = [.leaf token] ∧ token.kind = .errorToken) ∧
    eof.kind = .eof ∧ Tree.textAll (trees ++ [.node .error rest]) = t
  /-- After an edit, everything is parsed. -/
  reparsed : ∀ (e : Edit) (t' : Text), p.reparse? e t' = some ⟨ofText p.config t', none⟩

/-- Without checkpoints, everything is parsed again. -/
lemma reparse?_of_no_checkpoints {p : Parse} (h : p.checkpoints = []) (e : Edit) (t : Text) :
    p.reparse? e t = some ⟨ofText p.config t, none⟩ := by
  have hchild (index : Nat) (range : Range) : p.reparseChild e t index range = none := by
    simp [reparseChild, h]
  unfold reparse?
  simp only [hchild]
  split
  · split <;> rfl
  · rfl

/-- What a parse reports, up to lines and columns. -/
lemma map_bare_diagnostics (config : Config) (t : Text) (cancelAt : Option Nat) :
    (withCancel config t cancelAt).diagnostics.map Diagnostic.bare =
      (finalState config t cancelAt).diagnostics.map Diagnostic.bare :=
  Diagnostic.map_bare_located t _

/-- What is reported by a parse that was stopped. -/
lemma diagnostics_of_stopped {config : Config} {t : Text} {n : Nat}
    (h : Stopped (finalState config t none) (finalState config t (some n))) :
    ∃ before stop after, (withCancel config t (some n)).diagnostics = before ++ stop :: after ∧
      stop.problem = .grammar .cancelled ∧ (∀ d ∈ before, d.problem ≠ .grammar .cancelled) ∧
      before.map Diagnostic.bare <+: (ofText config t).diagnostics.map Diagnostic.bare ∧
      ∀ d ∈ after, d.problem.isLexical = true := by
  obtain ⟨before, stop, after, h1, h2, h3, h4, h5⟩ := h.found
  have hbare := map_bare_diagnostics config t (some n)
  rw [h1, List.map_append, List.map_cons] at hbare
  obtain ⟨before', tail, heq, hbefore, htail⟩ := List.map_eq_append_iff.1 hbare
  obtain ⟨stop', after', rfl, hstop, hafter⟩ := List.map_eq_cons_iff.1 htail
  refine ⟨before', stop', after', heq, ?_, ?_, ?_,
    Diagnostic.forall_problem_of_bare (P := fun p => p.isLexical = true) hafter h5⟩
  · exact (congrArg (·.problem) hstop).trans h4
  · exact Diagnostic.forall_problem_of_bare (P := fun p => p ≠ .grammar .cancelled) hbefore h3
  · rw [hbefore, ofText, map_bare_diagnostics]
    exact h2.map _

/-- **Cancelling**: a parse that is told to stop at its `n`-th poll is the parse of the whole text
if it makes fewer polls. Otherwise it makes no poll after the one that stops it, which is the first
one if `n` is zero, and reports no more than the whole parse does. -/
theorem withCancel_eq_or_cancelled (config : Config) (t : Text) (n : Nat) :
    if pollsOf config t (some n) < n then withCancel config t (some n) = ofText config t
    else pollsOf config t (some n) = max n 1 ∧
      Cancelled t (ofText config t) (withCancel config t (some n)) := by
  have hwhole := whole_start config t (some n)
  have hrunning : (begun config t (some n)).Running := by
    refine ⟨hwhole.good, rfl, fun m hm => ?_, by simp [begun, Spared]⟩
    exact lt_of_lt_of_le Nat.one_pos (le_max_right _ _)
  have hasked := (Stoppable.onward (p := script) hwhole.good).cancelAt
  have hpolls := polls_items hwhole.good rfl rfl
  have hgood := (Stoppable.onward (p := items) hwhole.good).good
  have htail := (Stoppable.onward (p := scriptTail (items.answer
    (begun config t (some n)))) hgood).polls
  change _ ≤ pollsOf config t (some n) at htail
  rcases Stoppable.stops (p := script) hrunning with ⟨-, hsame, hrun⟩ | hstop
  · change finalState config t none = (finalState config t (some n)).calm at hsame
    have hlt : pollsOf config t (some n) < max n 1 := hrun.polls n hasked
    rw [if_pos (by omega), ofText, withCancel, withCancel, hsame]
    rfl
  · change Stopped (finalState config t none) (finalState config t (some n)) at hstop
    obtain ⟨m, hm, hmax⟩ := hstop.polls
    have hn : n = m := Option.some.inj (hasked.symm.trans hm)
    have hcancelled :
        (items.after (begun config t (some n))).cancelled = true := by
      by_contra h
      have := cancelled_script hgood (by simpa using h)
      exact absurd (hstop.cancelled.symm.trans this) (by simp)
    have hmax : pollsOf config t (some n) = max n 1 := hn ▸ hmax
    obtain ⟨trees, rest, eof, h1, h2, h3, h4⟩ := trees_script_of_cancelled hwhole hcancelled
    have htree : (withCancel config t (some n)).tree =
        .node .sourceFile (trees ++ [.node .error rest, .leaf eof]) :=
          congrArg (Tree.node .sourceFile) h1
    have htext := (tree_holds_text config t (some n)).2
    rw [if_neg (by omega)]
    refine ⟨hmax, diagnostics_of_stopped hstop, ⟨trees, rest, eof, htree, h2, h3, ?_⟩, ?_⟩
    · simpa [htree, h4] using htext
    · refine reparse?_of_no_checkpoints ?_
      rw [withCancel, ofState, hstop.cancelled]
      rfl

end Parse

end DialogueScript

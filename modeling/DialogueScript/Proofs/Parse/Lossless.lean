import DialogueScript.Parse.Basic
import DialogueScript.Proofs.Grammar.Items
import DialogueScript.Proofs.Scanner.Calls
import DialogueScript.Proofs.Tree.Located

/-!
Parsing loses nothing: the tree of a script, read to its end or cancelled at any poll, holds the
text that was read.
-/

namespace DialogueScript

namespace Parser

open ParserState

/-- What is left becomes one token, unless nothing is left. -/
lemma advanceRest_cases (s : ParserState) :
    (s.scanner.rest = [] ∧ advanceRest.after s = { s with scanner := s.scanner.bumpRest.2 }) ∨
    (s.scanner.rest ≠ [] ∧ advanceRest.after s = { s with
      scanner := s.scanner.bumpRest.2
      forest := s.forest.add (.leaf { kind := .errorToken, fullText := s.scanner.rest })
      record := s.record.token { kind := .errorToken, fullText := s.scanner.rest } }) := by
  by_cases hnil : s.scanner.rest = []
  · refine .inl ⟨hnil, ?_⟩
    simp only [advanceRest, Parser.after, StateT.run_modify]
    rw [Scanner.bumpRest_of_nil hnil]
    rfl
  · refine .inr ⟨hnil, ?_⟩
    simp only [advanceRest, Parser.after, StateT.run_modify]
    rw [Scanner.bumpRest_of_ne_nil hnil]
    rfl

/-- Taking everything that is left leaves nothing. -/
lemma after_advanceRest {s : ParserState} (hg : s.Good) :
    (advanceRest.after s).Good ∧ (advanceRest.after s).scanner.rest = [] ∧
      (advanceRest.after s).forest.text = s.forest.text ++ s.scanner.rest ∧
      (advanceRest.after s).forest.outer = s.forest.outer := by
  have hgood := Scanner.good_bumpRest s.scanner
  rcases advanceRest_cases s with ⟨hnil, hafter⟩ | ⟨hnil, hafter⟩ <;> rw [hafter]
  · refine ⟨⟨hgood, ?_⟩, ?_, ?_, rfl⟩ <;> simp [Scanner.bumpRest_of_nil hnil, hnil, hg.silent]
  · refine ⟨⟨hgood, ?_⟩, ?_, ?_, rfl⟩ <;> simp [Scanner.bumpRest_of_ne_nil hnil, hg.silent]

/-- **Reading a script loses nothing**, however it ends. -/
lemma Whole.script {t : Text} {s : ParserState} (h : Whole t s) :
    (Parser.script.after s).forest.text = t ∧ (Parser.script.after s).forest.outer = [] := by
  obtain ⟨hgood, htext, houter, hend⟩ := h.items
  by_cases hc : (Parser.items.after s).cancelled = true
  · rw [after_script_of_cancelled hc]
    generalize Parser.items.after s = u at *
    obtain ⟨h1, h2, h3, h4⟩ := after_advanceRest (good_start hgood)
    rw [after_node]
    generalize advanceRest.after u.start = v at *
    have hv := good_complete h1 .error
    have hrest := hv.rest_take .header
    have hkeep := hv.text_take .header
    rw [hv.after_bump]
    rw [scanner_complete, h2] at hrest
    refine ⟨?_, ?_⟩
    · rw [(List.append_eq_nil_iff.1 hrest.symm).2, List.append_nil] at hkeep
      rw [hkeep, scanner_complete, h2, List.append_nil, ← htext]
      simpa [ParserState.complete, ParserState.start] using h3
    · have : v.forest.outer = u.forest.inner :: u.forest.outer := h4
      simp [ParserState.take, ParserState.complete, Forest.add, Forest.complete, this, houter]
  · have hk := hend.resolve_left hc
    rw [after_script hgood (by simpa using hc)]
    generalize Parser.items.after s = u at *
    have hsame : (emptyFile (Parser.items.answer s) u).Good ∧
        (emptyFile (Parser.items.answer s) u).scanner.rest = u.scanner.rest ∧
        (emptyFile (Parser.items.answer s) u).kindAt .header = .eof ∧
        (emptyFile (Parser.items.answer s) u).forest = u.forest := by
      unfold emptyFile
      split
      · refine ⟨(hgood.look .header).report _ _ _, ?_, ?_, by simp [ParserState.look]⟩
        · simp [ParserState.look, Scanner.looking]
        · rw [kindAt, scanner_report, ← kindAt, kindAt_look, hk]
      · exact ⟨hgood, rfl, hk, rfl⟩
    generalize emptyFile (Parser.items.answer s) u = v at hsame
    obtain ⟨hv, hrest, heof, hforest⟩ := hsame
    have hkeep := hv.text_take .header
    have hnil : (v.take .header).scanner.rest = [] :=
      ((hv.scanner.takes .header).of_eof heof).1
    rw [hnil, List.append_nil, hrest, hforest, htext] at hkeep
    exact ⟨hkeep, by simp [ParserState.take, Forest.add, hforest, houter]⟩

/-- A step over the children of the root only does what rules can do, behind its checkpoint. -/
lemma reads_itemStep {s : ParserState} (hg : s.Good) (nodes : Nat) :
    Reads s.mark ((itemStep nodes).after s) := by
  have hpoll : Reads s.mark (poll.after s.mark) := .poll (.refl _)
  have hgood := (hpoll.follows hg.mark).good
  rcases itemStep_cases hg nodes with ⟨-, -, heq⟩ | ⟨-, -, -, heq⟩ | ⟨-, -, -, heq⟩ <;> rw [heq]
  · exact hpoll
  · exact .look .header hpoll
  · exact (Reads.look .header hpoll).trans (reading_child _ (hgood.look .header))

/-- What a script keeps however reading ends: rules keep it, and so does what happens outside of
them, at the start of a child and at the end of the text. -/
structure Upheld (I : ParserState → Prop) : Prop where
  reads : ∀ ⦃u v⦄, u.Good → Reads u v → I u → I v
  mark : ∀ ⦃u⦄, I u → I u.mark
  take : ∀ ⦃u⦄, u.Good → I u → I (u.take .header)
  emptyFile : ∀ ⦃u⦄ nodes, u.Good → I u → I (emptyFile nodes u)
  start : ∀ ⦃u : ParserState⦄, I u → I u.start
  complete : ∀ ⦃u : ParserState⦄, I u → I (u.complete .error)
  advanceRest : ∀ ⦃u⦄, I u → I (advanceRest.after u)

lemma Whole.upheld_items {I : ParserState → Prop} {t : Text} {s : ParserState} (h : Whole t s)
    (hI : Upheld I) (hs : I s) : I (Parser.items.after s) := by
  have hstep : ∀ {u : ParserState}, Whole t u → I u →
      ∀ nodes, I ((Parser.itemStep nodes).after u) :=
    fun hu hiu nodes => hI.reads hu.good.mark (reads_itemStep hu.good nodes) (hI.mark hiu)
  obtain ⟨nodes, u, ⟨h1, h2⟩, -, h3⟩ := loop_ends (a := 0)
    (I := fun _ u => Whole t u ∧ I u) (fun nodes _ ⟨h1, h2⟩ _ hb => by
      obtain ⟨h3, h4⟩ := h1.advances hb
      exact ⟨h3, h4, hstep h1 h2 nodes⟩) ⟨h, hs⟩
  rw [Parser.items, h3]
  exact hstep h1 h2 nodes

/-- **A whole script keeps it**, read to its end or not. -/
lemma Whole.upheld_script {I : ParserState → Prop} {t : Text} {s : ParserState} (h : Whole t s)
    (hI : Upheld I) (hs : I s) : I (Parser.script.after s) := by
  have hitems := h.upheld_items hI hs
  have hgood := h.items.1
  cases hc : (Parser.items.after s).cancelled
  · rw [after_script hgood hc]
    generalize Parser.items.after s = u at hgood hitems ⊢
    refine hI.take ?_ (hI.emptyFile _ hgood hitems)
    unfold Parser.emptyFile
    split
    · exact (hgood.look .header).report _ _ _
    · exact hgood
  · rw [after_script_of_cancelled hc, after_node]
    generalize Parser.items.after s = u at hgood hitems ⊢
    have hclosed := good_complete (after_advanceRest (good_start hgood)).1 .error
    rw [hclosed.after_bump]
    exact hI.take hclosed (hI.complete (hI.advanceRest (hI.start hitems)))

/-! ### Tokens -/

lemma forall_tokens_add {P : Token → Prop} {f : Forest} {token : Token} (h : ∀ k ∈ f.tokens, P k)
    (htoken : P token) : ∀ k ∈ (f.add (.leaf token)).tokens, P k := by
  rw [Forest.tokens_add, Tree.tokens_leaf]
  exact List.forall_mem_append.2 ⟨h, List.forall_mem_singleton.2 htoken⟩

/-- What holds of every token that a scanner finds, and of a rest that is left over, holds of every
token that was read. -/
lemma upheld_tokens {P : Token → Prop}
    (htake : ∀ ⦃s : Scanner⦄ mode, s.Good → P (s.ahead mode).token)
    (hrest : ∀ t, P { kind := .errorToken, fullText := t }) :
    Upheld fun s => ∀ token ∈ s.forest.tokens, P token where
  reads u v hg hr h := hr.keeps (I := fun _ ts => ∀ token ∈ ts, P token) hg h (fun _ _ _ _ h => h)
    fun _ _ mode hs h => List.forall_mem_append.2 ⟨h, List.forall_mem_singleton.2 (htake mode hs)⟩
  mark _ h := h
  take u hg h := forall_tokens_add h (htake .header hg.scanner)
  emptyFile u nodes _ h := by
    unfold Parser.emptyFile
    split
    · rw [forest_report]
      exact h
    · exact h
  start _ h := by simpa only [ParserState.start, Forest.tokens_start] using h
  complete _ h := by simpa only [ParserState.complete, Forest.tokens_complete] using h
  advanceRest u h := by
    rcases advanceRest_cases u with ⟨-, heq⟩ | ⟨-, heq⟩ <;> rw [heq]
    · exact h
    · exact forall_tokens_add h (hrest _)

end Parser

namespace Parse

open ParserState DialogueScript.Parser

/-- **The tree holds the text**: whatever the settings and whenever it is cancelled, a parse gives a
source file whose tokens, with their trivia, are the text that was read. -/
theorem tree_holds_text (config : Config) (t : Text) (cancelAt : Option Nat) :
    (withCancel config t cancelAt).tree.kind = .sourceFile ∧
      (withCancel config t cancelAt).tree.text = t := by
  obtain ⟨h1, h2⟩ := (Parser.whole_start config t cancelAt).script
  refine ⟨rfl, ?_⟩
  rw [Forest.text, h2] at h1
  simpa [withCancel, ofState, finalState, Forest.trees, Parser.after] using h1

/-- What holds of every token that a scanner finds, and of a rest that is left over, holds of every
token in the tree. -/
lemma forall_tokens {P : Token → Prop}
    (htake : ∀ ⦃s : Scanner⦄ mode, s.Good → P (s.ahead mode).token)
    (hrest : ∀ t, P { kind := .errorToken, fullText := t }) (config : Config) (t : Text)
    (cancelAt : Option Nat) : ∀ token ∈ (withCancel config t cancelAt).tree.tokens, P token := by
  have hall := (whole_start config t cancelAt).upheld_script (upheld_tokens htake hrest)
    (by simp [begun, Forest.tokens])
  have houter := ((whole_start config t cancelAt).script).2
  intro token hmem
  refine hall token ?_
  simpa [withCancel, ofState, finalState, Parser.after, Forest.tokens, Forest.trees,
    show (script.run (begun config t cancelAt)).2.forest.outer = [] from houter] using hmem

/-- No token that is read has more trivia than text. -/
lemma triviaFits (config : Config) (t : Text) (cancelAt : Option Nat) :
    (withCancel config t cancelAt).tree.TriviaFits := fun k hk =>
  Token.Proper.fits (forall_tokens (fun _ mode hs => (hs.takes mode).proper)
    (fun _ => Token.proper_bare _ _) config t cancelAt k hk)

end Parse

end DialogueScript

import DialogueScript.Proofs.Grammar.ForwardRules
import DialogueScript.Proofs.Parse.Cancelled

/-!
What moving forward shows of a whole parse. A token that closes a block stands at the end of the
block or alone in an error, no diagnostic says anything but what the grammar or the problem itself
says, and the children of the root are not empty.
-/

namespace DialogueScript

open DialogueScript.Parser ParserState

namespace Diagnostic

/-- The message is one of those of the grammar, or it is that of the problem. -/
def Worded (d : Diagnostic) : Prop := d.message ∈ messages ∨ d.message = d.problem.message

/-- No statement is ever missed. -/
lemma Worded.message_ne {d : Diagnostic} (h : d.Worded) : d.message ≠ "expected a statement" := by
  have hproblem : ∀ p : Problem, "expected a statement" ≠ p.message := by
    rintro (e | e) <;> cases e <;> decide
  intro hd
  rcases h with h | h <;> rw [hd] at h
  · exact absurd h (by decide)
  · exact hproblem _ h

/-- The words do not depend on lines and columns. -/
lemma Worded.of_bare {d d' : Diagnostic} (h : d.Worded) (hd : d'.bare = d.bare) : d'.Worded := by
  have hproblem : d'.problem = d.problem := congrArg (·.problem) hd
  have hmessage : d'.message = d.message := congrArg (·.message) hd
  rwa [Worded, hproblem, hmessage]

lemma worded_errorsOf (l : Lexed) (position : Nat) : ∀ d ∈ errorsOf l position, d.Worded := by
  intro d hd
  unfold errorsOf at hd
  split at hd
  · simp at hd
  · obtain rfl := List.mem_singleton.1 hd
    exact .inr rfl

end Diagnostic

/-- A token that closes a block is the last one of a block, or stands alone in an error. All others
have text. -/
inductive Tree.InPlace : Tree → Prop where
  | leaf {t : Token} : t.kind ≠ .dedent → t.fullText ≠ [] → InPlace (.leaf t)
  | node {k : Kind} {cs : List Tree} : (∀ c ∈ cs, InPlace c) → InPlace (.node k cs)
  | block {cs : List Tree} {t : Token} : (∀ c ∈ cs, InPlace c) → t.kind = .dedent →
      InPlace (.node .block (cs ++ [.leaf t]))
  | stray {t : Token} : t.kind = .dedent → InPlace (.node .error [.leaf t])

namespace ParserState

/-- All trees so far are in place, and all diagnostics are worded. -/
structure Orderly (s : ParserState) : Prop where
  inner : ∀ t ∈ s.forest.inner, t.InPlace
  outer : ∀ level ∈ s.forest.outer, ∀ t ∈ level, t.InPlace
  worded : ∀ d ∈ s.diagnostics, d.Worded

namespace Orderly

variable {s u : ParserState}

lemma of_eq (h : s.Orderly) (hforest : u.forest = s.forest)
    (hfound : u.diagnostics = s.diagnostics) :
    u.Orderly := by
  refine ⟨?_, ?_, ?_⟩
  · rw [hforest]
    exact h.inner
  · rw [hforest]
    exact h.outer
  · rw [hfound]
    exact h.worded

lemma start (h : s.Orderly) : s.start.Orderly :=
  ⟨by simp [ParserState.start, Forest.start], List.forall_mem_cons.2 ⟨h.inner, h.outer⟩, h.worded⟩

lemma precede (h : s.Orderly) : s.precede.Orderly := by
  unfold ParserState.precede Forest.precede
  split
  · exact h.start.of_eq rfl rfl
  · next newest level heq =>
    have hinner := h.inner
    rw [heq, List.forall_mem_cons] at hinner
    exact ⟨by simpa using hinner.1, List.forall_mem_cons.2 ⟨hinner.2, h.outer⟩, h.worded⟩

lemma abandon (h : s.Orderly) : s.abandon.Orderly := by
  unfold ParserState.abandon Forest.abandon
  split
  · exact h.of_eq rfl rfl
  · next level outer heq =>
    have houter := h.outer
    rw [heq, List.forall_mem_cons] at houter
    exact ⟨List.forall_mem_append.2 ⟨h.inner, houter.1⟩, houter.2, h.worded⟩

lemma complete (h : s.Orderly) (k : Kind) : (s.complete k).Orderly := by
  unfold ParserState.complete Forest.complete
  split
  · exact h.of_eq rfl rfl
  · next level outer heq =>
    have houter := h.outer
    rw [heq, List.forall_mem_cons] at houter
    have hnode : (Tree.node k s.forest.trees).InPlace :=
      .node fun c hc => h.inner c (List.mem_reverse.1 hc)
    exact ⟨List.forall_mem_cons.2 ⟨hnode, houter.1⟩, houter.2, h.worded⟩

lemma worded_take (h : s.Orderly) (hg : s.Good) (mode : Mode) :
    ∀ d ∈ (s.take mode).diagnostics, d.Worded := by
  rw [hg.diagnostics_take]
  exact List.forall_mem_append.2 ⟨h.worded, Diagnostic.worded_errorsOf _ _⟩

lemma take (h : s.Orderly) (hg : s.Good) {mode : Mode} (h₁ : s.kindAt mode ≠ .eof)
    (h₂ : s.kindAt mode ≠ .dedent) : (s.take mode).Orderly := by
  have htext : (s.scanner.ahead mode).token.fullText ≠ [] := by
    rcases (hg.scanner.takes mode).progress (hg.scanner.settle mode) with hne | ⟨hk, -⟩ | ⟨hk, -⟩
    · exact hne
    · exact absurd hk h₂
    · exact absurd hk h₁
  exact ⟨List.forall_mem_cons.2 ⟨.leaf h₂ htext, h.inner⟩, h.outer, h.worded_take hg mode⟩

/-- A node that ends with the token that closes a block. -/
lemma closed (h : s.Orderly) (hg : s.Good) {k : Kind} {level : List Tree} {outer : List (List Tree)}
    (houter : s.forest.outer = level :: outer)
    (hnode : (Tree.node k (s.forest.trees ++ [.leaf (s.scanner.ahead .statement).token])).InPlace) :
    ((s.take .statement).complete k).Orderly := by
  have hlevels := h.outer
  rw [houter, List.forall_mem_cons] at hlevels
  have hforest : ((s.take .statement).complete k).forest =
      ⟨.node k (s.forest.trees ++ [.leaf (s.scanner.ahead .statement).token]) :: level, outer⟩ := by
    simp [ParserState.complete, ParserState.take, Forest.complete, Forest.add, Forest.trees, houter]
  refine ⟨?_, ?_, h.worded_take hg .statement⟩
  · rw [hforest]
    exact List.forall_mem_cons.2 ⟨hnode, hlevels.1⟩
  · rw [hforest]
    exact hlevels.2

lemma report (h : s.Orderly) (range : Range) (e : GrammarError) {m : String} (hm : m ∈ messages) :
    (s.report range e m).Orderly := by
  unfold ParserState.report
  split
  · exact h
  · refine ⟨h.inner, h.outer, List.forall_mem_append.2 ⟨h.worded, fun d hd => ?_⟩⟩
    obtain rfl := List.mem_singleton.1 hd
    exact .inl hm

lemma poll (h : s.Orderly) : (poll.after s).Orderly := by
  rcases poll_cases s with ⟨-, h1⟩ | ⟨-, -, h1⟩ | ⟨-, -, h1⟩ <;> rw [h1]
  · exact h
  · refine ⟨h.inner, h.outer, List.forall_mem_append.2 ⟨h.worded, fun d hd => ?_⟩⟩
    obtain rfl := List.mem_singleton.1 hd
    exact .inr rfl
  · exact h.of_eq rfl rfl

end Orderly

end ParserState

/-- **Moving forward keeps order.** -/
theorem Forward.orderly {s₀ s : ParserState} (h : Forward s₀ s) (hg : s₀.Good) (ho : s₀.Orderly) :
    s.Orderly := by
  induction h with
  | refl => exact ho
  | look mode _ ih => exact (ih hg ho).of_eq rfl rfl
  | take mode h h₁ h₂ ih => exact (ih hg ho).take (h.good hg) h₁ h₂
  | report mode e m hm h _ ih ih' => exact (ih' (h.good hg) (ih hg ho)).report _ e hm
  | poll _ ih => exact (ih hg ho).poll
  | node k h _ ih ih' => exact (ih' (good_start (h.good hg)) (ih hg ho).start).complete k
  | abandon h _ ih ih' => exact (ih' (good_start (h.good hg)) (ih hg ho).start).abandon
  | around k h _ ih ih' => exact (ih' (good_precede (h.good hg)) (ih hg ho).precede).complete k
  | block h h' hk ih ih' =>
    have hstart := good_start (h.good hg)
    have hs' := ih' hstart (ih hg ho).start
    exact hs'.closed (h'.good hstart) (h'.reads.follows hstart).outer
      (.block (fun c hc => hs'.inner c (List.mem_reverse.1 hc)) hk)
  | stray h h' hk hnil ih ih' =>
    have hstart := good_start (h.good hg)
    refine (ih' hstart (ih hg ho).start).closed (h'.good hstart) (h'.reads.follows hstart).outer ?_
    rw [Forest.trees, hnil]
    exact .stray hk

/-! ### The children of the root -/

namespace Parser

variable {t : Text} {s : ParserState}

lemma forward_itemStep (hg : s.Good) (hs : AtChild s) (nodes : Nat) :
    Forward s.mark ((itemStep nodes).after s) := by
  have hpoll : Forward s.mark (poll.after s.mark) := .poll (.refl _)
  rcases itemStep_cases hg nodes with ⟨-, -, heq⟩ | ⟨-, -, -, heq⟩ | ⟨-, -, hb, -⟩
  · rw [heq]
    exact hpoll
  · rw [heq]
    exact .look .header hpoll
  · obtain ⟨u, hu, -, hcalm, -, hforward, -, -, heq⟩ := itemStep_child hg hs hb
    rw [heq]
    exact hforward.trans (triple_child _ hu hcalm).1

/-- What holds in front of each child of the root. -/
structure Sound (t : Text) (s : ParserState) : Prop where
  whole : Whole t s
  atChild : AtChild s
  orderly : s.Orderly
  nonempty : ∀ tree ∈ s.forest.inner, tree.text ≠ []

/-- A child that moves the position has text. -/
lemma text_child_ne {u : ParserState} (hu : u.Good) (hat : AtHeader u) (hcalm : u.scanner.Calm)
    (hk : u.kindAt .header ≠ .eof) : ∃ tree : Tree,
      ((child (u.kindAt .header)).after u).forest.inner = tree :: u.forest.inner ∧
        tree.text ≠ [] := by
  obtain ⟨-, tree, htree, -⟩ := child_spec hu hat hk
  have hf := (reading_child (u.kindAt .header)).follows hu
  have hlt := offset_lt_child hu hat hcalm hk
  generalize (child (u.kindAt .header)).after u = v at *
  have hforest : v.forest = u.forest.add tree := by
    have houter := hf.outer
    rcases hv : v.forest with ⟨inner, outer⟩
    rw [hv] at htree houter
    rw [Forest.add, ← htree, ← houter]
  have htext := hf.text
  have hoff := hf.offset
  rw [hforest, Forest.text_add, List.append_assoc] at htext
  have hrest : tree.text ++ v.scanner.rest = u.scanner.rest := List.append_cancel_left htext
  refine ⟨tree, htree, fun hnil => ?_⟩
  rw [hnil, List.nil_append] at hrest
  rw [hrest] at hoff
  omega

lemma Sound.advances (h : Sound t s) {nodes next : Nat}
    (hb : (itemStep nodes).answer s = .yield next) :
    ((itemStep nodes).after s).scanner.budget < s.scanner.budget ∧
      Sound t ((itemStep nodes).after s) := by
  obtain ⟨hlt, hwhole⟩ := h.whole.advances hb
  have hmark : s.mark.Orderly := h.orderly.of_eq rfl rfl
  have horderly := (forward_itemStep h.whole.good h.atChild nodes).orderly h.whole.good.mark hmark
  obtain ⟨u, hu, hat, hcalm, hk, -, -, hforest, heq⟩ := itemStep_child h.whole.good h.atChild hb
  obtain ⟨tree, htree, hne⟩ := text_child_ne hu hat hcalm hk
  refine ⟨hlt, hwhole, (itemStep_keeps h.whole.good h.atChild hb).2, horderly, ?_⟩
  rw [heq, htree, hforest]
  exact List.forall_mem_cons.2 ⟨hne, h.nonempty⟩

/-- The children of the root are in order and have text. -/
lemma Sound.items (h : Sound t s) :
    (Parser.items.after s).Orderly ∧ ∀ tree ∈ (Parser.items.after s).forest.inner,
      tree.text ≠ [] := by
  obtain ⟨nodes, u, h1, h2, h3⟩ :=
    loop_ends (I := fun _ => Sound t) (fun _ _ h _ hb => h.advances hb) h (a := 0)
  have hmark : u.mark.Orderly := h1.orderly.of_eq rfl rfl
  have horderly :=
    (forward_itemStep h1.whole.good h1.atChild nodes).orderly h1.whole.good.mark hmark
  have hforest : ((itemStep nodes).after u).forest = u.forest := by
    rcases itemStep_cases h1.whole.good nodes with ⟨-, -, heq⟩ | ⟨-, -, -, heq⟩ | ⟨-, -, hb, -⟩
    · rw [heq, forest_poll]
      rfl
    · rw [heq]
      exact forest_poll u.mark
    · exact absurd (hb.symm.trans h2) (by simp)
  rw [Parser.items, h3]
  exact ⟨horderly, hforest ▸ h1.nonempty⟩

lemma sound_start (config : Config) (t : Text) (cancelAt : Option Nat) :
    Sound t (Parse.begun config t cancelAt) := by
  have hwhole := whole_start config t cancelAt
  have hended : Scanner.Ended (.start config t) := .inl rfl
  exact ⟨hwhole, .inr ⟨Ended.atHeader hwhole.good hended, hended.calm hwhole.good.scanner.toSane⟩,
    ⟨List.forall_mem_nil _, List.forall_mem_nil _, List.forall_mem_nil _⟩, List.forall_mem_nil _⟩

/-- What a script leaves: the children that were read, the rest of a text that was not read to its
end, and the end of the text. -/
structure Ending (u : ParserState) (children rest : List Tree) (eof : Token) : Prop where
  trees : u.forest.trees = children ++ (rest ++ [.leaf eof])
  nonempty : ∀ tree ∈ children, tree.text ≠ []
  unread : rest = [] ∨ u.cancelled = true ∧ ∃ cs, rest = [.node .error cs]
  eof : eof.kind = .eof
  inPlace : ∀ tree ∈ children ++ rest, tree.InPlace
  worded : ∀ d ∈ u.diagnostics, d.Worded

lemma Sound.script (h : Sound t s) :
    ∃ children rest eof, Ending (Parser.script.after s) children rest eof := by
  obtain ⟨horderly, hnonempty⟩ := h.items
  obtain ⟨hgood, -, -, hend⟩ := h.whole.items
  have hchildren : ∀ tree ∈ (Parser.items.after s).forest.trees, tree.text ≠ [] ∧ tree.InPlace :=
    fun tree ht =>
      ⟨hnonempty tree (List.mem_reverse.1 ht), horderly.inner tree (List.mem_reverse.1 ht)⟩
  by_cases hc : (Parser.items.after s).cancelled = true
  · obtain ⟨rest, v, hrest, hv, hk, -, hcancelled, hforest, hfound, heq⟩ :=
      script_of_cancelled h.whole hc
    have herror : (Tree.node .error rest).InPlace := by
      refine .node fun c hcs => ?_
      rcases hrest with rfl | ⟨token, rfl, htoken, hne⟩
      · simp at hcs
      · obtain rfl := List.mem_singleton.1 hcs
        exact .leaf (by simp [htoken]) hne
    rw [heq]
    refine ⟨_, [.node .error rest], (v.scanner.ahead .header).token, ?_,
      fun c hc => (hchildren c hc).1, .inr ⟨hcancelled, rest, rfl⟩, hk, ?_, ?_⟩
    · simp [ParserState.take, Forest.add, Forest.trees, hforest]
    · exact List.forall_mem_append.2
        ⟨fun c hc => (hchildren c hc).2, List.forall_mem_singleton.2 herror⟩
    · rw [hv.diagnostics_take, hfound]
      exact List.forall_mem_append.2 ⟨horderly.worded, Diagnostic.worded_errorsOf _ _⟩
  · have hk := hend.resolve_left hc
    rw [after_script hgood (by simpa using hc)]
    generalize Parser.items.after s = u at *
    have hsame : (emptyFile (Parser.items.answer s) u).Good ∧
        (emptyFile (Parser.items.answer s) u).Orderly ∧
        (emptyFile (Parser.items.answer s) u).kindAt .header = .eof ∧
        (emptyFile (Parser.items.answer s) u).forest = u.forest := by
      unfold emptyFile
      split
      · have hlook : (u.look .header).Orderly := horderly.of_eq rfl rfl
        refine ⟨(hgood.look .header).report _ _ _, hlook.report _ _ Listed.mem, ?_,
          by simp [ParserState.look]⟩
        rw [kindAt, scanner_report, ← kindAt, kindAt_look, hk]
      · exact ⟨hgood, horderly, hk, rfl⟩
    generalize emptyFile (Parser.items.answer s) u = v at hsame
    obtain ⟨hv, hvo, heof, hforest⟩ := hsame
    refine ⟨u.forest.trees, [], (v.scanner.ahead .header).token, ?_,
      fun c hc => (hchildren c hc).1, .inl rfl,
      heof, fun c hc => (hchildren c (by simpa using hc)).2, hvo.worded_take hv .header⟩
    simp [ParserState.take, Forest.add, Forest.trees, hforest]

end Parser

namespace Parse

/-- All that a parse reports is said in the words of the grammar or of the problem. -/
lemma worded_diagnostics (config : Config) (t : Text) (cancelAt : Option Nat) :
    ∀ d ∈ (withCancel config t cancelAt).diagnostics, d.Worded := by
  intro d hd
  have hmem : d.bare ∈ (finalState config t cancelAt).diagnostics.map Diagnostic.bare := by
    rw [← map_bare_diagnostics]
    exact List.mem_map_of_mem hd
  obtain ⟨d', hd', heq⟩ := List.mem_map.1 hmem
  obtain ⟨children, rest, eof, hending⟩ := (sound_start config t cancelAt).script
  exact (hending.worded d' hd').of_bare heq.symm

end Parse

end DialogueScript

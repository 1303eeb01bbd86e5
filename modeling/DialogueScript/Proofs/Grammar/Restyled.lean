import DialogueScript.Parse.Basic
import DialogueScript.Proofs.Grammar.Siblings
import DialogueScript.Proofs.Scanner.Restyled
import DialogueScript.Proofs.Tree.Outline

/-!
A whole script in a text and in the same text with another layout. The scanners are in step at the
start, every rule keeps them in step, and so the two runs build the same tree and report the same.
-/

set_option synthInstance.maxSize 512

namespace DialogueScript

open ParserState

/-! ### Children of the root in step -/

namespace ParserState.InStep

open DialogueScript.Parser

variable {π : Pairing} {s s' : ParserState}

lemma mark (h : InStep π s s') : InStep π s.mark s'.mark :=
  ⟨h.good.mark, h.good'.mark, h.scanner, h.inner, h.found, ⟨h.quiet.never, h.quiet.running⟩,
    ⟨h.quiet'.never, h.quiet'.running⟩⟩

variable (hsees : ∀ u, π.sees u)
include hsees

lemma child (h : InStep π s s') (hs : AtHeader s) (hs' : AtHeader s') (k : Kind) :
    InStep π ((Parser.child k).after s) ((Parser.child k).after s') := by
  obtain ⟨q, hr, hm, heq, -⟩ := child_eq_nodeOf k
  rw [heq, heq]
  exact (hm.nodeOf hr hr h hs hs' (hsees _)).2

lemma itemStep (h : InStep π s s') (hs : AtHeader s) (hs' : AtHeader s') (nodes : Nat) :
    (Parser.itemStep nodes).answer s = (Parser.itemStep nodes).answer s' ∧
      InStep π ((Parser.itemStep nodes).after s) ((Parser.itemStep nodes).after s') := by
  have hlook : InStep π (s.mark.look .header) (s'.mark.look .header) := h.mark.look (hsees _)
  have hkind : s.mark.kindAt .header = s'.mark.kindAt .header := h.mark.kindAt_eq (hsees _)
  obtain ⟨h1, h2⟩ := Quiet.poll h.mark.quiet
  obtain ⟨h1', h2'⟩ := Quiet.poll h.mark.quiet'
  have hcases := itemStep_cases h.good nodes
  have hcases' := itemStep_cases h.good' nodes
  rw [h1, h2] at hcases
  rw [h1', h2', ← hkind] at hcases'
  rcases hcases with ⟨hp, -, -⟩ | ⟨-, hk, h3, h4⟩ | ⟨-, hk, h3, h4⟩
  · simp at hp
  · obtain ⟨-, -, h3', h4'⟩ := (hcases'.resolve_left (by simp)).resolve_right fun h => h.2.1 hk
    rw [h3, h3', h4, h4']
    exact ⟨rfl, hlook⟩
  · obtain ⟨-, -, h3', h4'⟩ := (hcases'.resolve_left (by simp)).resolve_left fun h => hk h.2.1
    rw [h3, h3', h4, h4']
    exact ⟨rfl, hlook.child hsees (AtHeader.look (s := s.mark) hs)
      (AtHeader.look (s := s'.mark) hs') _⟩

/-- All children of the root are read in step. -/
lemma items (h : InStep π s s') {t t' : Text} (hs : Whole t s) (hs' : Whole t' s') :
    Parser.items.answer s = Parser.items.answer s' ∧
      InStep π (Parser.items.after s) (Parser.items.after s') := by
  have hat : ∀ {t : Text} {u : ParserState}, Whole t u → u.Quiet → AtHeader u := fun hu hq =>
    hu.atHeader.resolve_left (by simp [hq.running])
  -- what is left of the one loop runs in step with what is left of the other
  obtain ⟨nodes, u, ⟨u', hstep, hu, hu', hrun⟩, hdone, hafter⟩ := loop_ends (a := 0)
    (I := fun nodes u => ∃ u', InStep π u u' ∧ Whole t u ∧ Whole t' u' ∧
      (loop Parser.itemStep nodes).run u' = (loop Parser.itemStep 0).run s')
    (fun nodes u ⟨u', hstep, hu, hu', hrun⟩ next hnext => by
      obtain ⟨hanswer, hstep'⟩ :=
        hstep.itemStep hsees (hat hu hstep.quiet) (hat hu' hstep.quiet') nodes
      obtain ⟨hlt, hwhole⟩ := hu.advances hnext
      have hnext' := hanswer ▸ hnext
      refine ⟨hlt, _, hstep', hwhole, (hu'.advances hnext').2, ?_⟩
      rw [← hrun]
      exact (run_loop_yield (I := fun _ u => u.cancelled = true ∨ AtHeader u)
        (fun nodes u hg => good_itemStep hg nodes) advances_itemStep hu'.good hu'.atHeader
          hnext').symm)
    ⟨s', h, hs, hs', rfl⟩
  obtain ⟨hanswer, hstep'⟩ := hstep.itemStep hsees (hat hu hstep.quiet) (hat hu' hstep.quiet') nodes
  have hrun' := run_loop_done (hanswer ▸ hdone)
  rw [hrun] at hrun'
  rw [show Parser.items.after s = _ from hafter,
    show Parser.items.after s' = _ from congrArg Prod.snd hrun']
  exact ⟨(congrArg Prod.fst hrun').symm, hstep'⟩

end ParserState.InStep

/-! ### Texts with different layouts -/

/-- Two diagnostics say the same at places that correspond. -/
structure DiagnosticLike (R : Restyling) (T T' : Text) (d d' : Diagnostic) : Prop where
  problem : d.problem = d'.problem
  message : d.message = d'.message
  range : RangeLike R T T' d.range d'.range

section
variable {R : Restyling} {T T' : Text} {α : Type} {view : Token → α}
  (hview : ∀ ⦃l l' : Token⦄, TokenLike R l l' → view l = view l')

/-- Two runs over texts with different layouts, of whose tokens only `view` is compared. -/
def Restyling.pairing (T T' : Text) : Pairing where
  scanner s s' := s.Restyled R T T' s'
  sees _ := True
  tree c c' := c.outline view = c'.outline view
  range := RangeLike R T T'
  found := List.Forall₂ (DiagnosticLike R T T')
  sees_mono _ _ := trivial
  config_eq h := h.config
  looks {_ _ mode} hs hs' h _ :=
    have hstep := h.ahead hs hs' mode
    ⟨hstep.token.kind, h.commandAhead_eq hs hs' mode, hstep.range, h.looking mode⟩
  takes {_ _ mode} hs hs' h _ _ :=
    have hstep := h.ahead hs hs' mode
    ⟨hstep.error, congrArg Outline.leaf (hview hstep.token), hstep.behind.setDiagnostics _ _⟩
  node {k _ _} h := Tree.outline_node_congr view k h
  report {_ _ _ _} _ _ h hr := List.rel_append h (.cons ⟨rfl, rfl, hr⟩ .nil)

include hview

/-- The error for a file without nodes is reported at the same place. -/
lemma ParserState.InStep.emptyFile {s s' : ParserState}
    (h : InStep (Restyling.pairing hview T T') s s') (nodes : Nat) :
    InStep (Restyling.pairing hview T T') (Parser.emptyFile nodes s)
      (Parser.emptyFile nodes s') := by
  unfold Parser.emptyFile
  split
  · have hr : RangeLike R T T' (s.rangeAt .header) (s'.rangeAt .header) := h.rangeAt trivial
    have hempty :
        RangeLike R T T' (.empty (s.rangeAt .header).start) (.empty (s'.rangeAt .header).start) :=
      ⟨hr.start, hr.start⟩
    have hlook : InStep _ (s.look .header) (s'.look .header) := h.look trivial
    exact hlook.report .emptyFile "expected at least one node" hempty
  · exact h

/-- **Texts with different layouts** are read as the same tree, and the same is reported at places
that correspond. -/
lemma Parse.restyled (config : Config) (htab : config.tabWidth = R.tabWidth)
    (h : Text.Lines R T T') :
    (Parse.ofText config T).tree.outline view = (Parse.ofText config T').tree.outline view ∧
      List.Forall₂ (DiagnosticLike R T T') (Parse.finalState config T none).diagnostics
        (Parse.finalState config T' none).diagnostics := by
  have hwhole := Parser.whole_start config T none
  have hwhole' := Parser.whole_start config T' none
  have hstart : InStep (Restyling.pairing hview T T') (Parse.begun config T none)
      (Parse.begun config T' none) :=
    ⟨hwhole.good, hwhole'.good,
      ⟨rfl, htab, .nil, rfl, fun _ => h, by simp [Parse.begun, Scanner.start, Scanner.atLine],
      .none, ⟨[], rfl, rfl⟩, ⟨[], rfl, rfl⟩⟩, .nil, .nil, ⟨rfl, rfl⟩, ⟨rfl, rfl⟩⟩
  obtain ⟨hanswer, hitems⟩ := hstart.items (fun _ => trivial) hwhole hwhole'
  have hfinal : ∀ {t : Text} {u : ParserState}, Parser.Whole t u → u.Quiet →
      Parser.script.after u = (Parser.emptyFile (Parser.items.answer u) (Parser.items.after u)).take
        .header :=
    fun hu hq => Parser.after_script hu.items.1 (hu.keeps hq (I := fun _ => True) trivial
      (fun _ _ => trivial) fun _ _ _ _ _ => trivial).2.1.running
  have hend := hitems.emptyFile hview (Parser.items.answer (Parse.begun config T none))
  have hafter := hfinal hwhole hstart.quiet
  have hafter' := hfinal hwhole' hstart.quiet'
  rw [← hanswer] at hafter'
  change Parse.finalState config T none = _ at hafter
  change Parse.finalState config T' none = _ at hafter'
  rw [Parse.ofText, Parse.ofText, Parse.withCancel, Parse.withCancel, Parse.ofState,
    Parse.ofState, hafter, hafter']
  generalize Parser.emptyFile _ (Parser.items.after (Parse.begun config T none)) = u,
    Parser.emptyFile _ (Parser.items.after (Parse.begun config T' none)) = u' at hend
  -- the end of the text is taken last
  have hstep := Scanner.Restyled.ahead hend.scanner hend.good.scanner hend.good'.scanner .header
  refine ⟨Tree.outline_node_congr view .sourceFile (List.rel_reverse (.cons ?_ hend.inner)), ?_⟩
  · exact congrArg Outline.leaf (hview hstep.token)
  · rw [hend.good.diagnostics_take, hend.good'.diagnostics_take, errorsOf, errorsOf, ← hstep.error]
    refine List.rel_append hend.found ?_
    split
    · exact .nil
    · exact .cons ⟨rfl, rfl, hstep.range⟩ .nil

end

end DialogueScript

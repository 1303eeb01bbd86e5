import DialogueScript.Proofs.Grammar.NodeParts
import DialogueScript.Proofs.Parse.Silent

/-!
The trees of parses that report nothing: every node has all the parts that its kind asks for.
-/

namespace DialogueScript

open DialogueScript.Parser ParserState

namespace Parser

variable {s : ParserState}

/-- As long as nothing is reported, the finished trees are complete. -/
def AllComplete (s : ParserState) : Prop := ¬ s.Reported → ∀ t ∈ s.forest.inner, t.Complete

lemma AllComplete.child (hg : s.Good) (hq : s.Quiet) (h : AllComplete s) (k : Kind) :
    AllComplete ((child k).after s) := by
  intro hnot t ht
  have hbefore : ¬ s.Reported := fun hr => hnot (((reading_child k).follows hg).reported hr)
  obtain ⟨ts, hadded, -⟩ := (builds_child k).makes s hg hq hnot
  rw [hadded.inner] at ht
  rcases List.mem_append.1 ht with ht | ht
  · exact hadded.complete t (List.mem_reverse.1 ht)
  · exact h hbefore t ht

lemma AllComplete.report (hg : s.Good) (h : AllComplete s) (range : Range) (e : GrammarError)
    (m : String) :
    AllComplete (s.report range e m) := by
  intro hnot t ht
  rw [forest_report] at ht
  exact h (fun hr => hnot ((Follows.report hg range e m).reported hr)) t ht

lemma AllComplete.take (hg : s.Good) (h : AllComplete s) (mode : Mode) :
    AllComplete (s.take mode) := by
  intro hnot t ht
  rcases List.mem_cons.1 ht with rfl | ht
  · exact Tree.complete_leaf _
  · exact h (fun hr => hnot (by simpa [Reported, hg.diagnostics_take] using fun hd => absurd hd hr))
      t ht

/-- **Reading a script leaves out no part** without a report. -/
lemma Whole.allComplete_script {t : Text} (h : Whole t s) (hq : s.Quiet) (hs : AllComplete s) :
    AllComplete (Parser.script.after s) :=
  (h.keeps_script hq (I := fun u => u.Good ∧ AllComplete u) ⟨h.good, hs⟩
    (fun _ ⟨hg, hu⟩ => ⟨hg.mark.look .header, hu⟩)
    (fun _ hg hq _ ⟨_, hu⟩ => ⟨((reading_child _).follows hg).good, hu.child hg hq _⟩)
    (fun u range ⟨hg, hu⟩ =>
      ⟨(hg.look .header).report _ _ _, AllComplete.report (s := u.look .header)
      (hg.look .header) hu range _ _⟩)
    fun _ hg ⟨_, hu⟩ => ⟨hg.take .header, hu.take hg .header⟩).2

end Parser

namespace Parse

/-- **A parse without reports is complete**: in its tree, every node has all the parts that its kind
asks for. Nodes have one title and a closed body, lines have their text, conditions and values their
expressions, operators their operands, and chains their clauses in order. -/
theorem parts_of_silent (config : Config) (t : Text) (h : (ofText config t).diagnostics = []) :
    ∀ k cs, .node k cs ∈ (ofText config t).tree.subtrees → Tree.hasParts k cs = true := by
  have hwhole := (whole_start config t none).allComplete_script ⟨rfl, rfl⟩ fun _ _ ht => by
    simp [begun] at ht
  have hnil := diagnostics_eq_nil h
  exact Tree.complete_node rfl fun c hc => hwhole (not_not.2 hnil) c (mem_trees.1 hc)

/-- An `if` chain with its clauses in order, in a node with a title and a closed body. -/
theorem parts_of_silent_chain :
    (ofText {}
        "title: A\n---\n<<if $x>>\nb\n<<else>>\nc\n<<endif>>\n===\n".toList).diagnostics = [] ∧
      ∃ cs, .node .ifStmt cs ∈ (ofText {}
        "title: A\n---\n<<if $x>>\nb\n<<else>>\nc\n<<endif>>\n===\n".toList).tree.subtrees ∧
      Tree.isChain .ifClause (· = .elseIfClause) .elseClause cs = true := by
  have h : (ofText {}
      "title: A\n---\n<<if $x>>\nb\n<<else>>\nc\n<<endif>>\n===\n".toList).diagnostics = [] := by
    decide +kernel
  have hchain : ∃ c ∈ (ofText {}
      "title: A\n---\n<<if $x>>\nb\n<<else>>\nc\n<<endif>>\n===\n".toList).tree.subtrees,
      c.isNode = true ∧ c.kind = .ifStmt := by decide +kernel
  obtain ⟨_ | ⟨k, cs⟩, hc, hnode, hk⟩ := hchain
  · simp [Tree.isNode] at hnode
  · obtain rfl : k = .ifStmt := hk
    exact ⟨h, cs, hc, parts_of_silent {} _ h .ifStmt cs hc⟩

end Parse

end DialogueScript

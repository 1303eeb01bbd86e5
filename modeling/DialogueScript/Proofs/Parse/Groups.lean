import DialogueScript.Proofs.Grammar.Grouping
import DialogueScript.Parse.Basic

/-!
The groups of options and of line-group items in a parse, and the blank lines between them.
-/

namespace DialogueScript

open DialogueScript.Parser ParserState

namespace Parse

/-- What is reported changes nothing of a row. -/
lemma rows_report {config : Config} {s u : ParserState} (hu : RunsWith config u)
    (h : Rows config s u) (range : Range) (e : GrammarError) (m : String) :
    RunsWith config (u.report range e m) ∧ Rows config s (u.report range e m) := by
  have hfollows := Follows.report hu.good range e m
  refine ⟨⟨hfollows.good, hfollows.quiet hu.quiet, hfollows.config.trans hu.config, ?_⟩,
    h.idle ⟨?_, ?_, fun _ _ => ?_⟩ (by rw [forest_report])⟩ <;> rw [scanner_report]
  exact hu.unspent

lemma row_children (config : Config) (t : Text) :
    Tree.Row config (finalState config t none).forest.trees := by
  have hwhole := whole_start config t none
  have hstart : RunsWith config (begun config t none) :=
    ⟨hwhole.good, ⟨rfl, rfl⟩, rfl, (Scanner.seesBlankLine_of_none rfl).unspent⟩
  have hlook {s u : ParserState} (hu : RunsWith config u) (h : Rows config s u) :
      Rows config s (u.look .header) :=
    h.idle (Idle.look _ .header) rfl
  obtain ⟨-, zs, h1, h2, -⟩ := hwhole.keeps_script ⟨rfl, rfl⟩
    (I := fun u => RunsWith config u ∧ Rows config (begun config t none) u)
    ⟨hstart, .refl _⟩
    (fun u ⟨hu, hrows⟩ => by
      have hmark : RunsWith config u.mark :=
        ⟨hu.good.mark, ⟨hu.quiet.never, hu.quiet.running⟩, hu.config, hu.unspent⟩
      exact ⟨hmark.look .header, hlook hmark hrows⟩)
    (fun u hg _ _ ⟨hu, hrows⟩ => ⟨hu.reads (reading_child _ hg), (rowed_child _).keeps hu hrows⟩)
    (fun u range ⟨hu, hrows⟩ => rows_report (hu.look .header) (hlook hu hrows) range _ _)
    fun u hg ⟨hu, hrows⟩ => by
      have htake := hg.scanner.takes .header
      exact ⟨⟨hg.take .header, ⟨hu.quiet.never, hu.quiet.running⟩,
        (htake.config_eq.trans (Scanner.settle_config _ _)).trans hu.config,
        htake.unspent (hu.unspent.settle .header)⟩, hrows.take hg (by simp)⟩
  rw [show (begun config t none).forest.inner = [] from rfl, List.append_nil] at h1
  rwa [finalState, Forest.trees, ← Parser.after, h1, List.reverse_reverse]

/-- **Groups split exactly at the blank lines that the settings name.** Two groups of one kind
follow each other only if a blank line ends the first. A blank line is a token only at the end of a
group, behind an item after which the settings let blank lines end the group, and between two items
none stands after the first of which they do. -/
theorem groups_split_at_blank_lines (config : Config) (t : Text) :
    ∀ k cs, .node k cs ∈ (ofText config t).tree.subtrees → Tree.Grouped config k cs :=
  ((row_children config t).node (by simp) (by simp)).grouped

/-- Two groups of options, of which a blank line ends the first. -/
theorem groups_split_behind_block :
    ∃ cs, .node .shortcutOptionGroup cs ∈
        (ofText {} "title: A\n---\n-> a\n  b\n\n-> c\n===\n".toList).tree.subtrees ∧
      (Tree.node .shortcutOptionGroup cs).endsWithBlankLine = true ∧
      Tree.Grouped {} .shortcutOptionGroup cs := by
  have hgroup : ∃ c ∈ (ofText {} "title: A\n---\n-> a\n  b\n\n-> c\n===\n".toList).tree.subtrees,
      c.isNodeOf .shortcutOptionGroup = true ∧ c.endsWithBlankLine = true := by decide +kernel
  obtain ⟨c, hc, hk, hends⟩ := hgroup
  obtain ⟨cs, rfl⟩ := Tree.isNodeOf_iff.1 hk
  exact ⟨cs, hc, hends, groups_split_at_blank_lines {} _ _ cs hc⟩

/-- **What the settings for blank lines mean in a script.** Where they say never, and in line groups
that are not to be split, no blank line ends a group; where they ask for a block, one stands in
front of every blank line that does; and where they say after any item, no item but the first of a
group has a blank line in front of it. -/
theorem blank_lines_follow_settings (config : Config) (t : Text) {k : Kind} {cs : List Tree}
    (hcs : .node k cs ∈ (ofText config t).tree.subtrees) :
    (∀ token, .leaf token ∈ cs → token.kind = .blankLine →
      config.optionBreak ≠ .never ∧ (k = .lineGroup → config.breakLineGroups = true) ∧
        (config.optionBreak = .afterNestedBlock →
          ∃ before item, cs = before ++ [item, .leaf token] ∧ item.hasBlock = true)) ∧
      ∀ lineGroup, k = Tree.groupKind lineGroup → config.optionBreak = .afterAnyItem →
        (lineGroup = true → config.breakLineGroups = true) →
        (cs.filter (Tree.isNodeOf (Tree.itemKind lineGroup))).IsChain fun _ y =>
          y.Adjoins lineGroup := by
  have h := ((row_children config t).node (by simp) (by simp)).grouped k cs hcs
  exact ⟨fun _ hmem hk => h.of_blank hmem hk, fun _ hk hany hsplit => h.adjoins hk hany hsplit⟩

end Parse

end DialogueScript

import DialogueScript.Proofs.Grammar.TitleNode
import DialogueScript.Proofs.Grammar.UnwindingNodes
import DialogueScript.Proofs.Parse.Children

/-!
Errors stay in their node. A text with whole lines is read in front of the title of another node as
it is read alone, whatever is left open in it, and the nodes behind it are read as if nothing stood
before them. Only the skipped lines at its end change their place: they become trivia of the title.
-/

namespace DialogueScript

open DialogueScript.Parser ParserState

namespace Parse

/-- The change from a text to the same text with more behind it. -/
def extended (t₂ : Text) : Change where
  oldTail := []
  newTail := t₂
  oldBase := 0
  newBase := 0
  oldFound := []
  newFound := []

section
variable {config : Config} {t₁ t₂ : Text} (h₁ : Text.isTerminated t₁ = true)
  (h₂ : Text.isTitled t₂ = true)
include h₁ h₂

lemma rooted_initial : Rooted (extended t₂) (initial config t₁) (initial config (t₁ ++ t₂)) := by
  have hs := ready_initial config t₁
  have hs' := ready_initial config (t₁ ++ t₂)
  have hagree : Agree (extended t₂) (initial config t₁) (initial config (t₁ ++ t₂)) :=
    ⟨hs.good, hs'.good, ⟨rfl, ⟨t₁, (List.append_nil t₁).symm, rfl⟩, ⟨0, rfl, rfl⟩, rfl, rfl, .none⟩,
      rfl, ⟨[], rfl, rfl⟩, hs.quiet, hs'.quiet⟩
  exact .of_paired
    (.of_untouched ⟨rfl, h₂⟩ hagree rfl h₁ (by simp [Scanner.ClosesAll, initial, begun,
    Scanner.start, Scanner.atLine])) ⟨rfl, by simp [Scanner.PlanDone, initial, begun, Scanner.start,
    Scanner.atLine]⟩

end

/-- The end of a text holds the skipped lines in front of it. -/
lemma ahead_eof {s : Scanner} (ho : s.Outside) (hline : s.lineStart = true)
    (hover : contentOf s.rest = []) :
    (s.ahead .header).token = .ofParts (lineTrivia s.rest) .eof [] [] := by
  have hbody : s.body .header = [] := (s.body_of_lineStart .header hline).trans hover
  have hleading : s.leading .header = lineTrivia s.rest := by simp [Scanner.leading, hline]
  rw [ho.planDone.ahead_header, Scanner.content_token, hbody, Lexeme.next_nil, hleading]
  rfl

/-- Behind the last line of the first text, the second one starts as it does alone. -/
lemma skipping_of_closing {t₂ : Text} (h₂ : Text.isTitled t₂ = true) {u u' : ParserState}
    (h : Closing (extended t₂) u u') (ho : u.scanner.Outside) :
    Skipping ⟨[], [], 0, u'.scanner.offset + Text.size u.scanner.rest, [], u'.diagnostics⟩
      u.scanner.rest (initial u.scanner.config t₂) u' := by
  have hs := ready_initial u.scanner.config t₂
  have halike := h.ending.alike
  refine ⟨hs.good, h.good', hs.quiet, h.quiet', ?_, ⟨rfl, rfl⟩, rfl, rfl, rfl, rfl⟩
  refine ⟨halike.config, ho.stack.symm.trans halike.stack, h.ending.rest_eq, h.ending.exhausted,
    h.ending.terminated, h₂, rfl, halike.lineStart.symm.trans h.ending.lineStart, ?_,
    halike.planDone ho.planDone⟩
  simp [Scanner.PlanDone, initial, begun, Scanner.start, Scanner.atLine]

/-- All children of a text that starts with a title, and those behind some skipped lines. -/
lemma siblings_of_skipping {c : Change} {w : Text} {s s' v : ParserState} {trees : List Tree}
    (h : Skipping c w s s') (hs : s.Ready) (htrees : Siblings s trees v)
    (hv : v.kindAt .header = .eof) : ∃ first behind v', trees = first :: behind ∧
      Siblings s' (first.onFirst (.preceded (lineTrivia w)) :: behind) v' ∧
      (v'.scanner.ahead .header).token = (v.scanner.ahead .header).token := by
  obtain ⟨hk, hk'⟩ := h.kindAt
  obtain _ | ⟨hne, htree, hrest⟩ := htrees
  · simp [hk] at hv
  obtain ⟨first, h1, h2, h3⟩ := next_skipping h
  obtain ⟨rfl, -⟩ := List.cons.inj (htree.symm.trans h1)
  obtain ⟨v', h4, h5, -⟩ := hrest.abreast (hs.next hne) h3 (sees_of_sameTail h.sameTail _)
  have hsame : (v.scanner.ahead .header).Same (v'.scanner.ahead .header) :=
    Scanner.Alike.ahead_same h5.scanner h5.good.scanner h5.good'.scanner (.inl h.sameTail)
  exact ⟨_, _, v', rfl, .cons (by simp [hk']) h2 h4, hsame.token.symm⟩

/-- **Nodes are isolated from each other**: what stands in front of a title, in whole lines, is read
as it is read alone, however much of it is left open, and from the title on everything is read as it
is read alone. The lines that are skipped in front of the title are trivia of the end of the first
text alone, and become trivia of the first token of the second. Only headers that still wait for
their body would take the title for one of their own. -/
theorem children_append (config : Config) (t₁ t₂ : Text) (h₁ : Text.isTerminated t₁ = true)
    (hlast : ∀ item, (ofText config t₁).tree.children.dropLast.getLast? = some item →
      item.isWaiting = false)
    (h₂ : Text.isTitled t₂ = true) : ∃ items skipped first behind,
      (ofText config t₁).tree.children = items ++ [.leaf (.ofParts skipped .eof [] [])] ∧
      (ofText config t₂).tree.children = first :: behind ∧
      (ofText config (t₁ ++ t₂)).tree.children =
        items ++ first.onFirst (.preceded skipped) :: behind := by
  obtain ⟨items, u, e₁, hitems, hu, -, -, -, heq₁⟩ := ofText_eq config t₁
  obtain ⟨trees, v, e₂, htrees, hv, -, -, -, heq₂⟩ := ofText_eq config t₂
  obtain ⟨all, x, e, hall, hx, -, -, -, heq⟩ := ofText_eq config (t₁ ++ t₂)
  have hs₁ := ready_initial config t₁
  rw [heq₁, assembled, Tree.children, List.dropLast_concat] at hlast
  obtain ⟨u', hitems', hclosing, houtside⟩ :=
    hitems.unwind ⟨rfl, h₂⟩ hs₁ (rooted_initial h₁ h₂) hu hlast
  have hconfig : u.scanner.config = config := (hitems.past hs₁).config
  have hskip := skipping_of_closing h₂ hclosing houtside
  rw [hconfig] at hskip
  obtain ⟨first, behind, v', rfl, hbehind, hahead⟩ :=
    siblings_of_skipping hskip (ready_initial config t₂) htrees hv
  obtain ⟨rfl, rfl⟩ := (hitems'.append hbehind).unique hall (by rw [kindAt, hahead]; exact hv) hx
  have heof := ahead_eof houtside hclosing.ending.lineStart hclosing.ending.exhausted
  refine ⟨items, lineTrivia u.scanner.rest, first,
    behind ++ [.leaf (v.scanner.ahead .header).token], ?_, ?_, ?_⟩
  · rw [heq₁, assembled, Tree.children, heof]
  · rw [heq₂, assembled, Tree.children, List.cons_append]
  · rw [heq, assembled, Tree.children, hahead, List.append_assoc, List.cons_append]

/-- An unclosed chain inside an option, and a comment behind it. -/
theorem children_append_unclosed :
    ∃ items skipped first behind,
      (ofText {} "title: A\n---\n-> a\n  <<if $b>>\n  c\n\n// d\n".toList).tree.children =
        items ++ [.leaf (.ofParts skipped .eof [] [])] ∧
      (ofText {} "title: B\n---\n===\n".toList).tree.children = first :: behind ∧
      Tree.children (ofText {}
          "title: A\n---\n-> a\n  <<if $b>>\n  c\n\n// d\ntitle: B\n---\n===\n".toList).tree =
        items ++ first.onFirst (.preceded skipped) :: behind :=
  children_append {} "title: A\n---\n-> a\n  <<if $b>>\n  c\n\n// d\n".toList
    "title: B\n---\n===\n".toList (by decide) (by decide +kernel) (by decide)

end Parse

end DialogueScript

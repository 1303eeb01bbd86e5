import DialogueScript.Proofs.Grammar.RecordedRules
import DialogueScript.Proofs.Parse.Lossless
import DialogueScript.Proofs.Parse.Splice
import DialogueScript.Proofs.Tree.EventLog

/-!
The tree that is built at once is the one that the record stands for. Every parse keeps the
discipline, so reading its record meets no event that is not a start, and nothing goes wrong in
building.
-/

namespace DialogueScript

open DialogueScript.Parser ParserState

/-- **A node around everything.** A run that leaves open only the node that was opened first, and
has put nothing in front of that, intends the tree that this node comes to be. -/
lemma Tracks.intended_root {base : List (List Tree)} {f : Forest} {r : Record} {p : Plan}
    {marker : Nat} {b : Bool} (h : Tracks base f r p) (houter : p.outer = [(marker, b, {})])
    {k : Kind} (hk : k ≠ .tombstone) : Plan.Intended (r.complete k).operations (.node k f.trees) ∧
      MarkOp.Prompt false (r.complete k).operations := by
  have hops : (r.complete k).operations = r.operations ++ [.complete marker k] := by
    simp [Record.operations, Record.complete, h.innermost houter]
  rw [hops]
  refine ⟨⟨_, (Plan.run?_concat h.run).trans (Plan.step?_complete houter hk), rfl, ?_, rfl⟩,
    MarkOp.prompt_concat.2 ⟨h.prompt, by simp⟩⟩
  simp [Level.addNode, h.trees_eq]

/-- A run that has opened and closed one node intends that node. -/
lemma Tracks.intended {f : Forest} {r : Record} {p : Plan} (h : Tracks [] f r p)
    (houter : p.outer = []) {tree : Tree} (htrees : f.trees = [tree]) (hnode : tree.isNode) :
    Plan.Intended r.operations tree :=
  ⟨p, h.run, houter, h.trees_eq.trans htrees, hnode⟩

namespace Parse

lemma disciplined_begun (config : Config) (t : Text) (cancelAt : Option Nat) :
    (begun config t cancelAt).Disciplined [[]] [(0, false, {})] :=
  ⟨⟨1, {}, [(0, false, {})]⟩, ⟨rfl, trivial, rfl, rfl, rfl, nofun⟩, rfl⟩

/-- **What a parse does is a run of a plan** that intends its tree, and every node is put around
another right after that one has been completed: whatever the settings, and whenever it is
cancelled. -/
theorem intended_operations (config : Config) (t : Text) (cancelAt : Option Nat) :
    Plan.Intended (operations config t cancelAt) (withCancel config t cancelAt).tree ∧
      MarkOp.Prompt false (operations config t cancelAt) := by
  obtain ⟨p, htracks, houter⟩ := Recorded.keeps (p := script) (disciplined_begun config t cancelAt)
  exact htracks.intended_root houter (by simp)

/-- **The tree of a parse is what reading its record builds** over the text. -/
theorem replay_operations (config : Config) (t : Text) (cancelAt : Option Nat) :
    ∃ l, EventLog.run {} (operations config t cancelAt) = some l ∧
      Event.replay t 0 l.events = some (.ok (withCancel config t cancelAt).tree) := by
  obtain ⟨l, hrun, hreplay⟩ := EventLog.replay_of_intended
    (intended_operations config t cancelAt).1 (triviaFits config t cancelAt) [] []
  rw [List.nil_append, List.append_nil, (tree_holds_text config t cancelAt).2] at hreplay
  exact ⟨l, hrun, hreplay⟩

/-- So is a node that is read again from where it starts. -/
theorem replay_item {config : Config} {before rest : Text} {stack : IndentStack}
    (hstack : stack.Rising) {scanner : Scanner}
    (hscanner : scanner = .atLine config rest (Text.size before) stack) {k : Kind} {cs : List Tree}
    (htrees : (item.after { scanner }).forest.trees = [.node k cs]) :
    MarkOp.Prompt false (item.after { scanner }).record.operations ∧
      ∃ l, EventLog.run {} (item.after { scanner }).record.operations = some l ∧
        Event.replay (before ++ rest) (Text.size before) l.events = some (.ok (.node k cs)) := by
  have hgood : ParserState.Good { scanner } :=
    hscanner ▸ ⟨Scanner.good_atLine config rest (Text.size before) hstack, rfl⟩
  have htext := (item_text hgood.scanner hgood.silent htrees).1
  have hrest : scanner.rest = rest := by rw [hscanner, Scanner.atLine]
  obtain ⟨p, htracks, houter⟩ := Recorded.keeps (p := item) (s := { scanner }) ⟨{}, .nil, rfl⟩
  have hproper : ∀ token ∈ (item.after { scanner }).forest.tokens, token.Proper :=
    (reading_item hgood).keeps (I := fun _ ts => ∀ token ∈ ts, token.Proper) hgood
      (by simp [Forest.tokens]) (fun _ _ _ _ h => h) fun u ts mode hu h =>
        List.forall_mem_append.2 ⟨h, List.forall_mem_singleton.2 (hu.takes mode).proper⟩
  have hlevels : (item.after { scanner }).forest.outer = [] := (reading_item.follows hgood).outer
  generalize item.after { scanner } = u at *
  have hfits : (Tree.node k cs).TriviaFits := by
    intro token htoken
    refine (hproper token ?_).fits
    rw [Forest.tokens, hlevels, List.reverse_singleton, List.flatMap_singleton,
      ← Forest.trees, htrees]
    simpa using htoken
  obtain ⟨l, hrun, hreplay⟩ :=
    EventLog.replay_of_intended (htracks.intended houter htrees rfl) hfits before u.scanner.rest
  rw [List.append_assoc, ← htext, hrest] at hreplay
  exact ⟨htracks.prompt, l, hrun, hreplay⟩

end Parse

end DialogueScript

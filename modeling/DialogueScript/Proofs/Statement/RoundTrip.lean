import DialogueScript.Proofs.Statement.Chains
import DialogueScript.Proofs.Statement.Groups

/-!
Scripts that are written out are read back: nothing is reported, and the tree stands for the nodes
and statements that were written.
-/

namespace DialogueScript

open DialogueScript.Parser DialogueScript.Scanner

namespace Passage

mutual

/-- **Every well-formed statement is read back.** -/
lemma reads : ∀ x : Passage, x.WellFormed → x.Reads
  | line _, h => reads_line h
  | group _ items, h => reads_group h (readsItems items h.2)
  | ifChain _ statements elseIfs otherwise, h =>
    reads_ifChain h (readsAll statements h.2.1) (readsClauses elseIfs h.2.2.1)
      (readsElse otherwise h.2.2.2)
  | onceChain _ statements otherwise, h =>
    reads_onceChain h (readsAll statements h.2.1) (readsElse otherwise h.2.2)
  | set _ _, h => reads_set h
  | jump _, h => reads_jump h
  | ret, _ => reads_ret

lemma readsAll : ∀ xs : List Passage, WellFormedAll xs → ReadsAll xs
  | [], _ => readsAll_nil
  | x :: xs, h => readsAll_cons (reads x h.1) (readsAll xs h.2.2) h

lemma readsItems : ∀ items : List (Text × List Passage), WellFormedItems items →
    ∀ item ∈ items, ReadsAll item.2
  | [], _ => by simp
  | (t, block) :: more, h => by
    intro item hitem
    rcases List.mem_cons.1 hitem with rfl | hmore
    · exact readsAll block h.2.1
    · exact readsItems more h.2.2 item hmore

lemma readsClauses : ∀ clauses : List (Text × List Passage), WellFormedClauses clauses →
    ∀ clause ∈ clauses, ReadsAll clause.2
  | [], _ => by simp
  | (condition, statements) :: more, h => by
    intro clause hclause
    rcases List.mem_cons.1 hclause with rfl | hmore
    · exact readsAll statements h.2.1
    · exact readsClauses more h.2.2 clause hmore

lemma readsElse : ∀ otherwise : Option (List Passage), WellFormedElse otherwise →
    ∀ statements ∈ otherwise, ReadsAll statements
  | none, _ => by simp
  | some statements, h => by
    rintro _ ⟨⟩
    exact readsAll statements h

end

end Passage

/-- A node as it is written: a title and statements that can be written, nested at most a hundred
deep. -/
structure Scene where
  title : Text
  body : List Passage
  isTitle : Title title
  wellFormed : Passage.WellFormedAll body
  depth : Passage.depthAll body ≤ 100

namespace Scene

/-- The lines of a node. -/
def text (scene : Scene) : Text := nodeText scene.title (Passage.textAll 0 scene.body) ++ ['\n']

/-- The node that is written. -/
def value (scene : Scene) : DialogueNode := .plain scene.title (Passage.values scene.body)

lemma readsBody (scene : Scene) :
    ReadsBody (Passage.textAll 0 scene.body) (Stmt.ofAll · = Passage.values scene.body) := by
  intro r
  have hend := lineOf_bodyEnd r
  obtain ⟨j, c, hline, hj⟩ :=
    Passage.first_line scene.wellFormed (by decide : 0 ≤ maxDepth) hend le_rfl
  refine ⟨LineAt 0 j c, Midline.offers_line rfl hline (by omega), ?_⟩
  have hdepth := scene.depth
  have hrun := Passage.readsAll scene.body scene.wellFormed (by omega : _ < 128) (by decide)
    Passage.clauseOnly_empty hend le_rfl (.inl (.inr (.inl rfl)))
  rw [ahead_eq hline, ahead_eq hend] at hrun
  exact hrun.mono fun _ h => h.statements

end Scene

/-- **A script that is written out is read back**: nothing is reported, and the tree stands for the
nodes that were written, with the statements that belong to each. -/
theorem Parse.statement_round_trip (config : Config) (scenes : List Scene) (hne : scenes ≠ []) :
    (ofText config (scenes.flatMap Scene.text)).diagnostics = [] ∧
      Script.ofTree (ofText config (scenes.flatMap Scene.text)).tree =
        ⟨[], scenes.map Scene.value⟩ :=
  readBack config Scene.isTitle Scene.readsBody hne

/-- A scene with a group of options, of which the first one opens a block that holds a chain. -/
def Scene.sample : Scene where
  title := "Start".toList
  body := [.line "Hello.".toList,
    .group false [("Yes".toList, [.ifChain "met".toList [.jump "Again".toList] [] (some [.ret])]),
      ("No".toList, [])],
    .onceChain none [.set "met".toList "1".toList] none]
  isTitle := ⟨by decide, by decide, by decide⟩
  wellFormed := by
    have hhello : Lexeme.PlainLine "Hello.".toList :=
      ⟨⟨by decide, by decide, by decide⟩, by decide, by decide, by decide, by decide⟩
    have hyes : Lexeme.PlainText "Yes".toList := ⟨by decide, by decide, by decide⟩
    have hno : Lexeme.PlainText "No".toList := ⟨by decide, by decide, by decide⟩
    have hwords : isWord "met".toList = true ∧ isWord "Again".toList = true ∧
      isDigits "1".toList = true := by decide
    simp [Passage.WellFormedAll, Passage.WellFormed, Passage.WellFormedItems,
      Passage.WellFormedClauses, Passage.WellFormedElse, Passage.Merges, Passage.group?]
    exact ⟨hhello, ⟨hyes, ⟨hwords.1, hwords.2.1⟩, hno⟩, hwords.1, hwords.2.2⟩
  depth := by decide

/-- The sample is read back. -/
theorem Parse.statement_round_trip_sample :
    [Scene.sample] ≠ [] ∧ (ofText {} ([Scene.sample].flatMap Scene.text)).diagnostics = [] ∧
      Script.ofTree (ofText {} ([Scene.sample].flatMap Scene.text)).tree =
        ⟨[], [Scene.sample.value]⟩ :=
  have hne : [Scene.sample] ≠ [] := by simp
  ⟨hne, Parse.statement_round_trip {} [Scene.sample] hne⟩

end DialogueScript

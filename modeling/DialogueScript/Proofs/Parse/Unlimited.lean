import DialogueScript.Proofs.Expression.Interpolation
import DialogueScript.Proofs.Statement.CaseBlocks
import DialogueScript.Proofs.Tree.Complete

/-!
What the limit on nesting does not reach. Each operator in a row takes all that was read so far as
its left operand, so an expression with many operators is a tree of that many expressions inside
each other; and each line of an enum that is indented more than the one before it opens a block.
-/

namespace DialogueScript

open DialogueScript.Parser

/-! ### What is read stands in the tree -/

namespace Expr

lemma mem_ofAll {x : Expr} {cs : List Tree} : x ∈ ofAll cs ↔ ∃ c ∈ cs, ofTree? c = some x := by
  induction cs with
  | nil => simp
  | cons c cs ih => simp [ofAll_cons, ih]

lemma exists_of_among? {x : Expr} {cs : List Tree} (h : among? cs = some x) :
    ∃ c ∈ cs, ofTree? c = some x :=
  mem_ofAll.1 (List.mem_of_mem_head? h)

lemma of_binary {t : Tree} {op : Option BinaryOp} {spelling : Option Text} {lhs : Expr}
    {rhs : Option Expr} (h : ofTree? t = some (.binary op spelling (some lhs) rhs)) :
    ∃ cs, t = .node .binaryExpr cs ∧ ∃ c ∈ cs, ofTree? c = some lhs := by
  rcases t with token | ⟨k, cs⟩
  · simp at h
  obtain rfl : k = .binaryExpr := by
    cases k <;> simp [ofTree?] at h
    rfl
  simp only [ofTree?, Option.some.injEq, binary.injEq] at h
  exact ⟨cs, rfl, mem_ofAll.1 (List.mem_of_getElem? h.2.2.1)⟩

end Expr

namespace Stmt

/-- The expression of a line that has nothing else stands in one of the trees of the line. -/
lemma exists_of_line {x : Expr} {us : List Tree} {p : Kind → Bool}
    (h : ofAll us = [.line ⟨some [.interpolation (some x)], none, []⟩]) :
    ∃ u ∈ us, ∃ e, Expr.ofTree? e = some x ∧ e.height p ≤ u.height p := by
  obtain ⟨u, hu, hline⟩ : ∃ u ∈ us, ofTree? u =
      some (.line ⟨some [.interpolation (some x)], none, []⟩) := by
    induction us with
    | nil => simp at h
    | cons u us ih =>
      rw [ofAll_cons] at h
      rcases hu : ofTree? u with _ | s
      · rw [hu] at h
        obtain ⟨v, hv, hs⟩ := ih h
        exact ⟨v, by simp [hv], hs⟩
      · rw [hu] at h
        exact ⟨u, by simp, by rw [hu, (List.cons.inj h).1]⟩
  rcases u with token | ⟨k, cs⟩
  · simp at hline
  obtain rfl : k = .lineStmt := by
    cases k <;> simp [ofTree?] at hline
    rfl
  simp only [ofTree?, Option.some.injEq, Stmt.line.injEq, Line.ofChildren, Line.mk.injEq] at hline
  obtain ⟨ds, hds, hparts⟩ := Option.map_eq_some_iff.1 hline.1
  have htext := Tree.mem_of_nodeAmong? hds
  obtain ⟨d, hd, hpart⟩ := List.mem_filterMap.1 (hparts ▸ List.mem_singleton_self _ :
    Part.interpolation (some x) ∈ linePartsAmong ds)
  rcases d with token | ⟨k, es⟩
  · dsimp only at hpart
    split_ifs at hpart <;> cases hpart
  obtain ⟨rfl, hes⟩ : k = .interpolation ∧ Expr.among? es = some x := by
    simpa [Part.ofNode?] using hpart
  obtain ⟨e, he, hx⟩ := Expr.exists_of_among? hes
  refine ⟨_, hu, e, hx, ?_⟩
  calc e.height p ≤ _ := Tree.height_le_node he .interpolation
    _ ≤ _ := Tree.height_le_node hd .lineText
    _ ≤ _ := Tree.height_le_node htext .lineStmt

end Stmt

/-! ### Sums -/

namespace Term

/-- A sum of ones with `n` operators. -/
def ones : Nat → Term
  | 0 => .number ['1'] none
  | n + 1 => .binary .plus (ones n) (.number ['1'] none)

lemma wellFormed_ones (n : Nat) : (ones n).wellFormed = true := by
  induction n with
  | zero => rfl
  | succ n ih =>
    have hlevel : (BinaryOp.ofKind? .plus).any (fun o => o.precedence ≤ (ones n).level &&
        o.precedence < (Term.number ['1'] none).level) = true := by
      cases n <;> rfl
    rw [ones, wellFormed, hlevel, ih]
    rfl

lemma depth_ones (n : Nat) : (ones n).depth = 0 := by
  induction n with
  | zero => rfl
  | succ n ih => rw [ones, depth, ih]; rfl

/-- A sum takes a tree with one expression more than it has operators. -/
lemma height_of_ones {n : Nat} : ∀ {t : Tree}, Expr.ofTree? t = some (ones n).value →
    n < t.height Kind.isExprKind := by
  induction n with
  | zero =>
    intro t h
    rcases t with token | ⟨k, cs⟩
    · simp at h
    · rw [Tree.height, if_pos (Stmt.isExprKind_of_ofTree? h)]
      omega
  | succ n ih =>
    intro t h
    obtain ⟨cs, rfl, c, hc, hlhs⟩ := Expr.of_binary h
    exact (Nat.succ_le_of_lt (ih hlhs)).trans_lt (Tree.height_lt_node hc rfl)

end Term

/-- A script with a line that is a sum of ones with `n` operators. -/
def sumText (n : Nat) : Text := Term.script ['A'] [] (Piece.spread (Term.ones n).tokens)

lemma title_a : Title ['A'] := ⟨by decide, by decide, by decide⟩

/-- A script with one node is as high as the trees of its body at least. -/
lemma Parse.ofText_body (config : Config) {title body : Text} {V : List Tree → Prop}
    (htitle : Title title) (hbody : ReadsBody body V) (p : Kind → Bool) :
    (ofText config (nodeText title body ++ ['\n'])).diagnostics = [] ∧ ∃ us, V us ∧
      ∀ u ∈ us, ∃ l ∈ (ofText config (nodeText title body ++ ['\n'])).root.elements,
        u.height p ≤ l.around p := by
  obtain ⟨h1, ts, token, hts, h2⟩ := ofText_nodes (α := Unit) config (fun _ => htitle)
    (fun _ => hbody) (List.cons_ne_nil () [])
  have htext : nodesText (fun _ : Unit => title) (fun _ => body) [()] =
      nodeText title body ++ ['\n'] := by simp [nodesText]
  rw [htext] at h1 h2
  rw [List.filter_true] at h1
  refine ⟨by simp [ofText, withCancel, ofState, h1, Diagnostic.locateAll?], ?_⟩
  cases hts with
  | cons hnode hnil =>
    cases hnil
    obtain ⟨us, vs, hus, -, t1, t2, t3, t4, -, rfl⟩ := hnode
    refine ⟨us, hus, fun u hu => ?_⟩
    obtain ⟨l, hl, hheight⟩ := Located.exists_around (p := p)
      (ofText config (nodeText title body ++ ['\n'])).tree
    refine ⟨l, hl, ?_⟩
    have hmem : u ∈ [Tree.leaf t1, Tree.leaf t2] ++ us ++ [Tree.leaf t3, Tree.leaf t4] := by
      simp [hu]
    rw [hheight, h2]
    refine (Tree.height_le_node hmem .body).trans (.trans ?_ (Tree.height_le_node (c :=
      .node .dialogueNode _) (List.mem_append_left _ (List.mem_singleton_self _)) .sourceFile))
    exact Tree.height_le_node (List.mem_cons_of_mem _ (List.mem_singleton_self _)) .dialogueNode

/-- A script with an enum of `n + 1` cases, each of which is in one block more than the one
before. -/
def caseBlocksText (n : Nat) : Text := nodeText ['A'] (enumText ['E'] n) ++ ['\n']

/-- **Blocks of cases nest without limit**: an enum with `n + 1` such cases is read without a word,
and that many blocks stand inside each other in its tree. All that is asked is that the last case
can be indented so far. -/
theorem Parse.case_blocks_nest (config : Config) {n : Nat}
    (hw : 4 * (n + 1) ≤ IndentStack.maxWidth) :
    (ofText config (caseBlocksText n)).diagnostics = [] ∧
      ∃ l ∈ (ofText config (caseBlocksText n)).root.elements,
        n < l.around (decide <| · = .block) := by
  obtain ⟨hnone, us, ⟨u, hu, hdeep⟩, hheight⟩ := ofText_body config title_a
    (readsBody_enum (show isWord ['E'] = true by decide) hw) (decide <| · = .block)
  obtain ⟨l, hl, hle⟩ := hheight u hu
  exact ⟨hnone, l, hl, hdeep.trans_le hle⟩

/-- **Operators in a row nest without limit**: a sum with `n` operators is read without a word, and
`n + 1` expressions stand inside each other in its tree. -/
theorem Parse.operators_nest (config : Config) (n : Nat) :
    (ofText config (sumText n)).diagnostics = [] ∧
      ∃ l ∈ (ofText config (sumText n)).root.elements, n < l.around Kind.isExprKind := by
  have hbody := Term.readsBody_braced (Term.wellFormed_ones n) (by rw [Term.depth_ones]; omega)
    (Piece.map_token_spread _) (Piece.laid_spread (Term.ones n).tokens) (b := []) rfl
  obtain ⟨hnone, us, hus, hheight⟩ := ofText_body config title_a hbody Kind.isExprKind
  obtain ⟨u, hu, e, he, hle⟩ := Stmt.exists_of_line (p := Kind.isExprKind) hus
  obtain ⟨l, hl, hdeep⟩ := hheight u hu
  exact ⟨hnone, l, hl, (Term.height_of_ones he).trans_le (hle.trans hdeep)⟩

end DialogueScript

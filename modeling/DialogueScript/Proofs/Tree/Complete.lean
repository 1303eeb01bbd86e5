import DialogueScript.Proofs.Ast
import DialogueScript.Proofs.Tree.Clean

/-!
Trees in which every node has the parts that its kind asks for. Parts are found as their readers
find them: the first token or node of a kind, the first or second expression.
-/

namespace DialogueScript

/-- A condition of a header that lacks nothing. -/
def WhenCondition.isWhole : WhenCondition → Bool
  | onceIf e => e.isSome
  | always | once | expr _ => true

namespace Tree

/-- The kinds of the nodes among some children. -/
def nodeKinds (cs : List Tree) : List Kind :=
  cs.filterMap fun
    | leaf _ => none
    | node k _ => some k

/-- A first clause, then any number of further ones, and at most one last clause. -/
def isChain (first : Kind) (further : Kind → Bool) (last : Kind) (cs : List Tree) : Bool :=
  match nodeKinds cs with
  | [] => false
  | k :: ks => k = first && [[], [last]].contains (ks.dropWhile further)

/-- Whether a node of a kind has all parts that it has to have. -/
def hasParts (k : Kind) (cs : List Tree) : Bool :=
  match k with
  | .fileHashtag | .hashtag => hasToken .hashtagText cs
  | .dialogueNode =>
    (nodesAmong .titleHeader cs).length = 1 && (DialogueNode.ofChildren cs).title.isSome &&
      (DialogueNode.ofChildren cs).body.any (·.closed)
  | .titleHeader => hasToken .restOfLine cs
  | .whenHeader => ((nodeAmong? .whenCondition cs).bind WhenCondition.ofChildren?).any (·.isWhole)
  | .header => hasToken .ident cs
  | .lineStmt => (nodeAmong? .lineText cs).isSome
  | .lineText => !(linePartsAmong cs).isEmpty
  | .lineCondition => hasToken .onceKw cs || (Expr.among? cs).isSome
  | .interpolation | .ifClause | .elseIfClause | .parenExpr => (Expr.among? cs).isSome
  | .shortcutOption | .lineGroupItem => (nodeAmong? .lineStmt cs).isSome
  | .ifStmt => isChain .ifClause (· = .elseIfClause) .elseClause cs
  | .onceStmt => isChain .onceClause (fun _ => false) .onceElseClause cs
  | .onceClause => !hasToken .ifKw (cs.take 3) || (Expr.among? cs).isSome
  | .setStmt =>
    (variableAmong? cs).isSome &&
      ((tokensAmong cs).findSome? fun t => AssignOp.ofKind? t.kind).isSome &&
      (Expr.ofAll cs)[1]?.isSome
  | .declareStmt => (variableAmong? cs).isSome && (Expr.ofAll cs)[1]?.isSome
  | .callStmt => (callAmong? cs).isSome
  | .jumpStmt => (jumpTarget? cs).isSome
  | .enumStmt => (nameAmong? cs).isSome && !(casesAmong cs).isEmpty
  | .typeClause | .enumCase | .callExpr => (nameAmong? cs).isSome
  | .commandStmt => !(commandPartsAmong cs).isEmpty
  | .unaryExpr =>
    ((tokensAmong cs).findSome? fun t => UnaryOp.ofKind? t.kind).isSome && (Expr.among? cs).isSome
  | .binaryExpr =>
    (Expr.ofAll cs)[0]?.isSome && (Expr.operatorAmong? cs).isSome && (Expr.ofAll cs)[1]?.isSome
  | .memberExpr => (nameAmong? (Expr.afterDot cs)).isSome
  | .name | .variableExpr | .identExpr => hasToken .ident cs
  | .numberExpr => hasToken .number cs
  | .stringExpr => hasToken .string cs
  | .boolExpr => (Expr.boolAmong? cs).isSome
  | .nullExpr => hasToken .nullKw cs
  | _ => true

/-- Every node in a tree has its parts. -/
def Complete (t : Tree) : Prop := ∀ k cs, node k cs ∈ t.subtrees → hasParts k cs = true

/-! ### Parts among children -/

section
variable {k j : Kind} {cs ds : List Tree} {token : Token}

lemma hasToken_of_mem (h : leaf token ∈ cs) (hk : token.kind = k) : hasToken k cs = true := by
  obtain ⟨as, bs, rfl⟩ := List.append_of_mem h
  simp [hk]

lemma mem_nodesAmong : ds ∈ nodesAmong k cs ↔ node k ds ∈ cs := by
  induction cs with
  | nil => simp
  | cons c cs ih =>
    rcases c with token | ⟨j, es⟩
    · simp [ih]
    · by_cases hj : j = k
      · simp [hj, ih]
      · simp [hj, Ne.symm hj, ih]

lemma nodeAmong?_isSome (h : node k ds ∈ cs) : (nodeAmong? k cs).isSome = true := by
  have := mem_nodesAmong.2 h
  rcases hn : nodesAmong k cs with _ | ⟨es, rest⟩
  · simp [hn] at this
  · simp [nodeAmong?, hn]

lemma mem_of_nodeAmong? (h : nodeAmong? k cs = some ds) : node k ds ∈ cs :=
  mem_nodesAmong.1 (List.mem_of_mem_head? h)

lemma nameAmong?_isSome (h : node .name ds ∈ cs) : (nameAmong? cs).isSome = true := by
  rw [nameAmong?, Option.isSome_map]
  exact nodeAmong?_isSome h

lemma findSome?_tokensAmong {α : Type} {f : Token → Option α} (h : leaf token ∈ cs)
    (hf : (f token).isSome = true) : ((tokensAmong cs).findSome? f).isSome = true := by
  rw [List.findSome?_isSome_iff]
  exact ⟨token, List.mem_filterMap.2 ⟨_, h, rfl⟩, hf⟩

lemma ofTree?_isSome (hk : k.isExprKind = true) (cs : List Tree) :
    (Expr.ofTree? (node k cs)).isSome = true := by
  cases k <;> simp [Kind.isExprKind] at hk <;> rw [Expr.ofTree?] <;> rfl

lemma among?_isSome (h : node k ds ∈ cs) (hk : k.isExprKind = true) :
    (Expr.among? cs).isSome = true := by
  obtain ⟨e, he⟩ := Option.isSome_iff_exists.1 (ofTree?_isSome hk ds)
  obtain ⟨as, bs, rfl⟩ := List.append_of_mem h
  simp [Expr.among?, Expr.ofAll_cons, he]

/-- Two expressions among some children, in any places. -/
lemma ofAll_two {as bs es : List Tree} {j' : Kind} (hk : k.isExprKind = true)
    (hj : j'.isExprKind = true) (h : cs = as ++ node k ds :: bs) (hb : node j' es ∈ bs) :
    2 ≤ (Expr.ofAll cs).length := by
  obtain ⟨e, he⟩ := Option.isSome_iff_exists.1 (ofTree?_isSome hk ds)
  obtain ⟨e', he'⟩ := Option.isSome_iff_exists.1 (ofTree?_isSome hj es)
  obtain ⟨bs, bs', rfl⟩ := List.append_of_mem hb
  simp [h, Expr.ofAll_cons, he, he']
  omega

lemma linePartsAmong_of_token (h : leaf token ∈ cs)
    (hk : token.kind = .text ∨ token.kind = .textEscape) : linePartsAmong cs ≠ [] := by
  obtain ⟨as, bs, rfl⟩ := List.append_of_mem h
  rcases hk with hk | hk <;> simp [linePartsAmong, hk]

lemma linePartsAmong_of_interpolation (h : node .interpolation ds ∈ cs) :
    linePartsAmong cs ≠ [] := by
  obtain ⟨as, bs, rfl⟩ := List.append_of_mem h
  simp [linePartsAmong, Part.ofNode?]

lemma commandPartsAmong_of_token (h : leaf token ∈ cs) (hk : token.kind = .commandText) :
    commandPartsAmong cs ≠ [] := by
  obtain ⟨as, bs, rfl⟩ := List.append_of_mem h
  simp [commandPartsAmong, hk]

lemma commandPartsAmong_of_interpolation (h : node .interpolation ds ∈ cs) :
    commandPartsAmong cs ≠ [] := by
  obtain ⟨as, bs, rfl⟩ := List.append_of_mem h
  simp [commandPartsAmong, Part.ofNode?]

lemma casesAmong_of_case (h : node .enumCase ds ∈ cs) : casesAmong cs ≠ [] := by
  obtain ⟨as, bs, rfl⟩ := List.append_of_mem h
  simp [casesAmong]

lemma casesAmong_of_block {es : List Tree} (h : node .block ds ∈ cs) (he : node .enumCase es ∈ ds) :
    casesAmong cs ≠ [] := by
  obtain ⟨as, bs, rfl⟩ := List.append_of_mem h
  have : nodesAmong .enumCase ds ≠ [] := List.ne_nil_of_mem (mem_nodesAmong.2 he)
  simp [casesAmong, this]

lemma callAmong?_isSome (h : node .callExpr ds ∈ cs) : (callAmong? cs).isSome = true := by
  obtain ⟨as, bs, rfl⟩ := List.append_of_mem h
  have hcall :
      Expr.ofTree? (node .callExpr ds) = some (.call (nameAmong? ds) (Expr.argsOf ds)) := by
    rw [Expr.ofTree?]
  rw [callAmong?, List.find?_isSome]
  exact ⟨.call (nameAmong? ds) (Expr.argsOf ds), by simp [Expr.ofAll_cons, hcall], rfl⟩

end

lemma nodeKinds_append (as bs : List Tree) : nodeKinds (as ++ bs) = nodeKinds as ++ nodeKinds bs :=
  List.filterMap_append

@[simp] lemma nodeKinds_node (k : Kind) (cs : List Tree) : nodeKinds [node k cs] = [k] := rfl

lemma nodesAmong_of_tokens (h : ∀ t ∈ cs, t.isNode = false) : nodesAmong k cs = [] := by
  refine List.filterMap_eq_nil_iff.2 fun t ht => ?_
  rcases t with token | ⟨j, ds⟩
  · rfl
  · exact absurd (h _ ht) (by simp [isNode])

/-- Tokens do not count. -/
lemma nodeKinds_of_tokens (h : ∀ t ∈ cs, t.isNode = false) : nodeKinds cs = [] := by
  refine List.filterMap_eq_nil_iff.2 fun t ht => ?_
  rcases t with token | ⟨j, ds⟩
  · rfl
  · exact absurd (h _ ht) (by simp [isNode])

lemma hasParts_binaryExpr {k j : Kind} {cs ds : List Tree} {token : Token}
    (hk : k.isExprKind = true) (hj : j.isExprKind = true)
    (ho : (BinaryOp.ofKind? token.kind).isSome = true) :
    hasParts .binaryExpr [node k cs, leaf token, node j ds] = true := by
  have htwo : 2 ≤ (Expr.ofAll [node k cs, leaf token, node j ds]).length :=
    ofAll_two hk hj (List.nil_append _).symm (List.mem_cons_of_mem _ (List.mem_singleton.2 rfl))
  have hop : (Expr.operatorAmong? [node k cs, leaf token, node j ds]).isSome = true := by
    simp [Expr.operatorAmong?, tokensAmong, ho]
  simp only [hasParts, hop, Bool.and_true, Bool.and_eq_true, isSome_getElem?]
  exact ⟨by omega, by omega⟩

/-! ### Complete trees -/

lemma complete_leaf (token : Token) : (leaf token).Complete := by
  intro k cs h
  simp [subtrees] at h

lemma complete_node {k : Kind} {cs : List Tree} (hk : hasParts k cs = true)
    (h : ∀ c ∈ cs, c.Complete) :
    (node k cs).Complete := by
  intro j ds hmem
  rcases mem_subtrees_node.1 hmem with heq | ⟨c, hc, hd⟩
  · obtain ⟨rfl, rfl⟩ := Tree.node.inj heq
    exact hk
  · exact h c hc j ds hd

lemma Complete.hasParts {k : Kind} {cs : List Tree} (h : (node k cs).Complete) :
    hasParts k cs = true :=
  h k cs (self_mem_subtrees _)

section
variable {cs ds : List Tree} (hcs : ∀ c ∈ cs, c.Complete)
include hcs

lemma variableAmong?_isSome (h : node .variableExpr ds ∈ cs) :
    (variableAmong? cs).isSome = true := by
  obtain ⟨es, hes⟩ := Option.isSome_iff_exists.1 (nodeAmong?_isSome h)
  have hparts : hasToken .ident es = true := (hcs _ (mem_of_nodeAmong? hes)).hasParts
  rw [variableAmong?, hes, Option.bind_some, tokenTextAmong?, Option.isSome_map]
  exact hparts

lemma jumpTarget?_isSome (h : node .name ds ∈ cs ∨ node .interpolation ds ∈ cs) :
    (jumpTarget? cs).isSome = true := by
  unfold jumpTarget?
  split
  · rfl
  · next hname =>
    rcases h with h | h
    · have := nameAmong?_isSome h
      simp [hname] at this
    · obtain ⟨es, hes⟩ := Option.isSome_iff_exists.1 (nodeAmong?_isSome h)
      have hparts : (Expr.among? es).isSome = true := (hcs _ (mem_of_nodeAmong? hes)).hasParts
      rw [hes, Option.bind_some, Option.isSome_map]
      exact hparts

end

end Tree

end DialogueScript

import DialogueScript.Proofs.Grammar.StatementParts

/-!
The parts that the rules for headers and nodes make. A node has one title, since the lack of it and
every further one are reported, and a body with its end, since without one it is an error.
-/

set_option synthInstance.maxSize 4096

namespace DialogueScript

namespace Parser

open ParserState

variable {s : ParserState}

/-! ### Headers -/

instance : ReportsOwed .headerValue (endOfLine .header) :=
  reportsOwed_endOfLine fun _ => Scanner.header_of_value_error

lemma makes_titleHeader : Makes Reported s titleHeader fun _ ts _ => NodeOf .titleHeader ts := by
  unfold titleHeader titleRest
  refine Finds.inNode
    (.behind fun _ => .behind fun _ => .before (Finds.expect .headerValue (by simp) _)) ?_
  rintro cs - _ hc ⟨token, ht, rfl⟩
  exact Tree.hasToken_of_mem hc ht

/-- A condition that lacks nothing. -/
def WholeCondition (ts : List Tree) : Prop := (WhenCondition.ofChildren? ts).any (·.isWhole) = true

lemma wholeCondition_expr {a : Option Kind} {ts : List Tree} (h : Operand a ts) :
    WholeCondition ts := by
  obtain ⟨k, hk, -, cs, rfl⟩ := h
  have hsome : (Expr.among? [.node k cs]).isSome = true :=
    Tree.among?_isSome (List.mem_singleton.2 rfl) hk
  obtain ⟨e, he⟩ := Option.isSome_iff_exists.1 hsome
  simp [WholeCondition, WhenCondition.ofChildren?, he, WhenCondition.isWhole]

/-- The condition is `always`, `once` with or without an expression, or an expression. -/
lemma makes_conditionAt :
    Makes (Owes .expr) s (conditionAt (s.kindAt .whenHeader)) fun _ ts _ => WholeCondition ts := by
  unfold conditionAt
  split
  · next hk =>
    refine (Makes.advance .whenHeader (by simp [hk])).mono fun _ ts _ hts => ?_
    obtain ⟨⟨token, ht, rfl⟩, -⟩ := hts
    simp [WholeCondition, WhenCondition.ofChildren?, WhenCondition.isWhole, ht, hk]
  · next hk =>
    refine .bind (E := Reported) (Makes.advance .whenHeader (by simp [hk])) fun _ ts u hts => ?_
    obtain ⟨⟨once, honce, rfl⟩, -⟩ := hts
    rw [hk] at honce
    refine .eat .whenHeader (by simp) (fun _ token ht => ?_) fun _ => .pure ?_
    · refine (makes_expr maxDepth _).map fun a us _ hus => ?_
      obtain ⟨k, hexpr, -, cs, rfl⟩ := hus
      have hsome : (Expr.among? [.leaf once, .leaf token, .node k cs]).isSome = true :=
        Tree.among?_isSome
          (List.mem_append_right [Tree.leaf once, .leaf token] (List.mem_singleton.2 rfl)) hexpr
      simp [WholeCondition, WhenCondition.ofChildren?, WhenCondition.isWhole, honce, ht, hsome]
    · simp [WholeCondition, WhenCondition.ofChildren?, WhenCondition.isWhole, honce]
  · exact (makes_expr maxDepth s).map fun _ _ _ => wholeCondition_expr

lemma makes_whenCondition : Makes (Owes .expr) s whenCondition fun _ ts _ =>
    ∃ cs, ts = [.node .whenCondition cs] ∧ WholeCondition cs := by
  have hbody : Makes (Owes .expr) s.start (peekKind .whenHeader >>= conditionAt) fun _ ts _ =>
      WholeCondition ts := by
    refine .peekKind ?_
    rw [← kindAt_look]
    exact makes_conditionAt
  rw [whenCondition]
  refine (Makes.node hbody fun _ _ _ _ _ => rfl).mono ?_
  rintro - ts - ⟨cs, -, rfl, -, hcs⟩
  exact ⟨cs, rfl, hcs⟩

lemma makes_whenHeader : Makes Reported s whenHeader fun _ ts _ => NodeOf .whenHeader ts := by
  have hcondition : Makes Reported s.start
      (advance .header >>= fun _ => expect .header .colon "expected `:`" >>=
      fun _ => whenCondition >>= fun _ => endOfLine .header) fun _ ts _ => ∃ as ds bs,
        (∀ t ∈ as, t.isNode = false) ∧ ts = as ++ .node .whenCondition ds :: bs ∧
          WholeCondition ds := by
    refine .bind (E := Reported) (Builds.tokens _) fun _ as u has => ?_
    refine .bind (E := Reported) (Builds.tokens u) fun _ bs v hbs => ?_
    refine .bind makes_whenCondition fun _ ts w hts => (Builds.any w).mono fun _ us _ _ => ?_
    obtain ⟨ds, rfl, hds⟩ := hts
    refine ⟨as ++ bs, ds, us, fun t ht => ?_, by simp, hds⟩
    exact (List.mem_append.1 ht).elim (has t) (hbs t)
  unfold whenHeader
  refine .asNode hcondition ?_
  rintro - cs - - ⟨as, ds, bs, has, rfl, hds⟩
  have hfirst : nodeAmong? .whenCondition (as ++ .node .whenCondition ds :: bs) = some ds := by
    simp [nodeAmong?, Tree.nodesAmong_of_tokens has]
  rw [Tree.hasParts, hfirst, Option.bind_some]
  exact hds

lemma makes_genericHeader (hk : s.kindAt .header = .ident) :
    Makes Reported s genericHeader fun _ ts _ => NodeOf .header ts := by
  have hname : Makes Reported s.start (advance .header >>= fun _ => headerRest)
      fun _ ts _ => ∃ token us, token.kind = .ident ∧ ts = .leaf token :: us := by
    unfold headerRest
    refine .bind (E := Reported) (Makes.advance .header (by simp [hk])) fun _ ts u hts => ?_
    obtain ⟨⟨token, ht, rfl⟩, -⟩ := hts
    exact (Builds.any u).mono fun _ us _ _ => ⟨token, us, ht.trans hk, rfl⟩
  refine .asNode hname ?_
  rintro - cs - - ⟨token, us, ht, rfl⟩
  exact Tree.hasToken_of_mem List.mem_cons_self ht

/-- What is known of the headers that were read: how many titles there are, and that no body is
among them. -/
def Headed (titles : Nat) (ts : List Tree) : Prop :=
  (nodesAmong .titleHeader ts).length = titles ∧ titles ≤ 1 ∧ nodesAmong .body ts = []

lemma makes_headerStep {titles : Nat} {ts : List Tree} (h : Headed titles ts) :
    Makes Reported s (headerStep titles) fun r us _ => Headed r.value (ts ++ us) := by
  obtain ⟨htitles, hone, hbody⟩ := h
  unfold headerStep
  refine .peekKind ?_
  rw [← kindAt_look s .header]
  generalize s.look .header = u
  unfold headerAt
  split
  · next hk =>
    split
    · exact .of_unexpected (by simp [hk])
    · next hzero =>
      refine makes_titleHeader.map fun _ us _ hus => ?_
      obtain ⟨cs, rfl⟩ := hus
      refine ⟨by simp [htitles, ForInStep.value], ?_, by simp [hbody]⟩
      simp only [ForInStep.value]
      omega
  · refine makes_whenHeader.map fun _ us _ hus => ?_
    obtain ⟨cs, rfl⟩ := hus
    exact ⟨by simp [htitles, ForInStep.value], hone, by simp [hbody]⟩
  · next hk =>
    refine (makes_genericHeader hk).map fun _ us _ hus => ?_
    obtain ⟨cs, rfl⟩ := hus
    exact ⟨by simp [htitles, ForInStep.value], hone, by simp [hbody]⟩
  · exact .pure ⟨by simp [htitles, ForInStep.value], hone, by simp [hbody]⟩
  · exact .pure ⟨by simp [htitles, ForInStep.value], hone, by simp [hbody]⟩
  · exact .pure ⟨by simp [htitles, ForInStep.value], hone, by simp [hbody]⟩
  · exact .of_alwaysReports

/-- There is a title, or its lack is reported. -/
lemma makes_nodeHeaders : Makes Reported s nodeHeaders fun _ ts _ => Headed 1 ts := by
  have : Readable headers := ⟨reading_headers⟩
  have hheaders (s : ParserState) : Makes Reported s headers fun titles ts _ =>
      Headed titles ts := by
    unfold headers
    exact .loop ⟨rfl, Nat.zero_le 1, rfl⟩ fun _ _ _ => makes_headerStep
  unfold nodeHeaders
  refine .peekRange (.bind (E := Reported) (hheaders _) fun titles ts u hts => ?_)
  by_cases hzero : titles = 0
  · exact .of_problem (by simp [titleProblem, hzero])
  · obtain ⟨htitles, hone, hbody⟩ := hts
    have hreport : reportAt (s.rangeAt .header) (titleProblem titles) = pure () := by
      rw [titleProblem, if_neg hzero]
      rfl
    rw [hreport]
    refine .pure ?_
    rw [List.append_nil]
    exact ⟨by omega, le_rfl, hbody⟩

/-! ### Nodes -/

instance : Builds Reported false bodyStatements := by
  unfold bodyStatements
  unfold bodyStep
  infer_instance

/-- A body whose end was found has its end marker. -/
lemma makes_body : Makes Reported s body fun found ts _ =>
    ∃ ds, ts = [.node .body ds] ∧ (found = true → hasToken .bodyEnd ds = true) := by
  have hclose (s : ParserState) : Makes Reported s bodyClose fun found ts _ =>
      found = true → hasToken .bodyEnd ts = true := by
    unfold bodyClose
    refine .eat .statement (by simp) (fun _ token ht => ?_) fun _ => ?_
    · rw [if_pos rfl]
      exact (Builds.any _).mono fun _ us _ _ _ => Tree.hasToken_of_mem List.mem_cons_self ht
    · rw [if_neg (by simp)]
      exact (Builds.any _).answering.mono fun found us _ ⟨hfound, _⟩ h =>
        absurd (hfound.symm.trans h) (by simp)
  have hbody : Makes Reported s.start (bodyHead >>= fun _ => bodyStatements >>= fun _ => bodyClose)
      fun found ts _ => found = true → hasToken .bodyEnd ts = true := by
    have : Builds Reported false bodyHead := by
      unfold bodyHead
      infer_instance
    refine .bind (E := Reported) (Builds.any _) fun _ as u _ => ?_
    refine .bind (E := Reported) (Builds.any u) fun _ bs v _ =>
      (hclose v).mono fun found cs _ h hfound => ?_
    simp [h hfound]
  unfold body
  refine (Makes.node hbody fun _ _ _ _ _ => rfl).mono ?_
  rintro found ts - ⟨cs, -, rfl, -, hcs⟩
  exact ⟨cs, rfl, hcs⟩

/-- Only a node with a whole body is no error. -/
lemma makes_nodeTail : Makes Reported s nodeTail fun k ts _ =>
    k = .error ∨ k = .dialogueNode ∧ ∃ ds, ts = [.node .body ds] ∧ hasToken .bodyEnd ds = true := by
  unfold nodeTail
  refine .isAt ?_
  split
  · refine .bind (E := Reported) makes_body fun found ts u ⟨ds, hts, hds⟩ => ?_
    subst hts
    cases found
    · exact .pure (.inl rfl)
    · exact .pure (.inr ⟨rfl, ds, rfl, hds rfl⟩)
  · exact (Builds.any _).answering.mono fun k _ _ h => .inl h.1

/-- A node has exactly one title, and a closed body. -/
instance : Builds Reported false dialogueNode := by
  have : Readable nodeHeaders := ⟨reading_nodeHeaders⟩
  have hparts (s : ParserState) : Makes Reported s (nodeHeaders >>= fun _ => nodeTail) fun k cs _ =>
      k = .error ∨ k = .dialogueNode ∧ ∃ hs ds, cs = hs ++ [.node .body ds] ∧ Headed 1 hs ∧
        hasToken .bodyEnd ds = true := by
    refine .bind (E := Reported) makes_nodeHeaders fun _ hs u hheaded => makes_nodeTail.mono ?_
    rintro k ts - (rfl | ⟨rfl, ds, rfl, hds⟩)
    · exact .inl rfl
    · exact .inr ⟨rfl, hs, ds, rfl, hheaded, hds⟩
  rw [dialogueNode]
  refine .of_makes (R := fun _ _ _ _ => True) fun s =>
    .map (Makes.nodeOf (hparts s.start) ?_) fun _ _ _ _ => trivial
  rintro k cs - hcs (rfl | ⟨rfl, hs, ds, rfl, ⟨hone, -, hbody⟩, hds⟩)
  · rfl
  · obtain ⟨es, hes⟩ := List.length_eq_one_iff.1 hone
    have hes' : nodesAmong .titleHeader (hs ++ [.node .body ds]) = [es] := by simp [hes]
    have hbody' : nodesAmong .body (hs ++ [.node .body ds]) = [ds] := by simp [hbody]
    have hmem : Tree.node .titleHeader es ∈ hs ++ [.node .body ds] :=
      Tree.mem_nodesAmong.1 (hes' ▸ List.mem_singleton.2 rfl)
    have htitle : hasToken .restOfLine es = true := (hcs _ hmem).hasParts
    have htext : (tokenTextAmong? .restOfLine es).isSome = true := by
      rwa [tokenTextAmong?, Option.isSome_map]
    simp [Tree.hasParts, DialogueNode.ofChildren, nodeAmong?, hes', hbody', hds, htext]

/-! ### Files -/

instance : ReportsOwed .hashtag (endOfLine .header) :=
  reportsOwed_endOfLine fun _ h => Scanner.header_of_text_error (Scanner.text_error_of_hashtag h)

instance : Builds Reported false fileHashtag := by
  unfold fileHashtag
  refine .of_makes fun _ =>
    Finds.inNode (.behind fun _ => .before (Finds.expect .hashtag (by simp) _)) ?_
  rintro cs - _ hc ⟨token, ht, rfl⟩
  exact Tree.hasToken_of_mem hc ht

instance : Builds Reported false strayLine := by
  unfold strayLine
  infer_instance

lemma builds_child (k : Kind) : Builds Reported false (child k) := by
  unfold child
  infer_instance

end Parser

end DialogueScript

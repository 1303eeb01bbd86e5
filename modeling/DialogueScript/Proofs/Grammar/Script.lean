import DialogueScript.Grammar.Script
import DialogueScript.Proofs.Grammar.Statement

/-!
The rules for headers, nodes and whole files. No line break stands where a header or a child of the
root starts, so each step of their loops takes a token.
-/

set_option synthInstance.maxSize 512

namespace DialogueScript

/-- A node whose body has no end. -/
def Tree.isUnclosed (t : Tree) : Bool := t.kind = .error && t.children.any (·.kind = .body)

namespace Parser

open ParserState

/-! ### Headers -/

instance : Rule titleRest := by
  unfold titleRest
  infer_instance

instance : Rule titleHeader := by
  unfold titleHeader
  infer_instance

instance : Consumes .header titleHeader := by
  unfold titleHeader
  infer_instance

instance : EndsLine titleHeader := by
  unfold titleHeader titleRest
  infer_instance

instance (k : Kind) : Rule (conditionAt k) := by
  unfold conditionAt
  split <;> infer_instance

instance : Rule whenCondition := by
  unfold whenCondition
  infer_instance

instance : Rule whenHeader := by
  unfold whenHeader
  infer_instance

instance : Consumes .header whenHeader := by
  unfold whenHeader
  infer_instance

instance : EndsLine whenHeader := by
  unfold whenHeader
  infer_instance

instance : EndsLine (skipLine .text >>= fun _ => eatNewline) where
  ended s hg := by
    rw [after_bind]
    exact ended_skipLine hg (.inl rfl)

instance : Rule headerRest := by
  unfold headerRest
  infer_instance

instance : Rule genericHeader := by
  unfold genericHeader
  infer_instance

instance : Consumes .header genericHeader := by
  unfold genericHeader
  infer_instance

instance : EndsLine genericHeader := by
  unfold genericHeader headerRest
  infer_instance

/-- A header can start here: no line break stands next. -/
def AtHeader (s : ParserState) : Prop := s.kindAt .header ≠ .newline

lemma Ended.atHeader {s : ParserState} (hg : s.Good) (h : Ended s) : AtHeader s :=
  h.kind_ne hg .header rfl rfl

lemma AtHeader.look {s : ParserState} (h : AtHeader s) : AtHeader (s.look .header) := by
  rwa [AtHeader, kindAt_look]

instance (titles : Nat) (k : Kind) : Rule (headerAt titles k) := by
  unfold headerAt
  split <;> infer_instance

/-- A line that is passed over is taken with its end. -/
lemma errorLine_spec {s : ParserState} (hg : s.Good) (message : String) {mode : Mode}
    (h1 : s.kindAt mode ≠ .newline) (h2 : s.kindAt mode ≠ .eof) :
    (eatNewline.after ((errorLine mode message).after s)).scanner.budget < s.scanner.budget ∧
      Ended (eatNewline.after ((errorLine mode message).after s)) := by
  have hu := Rule.good (errorLine mode message) hg
  have hlt := Consumes.errorLine hg message h1 h2
  exact ⟨lt_of_le_of_lt (Rule.budget_le eatNewline hu) hlt, ended_errorLine hg message (.inr h1)⟩

/-- Each header is taken with the end of its line. -/
lemma headerAt_spec {titles next : Nat} {s : ParserState} (hg : s.Good) (hs : AtHeader s)
    (hb : (headerAt titles (s.kindAt .header)).answer s = .yield next) :
    ((headerAt titles (s.kindAt .header)).after s).scanner.budget < s.scanner.budget ∧
      Ended ((headerAt titles (s.kindAt .header)).after s) := by
  have hspec : ∀ (p : Parser (ForInStep Nat)) [Consumes .header p] [EndsLine p],
      s.kindAt .header ≠ .eof →
      (p.after s).scanner.budget < s.scanner.budget ∧ Ended (p.after s) :=
    fun p _ _ hne => ⟨Consumes.lt .header p hg hne, EndsLine.after p hg⟩
  unfold headerAt at hb ⊢
  split at hb
  · next hk => exact hspec _ (by simp [hk])
  · next hk => exact hspec _ (by simp [hk])
  · next hk => exact hspec _ (by simp [hk])
  · simp at hb
  · simp at hb
  · simp at hb
  · next hk =>
    rw [after_bind, after_bind, after_pure]
    exact errorLine_spec hg _ hs hk

instance (titles : Nat) : Rule (headerStep titles) := by
  unfold headerStep
  infer_instance

lemma advances_headerStep : Advances (fun _ => AtHeader) headerStep := by
  intro titles s hg hs next hb
  have hlook := hg.look .header
  rw [headerStep, answer_bind, hg.answer_peekKind, hg.after_peekKind, ← kindAt_look s .header] at hb
  rw [headerStep, after_bind, hg.answer_peekKind, hg.after_peekKind, ← kindAt_look s .header,
    ← budget_look s .header]
  obtain ⟨hlt, hat⟩ := headerAt_spec hlook hs.look hb
  exact ⟨hlt, hat.atHeader (Rule.good (headerAt titles _) hlook)⟩

lemma reading_headers : Reading headers := by
  unfold headers
  exact .loop (fun _ => Rule.reads) 0

lemma matches_headers : Matches AtHeader headers AtHeader headers := by
  unfold headers
  exact .loop (fun _ => Rule.reads) (fun _ => Rule.matches inferInstance _ _) advances_headerStep
    advances_headerStep 0

/-- The headers end where a body can start, at the end of one, or at the end of the text. -/
lemma kindAt_headers {s : ParserState} (hg : s.Good) (hs : AtHeader s) :
    (headers.after s).kindAt .header = .bodyStart ∨ (headers.after s).kindAt .header = .bodyEnd ∨
      (headers.after s).kindAt .header = .eof := by
  obtain ⟨titles, u, h1, -, -, h2, h3⟩ :=
    loop_done (a := 0) (fun _ => Rule.reads) advances_headerStep hg hs
  rw [headers, h3]
  rw [headerStep, answer_bind, h1.answer_peekKind, h1.after_peekKind] at h2
  rw [headerStep, after_bind, h1.answer_peekKind, h1.after_peekKind]
  unfold headerAt at h2 ⊢
  split at h2
  case h_4 hk => exact .inl ((kindAt_look u _).trans hk)
  case h_5 hk => exact .inr (.inl ((kindAt_look u _).trans hk))
  case h_6 hk => exact .inr (.inr ((kindAt_look u _).trans hk))
  all_goals simp at h2

/-! ### Nodes -/

instance : Rule bodyStep := by
  unfold bodyStep
  infer_instance

lemma advances_bodyStep : Advances (fun _ => Any) fun _ : Unit => bodyStep := by
  refine Goes.advances fun _ => .bind fun _ => .bind fun stop => .ite (goes_done _)
    (.of_kinds .statement fun k => .isAt ?_)
  by_cases hk : k = .dedent
  · subst hk
    exact .ite (goes_done _) (.of_consumes .statement (by rintro s hk; simp [hk]))
  · simpa [hk] using goes_done ()

instance : Rule bodyStatements := by
  have := Rule.loop (fun _ => inferInstance) advances_bodyStep ()
  unfold bodyStatements
  infer_instance

instance : Rule bodyHead := by
  unfold bodyHead
  infer_instance

instance : Consumes .header bodyHead := by
  unfold bodyHead
  infer_instance

instance : Rule bodyClose := by
  unfold bodyClose
  infer_instance

instance : Rule body := by
  unfold body
  infer_instance

instance : Consumes .header body := by
  unfold body
  infer_instance

/-- Where the statements of a body end. -/
lemma bodyStatements_ends {s : ParserState} (hg : s.Good) :
    (bodyStatements.after s).cancelled = true ∨ (bodyStatements.after s).kindAt .statement = .eof ∨
      (bodyStatements.after s).kindAt .statement = .bodyEnd ∨
      (bodyStatements.after s).kindAt .statement = .titleKw := by
  obtain ⟨-, u, h1, -, -, h2, h3⟩ :=
    loop_done (a := ()) (fun _ => Rule.reads) advances_bodyStep hg trivial
  have hends := statementList_ends .empty (statement maxDepth) h1
  have hv := Rule.good (statementList (statement maxDepth) .empty) h1
  rw [bodyStatements, after_bind, after_pure, h3, bodyStep, after_bind]
  rw [bodyStep, answer_bind] at h2
  generalize (statementList (statement maxDepth) .empty).after u = v at *
  have hcancel : isCancelled.answer v = v.cancelled ∧ isCancelled.after v = v := ⟨rfl, rfl⟩
  rw [answer_bind, hcancel.1, hcancel.2] at h2
  rw [after_bind, hcancel.1, hcancel.2]
  split at h2
  · next hc =>
    rw [if_pos hc, after_pure]
    exact .inl hc
  · next hc =>
    rw [if_neg hc]
    rw [answer_bind, hv.answer_isAt, hv.after_isAt] at h2
    rw [after_bind, hv.answer_isAt, hv.after_isAt]
    split at h2
    · next hd =>
      have hne : v.kindAt .statement ≠ .dedent := by simpa using hd
      rw [if_pos hd, after_pure, kindAt_look]
      rcases hends with h | h | ⟨-, h⟩
      · exact absurd h hc
      · rcases h with h | h | h | h
        · exact .inr (.inl h)
        · exact .inr (.inr (.inl h))
        · exact .inr (.inr (.inr h))
        · exact absurd h hne
      · rcases hk : v.commandAt .statement with _ | k <;> simp [hk, KindSet.contains_empty] at h
    · simp at h2

/-- What stands between the `---` and the end of a body. -/
lemma body_spec {s : ParserState} (hg : s.Good) :
    (body.answer s = true ∧ Ended (body.after s)) ∨
    (body.answer s = false ∧ ((body.after s).cancelled = true ∨
      (body.after s).kindAt .statement = .eof ∨ (body.after s).kindAt .statement = .titleKw)) := by
  have hs := Rule.good bodyHead (good_start hg)
  have hu := Rule.good bodyStatements hs
  have hends := bodyStatements_ends hs
  rw [body, answer_node, after_node, answer_bind, after_bind, answer_bind, after_bind]
  generalize bodyStatements.after (bodyHead.after s.start) = u at *
  rw [bodyClose, answer_bind, after_bind, hu.answer_eat, hu.after_eat .statement (by simp)]
  by_cases hk : u.kindAt .statement = .bodyEnd
  · left
    simp only [hk, decide_true, if_true, answer_bind, after_bind, answer_pure, after_pure, true_and]
    exact EndsLine.after (endOfLine .header) (hu.take .statement)
  · right
    have hlook := hu.look .statement
    have hf := Rule.follows (errorOf .statement .missingEndMarker "expected `===`") hlook
    have hkind := (Good.kindAt_errorOf hlook .statement .missingEndMarker "expected `===`").1
    rw [kindAt_look] at hkind
    simp only [hk, decide_false, Bool.false_eq_true, if_false, answer_bind, after_bind, answer_pure,
      after_pure, true_and, kindAt_complete, hkind]
    rcases hends with h | h | h | h
    · exact .inl (hf.cancelled h)
    · exact .inr (.inl h)
    · exact absurd h hk
    · exact .inr (.inr h)

instance : Rule nodeTail := by
  unfold nodeTail
  infer_instance

lemma reading_nodeHeaders : Reading nodeHeaders := .ranged .header reading_headers titleProblem

lemma matches_nodeHeaders : Matches AtHeader nodeHeaders AtHeader nodeHeaders :=
  (Matches.ranged .header reading_headers matches_headers titleProblem).weaken (fun _ h => h.look)
    (fun _ h => h.look)

lemma reading_nodeParts : Reading (nodeHeaders >>= fun _ => nodeTail) :=
  .bind reading_nodeHeaders fun _ => Rule.reads

lemma matches_nodeParts : Matches AtHeader (nodeHeaders >>= fun _ => nodeTail) AtHeader
    (nodeHeaders >>= fun _ => nodeTail) :=
  .bind (fun _ => Rule.reads) matches_nodeHeaders (fun _ => Rule.agrees) (fun _ _ _ => trivial)
    (fun _ _ _ => trivial) reading_nodeHeaders

lemma reading_dialogueNode : Reading dialogueNode := by
  rw [dialogueNode]
  exact .bind reading_nodeParts.nodeOf fun _ => Rule.reads

/-- How a node ends behind its headers: with the end of its body, where its body should end, or
where the body is missing. -/
lemma nodeTail_spec {s : ParserState} (hg : s.Good) (hs : s.kindAt .header = .bodyStart ∨
      s.kindAt .header = .bodyEnd ∨ s.kindAt .header = .eof) :
    (nodeTail.answer s = .dialogueNode ∧ Ended (nodeTail.after s)) ∨
    (nodeTail.answer s = .error ∧ (∃ cs, .node .body cs ∈ (nodeTail.after s).forest.inner) ∧
      ((nodeTail.after s).cancelled = true ∨ (nodeTail.after s).kindAt .statement = .eof ∨
        (nodeTail.after s).kindAt .statement = .titleKw)) ∨
    (nodeTail.answer s = .error ∧ ((nodeTail.after s).kindAt .header = .bodyEnd ∨
      (nodeTail.after s).kindAt .header = .eof)) := by
  have hlook := hg.look .header
  rw [nodeTail, answer_bind, after_bind, hg.answer_isAt, hg.after_isAt]
  by_cases hk : s.kindAt .header = .bodyStart
  · have hspec := body_spec hlook
    have hinner : ∃ cs, (body.after (s.look .header)).forest.inner =
        .node .body cs :: (s.look .header).forest.inner := by
      unfold body
      exact Rule.inner_node _ hlook .body
    rw [hk, decide_eq_true rfl, if_pos rfl, answer_bind, after_bind]
    generalize body.after (s.look .header) = u at *
    rcases hspec with ⟨h1, h2⟩ | ⟨h1, h2⟩
    · rw [h1]
      exact .inl ⟨rfl, h2⟩
    · obtain ⟨cs, hcs⟩ := hinner
      rw [h1]
      exact .inr (.inl ⟨rfl, ⟨cs, by rw [if_neg (by simp), after_pure, hcs]; simp⟩, h2⟩)
  · have hkind := (Good.kindAt_errorOf hlook .header .unexpectedToken "expected `---`").1
    rw [kindAt_look, ← error] at hkind
    rw [decide_eq_false hk, if_neg (by simp), answer_bind, after_bind, answer_pure,
      after_pure, hkind]
    exact .inr (.inr ⟨rfl, hs.resolve_left hk⟩)

lemma scanner_nodeHeaders {s : ParserState} (hg : s.Good) :
    (nodeHeaders.after s).scanner = (headers.after (s.look .header)).scanner := by
  simp only [nodeHeaders, after_bind, hg.answer_peekRange, hg.after_peekRange, after_pure]
  rcases titleProblem (headers.answer (s.look .header)) with _ | ⟨e, m⟩
  · rfl
  · rw [reportAt, after_errorAt, scanner_report]

/-- What follows the headers is read where they end. -/
lemma kindAt_nodeHeaders {s : ParserState} (hg : s.Good) (hs : AtHeader s) :
    (nodeHeaders.after s).kindAt .header = .bodyStart ∨
      (nodeHeaders.after s).kindAt .header = .bodyEnd ∨
      (nodeHeaders.after s).kindAt .header = .eof := by
  rw [kindAt, scanner_nodeHeaders hg]
  exact kindAt_headers (hg.look .header) hs.look

/-- A node is one tree, and the next child of the root can start behind it. -/
lemma dialogueNode_spec {s : ParserState} (hg : s.Good) (hs : AtHeader s) :
    ∃ tree : Tree, (dialogueNode.after s).forest.inner = tree :: s.forest.inner ∧
      (Ended (dialogueNode.after s) ∨
        (tree.isUnclosed = true ∧ ((dialogueNode.after s).cancelled = true ∨
          (dialogueNode.after s).kindAt .statement = .eof ∨
          (dialogueNode.after s).kindAt .statement = .titleKw)) ∨
        (dialogueNode.after s).kindAt .header = .bodyEnd ∨
        (dialogueNode.after s).kindAt .header = .eof) := by
  have hstart := good_start hg
  have hu := (reading_nodeHeaders.follows hstart).good
  have hspec := nodeTail_spec hu (kindAt_nodeHeaders hstart hs)
  rw [dialogueNode, after_bind, after_pure, after_nodeOf]
  refine ⟨_, reading_nodeParts.inner_complete hg _, ?_⟩
  rw [answer_bind, after_bind]
  generalize nodeHeaders.after s.start = u at *
  generalize nodeTail.after u = v at *
  rcases hspec with ⟨-, h⟩ | ⟨h1, ⟨cs, hcs⟩, h⟩ | ⟨-, h⟩
  · exact .inl h
  · refine .inr (.inl ⟨?_, h⟩)
    simp only [Tree.isUnclosed, Tree.kind, Tree.children, h1, decide_true, Bool.true_and,
      List.any_eq_true]
    exact ⟨.node .body cs, by simpa [Forest.trees] using hcs, rfl⟩
  · exact .inr (.inr h)

lemma nodeFirst_cases {k : Kind} (h : nodeFirst.contains k = true) :
    k = .titleKw ∨ k = .whenKw ∨ k = .ident ∨ k = .bodyStart := by
  revert h
  cases k <;> decide

/-- Headers take a token unless the body starts. -/
lemma budget_headers {s : ParserState} (hg : s.Good) (hs : AtHeader s)
    (hk : nodeFirst.contains (s.kindAt .header) = true) :
    (headers.after s).scanner.budget < s.scanner.budget ∨
      (s.kindAt .header = .bodyStart ∧ headers.after s = s.look .header) := by
  unfold headers
  by_cases hb : s.kindAt .header = .bodyStart
  · refine .inr ⟨hb, loop_first_done (b := 0) (Q := (· = s.look .header)) ?_ ?_⟩
    · rw [headerStep, answer_bind, hg.answer_peekKind, hb]
      rfl
    · rw [headerStep, after_bind, hg.answer_peekKind, hg.after_peekKind, hb]
      rfl
  · have hyield : ∃ n, (headerStep 0).answer s = .yield n := by
      rw [headerStep, answer_bind, hg.answer_peekKind]
      rcases nodeFirst_cases hk with h | h | h | h
      · exact ⟨1, by simp [h, headerAt]⟩
      · exact ⟨0, by simp [h, headerAt]⟩
      · exact ⟨0, by simp [h, headerAt]⟩
      · exact absurd h hb
    obtain ⟨n, hn⟩ := hyield
    exact .inl (lt_of_le_of_lt (loop_budget_le (fun _ => Rule.reads) hg 0)
      (advances_headerStep hg hs hn).1)

/-- A node takes a token: its first header does, or its `---`. -/
lemma budget_dialogueNode {s : ParserState} (hg : s.Good) (hs : AtHeader s)
    (hk : nodeFirst.contains (s.kindAt .header) = true) :
    (dialogueNode.after s).scanner.budget < s.scanner.budget := by
  have hstart := good_start hg
  have hlook := hstart.look .header
  have hscanner := scanner_nodeHeaders hstart
  have hv := (reading_nodeHeaders.follows hstart).good
  have hbudget : (s.start.look .header).scanner.budget = s.scanner.budget :=
    budget_look s.start .header
  have hspec := budget_headers hlook (AtHeader.look (s := s.start) hs)
    (by rwa [kindAt_look, kindAt_start])
  have htail := Rule.budget_le nodeTail hv
  rw [dialogueNode, after_bind, after_pure, after_nodeOf, after_bind, scanner_complete]
  generalize nodeHeaders.after s.start = v at *
  rcases hspec with h | ⟨h1, h2⟩
  · rw [← hscanner, hbudget] at h
    exact lt_of_le_of_lt htail h
  · rw [h2] at hscanner
    have hkind : v.kindAt .header = .bodyStart := by
      rw [kindAt, hscanner, look_look, ← kindAt]
      exact h1
    have hlt := Consumes.lt .header body (hv.look .header) (by rw [kindAt_look, hkind]; simp)
    rw [budget_look, hscanner, budget_look, hbudget] at hlt
    rw [nodeTail, after_bind, hv.answer_isAt, hv.after_isAt, hkind, decide_eq_true rfl, if_pos rfl,
      after_bind]
    refine lt_of_eq_of_lt ?_ hlt
    split <;> rw [after_pure]

/-! ### Files -/

instance : Rule fileHashtag := by
  unfold fileHashtag
  infer_instance

instance : Consumes .header fileHashtag := by
  unfold fileHashtag
  infer_instance

instance : EndsLine fileHashtag := by
  unfold fileHashtag
  infer_instance

instance : Rule strayLine := by
  unfold strayLine
  infer_instance

lemma reading_child (k : Kind) : Reading (child k) := by
  unfold child
  split
  · exact Rule.reads
  · split
    · exact reading_dialogueNode
    · exact Rule.reads

lemma strayLine_eq :
    strayLine = node .error (errorLine .header "expected a node header" >>= fun _ =>
    eatNewline) := by
  unfold strayLine errorLine
  simp only [bind_assoc]

lemma atHeader_of_statement {s : ParserState} (hg : s.Good) (hk : s.kindAt .statement ≠ .newline) :
    AtHeader s :=
  fun h => hk (Scanner.newline_of_header hg.scanner.toSane h)

/-- What reading a child of the root does: it takes a token, makes one tree, and leaves the parser
where the next child can start. -/
lemma child_spec {s : ParserState} (hg : s.Good) (hs : AtHeader s) (hk : s.kindAt .header ≠ .eof) :
    ((child (s.kindAt .header)).after s).scanner.budget < s.scanner.budget ∧
    ∃ tree : Tree, ((child (s.kindAt .header)).after s).forest.inner = tree :: s.forest.inner ∧
      (Ended ((child (s.kindAt .header)).after s) ∨
        (tree.isUnclosed = true ∧ (((child (s.kindAt .header)).after s).cancelled = true ∨
          ((child (s.kindAt .header)).after s).kindAt .statement = .eof ∨
          ((child (s.kindAt .header)).after s).kindAt .statement = .titleKw)) ∨
        ((child (s.kindAt .header)).after s).kindAt .header = .bodyEnd ∨
        ((child (s.kindAt .header)).after s).kindAt .header = .eof) := by
  unfold child
  split
  · refine ⟨Consumes.lt .header fileHashtag hg hk, ?_⟩
    have hinner :
        ∃ cs, (fileHashtag.after s).forest.inner = .node .fileHashtag cs :: s.forest.inner := by
      unfold fileHashtag
      exact Rule.inner_node _ hg _
    obtain ⟨cs, hcs⟩ := hinner
    exact ⟨_, hcs, .inl (EndsLine.after fileHashtag hg)⟩
  · split
    · next hfirst => exact ⟨budget_dialogueNode hg hs hfirst, dialogueNode_spec hg hs⟩
    · obtain ⟨cs, hcs⟩ := Rule.inner_node
        (errorLine .header "expected a node header" >>= fun _ => eatNewline) hg .error
      obtain ⟨hlt, hended⟩ := errorLine_spec (good_start hg) "expected a node header" hs hk
      rw [strayLine_eq]
      refine ⟨?_, _, hcs, .inl ?_⟩
      · rw [after_node, after_bind, scanner_complete]
        exact hlt
      · rw [after_node, after_bind, Ended, scanner_complete]
        exact hended

/-- The next child starts at no line break, unless reading was cancelled. -/
lemma atHeader_child {s : ParserState} (hg : s.Good) (hs : AtHeader s)
    (hk : s.kindAt .header ≠ .eof) :
    ((child (s.kindAt .header)).after s).cancelled = true ∨
      AtHeader ((child (s.kindAt .header)).after s) := by
  have hu := ((reading_child (s.kindAt .header)).follows hg).good
  obtain ⟨-, tree, -, h⟩ := child_spec hg hs hk
  rcases h with h | ⟨-, h | h | h⟩ | h | h
  · exact .inr (h.atHeader hu)
  · exact .inl h
  · exact .inr (atHeader_of_statement hu (by simp [h]))
  · exact .inr (atHeader_of_statement hu (by simp [h]))
  · exact .inr (by simp [AtHeader, h])
  · exact .inr (by simp [AtHeader, h])

end Parser

end DialogueScript

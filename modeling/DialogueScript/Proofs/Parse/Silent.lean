import DialogueScript.Parse.Basic
import DialogueScript.Proofs.Grammar.Reported

/-!
Parses that report nothing. Such a parse hides no error but one: at a token of a header that is
itself an error, a missing colon is not reported, and the token is then passed over as dialogue,
where it is none.
-/

set_option synthInstance.maxSize 4096

namespace DialogueScript

namespace Parser

open ParserState

variable {α β : Type}

/-! ### Headers -/

instance : Honest titleHeader := by
  unfold titleHeader titleRest
  exact .inNode (by decide) inferInstance inferInstance

instance : Honest whenCondition := by
  unfold whenCondition
  refine .inNode (by decide) inferInstance (.seq inferInstance inferInstance fun k => ?_)
  unfold conditionAt
  split <;> infer_instance

instance : Honest whenHeader := by
  unfold whenHeader
  exact .inNode (by decide) inferInstance inferInstance

/-- A rule that only adds trees to those that are there. -/
class Grows (p : Parser α) : Prop where
  mono : ∀ ⦃s⦄, s.Good → ∀ t ∈ s.forest.inner, t ∈ (p.after s).forest.inner

instance (p : Parser α) (f : α → Parser β) [Rule p] [hp : Grows p] [hf : ∀ a, Grows (f a)] :
    Grows (p >>= f) :=
  ⟨fun _ hg t ht => (hf _).mono (Rule.good p hg) t (hp.mono hg t ht)⟩

instance {c : Prop} [Decidable c] (p q : Parser α) [hp : Grows p] [hq : Grows q] :
    Grows (if c then p else q) := by
  split
  · exact hp
  · exact hq

instance (a : α) : Grows (pure a : Parser α) := ⟨fun _ _ _ ht => ht⟩

instance (k : Kind) (p : Parser α) [hp : Rule p] : Grows (node k p) where
  mono s hg t ht := by
    rw [after_node, hp.reads.inner_complete hg]
    exact List.mem_cons_of_mem _ ht

instance (mode : Mode) (kind : Kind) : Grows (isAt mode kind) where
  mono s hg t ht := by rwa [hg.after_isAt]

instance (mode : Mode) : Grows (isAtLineEnd mode) where
  mono s hg t ht := by rwa [hg.after_isAtLineEnd]

instance (mode : Mode) : Grows (advance mode) where
  mono s hg t ht := by
    rw [hg.after_advance]
    split
    · exact ht
    · exact List.mem_cons_of_mem _ ht

instance (mode : Mode) (m : String) : Grows (error mode m) where
  mono s hg t ht := by
    rw [error, hg.after_errorOf]
    split
    · exact ht
    · rwa [forest_report]

instance (mode : Mode) (kind : Kind) : Grows (eat mode kind) := by
  unfold eat
  infer_instance

instance (mode : Mode) : Grows (endOfLine mode) := by
  have : Grows (errorLine mode "expected end of line") := by
    unfold errorLine skipLine
    infer_instance
  unfold endOfLine eatNewline
  infer_instance

/-- A header with its colon holds no error. -/
lemma clean_header {cs : List Tree} (h : ∀ c ∈ cs, c.Clean) {token : Token}
    (hk : token.kind = .colon) (hmem : .leaf token ∈ cs) : (Tree.node .header cs).Clean := by
  have hcolon : (Tree.node .header cs).hasColon = true := by
    simp only [Tree.hasColon, Tree.children, List.any_eq_true, decide_eq_true_eq]
    exact ⟨_, hmem, hk⟩
  refine ⟨by simp [Tree.kind], Tree.fine_node ⟨by simp [Tree.kind], ?_⟩ fun c hc => (h c hc).fine⟩
  simp [Tree.holdsError_node .header h, hcolon]

/-- A header without a colon can hold an error. -/
lemma clean_header_of_error {cs ds : List Tree} (h : ∀ d ∈ ds, d.Clean)
    (hmem : .node .error ds ∈ cs)
    (hcs : ∀ c ∈ cs, c = .node .error ds ∨ c.Clean ∧ c.kind ≠ .colon) :
    (Tree.node .header cs).Clean := by
  have hcolon : (Tree.node .header cs).hasColon = false := by
    simp only [Tree.hasColon, Tree.children, List.any_eq_false, decide_eq_true_eq]
    intro c hc
    rcases hcs c hc with rfl | ⟨-, h⟩
    · simp [Tree.kind]
    · exact h
  have herror : (Tree.node .header cs).holdsError = true := by
    simp only [Tree.holdsError, Tree.children, List.any_eq_true, decide_eq_true_eq]
    exact ⟨_, hmem, rfl⟩
  refine ⟨by simp [Tree.kind], Tree.fine_node ⟨by simp [Tree.kind], ?_⟩ fun c hc => ?_⟩
  · simp [herror, hcolon, Tree.kind]
  · rcases hcs c hc with rfl | ⟨h, -⟩
    · refine Tree.fine_node ⟨by simp [Tree.kind], ?_⟩ fun d hd => (h d hd).fine
      simp [Tree.holdsError_node .error h, Tree.kind]
    · exact h.fine

section
variable {s : ParserState} (hg : s.Good) (hq : s.Quiet)
include hg hq

lemma headerRest_of_colon (ht : s.Tidy) (hk : s.kindAt .header = .colon) :
    (headerRest.after s).Tidy ∧
      .leaf (s.scanner.ahead .header).token ∈ (headerRest.after s).forest.inner := by
  have htake := hg.take .header
  have htidy := Honest.tidy (p := eat .headerValue .restOfLine >>= fun _ => endOfLine .header) htake
    ⟨hq.never, hq.running⟩ (hg.tidy_take ht .header)
  have hmono := Grows.mono (p := eat .headerValue .restOfLine >>= fun _ => endOfLine .header) htake
    (.leaf (s.scanner.ahead .header).token) (List.mem_cons_self ..)
  rw [headerRest, after_bind, Good.answer_expect hg, Good.after_expect hg _ (by simp), hk,
    if_pos rfl, decide_eq_true rfl, if_pos rfl]
  exact ⟨htidy, hmono⟩

/-- The rest of a line that is passed over becomes an error. -/
lemma skipLine_text (h1 : s.kindAt .text ≠ .newline) (h2 : s.kindAt .text ≠ .eof)
    (hd : ((skipLine .text).after s).diagnostics = []) : ∃ ds, (∀ d ∈ ds, d.Clean) ∧
      ((skipLine .text).after s).forest.inner = .node .error ds :: s.forest.inner := by
  have hlook := hg.look .text
  have hquiet : (s.look .text).Quiet := ⟨hq.never, hq.running⟩
  have heq : (skipLine .text).after s =
      (node .error (advance .text >>= fun _ => advanceLine)).after (s.look .text) := by
    simp [skipLine, hg, h1, h2]
  have htidy := Honest.tidy (p := advance .text >>= fun _ => advanceLine) (good_start hlook)
    (quiet_start hquiet) (tidy_start _)
  have hreads : Reading (advance .text >>= fun _ => advanceLine) := Rule.reads
  rw [heq, after_node, hreads.inner_complete hlook]
  rw [heq, after_node] at hd
  generalize (advance .text >>= fun _ => advanceLine).after (s.look .text).start = u at *
  exact ⟨_, fun d hmem => htidy hd d (mem_trees.1 hmem), rfl⟩

/-- The rest of a header line without a colon becomes an error. -/
lemma headerRest_of_error (hstart : s.scanner.lineStart = false) (hk : s.kindAt .header ≠ .colon)
    (hd : (headerRest.after s).diagnostics = []) :
    ∃ ds extra, (∀ d ∈ ds, d.Clean) ∧ (∀ e ∈ extra, e.Clean ∧ e.kind ≠ .colon) ∧
      (headerRest.after s).forest.inner = extra ++ .node .error ds :: s.forest.inner := by
  have hlook := hg.look .header
  have hquiet : (s.look .header).Quiet := ⟨hq.never, hq.running⟩
  have hf := Rule.follows (error .header "expected `:`") hlook
  have howes := owes_errorOf .header hlook hquiet .unexpectedToken "expected `:`"
  obtain ⟨hscanner, hforest⟩ := Good.errorOf_keeps hlook .header .unexpectedToken "expected `:`"
  have hline : ((s.look .header).look .header).scanner.lineStart = false := by
    rw [look_look, ParserState.look, Scanner.looking, Scanner.settle_of_insensitive _ rfl]
    exact hstart
  rw [headerRest, after_bind, Good.answer_expect hg, Good.after_expect hg _ (by simp), if_neg hk,
    decide_eq_false hk, if_neg (by simp), after_bind] at hd ⊢
  rw [← hscanner] at hline
  rw [← error] at howes hscanner hforest hline
  have hu := hf.good
  have huq := hf.quiet hquiet
  generalize (error .header "expected `:`").after (s.look .header) = u at *
  have hv := Rule.follows (skipLine .text) hu
  have hw := Rule.follows eatNewline hv.good
  -- the token was not reported, so it is an error of the header
  have herror := howes.resolve_left fun h => hw.reported (hv.reported h) hd
  obtain ⟨h1, h2⟩ := Scanner.text_of_header_error hline herror
  have hquiet' : ((skipLine .text).after u).diagnostics = [] := by
    by_contra h
    exact hw.reported h hd
  obtain ⟨ds, hds, hinner⟩ := skipLine_text hu huq h1 h2 hquiet'
  have hgood := hv.good
  rw [after_eatNewline hgood]
  generalize (skipLine .text).after u = v at *
  rw [hforest] at hinner
  split
  · next hn =>
    refine ⟨ds, [.leaf (v.scanner.ahead .text).token], hds, ?_, ?_⟩
    · rw [List.forall_mem_singleton]
      exact ⟨hgood.clean_take (by simp [hn]), by
        rw [Tree.kind]
        exact fun h => by rw [kindAt, h] at hn; simp at hn⟩
    · rw [ParserState.take, Forest.add, hinner]
      rfl
  · exact ⟨ds, [], hds, by simp, hinner⟩

end

/-- A header is clean in any case: its one unreported error is the one that it may hold. -/
lemma tidy_genericHeader {s : ParserState} (hg : s.Good) (hq : s.Quiet) (ht : s.Tidy)
    (hk : s.kindAt .header = .ident) : (genericHeader.after s).Tidy := by
  have hs := good_start hg
  have htake := hs.take .header
  have hquiet : (s.start.take .header).Quiet := ⟨hq.never, hq.running⟩
  have hafter : (advance .header >>= fun _ => headerRest).after s.start =
      headerRest.after (s.start.take .header) := by
    rw [after_bind, hs.after_advance, if_neg (by simp [hk])]
  have hstart : (s.start.take .header).scanner.lineStart = false :=
    (hs.scanner.takes .header).midLine (congrArg Kind.isStructural hk) (ne_of_eq_of_ne hk (by simp))
  have hfirst : Tree.Clean (.leaf (s.scanner.ahead .header).token) := hg.clean_take (by simp [hk])
  rw [genericHeader, after_node]
  refine tidy_complete Rule.reads hg ht .header fun hd => ?_
  rw [hafter] at hd ⊢
  by_cases hc : (s.start.take .header).kindAt .header = .colon
  · obtain ⟨h1, h2⟩ := headerRest_of_colon htake hquiet (hs.tidy_take (tidy_start s) .header) hc
    exact clean_header (fun c hmem => h1 hd c (mem_trees.1 hmem)) hc (mem_trees.2 h2)
  · obtain ⟨ds, extra, h1, h2, h3⟩ := headerRest_of_error htake hquiet hstart hc hd
    refine clean_header_of_error h1 (mem_trees.2 (by simp [h3])) fun c hmem => ?_
    rw [mem_trees, h3] at hmem
    rcases List.mem_append.1 hmem with hmem | hmem
    · exact .inr (h2 c hmem)
    · rcases List.mem_cons.1 hmem with rfl | hmem
      · exact .inl rfl
      · obtain rfl : c = .leaf (s.scanner.ahead .header).token := by
          simpa [ParserState.take, Forest.add, ParserState.start, Forest.start] using hmem
        exact .inr ⟨hfirst, by rw [Tree.kind]; exact fun h => by rw [kindAt, h] at hk; simp at hk⟩

instance (titles : Nat) : Honest (headerStep titles) := by
  refine .peekKind fun s hg hq ht => ?_
  unfold headerAt
  split
  case h_3 hk =>
    rw [after_bind, after_pure]
    exact tidy_genericHeader hg hq ht hk
  all_goals exact Honest.tidy hg hq ht

instance : Readable headers := ⟨reading_headers⟩

instance : Honest headers := by
  unfold headers
  infer_instance

/-! ### Nodes -/

instance : Honest bodyStep := by
  unfold bodyStep
  infer_instance

instance : Honest bodyStatements := by
  unfold bodyStatements
  infer_instance

instance : Honest body := by
  unfold body bodyHead bodyClose
  exact .inNode (by decide) inferInstance inferInstance

/-- A body without an end is reported. -/
lemma reported_body {s : ParserState} (hg : s.Good) (hq : s.Quiet) (h : body.answer s = false) :
    (body.after s).diagnostics ≠ [] := by
  have hcancel := ((Rule.follows body hg).quiet hq).running
  have hspec := body_spec hg
  have howes : (body.after s).Owes .statement := by
    have hhead := Rule.follows bodyHead (good_start hg)
    have hf := hhead.trans (Rule.follows bodyStatements hhead.good)
    have hu := hf.good
    have huq := hf.quiet (quiet_start hq)
    rw [body, answer_node, answer_bind, answer_bind] at h
    rw [body, after_node, after_bind, after_bind]
    generalize bodyStatements.after (bodyHead.after s.start) = u at *
    rw [bodyClose, answer_bind, hu.answer_eat] at h
    rw [bodyClose, after_bind, hu.answer_eat, hu.after_eat .statement (by simp)]
    by_cases hk : u.kindAt .statement = .bodyEnd
    · rw [hk, decide_eq_true rfl, if_pos rfl, answer_bind, answer_pure] at h
      simp at h
    · rw [decide_eq_false hk, if_neg (by simp), if_neg hk, after_bind, after_pure]
      exact owes_errorOf .statement (hu.look .statement) ⟨huq.never, huq.running⟩ .missingEndMarker
        "expected `===`"
  rcases hspec with ⟨h1, -⟩ | ⟨-, h1 | h1 | h1⟩
  · simp [h] at h1
  · simp [hcancel] at h1
  · exact howes.resolve_right (by simp [h1])
  · exact howes.resolve_right (by simp [h1])

instance : Honest nodeTail := by
  unfold nodeTail
  infer_instance

/-- A node is an error only if that is reported. -/
lemma reported_nodeTail {s : ParserState} (hg : s.Good) (hq : s.Quiet)
    (hs : s.kindAt .header = .bodyStart ∨ s.kindAt .header = .bodyEnd ∨ s.kindAt .header = .eof) :
    nodeTail.answer s = .dialogueNode ∨ (nodeTail.after s).diagnostics ≠ [] := by
  have hlook := hg.look .header
  have hquiet : (s.look .header).Quiet := ⟨hq.never, hq.running⟩
  rw [nodeTail, answer_bind, after_bind, hg.answer_isAt, hg.after_isAt]
  by_cases hk : s.kindAt .header = .bodyStart
  · rw [hk, decide_eq_true rfl, if_pos rfl, answer_bind, after_bind]
    cases hb : body.answer (s.look .header)
    · right
      rw [if_neg (by simp), after_pure]
      exact reported_body hlook hquiet hb
    · left
      rw [if_pos rfl, answer_pure]
  · right
    have hkind := (Good.kindAt_errorOf hlook .header .unexpectedToken "expected `---`").1
    rw [kindAt_look] at hkind
    rw [decide_eq_false hk, if_neg (by simp), after_bind, after_pure]
    refine (owes_errorOf .header hlook hquiet .unexpectedToken "expected `---`").resolve_right ?_
    rw [hkind]
    rcases hs.resolve_left hk with h | h <;> simp [h]

instance : Honest nodeHeaders := by
  unfold nodeHeaders
  infer_instance

lemma tidy_dialogueNode {s : ParserState} (hg : s.Good) (hq : s.Quiet) (ht : s.Tidy)
    (hs : AtHeader s) :
    (dialogueNode.after s).Tidy := by
  have hreads : Reading (nodeHeaders >>= fun _ => nodeTail) :=
    .bind reading_nodeHeaders fun _ => Rule.reads
  have hstart := good_start hg
  have hf := reading_nodeHeaders.follows hstart
  have hu := hf.good
  have huq := hf.quiet (quiet_start hq)
  have htidy := Honest.tidy (p := nodeTail) hu huq
    (Honest.tidy (p := nodeHeaders) hstart (quiet_start hq) (tidy_start s))
  have hreport := reported_nodeTail hu huq (kindAt_nodeHeaders hstart hs)
  rw [dialogueNode, after_bind, after_pure, after_nodeOf]
  refine tidy_complete hreads hg ht _ fun hd => ?_
  rw [after_bind] at hd ⊢
  rw [answer_bind]
  generalize nodeHeaders.after s.start = u at *
  rw [hreport.resolve_right (not_not.2 hd)]
  exact Tree.clean_node (by decide) fun c hc => htidy hd c (mem_trees.1 hc)

/-! ### Files -/

instance : Honest fileHashtag := by
  unfold fileHashtag
  exact .inNode (by decide) inferInstance inferInstance

instance : Honest strayLine := by
  rw [strayLine_eq]
  infer_instance

lemma tidy_child {s : ParserState} (hg : s.Good) (hq : s.Quiet) (ht : s.Tidy) (hs : AtHeader s)
    (k : Kind) : ((child k).after s).Tidy := by
  unfold child
  split
  · exact Honest.tidy hg hq ht
  · split
    · exact tidy_dialogueNode hg hq ht hs
    · exact Honest.tidy hg hq ht

/-- **Reading a script hides no error.** -/
lemma Whole.tidy_script {t : Text} {s : ParserState} (h : Whole t s) (hq : s.Quiet) (ht : s.Tidy) :
    (Parser.script.after s).Tidy :=
  h.keeps_script hq ht (fun _ h => h) (fun _ hg hq hat ht => tidy_child hg hq ht hat _)
    (fun u _ ht => tidy_report (s := u.look .header) ht _ _ _) fun _ hg ht =>
      hg.tidy_take ht .header

end Parser

namespace Parse

lemma diagnostics_eq_nil {t : Text} {ds : List Diagnostic}
    (h : (Diagnostic.locateAll? t ds).getD ds = []) : ds = [] := by
  cases ds with
  | nil => rfl
  | cons d ds =>
    exfalso
    simp only [Diagnostic.locateAll?, List.mapM_cons] at h
    cases h1 : (d.locate t).toOption with
    | none => simp [h1] at h
    | some d' => cases h2 : ds.mapM fun d => (d.locate t).toOption <;> simp [h1, h2] at h

/-- **What a parse that reports nothing can hide.** -/
lemma clean_of_silent (config : Config) (t : Text) (h : (ofText config t).diagnostics = []) :
    (ofText config t).tree.Clean := by
  have htidy :=
    (Parser.whole_start config t none).tidy_script ⟨rfl, rfl⟩ (fun _ _ h => by simp [begun] at h)
  have hnil := diagnostics_eq_nil h
  exact Tree.clean_node (by decide) fun c hc => htidy hnil c (Parser.mem_trees.1 hc)

/-- Only headers hide an error. -/
lemma holdsError_of_silent {config : Config} {t : Text} (h : (ofText config t).diagnostics = [])
    {c : Tree} (hc : c ∈ (ofText config t).tree.subtrees) (hk : c.kind ≠ .header) :
    c.holdsError = false := by
  by_contra herror
  exact hk (((clean_of_silent config t h).fine c hc).error.1 (by simpa using herror)).1

/-- **No error is hidden but one**: a parse that reports nothing takes no token that is an error,
and the only nodes with an error in them are the headers without a colon. So its tree is free of
errors just if each of its headers has a colon. -/
theorem errors_of_silent (config : Config) (t : Text) (h : (ofText config t).diagnostics = []) :
    (∀ c ∈ (ofText config t).tree.subtrees, c.kind ≠ .errorToken) ∧
    (∀ c ∈ (ofText config t).tree.subtrees,
      c.holdsError = true ↔ c.kind = .header ∧ c.hasColon = false) ∧
    ((∀ c ∈ (ofText config t).tree.subtrees, c.kind ≠ .error ∧ c.kind ≠ .errorToken) ↔
      ∀ c ∈ (ofText config t).tree.subtrees, c.kind = .header → c.hasColon = true) := by
  have hclean := clean_of_silent config t h
  exact ⟨fun c hc => (hclean.fine c hc).token, fun c hc => (hclean.fine c hc).error,
    hclean.free_iff⟩

theorem errors_of_silent_node :
    (ofText {} "title: A\na: b\n---\nc\n===\n".toList).diagnostics = [] ∧
    ∀ c ∈ (ofText {} "title: A\na: b\n---\nc\n===\n".toList).tree.subtrees,
      c.kind ≠ .error ∧ c.kind ≠ .errorToken := by
  have h : (ofText {} "title: A\na: b\n---\nc\n===\n".toList).diagnostics = [] := by decide +kernel
  exact ⟨h, (errors_of_silent {} _ h).2.2.2 (by decide +kernel)⟩

/-- A header whose word is followed by an error instead of a colon. -/
theorem silent_error_in_header :
    (ofText {} "a @b\ntitle: A\n---\n===\n".toList).diagnostics = [] ∧
    ∃ c ∈ (ofText {} "a @b\ntitle: A\n---\n===\n".toList).tree.subtrees, c.kind = .error := by
  decide +kernel

end Parse

end DialogueScript

import DialogueScript.Proofs.Grammar.Siblings

/-!
A node is read the same whatever the parser may know of its first line. The token that it starts
with ends all that was planned for the line, so behind it nothing is left of what was known before.
-/

namespace DialogueScript

namespace ParserState

open DialogueScript.Parser

/-- The same state, where nothing is known of the current line. -/
def renew (s : ParserState) : ParserState := { s with scanner := s.scanner.renewed }

/-- A token of a header stands next, before any line break. -/
structure Startable (s : ParserState) : Prop where
  good : s.Good
  planDone : s.scanner.PlanDone
  noBreak : Text.lineBreak? (s.scanner.body .header) = none
  notEof : s.kindAt .header ≠ .eof

lemma startable_of_kind {s : ParserState} (hg : s.Good)
    (hk : nodeFirst.contains (s.kindAt .header) = true) : s.Startable := by
  have hsettle : s.scanner.settle .header = s.scanner := Scanner.settle_of_insensitive _ rfl
  have hkind := nodeFirst_cases hk
  have hdone : s.scanner.PlanDone := by
    have : (s.scanner.settle .header).PlanDone := Scanner.planDone_of_kind hg.scanner.toSane
      (by rw [← kindAt]; rcases hkind with h | h | h | h <;> rw [h] <;> rfl)
      (by rw [← kindAt]; rcases hkind with h | h | h | h <;> simp [h])
    rwa [hsettle] at this
  refine ⟨hg, hdone, ?_, by rcases hkind with h | h | h | h <;> simp [h]⟩
  -- a line break would be the next token itself
  by_contra hne
  obtain ⟨n, hn⟩ := Option.ne_none_iff_exists'.1 hne
  have hnext := Lexeme.next_of_lineBreak? .header hn
  have : s.kindAt .header = .newline := by
    rw [kindAt, Scanner.ahead, hsettle, Scanner.scan_eq_content hdone (by simp),
      Scanner.content_token, hnext]
    rfl
  rcases hkind with h | h | h | h <;> simp [h] at this

namespace Startable

variable {s : ParserState} (h : s.Startable)
include h

lemma good_renew : s.renew.Good :=
  ⟨Scanner.good_atLine _ _ _ h.good.scanner.rising, rfl⟩

lemma ahead_renew : s.renew.scanner.ahead .header = s.scanner.ahead .header :=
  Scanner.ahead_renewed h.planDone h.noBreak

lemma kindAt_renew : s.renew.kindAt .header = s.kindAt .header := by
  rw [kindAt, h.ahead_renew, kindAt]

lemma rangeAt_renew : s.renew.rangeAt .header = s.rangeAt .header := by
  rw [rangeAt, h.ahead_renew, rangeAt]

/-- Behind the token that stands next, it plays no part what was known of the line. -/
lemma take_renew : s.renew.take .header = s.take .header := by
  have hafter : s.renew.scanner.after .header = s.scanner.after .header :=
    Scanner.after_renewed h.planDone h.noBreak h.good.silent
  simp only [ParserState.take, h.ahead_renew, hafter]
  rfl

lemma look : (s.look .header).Startable := by
  have hscanner : (s.look .header).scanner =
      { s.scanner with peeked := some (s.scanner.ahead .header) } := by
    simp only [ParserState.look, Scanner.looking, Scanner.settle_of_insensitive s.scanner
      Mode.isIndentSensitive_header]
  refine ⟨h.good.look .header, ?_, ?_, by rw [kindAt_look]; exact h.notEof⟩
  · rw [hscanner]
    exact h.planDone
  · rw [hscanner]
    exact h.noBreak

lemma renewed : s.renew.Startable := by
  refine ⟨h.good_renew, by simp [Scanner.PlanDone, renew, Scanner.renewed, Scanner.atLine], ?_,
    by rw [h.kindAt_renew]; exact h.notEof⟩
  rw [Scanner.body_of_lineStart _ _ rfl]
  exact lineBreak?_contentOf _

lemma setForest (f : Forest) (r : Record) : Startable { s with forest := f, record := r } :=
  ⟨⟨h.good.scanner, h.good.silent⟩, h.planDone, h.noBreak, h.notEof⟩

lemma report (range : Range) (e : GrammarError) (m : String) : (s.report range e m).Startable := by
  refine ⟨h.good.report range e m, ?_, ?_, ?_⟩
  · rw [scanner_report]
    exact h.planDone
  · rw [scanner_report]
    exact h.noBreak
  · rw [kindAt, scanner_report]
    exact h.notEof

end Startable

lemma renew_look (s : ParserState) : (s.look .header).renew = s.renew := by
  simp only [ParserState.look, renew, Scanner.renewed, Scanner.looking,
    Scanner.settle_of_insensitive s.scanner Mode.isIndentSensitive_header]

lemma renew_report (s : ParserState) (range : Range) (e : GrammarError) (m : String) :
    (s.report range e m).renew = s.renew.report range e m := by
  have hc : s.renew.cancelled = s.cancelled := rfl
  rw [ParserState.report, ParserState.report, hc]
  split <;> rfl

lemma renew_renew (s : ParserState) : s.renew.renew = s.renew := rfl

end ParserState

namespace Parser

open ParserState

variable {α β σ : Type}

/-- At a token of kind `k`, a rule does not ask what is known of the line. -/
def AnewAt (k : Kind) (p : Parser α) : Prop :=
  ∀ ⦃s⦄, s.Startable → s.kindAt .header = k → p.run s = p.run s.renew

namespace AnewAt

variable {k : Kind}

lemma advance : AnewAt k (advance .header) := by
  intro s h _
  have hrun : ∀ u : ParserState, u.Startable →
      (Parser.advance .header).run u = ((), u.take .header) := by
    intro u hu
    refine Prod.ext rfl ?_
    change (Parser.advance .header).after u = _
    rw [hu.good.after_advance, if_neg hu.notEof]
  rw [hrun s h, hrun _ h.renewed, h.take_renew]

lemma bind {p : Parser α} (hp : AnewAt k p) (f : α → Parser β) : AnewAt k (p >>= f) := by
  intro s h hk
  rw [StateT.run_bind, StateT.run_bind, hp h hk]

/-- Looking at the token changes nothing that a renewal would not take back. -/
lemma of_look {p : Parser α} {f : α → Parser β} {a : ParserState → α}
    (hp : ∀ s : ParserState, s.Good → s.kindAt .header = k → p.run s = (a s, s.look .header))
    (ha : ∀ s : ParserState, s.Startable → a s.renew = a s)
    (hf : ∀ s : ParserState, s.kindAt .header = k → AnewAt k (f (a s))) : AnewAt k (p >>= f) := by
  intro s h hk
  have hk' : s.renew.kindAt .header = k := h.kindAt_renew.trans hk
  rw [StateT.run_bind, StateT.run_bind, hp s h.good hk, hp _ h.good_renew hk', ha s h]
  change (f (a s)).run (s.look .header) = (f (a s)).run (s.renew.look .header)
  rw [hf s hk h.look ((kindAt_look s _).trans hk), renew_look,
    hf s hk h.renewed.look ((kindAt_look s.renew _).trans hk'), renew_look, renew_renew]

lemma peekKind {f : Kind → Parser β} (hf : AnewAt k (f k)) : AnewAt k (peekKind .header >>= f) := by
  refine of_look (a := (·.kindAt .header)) (fun s hg _ => ?_) (fun s h => h.kindAt_renew)
    (fun s hk => hk ▸ hf)
  exact Prod.ext (hg.answer_peekKind .header) (hg.after_peekKind .header)

lemma isAt {kind : Kind} {f : Bool → Parser β} (hf : AnewAt k (f (decide (k = kind)))) :
    AnewAt k (isAt .header kind >>= f) := by
  refine of_look (a := fun s => decide (s.kindAt .header = kind)) (fun s hg _ => ?_)
    (fun s h => by rw [h.kindAt_renew]) (fun s hk => hk ▸ hf)
  exact Prod.ext (hg.answer_isAt .header kind) (hg.after_isAt .header kind)

lemma peekRange {f : Range → Parser β} (hf : ∀ r, AnewAt k (f r)) :
    AnewAt k (peekRange .header >>= f) := by
  refine of_look (a := (·.rangeAt .header)) (fun s hg _ => ?_) (fun s h => h.rangeAt_renew)
    (fun s _ => hf _)
  exact Prod.ext (hg.answer_peekRange .header) (hg.after_peekRange .header)

lemma reportAt {f : Unit → Parser β} (hf : AnewAt k (f ())) (r : Range)
    (problem : Option (GrammarError × String)) : AnewAt k (reportAt r problem >>= f) := by
  rcases problem with _ | ⟨e, m⟩
  · exact hf
  · intro s h hk
    have hkind : (s.report r e m).kindAt .header = k := by
      rw [kindAt, scanner_report]
      exact hk
    change (f ()).run (s.report r e m) = (f ()).run (s.renew.report r e m)
    rw [hf (h.report r e m) hkind, renew_report]

lemma node {p : Parser α} (hp : AnewAt k p) (kind : Kind) : AnewAt k (node kind p) := by
  intro s h hk
  have heq : p.run s.start = p.run s.renew.start := hp (h.setForest _ _) hk
  have hnode : ∀ u : ParserState, (Parser.node kind p).run u =
      ((p.run u.start).1, (p.run u.start).2.complete kind) := fun _ => rfl
  rw [hnode, hnode, heq]

lemma nodeOf {p : Parser Kind} (hp : AnewAt k p) : AnewAt k (nodeOf p) := by
  intro s h hk
  have heq : p.run s.start = p.run s.renew.start := hp (h.setForest _ _) hk
  have hnode : ∀ u : ParserState, (Parser.nodeOf p).run u =
      ((p.run u.start).1, (p.run u.start).2.complete (p.run u.start).1) := fun _ => rfl
  rw [hnode, hnode, heq]

lemma loop {step : σ → Parser (ForInStep σ)} {a : σ} (h : AnewAt k (step a)) :
    AnewAt k (loop step a) := by
  intro s hs hk
  have hbudget : s.renew.scanner.budget = s.scanner.budget := rfl
  rw [run_loop, run_loop, hbudget, loopUpTo, StateT.run_bind, StateT.run_bind, h hs hk]

end AnewAt

/-! ### Nodes -/

/-- Headers that a node starts with are read anew. -/
lemma anewAt_headers {k : Kind} (hk : k = .titleKw ∨ k = .whenKw ∨ k = .ident) :
    AnewAt k headers := by
  have hfirst {f : Unit → Parser Unit} (kind : Kind) :
      AnewAt k (node kind (advance .header >>= f)) := (AnewAt.advance.bind f).node kind
  unfold headers
  refine .loop (.peekKind ?_)
  rcases hk with rfl | rfl | rfl
  · exact AnewAt.bind (hfirst _) _
  · exact AnewAt.bind (hfirst _) _
  · exact AnewAt.bind (hfirst _) _

/-- At a body, there are no headers. -/
lemma run_headers_of_body {s : ParserState} (hg : s.Good) (hk : s.kindAt .header = .bodyStart) :
    headers.run s = (0, s.look .header) := by
  have hanswer : (headerStep 0).answer s = .done 0 := by
    rw [headerStep, answer_bind, hg.answer_peekKind, hk]
    rfl
  have hafter : (headerStep 0).after s = s.look .header := by
    rw [headerStep, after_bind, hg.answer_peekKind, hg.after_peekKind, hk]
    rfl
  rw [headers, run_loop_done hanswer, hafter]

lemma anewAt_body : AnewAt .bodyStart body := by
  have hhead : AnewAt .bodyStart bodyHead := AnewAt.advance.bind _
  exact (hhead.bind _).node _

lemma anewAt_nodeTail : AnewAt .bodyStart nodeTail := by
  refine .isAt ?_
  exact anewAt_body.bind _

/-- **A node is read anew** from whatever token it starts with. -/
lemma anewAt_dialogueNode {k : Kind} (hk : nodeFirst.contains k = true) :
    AnewAt k dialogueNode := by
  rw [dialogueNode]
  refine AnewAt.bind (AnewAt.nodeOf ?_) _
  rcases nodeFirst_cases hk with h | h | h | rfl
  · exact (AnewAt.peekRange fun r => (anewAt_headers (.inl h)).bind _).bind _
  · exact (AnewAt.peekRange fun r => (anewAt_headers (.inr (.inl h))).bind _).bind _
  · exact (AnewAt.peekRange fun r => (anewAt_headers (.inr (.inr h))).bind _).bind _
  · have hparts : nodeHeaders >>= (fun _ => nodeTail) = peekRange .header >>= fun first =>
        headers >>= fun titles => reportAt first (titleProblem titles) >>= fun _ => nodeTail := by
      simp only [nodeHeaders, bind_assoc, pure_bind]
    rw [hparts]
    refine .peekRange fun r => .of_look (a := fun _ => 0)
      (fun s hg hs => run_headers_of_body hg hs) (fun _ _ => rfl) fun s _ => ?_
    exact anewAt_nodeTail.reportAt r _

end Parser

namespace ParserState

open DialogueScript.Parser

variable {s : ParserState} (hs : s.Ready) (hk : nodeFirst.contains (s.kindAt .header) = true)
include hs hk

lemma Ready.renew : s.renew.Ready := by
  have hstart := startable_of_kind hs.good hk
  refine ⟨hstart.good_renew, ⟨hs.quiet.never, hs.quiet.running⟩, ?_⟩
  rw [AtHeader, hstart.kindAt_renew]
  exact hs.atHeader

/-- **The node that starts here** is the one that is read where nothing is known of the line. -/
lemma Ready.next_renew : s.renew.next = s.next := by
  have hstart := startable_of_kind hs.good hk
  have hne : s.kindAt .header ≠ .hash := by
    intro h
    rw [h] at hk
    exact absurd hk (by decide)
  have hchild : child (s.kindAt .header) = dialogueNode := by rw [child, if_neg hne, if_pos hk]
  have hanew := anewAt_dialogueNode hk
  have hrun : ∀ u : ParserState, u.mark.Startable → u.kindAt .header = s.kindAt .header →
      dialogueNode.after (u.mark.look .header) = dialogueNode.after u.mark.renew := by
    intro u hu hku
    have := hanew hu.look ((kindAt_look u.mark _).trans hku)
    rw [renew_look] at this
    exact congrArg Prod.snd this
  have hmark : ∀ u : ParserState, u.Startable → u.mark.Startable := fun u hu =>
    ⟨hu.good.mark, hu.planDone, hu.noBreak, hu.notEof⟩
  rw [ParserState.next, ParserState.next, hstart.kindAt_renew, hchild, hrun s (hmark s hstart) rfl,
    hrun s.renew (hmark _ hstart.renewed) hstart.kindAt_renew]
  rfl

end ParserState

end DialogueScript

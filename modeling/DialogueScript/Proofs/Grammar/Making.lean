import DialogueScript.Proofs.Grammar.Adds
import DialogueScript.Proofs.Tree.Complete

/-!
What rules make of the text. As long as nothing is reported, a rule adds complete trees. A part that
is missing where an error token stands is not reported at once; then a report is owed until that
token is taken, and what a rule makes is told only for runs at whose end none is.
-/

set_option synthInstance.maxSize 4096

namespace DialogueScript

namespace ParserState

variable {s u v : ParserState}

/-- Something was reported. -/
def Reported (s : ParserState) : Prop := s.diagnostics ≠ []

/-- These trees came to those of the innermost open node, and all of them are complete. -/
structure Added (s u : ParserState) (ts : List Tree) : Prop where
  inner : u.forest.inner = ts.reverse ++ s.forest.inner
  complete : ∀ t ∈ ts, t.Complete

namespace Added

lemma refl (s : ParserState) : Added s s [] := ⟨rfl, by simp⟩

lemma trans {ts us : List Tree} (h : Added s u ts) (h' : Added u v us) : Added s v (ts ++ us) where
  inner := by rw [h'.inner, h.inner, List.reverse_append, List.append_assoc]
  complete t ht := (List.mem_append.1 ht).elim (h.complete t) (h'.complete t)

end Added

end ParserState

namespace Parser

open ParserState

variable {α β σ : Type} {D E : ParserState → Prop} {s : ParserState}

/-! ### Reports that are due -/

/-- That something was reported, or that a report is owed. -/
class ReportDue (D : ParserState → Prop) : Prop where
  of_reported : ∀ ⦃s⦄, s.Reported → D s
  setForest : ∀ ⦃s⦄ (f : Forest) (r : Record), D { s with forest := f, record := r } ↔ D s

instance : ReportDue Reported := ⟨fun _ h => h, fun _ _ _ => Iff.rfl⟩

instance (mode : Mode) : ReportDue (Owes mode) := ⟨fun _ h => .inl h, fun _ _ _ => Iff.rfl⟩

/-- A rule at whose end a report is due by `E` if one is due by `D` where it starts. -/
class Carries (D E : ParserState → Prop) (p : Parser α) : Prop where
  carries : ∀ ⦃s⦄, s.Good → s.Quiet → D s → E (p.after s)

/-- Modes in which no indentation is compared, so that looking changes nothing. -/
class IndentFree (mode : Mode) : Prop where
  eq : mode.isIndentSensitive = false

instance : IndentFree .header := ⟨rfl⟩
instance : IndentFree .headerValue := ⟨rfl⟩
instance : IndentFree .whenHeader := ⟨rfl⟩
instance : IndentFree .text := ⟨rfl⟩
instance : IndentFree .hashtag := ⟨rfl⟩
instance : IndentFree .command := ⟨rfl⟩
instance : IndentFree .commandText := ⟨rfl⟩
instance : IndentFree .expr := ⟨rfl⟩
instance : IndentFree .name := ⟨rfl⟩

namespace Carries

/-- What was reported stays reported. -/
instance (priority := 2000) [hD : ReportDue D] (p : Parser α) [Readable p] : Carries Reported D p :=
  ⟨fun _ hg _ h => hD.of_reported ((Readable.follows p hg).reported h)⟩

instance (mode : Mode) [hD : ReportDue D] (p : Parser α) [hp : ReportsOwed mode p] :
    Carries (Owes mode) D p :=
  ⟨fun _ hg hq h => hD.of_reported (hp.reported hg hq h)⟩

instance (a : α) : Carries D D (pure a : Parser α) := ⟨fun _ _ _ h => h⟩

instance (p : Parser α) (f : α → Parser β) [Readable p] [hp : Carries D D p]
    [hf : ∀ a, Carries D E (f a)] : Carries D E (p >>= f) where
  carries _ hg hq h :=
    have hr := Readable.follows p hg
    (hf _).carries hr.good (hr.quiet hq) (hp.carries hg hq h)

instance (p : Parser α) (b : β) [hp : Carries D E p] : Carries D E (p >>= fun _ => pure b) :=
  ⟨fun _ hg hq h => hp.carries hg hq h⟩

lemma seq {p : Parser α} {f : α → Parser β} (hr : Readable p) (hp : Carries D D p)
    (hf : ∀ a, Carries D E (f a)) : Carries D E (p >>= f) :=
  inferInstance

instance {c : Prop} [Decidable c] (p q : Parser α) [hp : Carries D E p] [hq : Carries D E q] :
    Carries D E (if c then p else q) := by
  split
  · exact hp
  · exact hq

section
variable (mode mode' : Mode) [hm : IndentFree mode']

instance : Carries (Owes mode) (Owes mode) (peekKind mode') where
  carries s hg _ h := by
    rw [hg.after_peekKind]
    exact h.look (.inr hm.eq)

instance : Carries (Owes mode) (Owes mode) (peekCommand mode') where
  carries s hg _ h := by
    rw [hg.after_peekCommand]
    exact h.look (.inr hm.eq)

instance : Carries (Owes mode) (Owes mode) (peekRange mode') where
  carries s hg _ h := by
    rw [hg.after_peekRange]
    exact h.look (.inr hm.eq)

instance (kind : Kind) : Carries (Owes mode) (Owes mode) (isAt mode' kind) := by
  unfold isAt
  infer_instance

instance (kinds : KindSet) : Carries (Owes mode) (Owes mode) (isAtAny mode' kinds) := by
  unfold isAtAny
  infer_instance

instance : Carries (Owes mode) (Owes mode) (isAtLineEnd mode') := by
  unfold isAtLineEnd
  infer_instance

instance (e : GrammarError) (m : String) : Carries (Owes mode) (Owes mode) (errorOf mode' e m) where
  carries s hg _ h := by
    rw [hg.after_errorOf]
    have hlook := h.look (.inr hm.eq)
    split
    · exact hlook
    · unfold ParserState.report
      split
      · exact hlook
      · exact .inl (by simp)

instance (m : String) : Carries (Owes mode) (Owes mode) (error mode' m) := by
  unfold error
  infer_instance

variable [Carries (Owes mode) (Owes mode) (advance mode')]

instance (kind : Kind) : Carries (Owes mode) (Owes mode) (eat mode' kind) := by
  unfold eat
  infer_instance

instance (kind : Kind) (m : String) : Carries (Owes mode) (Owes mode) (expect mode' kind m) := by
  unfold expect
  infer_instance

end

instance (range : Range) (problem : Option (GrammarError × String)) [hD : ReportDue D] :
    Carries D D (reportAt range problem) where
  carries s _ _ h := by
    rcases problem with _ | ⟨e, m⟩
    · exact h
    · rw [reportAt, after_errorAt, ParserState.report]
      split
      · exact h
      · exact hD.of_reported (by simp [Reported])

instance (k : Kind) (p : Parser α) [hD : ReportDue D] [hE : ReportDue E] [hp : Carries D E p] :
    Carries D E (node k p) where
  carries _ hg hq h :=
    (hE.setForest _ _).2 (hp.carries (good_start hg) (quiet_start hq) ((hD.setForest _ _).2 h))

instance (p : Parser Kind) [hD : ReportDue D] [hE : ReportDue E] [hp : Carries D E p] :
    Carries D E (nodeOf p) where
  carries _ hg hq h :=
    (hE.setForest _ _).2 (hp.carries (good_start hg) (quiet_start hq) ((hD.setForest _ _).2 h))

instance (k : Kind) (p : Parser Unit) [hD : ReportDue D] [hE : ReportDue E] [hp : Carries D E p] :
    Carries D E (nodeAround k p) where
  carries _ hg hq h :=
    (hE.setForest _ _).2
      (hp.carries (good_precede hg) ⟨hq.never, hq.running⟩ ((hD.setForest _ _).2 h))

instance (step : σ → Parser (ForInStep σ)) (a : σ) [hr : ∀ a, Readable (step a)]
    [h : ∀ a, Carries D D (step a)] : Carries D D (loop step a) where
  carries _ hg hq hs :=
    (loop_keeps (fun a => (hr a).reads) (I := fun _ u => u.Quiet ∧ D u)
      (fun a _ hg' ⟨hq', hu⟩ =>
        ⟨(Readable.follows (step a) hg').quiet hq', (h a).carries hg' hq' hu⟩)
      hg ⟨hq, hs⟩).2

instance (condition : Parser Bool) (rule : Parser Unit) [Readable condition] [Readable rule]
    [Carries D D condition] [Carries D D rule] : Carries D D (repeatWhile condition rule) := by
  unfold repeatWhile whileStep
  infer_instance

end Carries

/-! ### What a rule makes -/

/-- A single token of the given kind. -/
def TokenOf (k : Kind) (ts : List Tree) : Prop :=
  ∃ token : Token, token.kind = k ∧ ts = [.leaf token]

/-- A single node of the given kind. -/
def NodeOf (k : Kind) (ts : List Tree) : Prop := ∃ cs, ts = [.node k cs]

/-- Unless a report is due by `D` at its end, a rule that starts in `s` adds complete trees; its
answer, the trees and the state it leads to are as `R` says. -/
def Makes (D : ParserState → Prop) (s : ParserState) (p : Parser α)
    (R : α → List Tree → ParserState → Prop) : Prop :=
  s.Good → s.Quiet → ¬ D (p.after s) → ∃ ts, Added s (p.after s) ts ∧ R (p.answer s) ts (p.after s)

namespace Makes

variable {p : Parser α} {f : α → Parser β} {R R' : α → List Tree → ParserState → Prop}

lemma mono (h : Makes D s p R) (hR : ∀ a ts u, R a ts u → R' a ts u) : Makes D s p R' := by
  intro hg hq hD
  obtain ⟨ts, h1, h2⟩ := h hg hq hD
  exact ⟨ts, h1, hR _ _ _ h2⟩

/-- What a rule makes unless something is reported, it makes unless a report is due. -/
lemma owing [hD : ReportDue D] (h : Makes Reported s p R) : Makes D s p R :=
  fun hg hq hnot => h hg hq fun hr => hnot (hD.of_reported hr)

lemma of_reportDue (h : ∀ u, E u → D u) (hp : Makes E s p R) : Makes D s p R :=
  fun hg hq hnot => hp hg hq fun hd => hnot (h _ hd)

/-- Nothing is said of a run that reports an error. -/
lemma of_reported [hD : ReportDue D] (h : s.Good → s.Quiet → (p.after s).Reported) :
    Makes D s p R :=
  fun hg hq hnot => absurd (hD.of_reported (h hg hq)) hnot

lemma of_alwaysReports [ReportDue D] [hp : AlwaysReports p] : Makes D s p R :=
  .of_reported fun hg hq => hp.reported hg hq

lemma of_good (h : s.Good → Makes D s p R) : Makes D s p R := fun hg => h hg hg

/-- What matters is the run that starts here. -/
lemma of_run {q : Parser α} (h : p.run s = q.run s) (hq : Makes D s q R) : Makes D s p R := by
  unfold Makes Parser.answer Parser.after at *
  rwa [h]

/-- What a rule answers is known. -/
lemma answering (h : Makes D s p R) : Makes D s p fun a ts u => a = p.answer s ∧ R a ts u := by
  intro hg hq hD
  obtain ⟨ts, h1, h2⟩ := h hg hq hD
  exact ⟨ts, h1, rfl, h2⟩

lemma pure {a : α} (h : R a [] s) : Makes D s (Pure.pure a) R := fun _ _ _ => ⟨[], .refl s, h⟩

lemma seq {Q : α → List Tree → ParserState → Prop} {R : β → List Tree → ParserState → Prop}
    (hp : Makes E s p Q) (hr : Readable p) (hc : ∀ a, Carries E D (f a))
    (hf : ∀ a ts u, Q a ts u → Makes D u (f a) fun b us v => R b (ts ++ us) v) :
    Makes D s (p >>= f) R := by
  intro hg hq hD
  have hr := Readable.follows p hg
  obtain ⟨ts, h1, h2⟩ := hp hg hq fun h => hD ((hc _).carries hr.good (hr.quiet hq) h)
  obtain ⟨us, h3, h4⟩ := hf _ _ _ h2 hr.good (hr.quiet hq) hD
  exact ⟨ts ++ us, h1.trans h3, h4⟩

lemma bind {Q : α → List Tree → ParserState → Prop} {R : β → List Tree → ParserState → Prop}
    (hp : Makes E s p Q) [Readable p] [∀ a, Carries E D (f a)]
    (hf : ∀ a ts u, Q a ts u → Makes D u (f a) fun b us v => R b (ts ++ us) v) :
    Makes D s (p >>= f) R :=
  .seq hp inferInstance inferInstance hf

lemma map {g : α → β} {Q : α → List Tree → ParserState → Prop}
    {R : β → List Tree → ParserState → Prop} (h : Makes D s p Q)
    (hR : ∀ a ts u, Q a ts u → R (g a) ts u) :
    Makes D s (p >>= fun a => Pure.pure (g a)) R := by
  intro hg hq hD
  obtain ⟨ts, h1, h2⟩ := h hg hq hD
  exact ⟨ts, h1, hR _ _ _ h2⟩

/-! ### Looking -/

section
variable {mode : Mode} {R : β → List Tree → ParserState → Prop}

/-- Looking adds nothing. -/
lemma of_look {p q : Parser β} (hp : s.Good → p.run s = q.run (s.look mode))
    (h : Makes D (s.look mode) q R) : Makes D s p R := by
  intro hg hq hD
  have hanswer : p.answer s = q.answer (s.look mode) := congrArg Prod.fst (hp hg)
  have hafter : p.after s = q.after (s.look mode) := congrArg Prod.snd (hp hg)
  rw [hafter] at hD
  obtain ⟨ts, h1, h2⟩ := h (hg.look mode) ⟨hq.never, hq.running⟩ hD
  rw [hanswer, hafter]
  exact ⟨ts, ⟨h1.inner, h1.complete⟩, h2⟩

lemma peekKind {f : Kind → Parser β} (h : Makes D (s.look mode) (f (s.kindAt mode)) R) :
    Makes D s (Parser.peekKind mode >>= f) R := by
  refine of_look (fun hg => ?_) h
  change (f ((Parser.peekKind mode).answer s)).run ((Parser.peekKind mode).after s) = _
  rw [hg.answer_peekKind, hg.after_peekKind]

lemma isAt {kind : Kind} {f : Bool → Parser β}
    (h : Makes D (s.look mode) (f (decide (s.kindAt mode = kind))) R) :
    Makes D s (Parser.isAt mode kind >>= f) R :=
  peekKind (f := fun k => f (decide (k = kind))) h

lemma peekCommand {f : Option Kind → Parser β}
    (h : Makes D (s.look mode) (f (s.commandAt mode)) R) :
    Makes D s (Parser.peekCommand mode >>= f) R := by
  refine of_look (fun hg => ?_) h
  change (f ((Parser.peekCommand mode).answer s)).run ((Parser.peekCommand mode).after s) = _
  rw [hg.answer_peekCommand, hg.after_peekCommand]

lemma peekRange {f : Range → Parser β} (h : Makes D (s.look mode) (f (s.rangeAt mode)) R) :
    Makes D s (Parser.peekRange mode >>= f) R := by
  refine of_look (fun hg => ?_) h
  change (f ((Parser.peekRange mode).answer s)).run ((Parser.peekRange mode).after s) = _
  rw [hg.answer_peekRange, hg.after_peekRange]

lemma poll {f : Bool → Parser β} (h : Makes D s (f false) R) : Makes D s (Parser.poll >>= f) R := by
  intro hg hq
  rw [answer_bind, after_bind, (Quiet.poll hq).1, (Quiet.poll hq).2]
  exact h hg hq

end

/-! ### Tokens -/

section
variable (mode : Mode)

/-- A token stands next, and is taken. -/
lemma advance (hk : s.kindAt mode ≠ .eof) : Makes D s (Parser.advance mode) fun _ ts u =>
    TokenOf (s.kindAt mode) ts ∧ u = s.take mode := by
  intro hg _ _
  rw [hg.after_advance, if_neg hk]
  exact ⟨[.leaf (s.scanner.ahead mode).token], ⟨rfl, by simpa using Tree.complete_leaf _⟩,
    ⟨_, rfl, rfl⟩, rfl⟩

/-- The token is there, and the rule goes on behind it, or the rule goes on where it is. -/
lemma eat {kind : Kind} (hne : kind ≠ .eof) {f : Bool → Parser β}
    {R : β → List Tree → ParserState → Prop}
    (htrue : s.kindAt mode = kind → ∀ token : Token, token.kind = kind →
      Makes D (s.take mode) (f true) fun b us v => R b (.leaf token :: us) v)
    (hfalse : s.kindAt mode ≠ kind → Makes D (s.look mode) (f false) R) :
    Makes D s (Parser.eat mode kind >>= f) R := by
  intro hg hq hD
  rw [answer_bind, after_bind, hg.answer_eat, hg.after_eat mode hne] at *
  by_cases hk : s.kindAt mode = kind
  · rw [if_pos hk, decide_eq_true hk] at *
    obtain ⟨us, h1, h2⟩ :=
      htrue hk (s.scanner.ahead mode).token hk (hg.take mode) ⟨hq.never, hq.running⟩ hD
    refine ⟨_, ⟨?_, ?_⟩, h2⟩
    · rw [h1.inner, List.reverse_cons, List.append_assoc]
      rfl
    · exact List.forall_mem_cons.2 ⟨Tree.complete_leaf _, h1.complete⟩
  · rw [if_neg hk, decide_eq_false hk] at *
    obtain ⟨us, h1, h2⟩ := hfalse hk (hg.look mode) ⟨hq.never, hq.running⟩ hD
    exact ⟨us, ⟨h1.inner, h1.complete⟩, h2⟩

/-- Where an error was found, it has been reported or is owed. -/
lemma of_error {m : String} {f : Unit → Parser β} {R : β → List Tree → ParserState → Prop}
    [hc : Carries (Owes mode) D (f ())] : Makes D s (error mode m >>= f) R := by
  intro hg hq hnot
  have h := Rule.follows (error mode m) hg
  exact absurd (hc.carries h.good (h.quiet hq) (owes_errorOf mode hg hq _ m)) hnot

/-- Reporting adds nothing and takes nothing. -/
lemma errorOf (e : GrammarError) (m : String) : Makes D s (Parser.errorOf mode e m) fun _ ts u =>
    ts = [] ∧ u.kindAt mode = s.kindAt mode := by
  intro hg _ _
  refine ⟨[], ⟨by rw [(Good.errorOf_keeps hg mode e m).2]; rfl, by simp⟩, rfl, ?_⟩
  exact (Good.kindAt_errorOf hg mode e m).1

/-- What is unexpected is reported, unless it is an error itself. -/
lemma of_unexpected [ReportDue D] {mode : Mode} (hk : s.kindAt mode ≠ .errorToken)
    {e : GrammarError} {m : String} {f : Unit → Parser β} [Readable (f ())]
    {R : β → List Tree → ParserState → Prop} :
    Makes D s (Parser.errorOf mode e m >>= f) R := by
  refine .of_reported fun hg hq => ?_
  have hcancelled : (s.look mode).cancelled = false := hq.running
  have hreported : ((Parser.errorOf mode e m).after s).Reported := by
    rw [hg.after_errorOf, if_neg hk]
    simp [Reported, ParserState.report, hcancelled]
  exact (Readable.follows (f ()) (Rule.good (Parser.errorOf mode e m) hg)).reported hreported

/-- What is wrong is reported. -/
lemma of_problem [ReportDue D] {range : Range} {problem : Option (GrammarError × String)}
    (h : problem ≠ none) {b : β} {R : β → List Tree → ParserState → Prop} :
    Makes D s (reportAt range problem >>= fun _ => Pure.pure b) R := by
  obtain ⟨⟨e, m⟩, rfl⟩ := Option.ne_none_iff_exists'.1 h
  refine .of_reported fun _ hq => ?_
  rw [after_bind, after_pure, reportAt, after_errorAt]
  simp [Reported, ParserState.report, hq.running]

/-- A token that is expected is there, unless an error is owed. -/
lemma expect {kind : Kind} (hne : kind ≠ .eof) (m : String) :
    Makes (Owes mode) s (Parser.expect mode kind m) fun b ts _ => b = true ∧ TokenOf kind ts := by
  unfold Parser.expect
  refine eat mode hne (fun _ token hk => .pure ⟨rfl, token, hk, rfl⟩) fun _ => ?_
  exact of_error mode

end

/-! ### Nodes -/

section
variable {k : Kind} {Q : α → List Tree → ParserState → Prop}

lemma added_complete {cs : List Tree} (hr : Reading p) (hg : s.Good)
    (h : Added s.start (p.after s.start) cs) (hk : Tree.hasParts k cs = true) :
    Added s ((p.after s.start).complete k) [.node k cs] := by
  have htrees : (p.after s.start).forest.trees = cs := by
    rw [Forest.trees, h.inner, show s.start.forest.inner = [] from rfl, List.append_nil,
      List.reverse_reverse]
  refine ⟨?_, List.forall_mem_singleton.2 (Tree.complete_node hk h.complete)⟩
  rw [hr.inner_complete hg, htrees]
  rfl

/-- A node whose parts are among what a rule makes. -/
lemma node [hD : ReportDue D] [hr : Readable p] (h : Makes D s.start p Q)
    (hk : ∀ a cs u, (∀ c ∈ cs, c.Complete) → Q a cs u → Tree.hasParts k cs = true) :
    Makes D s (Parser.node k p) fun a ts v => ∃ cs u, ts = [.node k cs] ∧ v = u.complete k ∧
      Q a cs u := by
  intro hg hq hnot
  obtain ⟨cs, h1, h2⟩ := h (good_start hg) (quiet_start hq) fun hd => hnot ((hD.setForest _ _).2 hd)
  exact ⟨_, added_complete hr.reads hg h1 (hk _ _ _ h1.complete h2), _, _, rfl, rfl, h2⟩

lemma asNode [ReportDue D] [Readable p] (h : Makes D s.start p Q)
    (hk : ∀ a cs u, (∀ c ∈ cs, c.Complete) → Q a cs u → Tree.hasParts k cs = true) :
    Makes D s (Parser.node k p) fun _ ts _ => NodeOf k ts :=
  (node h hk).mono fun _ _ _ ⟨cs, _, hts, _⟩ => ⟨cs, hts⟩

lemma nodeOf {p : Parser Kind} {Q : Kind → List Tree → ParserState → Prop} [hD : ReportDue D]
    [hr : Readable p] (h : Makes D s.start p Q)
    (hk : ∀ k cs u, (∀ c ∈ cs, c.Complete) → Q k cs u → Tree.hasParts k cs = true) :
    Makes D s (Parser.nodeOf p) fun k ts v => ∃ cs u, ts = [.node k cs] ∧ v = u.complete k ∧
      Q k cs u := by
  intro hg hq hnot
  obtain ⟨cs, h1, h2⟩ := h (good_start hg) (quiet_start hq) fun hd => hnot ((hD.setForest _ _).2 hd)
  exact ⟨_, added_complete hr.reads hg h1 (hk _ _ _ h1.complete h2), _, _, rfl, rfl, h2⟩

/-- A node that is made only if the rule finds something. -/
lemma nodeIf {p : Parser Bool} {Q : Bool → List Tree → ParserState → Prop} [hD : ReportDue D]
    [hr : Readable p] (h : Makes D s.start p Q)
    (hk : ∀ cs u, (∀ c ∈ cs, c.Complete) → Q true cs u → Tree.hasParts k cs = true) :
    Makes D s (Parser.nodeIf k p) fun found ts u =>
      (found = true ∧ ∃ cs, ts = [.node k cs]) ∨
        (found = false ∧ ∃ v, Q false ts v ∧ u = v.abandon) := by
  intro hg hq hnot
  have hanswer : (Parser.nodeIf k p).answer s = p.answer s.start := by
    rw [Parser.answer, run_nodeIf]
  have hafter : (Parser.nodeIf k p).after s = if p.answer s.start = true then
      (p.after s.start).complete k else (p.after s.start).abandon := by
        rw [Parser.after, run_nodeIf]
  rw [hafter] at hnot
  have hnot' : ¬ D (p.after s.start) := by
    split at hnot <;> exact fun hd => hnot ((hD.setForest _ _).2 hd)
  obtain ⟨cs, h1, h2⟩ := h (good_start hg) (quiet_start hq) hnot'
  rw [hanswer, hafter]
  cases hf : p.answer s.start
  · rw [hf] at h2
    have hinner : (p.after s.start).abandon.forest.inner =
        (p.after s.start).forest.inner ++ s.forest.inner := by
      simp [ParserState.abandon, Forest.abandon, hr.reads.outer_start hg]
    refine ⟨cs, ⟨?_, h1.complete⟩, .inr ⟨rfl, _, h2, rfl⟩⟩
    rw [if_neg (by simp), hinner, h1.inner, show s.start.forest.inner = [] from rfl,
      List.append_nil]
  · rw [hf] at h2
    rw [if_pos rfl]
    exact ⟨_, added_complete hr.reads hg h1 (hk _ _ h1.complete h2), .inl ⟨rfl, _, rfl⟩⟩

/-- What every step of a loop keeps holds of what the loop makes; a step can also change the trees
that were made before. -/
lemma loop_from {u : ParserState} {step : σ → Parser (ForInStep σ)} {a : σ} {ts : List Tree}
    {I : σ → List Tree → ParserState → Prop} [hr : ∀ a, Readable (step a)]
    [hc : ∀ a, Carries D D (step a)]
    (h : ∀ a ts v, v.Good → v.Quiet → Added s v ts → I a ts v → ¬ D ((step a).after v) →
      ∃ us, Added s ((step a).after v) us ∧ I ((step a).answer v).value us ((step a).after v))
    (hg : u.Good) (hq : u.Quiet) (hu : Added s u ts) (ha : I a ts u)
    (hnot : ¬ D ((Parser.loop step a).after u)) :
    ∃ us, Added s ((Parser.loop step a).after u) us ∧
      I ((Parser.loop step a).answer u) us ((Parser.loop step a).after u) := by
  refine (loop_keeps (fun a => (hr a).reads)
    (I := fun a v => v.Quiet ∧ (¬ D v → ∃ ts, Added s v ts ∧ I a ts v)) (fun a v hv hI => ?_) hg
    ⟨hq, fun _ => ⟨ts, hu, ha⟩⟩).2 hnot
  obtain ⟨hqv, hmade⟩ := hI
  refine ⟨(Readable.follows (step a) hv).quiet hqv, fun hD => ?_⟩
  obtain ⟨ts, h1, h2⟩ := hmade fun hd => hD ((hc a).carries hv hqv hd)
  exact h a ts v hv hqv h1 h2 hD

lemma loop {step : σ → Parser (ForInStep σ)} {a : σ} {I : σ → List Tree → ParserState → Prop}
    [hr : ∀ a, Readable (step a)] [hc : ∀ a, Carries D D (step a)] (ha : I a [] s)
    (h : ∀ a ts u, I a ts u → Makes D u (step a) fun r us v => I r.value (ts ++ us) v) :
    Makes D s (Parser.loop step a) I := by
  intro hg hq hnot
  refine loop_from (fun a ts v hv hqv h1 h2 hD => ?_) hg hq (.refl s) ha hnot
  obtain ⟨us, h3, h4⟩ := h a ts v h2 hv hqv hD
  exact ⟨ts ++ us, h1.trans h3, h4⟩

end

/-- What follows can also change the trees that were made. -/
lemma into {R : β → List Tree → ParserState → Prop} {Q : α → List Tree → ParserState → Prop}
    (hp : Makes E s p Q) (hr : Readable p) (hc : ∀ a, Carries E D (f a))
    (hf : ∀ a ts u, u.Good → u.Quiet → Added s u ts → Q a ts u → ¬ D ((f a).after u) →
      ∃ us, Added s ((f a).after u) us ∧ R ((f a).answer u) us ((f a).after u)) :
    Makes D s (p >>= f) R := by
  intro hg hq hD
  have hr := Readable.follows p hg
  obtain ⟨ts, h1, h2⟩ := hp hg hq fun h => hD ((hc _).carries hr.good (hr.quiet hq) h)
  exact hf _ ts _ hr.good (hr.quiet hq) h1 h2 hD

/-- The newest tree becomes the first part of a node. -/
lemma nodeAround {k : Kind} {p : Parser Unit} {Q : Unit → List Tree → ParserState → Prop}
    [hD : ReportDue D] [hr : Readable p] {t : Tree} (hu : Added s u [t]) (h : Makes D u.precede p Q)
    (hk : ∀ ys v, t.Complete → Q () ys v → Tree.hasParts k (t :: ys) = true) (hg : u.Good)
    (hq : u.Quiet) (hnot : ¬ D ((Parser.nodeAround k p).after u)) :
    ∃ ys v, Added s ((Parser.nodeAround k p).after u) [.node k (t :: ys)] ∧ Q () ys v := by
  have hprecede := good_precede hg
  obtain ⟨ys, h1, h2⟩ := h hprecede ⟨hq.never, hq.running⟩ fun hd => hnot ((hD.setForest _ _).2 hd)
  have ht := hu.complete t (List.mem_singleton.2 rfl)
  have hforest : u.precede.forest = ⟨[t], s.forest.inner :: u.forest.outer⟩ := by
    simp [ParserState.precede, Forest.precede, hu.inner]
  have ho := (hr.reads.follows hprecede).outer
  have hi := h1.inner
  rw [hforest] at ho hi
  refine ⟨ys, _, ⟨?_, List.forall_mem_singleton.2 (Tree.complete_node (hk ys _ ht h2) ?_)⟩, h2⟩
  · simp [after_nodeAround, ParserState.complete, Forest.complete, Forest.trees, ho, hi]
  · exact List.forall_mem_cons.2 ⟨ht, h1.complete⟩

end Makes

/-! ### Complete trees of any number -/

/-- Unless a report is due by `D` at its end, a rule adds complete trees, and only tokens if it is
`flat`. -/
class Builds (D : ParserState → Prop) (flat : Bool) (p : Parser α) : Prop where
  makes : ∀ s, Makes D s p fun _ ts _ => ∀ t ∈ ts, flat = true → t.isNode = false

namespace Builds

variable {flat : Bool} [ReportDue D]

instance (p : Parser α) [AlwaysReports p] : Builds D flat p := ⟨fun _ => .of_alwaysReports⟩

instance (a : α) : Builds D flat (pure a : Parser α) := ⟨fun _ => .pure (by simp)⟩

omit [ReportDue D] in
/-- What follows has to see to what is owed. -/
lemma seq {p : Parser α} {f : α → Parser β} (hp : Builds E flat p) (hf : ∀ a, Builds D flat (f a))
    [Readable p] [∀ a, Carries E D (f a)] : Builds D flat (p >>= f) where
  makes s := by
    refine .bind (hp.makes s) fun a ts u hts => ((hf a).makes u).mono fun _ us _ hus t ht => ?_
    exact (List.mem_append.1 ht).elim (hts t) (hus t)

omit [ReportDue D] in
instance (p : Parser α) (f : α → Parser β) [Readable p] [∀ a, Carries D D (f a)]
    [hp : Builds D flat p] [hf : ∀ a, Builds D flat (f a)] : Builds D flat (p >>= f) :=
  .seq hp hf

omit [ReportDue D] in
/-- A rule in whose continuation cases are told apart. -/
lemma follow {p : Parser α} {f : α → Parser β} [Readable p] [hp : Builds Reported flat p]
    (h : ∀ a, Readable (f a) ∧ Builds Reported flat (f a)) :
    Readable (p >>= f) ∧ Builds Reported flat (p >>= f) := by
  have hr := fun a => (h a).1
  exact ⟨inferInstance, .seq hp fun a => (h a).2⟩

omit [ReportDue D] in
instance {c : Prop} [Decidable c] (p q : Parser α) [hp : Builds D flat p] [hq : Builds D flat q] :
    Builds D flat (if c then p else q) := by
  split
  · exact hp
  · exact hq

omit [ReportDue D] in
/-- A rule that adds nothing. -/
lemma of_same {p : Parser α}
    (h : ∀ s, s.Good → s.Quiet → (p.after s).forest.inner = s.forest.inner) :
    Builds D flat p :=
  ⟨fun s hg hq _ => ⟨[], ⟨by rw [h s hg hq]; rfl, by simp⟩, by simp⟩⟩

section
variable (mode : Mode)

instance : Builds D flat (peekKind mode) := .of_same fun _ hg _ => by rw [hg.after_peekKind]; rfl

instance : Builds D flat (peekCommand mode) := .of_same fun _ hg _ => by
    rw [hg.after_peekCommand]; rfl

instance : Builds D flat (peekRange mode) := .of_same fun _ hg _ => by rw [hg.after_peekRange]; rfl

instance (e : GrammarError) (m : String) : Builds D flat (errorOf mode e m) :=
  .of_same fun _ hg _ => by rw [(Good.errorOf_keeps hg mode e m).2]

instance (m : String) : Builds D flat (error mode m) := by
  unfold error
  infer_instance

instance (kind : Kind) : Builds D flat (isAt mode kind) :=
  .of_same fun _ hg _ => by rw [hg.after_isAt]; rfl

instance (kinds : KindSet) : Builds D flat (isAtAny mode kinds) :=
  .of_same fun _ hg _ => by rw [hg.after_isAtAny]; rfl

instance : Builds D flat (isAtLineEnd mode) :=
  .of_same fun _ hg _ => by rw [hg.after_isAtLineEnd]; rfl

instance : Builds D flat (advance mode) where
  makes s hg hq hnot := by
    by_cases hk : s.kindAt mode = .eof
    · rw [hg.after_advance, if_pos hk]
      exact ⟨[], ⟨rfl, by simp⟩, by simp⟩
    · obtain ⟨ts, h1, ⟨token, -, rfl⟩, -⟩ := Makes.advance (D := D) mode hk hg hq hnot
      exact ⟨_, h1, by simp [Tree.isNode]⟩

instance (kind : Kind) : Builds D flat (eat mode kind) where
  makes s := .owing <| by
    unfold eat
    exact makes (D := Reported) s

instance (kind : Kind) (m : String) : Builds D flat (expect mode kind m) where
  makes s := .owing <| by
    unfold expect
    exact makes (D := Reported) s

end

instance : Builds D flat poll := .of_same fun _ _ hq => by rw [(Quiet.poll hq).2]

instance : Builds D flat isCancelled := .of_same fun _ _ _ => rfl

omit [ReportDue D] in
instance (step : σ → Parser (ForInStep σ)) (a : σ) [hr : ∀ a, Readable (step a)]
    [hc : ∀ a, Carries D D (step a)] [h : ∀ a, Builds D flat (step a)] :
    Builds D flat (loop step a) where
  makes s := by
    refine .loop (I := fun _ ts _ => ∀ t ∈ ts, flat = true → t.isNode = false) (by simp)
      fun a ts u hts => ((h a).makes u).mono fun _ us _ hus t ht => ?_
    exact (List.mem_append.1 ht).elim (hts t) (hus t)

instance (condition : Parser Bool) (rule : Parser Unit) [Readable condition] [Readable rule]
    [Carries D D condition] [Carries D D rule] [Builds D flat condition] [Builds D flat rule] :
    Builds D flat (repeatWhile condition rule) := by
  unfold repeatWhile whileStep
  infer_instance

omit [ReportDue D] in
lemma any {p : Parser α} (s : ParserState) [hp : Builds D false p] :
    Makes D s p fun _ _ _ => True :=
  (hp.makes s).mono fun _ _ _ _ => trivial

omit [ReportDue D] in
lemma tokens {p : Parser α} (s : ParserState) [hp : Builds D true p] :
    Makes D s p fun _ ts _ => ∀ t ∈ ts, t.isNode = false :=
  (hp.makes s).mono fun _ _ _ h t ht => h t ht rfl

/-- A node that can be without parts. -/
lemma inNode {k : Kind} {p : Parser α} (hk : ∀ cs, Tree.hasParts k cs = true) (hr : Readable p)
    (hp : Builds D false p) : Builds D false (node k p) where
  makes s := (Makes.node (hp.makes s.start) fun _ cs _ _ _ => hk cs).mono (by simp)

instance (p : Parser α) [Readable p] [Builds D false p] : Builds D false (node .error p) :=
  .inNode (fun _ => rfl) inferInstance inferInstance

omit [ReportDue D] in
/-- What a rule makes is complete, whatever else is known of it. -/
lemma of_makes {p : Parser α} {R : ParserState → α → List Tree → ParserState → Prop}
    (h : ∀ s, Makes D s p (R s)) : Builds D false p :=
  ⟨fun s => (h s).mono (by simp)⟩

end Builds

/-! ### One tree among others -/

/-- Unless a report is due by `D` at its end, a rule adds complete trees, one of them of the given
sort. -/
def Finds (D : ParserState → Prop) (P : Tree → Prop) (p : Parser α) : Prop :=
  ∀ s, Makes D s p fun _ ts _ => ∃ t ∈ ts, P t

/-- A token of the given kind. -/
def IsToken (k : Kind) (t : Tree) : Prop := ∃ token : Token, token.kind = k ∧ t = .leaf token

/-- A node of the given kind. -/
def IsNode (k : Kind) (t : Tree) : Prop := ∃ cs, t = .node k cs

/-- An expression. -/
def IsExpr (t : Tree) : Prop := ∃ k cs, k.isExprKind = true ∧ t = .node k cs

namespace Finds

variable {P : Tree → Prop} {p : Parser α} {f : α → Parser β}

/-- What stands before does not matter. -/
lemma behind [ReportDue D] [Readable p] [hp : Builds Reported false p] [∀ a, Readable (f a)]
    (hf : ∀ a, Finds D P (f a)) : Finds D P (p >>= f) := by
  intro s
  refine .bind (hp.makes s) fun a ts u _ => (hf a u).mono ?_
  rintro - us - ⟨t, ht, hP⟩
  exact ⟨t, List.mem_append_right ts ht, hP⟩

/-- What follows has to see to what is owed. -/
lemma before [Readable p] [∀ a, Carries E D (f a)] [hf : ∀ a, Builds D false (f a)]
    (hp : Finds E P p) : Finds D P (p >>= f) := by
  intro s
  refine .bind (hp s) fun a ts u ⟨t, ht, hP⟩ => ((hf a).makes u).mono fun _ us _ _ => ?_
  exact ⟨t, List.mem_append_left us ht, hP⟩

lemma ite {c : Prop} [Decidable c] {p q : Parser α} (hp : Finds D P p) (hq : Finds D P q) :
    Finds D P (if c then p else q) := by
  split
  · exact hp
  · exact hq

lemma expect (mode : Mode) {kind : Kind} (hne : kind ≠ .eof) (m : String) :
    Finds (Owes mode) (IsToken kind) (expect mode kind m) := by
  intro s
  refine (Makes.expect mode hne m).mono ?_
  rintro - ts - ⟨-, token, hk, rfl⟩
  exact ⟨_, List.mem_singleton.2 rfl, token, hk, rfl⟩

lemma inNode [ReportDue D] [Readable p] {k : Kind} (h : Finds D P p)
    (hk : ∀ cs, (∀ c ∈ cs, c.Complete) → ∀ c ∈ cs, P c → Tree.hasParts k cs = true) :
    Makes D s (node k p) fun _ ts _ => NodeOf k ts :=
  .asNode (h s.start) fun _ cs _ hcs ⟨t, ht, hP⟩ => hk cs hcs t ht hP

end Finds

end Parser

end DialogueScript

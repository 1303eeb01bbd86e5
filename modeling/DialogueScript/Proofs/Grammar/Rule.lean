import DialogueScript.Proofs.Grammar.Pairing

/-!
Rules see the text only through the scanner. Run on two texts that show a scanner the same, a rule
gives the same answer and goes the same way: two runs that are in step stay in step. This holds in
particular of two texts that are the same as far as the scanner looks, where only the positions are
counted from another start.
-/

namespace DialogueScript

namespace Diagnostic

/-- A diagnostic of a part of a text that starts at `base`. -/
def moved (base : Nat) (d : Diagnostic) : Diagnostic :=
  { d with range := ⟨base + d.range.start, base + d.range.stop⟩ }

end Diagnostic

/-- How two runs of a rule differ: in the ends of their texts, in where they count positions from,
and in what was reported before. -/
structure Change where
  oldTail : Text
  newTail : Text
  oldBase : Nat
  newBase : Nat
  oldFound : List Diagnostic
  newFound : List Diagnostic

namespace ParserState

lemma range_add (token : Token) (base n : Nat) : token.range (base + n) =
    ⟨base + (token.range n).start, base + (token.range n).stop⟩ := by
  simp [Token.range, Range.ofSize, Nat.add_assoc]

lemma errorsOf_add (l : Lexed) (base n : Nat) :
    errorsOf l (base + n) = (errorsOf l n).map (·.moved base) := by
  unfold errorsOf
  split <;> simp [Diagnostic.moved, range_add]

end ParserState

/-- Two runs that differ by a change. -/
def Change.pairing (c : Change) : Pairing where
  scanner s s' := s.Alike c.oldTail c.newTail c.oldBase c.newBase s'
  sees s := Scanner.Hidden c.oldTail c.newTail s.unseen
  tree := (· = ·)
  range r r' := ∃ x : Range, r = ⟨c.oldBase + x.start, c.oldBase + x.stop⟩ ∧
    r' = ⟨c.newBase + x.start, c.newBase + x.stop⟩
  found ds ds' := ∃ xs : List Diagnostic, ds = c.oldFound ++ xs.map (·.moved c.oldBase) ∧
    ds' = c.newFound ++ xs.map (·.moved c.newBase)
  sees_mono hle h := h.mono hle
  config_eq h := h.config
  looks {s s' mode} hs hs' h hsees := by
    rw [Scanner.unseen_looking] at hsees
    have htoken := (h.ahead_same hs hs' hsees).token
    obtain ⟨n, h1, h2⟩ := h.offset
    refine ⟨by rw [htoken], h.commandAhead_eq hs hs' hsees,
      ⟨(s.ahead mode).token.range n, ?_, ?_⟩, h.looking hsees⟩
    · rw [h1, ParserState.range_add]
    · rw [h2, ParserState.range_add, ← htoken]
  takes {s s' mode} hs hs' h hsees _ := by
    rw [Scanner.unseen_looking] at hsees
    have hahead := h.ahead_same hs hs' hsees
    obtain ⟨h1, h2, h3, h4, h5, h6⟩ := h.after hs hs' hsees
    exact ⟨hahead.error, congrArg Tree.leaf hahead.token, h1, h2, h3, h4, h5, h6⟩
  node {k cs cs'} h := by
    rw [List.forall₂_eq_eq_eq] at h
    rw [h]
  report {ds ds' r r'} p m h hr := by
    obtain ⟨xs, h1, h2⟩ := h
    obtain ⟨x, rfl, rfl⟩ := hr
    refine ⟨xs ++ [{ problem := p, message := m, range := x }], ?_, ?_⟩
    · simp [h1, Diagnostic.moved]
    · simp [h2, Diagnostic.moved]

namespace ParserState

/-- Two states that a rule cannot tell apart. -/
structure Agree (c : Change) (s s' : ParserState) : Prop where
  good : s.Good
  good' : s'.Good
  scanner : s.scanner.Alike c.oldTail c.newTail c.oldBase c.newBase s'.scanner
  inner : s.forest.inner = s'.forest.inner
  found : ∃ ds : List Diagnostic, s.diagnostics = c.oldFound ++ ds.map (·.moved c.oldBase) ∧
    s'.diagnostics = c.newFound ++ ds.map (·.moved c.newBase)
  quiet : s.Quiet
  quiet' : s'.Quiet

/-- The texts differ only where the scanner has not looked yet. -/
def Sees (c : Change) (s : ParserState) : Prop :=
  Scanner.Hidden c.oldTail c.newTail s.scanner.unseen

lemma agree_iff {c : Change} {s s' : ParserState} : Agree c s s' ↔ InStep c.pairing s s' := by
  have heq : List.Forall₂ c.pairing.tree s.forest.inner s'.forest.inner ↔
      s.forest.inner = s'.forest.inner := by
    rw [show c.pairing.tree = (· = ·) from rfl, List.forall₂_eq_eq_eq]
  constructor
  · rintro ⟨h1, h2, h3, h4, h5, h6, h7⟩
    exact ⟨h1, h2, h3, heq.2 h4, h5, h6, h7⟩
  · rintro ⟨h1, h2, h3, h4, h5, h6, h7⟩
    exact ⟨h1, h2, h3, heq.1 h4, h5, h6, h7⟩

namespace Agree

variable {c : Change} {s s' : ParserState}

lemma inStep (h : Agree c s s') : InStep c.pairing s s' := agree_iff.1 h

lemma kindAt_eq (h : Agree c s s') {mode : Mode} (hs : (s.look mode).Sees c) :
    s.kindAt mode = s'.kindAt mode := h.inStep.kindAt_eq hs

lemma commandAt_eq (h : Agree c s s') {mode : Mode} (hs : (s.look mode).Sees c) :
    s.commandAt mode = s'.commandAt mode := h.inStep.commandAt_eq hs

/-- A range that two runs find at the same token. -/
lemma rangeAt_eq (h : Agree c s s') {mode : Mode} (hs : (s.look mode).Sees c) :
    ∃ r : Range, s.rangeAt mode = ⟨c.oldBase + r.start, c.oldBase + r.stop⟩ ∧
      s'.rangeAt mode = ⟨c.newBase + r.start, c.newBase + r.stop⟩ := h.inStep.rangeAt hs

lemma look (h : Agree c s s') {mode : Mode} (hs : (s.look mode).Sees c) :
    Agree c (s.look mode) (s'.look mode) := agree_iff.2 (h.inStep.look hs)

lemma take (h : Agree c s s') {mode : Mode} (hs : (s.take mode).Sees c)
    (hk : s.kindAt mode ≠ .eof) :
    Agree c (s.take mode) (s'.take mode) := agree_iff.2 (h.inStep.take hs hk)

lemma report (h : Agree c s s') {r r' : Range} (e : GrammarError) (m : String)
    (hr : ∃ x : Range, r = ⟨c.oldBase + x.start, c.oldBase + x.stop⟩ ∧
      r' = ⟨c.newBase + x.start, c.newBase + x.stop⟩) :
    Agree c (s.report r e m) (s'.report r' e m) := agree_iff.2 (h.inStep.report e m hr)

/-- Only the trees of the innermost open node matter. -/
lemma setForest (h : Agree c s s') {f f' : Forest} {r r' : Record}
    (hf : f.inner = f'.inner) :
    Agree c { s with forest := f, record := r } { s' with forest := f', record := r' } where
  good := ⟨h.good.scanner, h.good.silent⟩
  good' := ⟨h.good'.scanner, h.good'.silent⟩
  scanner := h.scanner
  inner := hf
  found := h.found
  quiet := ⟨h.quiet.never, h.quiet.running⟩
  quiet' := ⟨h.quiet'.never, h.quiet'.running⟩

end Agree

end ParserState

open ParserState

namespace Parser

variable {α β σ : Type}

/-- A rule only does what rules can do. -/
def Reading (p : Parser α) : Prop := ∀ ⦃s⦄, s.Good → Reads s (p.after s)

/-- Two rules give the same answer in states that are in step, and lead to such states. -/
def Matches (P : ParserState → Prop) (p : Parser α) (P' : ParserState → Prop) (p' : Parser α) :
    Prop :=
  ∀ ⦃π s s'⦄, InStep π s s' → P s → P' s' → π.sees (p.after s).scanner →
    p.answer s = p'.answer s' ∧ InStep π (p.after s) (p'.after s')

def Any : ParserState → Prop := fun _ => True

/-- A rule depends on nothing but what its scanner sees. -/
class Rule (p : Parser α) : Prop where
  reads : Reading p
  agrees : Matches Any p Any p

lemma Reading.follows {p : Parser α} (h : Reading p) {s : ParserState} (hg : s.Good) :
    Follows s (p.after s) :=
  (h hg).follows hg

lemma Reading.sees {p : Parser α} (h : Reading p) {s : ParserState} (hg : s.Good) {π : Pairing}
    (hs : π.sees (p.after s).scanner) : π.sees s.scanner :=
  π.sees_mono (h.follows hg).unseen hs

/-- Two texts that differ only where the rule has not looked. -/
lemma Matches.agree {P P' : ParserState → Prop} {p p' : Parser α} (h : Matches P p P' p')
    {c : Change} {s s' : ParserState} (ha : Agree c s s') (hP : P s) (hP' : P' s')
    (hs : (p.after s).Sees c) :
    p.answer s = p'.answer s' ∧ Agree c (p.after s) (p'.after s') :=
  (h ha.inStep hP hP' hs).imp_right agree_iff.2

lemma Rule.follows (p : Parser α) [h : Rule p] {s : ParserState} (hg : s.Good) :
    Follows s (p.after s) :=
  h.reads.follows hg

lemma Rule.good (p : Parser α) [Rule p] {s : ParserState} (hg : s.Good) : (p.after s).Good :=
  (Rule.follows p hg).good

/-! ### Sequences -/

lemma Reading.bind {p : Parser α} {f : α → Parser β} (hp : Reading p) (hf : ∀ a, Reading (f a)) :
    Reading (p >>= f) :=
  fun _ hg => (hp hg).trans (hf _ (hp.follows hg).good)

lemma Matches.bind {P P' : ParserState → Prop} {Q Q' : α → ParserState → Prop} {p p' : Parser α}
    {f f' : α → Parser β} (hr : ∀ a, Reading (f a)) (hp : Matches P p P' p')
    (hf : ∀ a, Matches (Q a) (f a) (Q' a) (f' a))
    (hQ : ∀ s, s.Good → P s → Q (p.answer s) (p.after s))
    (hQ' : ∀ s, s.Good → P' s → Q' (p'.answer s) (p'.after s)) (hpr : Reading p) :
    Matches P (p >>= f) P' (p' >>= f') := by
  intro π s s' h hP hP' hs
  have hmid : (p.after s).Good := (hpr.follows h.good).good
  obtain ⟨h1, h2⟩ := hp h hP hP' ((hr _).sees hmid hs)
  have hQ2 := hQ' s' h.good' hP'
  rw [← h1] at hQ2
  have := hf _ h2 (hQ s h.good hP) hQ2 hs
  rw [answer_bind, answer_bind, after_bind, after_bind, ← h1]
  exact this

instance Rule.pure (a : α) : Rule (Pure.pure a : Parser α) where
  reads _ _ := .refl _
  agrees _ _ _ h _ _ _ := ⟨rfl, h⟩

instance Rule.bind {p : Parser α} {f : α → Parser β} [hp : Rule p] [hf : ∀ a, Rule (f a)] :
    Rule (p >>= f) where
  reads := hp.reads.bind fun a => (hf a).reads
  agrees := .bind (fun a => (hf a).reads) hp.agrees (fun a => (hf a).agrees)
    (fun _ _ _ => trivial) (fun _ _ _ => trivial) hp.reads

lemma Rule.seq {p : Parser α} {f : α → Parser β} (hp : Rule p) (hf : ∀ a, Rule (f a)) :
    Rule (p >>= f) :=
  inferInstance

instance Rule.ite {c : Prop} [Decidable c] {p q : Parser α} [hp : Rule p] [hq : Rule q] :
    Rule (if c then p else q) := by
  split
  · exact hp
  · exact hq

/-- A rule that is run only under a condition, and what follows it in any case. -/
lemma Rule.optional {c : Prop} [Decidable c] {p : Parser Unit} {f : Unit → Parser β} (hp : Rule p)
    (hf : ∀ a, Rule (f a)) : Rule (if c then p >>= f else f ()) :=
  inferInstance

lemma Rule.matches {p : Parser α} (h : Rule p) (P P' : ParserState → Prop) : Matches P p P' p :=
  fun _ _ _ ha _ _ hs => h.agrees ha trivial trivial hs

lemma Matches.weaken {P P' Q Q' : ParserState → Prop} {p p' : Parser α} (h : Matches Q p Q' p')
    (hP : ∀ s, P s → Q s) (hP' : ∀ s, P' s → Q' s) : Matches P p P' p' :=
  fun _ _ _ ha hs hs' => h ha (hP _ hs) (hP' _ hs')

/-! ### Tokens and errors -/

instance (mode : Mode) : Rule (peekKind mode) where
  reads s hg := by
    rw [hg.after_peekKind]
    exact .look mode (.refl s)
  agrees π s s' h _ _ hs := by
    rw [h.good.after_peekKind] at hs ⊢
    rw [h.good'.after_peekKind, h.good.answer_peekKind, h.good'.answer_peekKind]
    exact ⟨h.kindAt_eq hs, h.look hs⟩

/-- What stands next is known to what is done about it. -/
lemma Matches.peekKind {P P' : ParserState → Prop} {mode : Mode} {f f' : Kind → Parser β}
    (hP : ∀ s, s.Good → P s → P (s.look mode)) (hP' : ∀ s, s.Good → P' s → P' (s.look mode))
    (hr : ∀ k, Reading (f k))
    (h : ∀ k, Matches (fun s => P s ∧ s.kindAt mode = k) (f k)
      (fun s => P' s ∧ s.kindAt mode = k) (f' k)) :
    Matches P (peekKind mode >>= f) P' (peekKind mode >>= f') := by
  refine .bind hr (Rule.matches inferInstance _ _) h ?_ ?_ Rule.reads
  · intro s hg hs
    rw [hg.answer_peekKind, hg.after_peekKind]
    exact ⟨hP s hg hs, kindAt_look s mode⟩
  · intro s hg hs
    rw [hg.answer_peekKind, hg.after_peekKind]
    exact ⟨hP' s hg hs, kindAt_look s mode⟩

lemma Rule.peekKind {mode : Mode} {f : Kind → Parser β} (h : ∀ k, Reading (f k) ∧
    Matches (·.kindAt mode = k) (f k) (·.kindAt mode = k) (f k)) : Rule (peekKind mode >>= f) where
  reads := .bind Rule.reads fun k => (h k).1
  agrees := .peekKind (fun _ _ h => h) (fun _ _ h => h) (fun k => (h k).1) fun k =>
    (h k).2.weaken (fun _ h => h.2) (fun _ h => h.2)

instance (mode : Mode) : Rule (peekCommand mode) where
  reads s hg := by
    rw [hg.after_peekCommand]
    exact .look mode (.refl s)
  agrees π s s' h _ _ hs := by
    rw [h.good.after_peekCommand] at hs ⊢
    rw [h.good'.after_peekCommand, h.good.answer_peekCommand, h.good'.answer_peekCommand]
    exact ⟨h.commandAt_eq hs, h.look hs⟩

instance (mode : Mode) (kind : Kind) : Rule (isAt mode kind) := by
  unfold isAt
  infer_instance

instance (mode : Mode) (kinds : KindSet) : Rule (isAtAny mode kinds) := by
  unfold isAtAny
  infer_instance

instance (mode : Mode) : Rule (isAtLineEnd mode) := by
  unfold isAtLineEnd
  infer_instance

instance (mode : Mode) : Rule (isInLine mode) := by
  unfold isInLine
  infer_instance

instance (mode : Mode) (kinds : KindSet) : Rule (isBefore mode kinds) := by
  unfold isBefore
  infer_instance

instance (mode : Mode) : Rule (advance mode) where
  reads s hg := by
    rw [hg.after_advance]
    split
    · exact .look mode (.refl s)
    · exact .take mode (.refl s) ‹_›
  agrees π s s' h _ _ hs := by
    refine ⟨rfl, ?_⟩
    rw [h.good.after_advance] at hs ⊢
    rw [h.good'.after_advance]
    split at hs
    · next hk =>
      rw [← h.kindAt_eq hs, if_pos hk, if_pos hk]
      exact h.look hs
    · next hk =>
      rw [← h.kindAt_eq (InStep.sees_take h.good hs), if_neg hk, if_neg hk]
      exact h.take hs hk

instance (mode : Mode) (kind : Kind) : Rule (eat mode kind) := by
  unfold eat
  infer_instance

instance (mode : Mode) (e : GrammarError) (m : String) : Rule (errorOf mode e m) where
  reads s hg := by
    rw [hg.after_errorOf]
    split
    · exact .look mode (.refl s)
    · exact .report mode e m (.refl s) (.look mode (.refl s))
  agrees π s s' h _ _ hs := by
    refine ⟨rfl, ?_⟩
    have hlook : π.sees (s.look mode).scanner := by
      rw [h.good.after_errorOf] at hs
      split at hs
      · exact hs
      · rwa [scanner_report] at hs
    rw [h.good.after_errorOf, h.good'.after_errorOf, ← h.kindAt_eq hlook]
    split
    · exact h.look hlook
    · exact (h.look hlook).report e m (h.rangeAt hlook)

instance (mode : Mode) (m : String) : Rule (error mode m) := by
  unfold error
  infer_instance

instance (mode : Mode) (kind : Kind) (m : String) : Rule (expect mode kind m) := by
  unfold expect
  infer_instance

lemma Quiet.poll {s : ParserState} (h : s.Quiet) :
    Parser.poll.answer s = false ∧ Parser.poll.after s = s := by
  have : Parser.poll.run s = (s.cancelled, s) := by
    unfold Parser.poll
    simp [h.never]
    rfl
  unfold answer after
  rw [this]
  exact ⟨h.running, rfl⟩

instance : Rule poll where
  reads s _ := .poll (.refl s)
  agrees π s s' h _ _ _ := by
    rw [(Quiet.poll h.quiet).1, (Quiet.poll h.quiet).2, (Quiet.poll h.quiet').1,
      (Quiet.poll h.quiet').2]
    exact ⟨rfl, h⟩

instance : Rule isCancelled where
  reads s _ := .refl s
  agrees _ _ _ h _ _ _ := ⟨h.quiet.running.trans h.quiet'.running.symm, h⟩

/-! ### Positions -/

lemma run_ifStuck (p : Parser α) (stuck on : Parser β) (s : ParserState) :
    (ifStuck p stuck on).run s = if (p.after s).scanner.offset = s.scanner.offset then
      stuck.run (p.after s) else on.run (p.after s) := by
  change (if (p.after s).scanner.offset = s.scanner.offset then stuck else on : Parser β).run
    (p.after s) = _
  split <;> rfl

/-- Positions can be compared, though not told. -/
lemma Rule.ifStuck {p : Parser α} {stuck on : Parser β} (hp : Rule p) (hstuck : Rule stuck)
    (hon : Rule on) : Rule (ifStuck p stuck on) where
  reads := by
    intro s hg
    have hmid := (hp.reads.follows hg).good
    rw [Parser.after, run_ifStuck]
    split
    · exact (hp.reads hg).trans (hstuck.reads hmid)
    · exact (hp.reads hg).trans (hon.reads hmid)
  agrees := by
    intro π s s' h _ _ hs
    have hmid := (hp.reads.follows h.good).good
    rw [Parser.after, run_ifStuck] at hs
    have hsees : π.sees (p.after s).scanner := by
      split at hs
      · exact hstuck.reads.sees hmid hs
      · exact hon.reads.sees hmid hs
    obtain ⟨h1, hiff⟩ := (hp.agrees h.since trivial trivial hsees).2.of_since
    rw [Parser.answer, Parser.answer, Parser.after, Parser.after, run_ifStuck, run_ifStuck]
    by_cases ho : (p.after s).scanner.offset = s.scanner.offset
    · rw [if_pos ho] at hs ⊢
      rw [if_pos (hiff.1 ho)]
      exact hstuck.agrees h1 trivial trivial hs
    · rw [if_neg ho] at hs ⊢
      rw [if_neg (mt hiff.2 ho)]
      exact hon.agrees h1 trivial trivial hs

lemma Reading.ranged (mode : Mode) {p : Parser α} (hp : Reading p)
    (problem : α → Option (GrammarError × String)) :
    Reading (peekRange mode >>= fun r => p >>= fun a => reportAt r (problem a) >>=
      fun _ => pure a) := by
  intro s hg
  have hread := (Reads.look mode (.refl s)).trans (hp (hg.look mode))
  simp only [after_bind, hg.answer_peekRange, hg.after_peekRange, after_pure]
  rcases problem (p.answer (s.look mode)) with _ | ⟨e, m⟩
  · exact hread
  · exact .report mode e m (.refl s) hread

/-- An error may be reported at a token that was looked at earlier. -/
lemma Matches.ranged {P P' : ParserState → Prop} (mode : Mode) {p p' : Parser α} (hr : Reading p)
    (hp : Matches P p P' p') (problem : α → Option (GrammarError × String)) :
    Matches (fun s => P (s.look mode))
      (peekRange mode >>= fun r => p >>= fun a => reportAt r (problem a) >>= fun _ => pure a)
      (fun s => P' (s.look mode))
      (peekRange mode >>= fun r => p' >>= fun a => reportAt r (problem a) >>= fun _ => pure a) := by
  intro π s s' h hP hP' hs
  simp only [answer_bind, after_bind, h.good.answer_peekRange, h.good.after_peekRange,
    h.good'.answer_peekRange, h.good'.after_peekRange, answer_pure, after_pure] at hs ⊢
  have hmid : π.sees (p.after (s.look mode)).scanner := by
    generalize problem (p.answer (s.look mode)) = o at hs
    rcases o with _ | ⟨e, m⟩
    · exact hs
    · rw [reportAt, after_errorAt, scanner_report] at hs
      exact hs
  have hlook : π.sees (s.look mode).scanner := hr.sees (h.good.look mode) hmid
  obtain ⟨h1, h2⟩ := hp (h.look hlook) hP hP' hmid
  rw [← h1]
  refine ⟨rfl, ?_⟩
  rcases problem (p.answer (s.look mode)) with _ | ⟨e, m⟩
  · exact h2
  · exact h2.report e m (h.rangeAt hlook)

/-- Rules may ask for the settings. -/
lemma Rule.withConfig {f : ParserState → Parser α} (h : ∀ s, Rule (f s))
    (hf : ∀ s s', s.scanner.config = s'.scanner.config → f s = f s') : Rule (get >>= f) where
  reads := fun s hg => (h s).reads hg
  agrees := fun π s s' ha _ _ hs => by
    have heq := hf s s' (π.config_eq ha.scanner)
    have := (h s).agrees ha trivial trivial hs
    rw [answer_get_bind, answer_get_bind, after_get_bind, after_get_bind, ← heq]
    exact this

/-! ### Nodes -/

section
variable (k : Kind) (p : Parser α) (s : ParserState)

@[simp] lemma answer_node : (node k p).answer s = p.answer s.start := rfl

@[simp] lemma after_node : (node k p).after s = (p.after s.start).complete k := rfl

@[simp] lemma answer_nodeOf (p : Parser Kind) : (nodeOf p).answer s = p.answer s.start := rfl

@[simp] lemma after_nodeOf (p : Parser Kind) :
    (nodeOf p).after s = (p.after s.start).complete (p.answer s.start) := rfl

@[simp] lemma after_nodeAround (p : Parser Unit) :
    (nodeAround k p).after s = (p.after s.precede).complete k := rfl

end

lemma good_start {s : ParserState} (h : s.Good) : s.start.Good := ⟨h.scanner, h.silent⟩

lemma good_complete {s : ParserState} (h : s.Good) (k : Kind) : (s.complete k).Good :=
  ⟨h.scanner, h.silent⟩

lemma good_precede {s : ParserState} (h : s.Good) : s.precede.Good := ⟨h.scanner, h.silent⟩

/-- The open nodes after reading inside a node. -/
lemma Reading.outer_start {p : Parser α} (h : Reading p) {s : ParserState} (hg : s.Good) :
    (p.after s.start).forest.outer = s.forest.inner :: s.forest.outer :=
  (h.follows (good_start hg)).outer

/-- A node becomes the newest tree. -/
lemma Reading.inner_complete {p : Parser α} (h : Reading p) {s : ParserState} (hg : s.Good)
    (k : Kind) :
    ((p.after s.start).complete k).forest.inner =
      .node k (p.after s.start).forest.trees :: s.forest.inner := by
  simp [ParserState.complete, Forest.complete, h.outer_start hg]

lemma Rule.inner_node (p : Parser α) [h : Rule p] {s : ParserState} (hg : s.Good) (k : Kind) :
    ∃ cs, ((Parser.node k p).after s).forest.inner = .node k cs :: s.forest.inner :=
  ⟨_, h.reads.inner_complete hg k⟩

lemma Matches.node {P P' : ParserState → Prop} {p p' : Parser α} (hp : Matches P p P' p')
    (hr : Reading p) (hr' : Reading p') (k : Kind) :
    Matches (P ·.start) (node k p) (P' ·.start) (node k p') := by
  intro π s s' h hP hP' hs
  obtain ⟨h1, h2⟩ := hp h.start hP hP' hs
  exact ⟨h1, h2.complete h.inner (hr.outer_start h.good) (hr'.outer_start h.good') k⟩

lemma Reading.node {p : Parser α} (h : Reading p) (k : Kind) : Reading (node k p) :=
  fun s hg => .node k (.refl s) (h (good_start hg))

instance Rule.node (k : Kind) (p : Parser α) [hp : Rule p] : Rule (Parser.node k p) where
  reads := hp.reads.node k
  agrees := hp.agrees.node hp.reads hp.reads k

lemma Rule.inNode {k : Kind} {p : Parser α} (hp : Rule p) : Rule (Parser.node k p) := inferInstance

lemma Matches.nodeOf {P P' : ParserState → Prop} {p p' : Parser Kind} (hp : Matches P p P' p')
    (hr : Reading p) (hr' : Reading p') :
    Matches (P ·.start) (nodeOf p) (P' ·.start) (nodeOf p') := by
  intro π s s' h hP hP' hs
  obtain ⟨h1, h2⟩ := hp h.start hP hP' hs
  refine ⟨h1, ?_⟩
  rw [after_nodeOf, after_nodeOf, ← h1]
  exact h2.complete h.inner (hr.outer_start h.good) (hr'.outer_start h.good') _

lemma Reading.nodeOf {p : Parser Kind} (h : Reading p) : Reading (nodeOf p) :=
  fun s hg => .node _ (.refl s) (h (good_start hg))

instance Rule.nodeOf (p : Parser Kind) [hp : Rule p] : Rule (Parser.nodeOf p) where
  reads := hp.reads.nodeOf
  agrees := hp.agrees.nodeOf hp.reads hp.reads

lemma Rule.inNodeOf {p : Parser Kind} (hp : Rule p) : Rule (Parser.nodeOf p) := inferInstance

lemma run_nodeIf (k : Kind) (p : Parser Bool) (s : ParserState) : (nodeIf k p).run s =
    (p.answer s.start, if p.answer s.start = true then (p.after s.start).complete k
      else (p.after s.start).abandon) := by
  have : (nodeIf k p).run s = (do
      if p.answer s.start then complete k else abandon
      return p.answer s.start : Parser Bool).run (p.after s.start) := rfl
  rw [this]
  cases p.answer s.start <;> rfl

lemma Rule.inNodeIf {k : Kind} {p : Parser Bool} (hp : Rule p) : Rule (nodeIf k p) where
  reads s hg := by
    unfold Parser.after
    rw [run_nodeIf]
    split
    · exact .node k (.refl s) (hp.reads (good_start hg))
    · exact .abandon (.refl s) (hp.reads (good_start hg))
  agrees π s s' h _ _ hs := by
    unfold Parser.answer Parser.after at *
    rw [run_nodeIf] at hs ⊢
    rw [run_nodeIf]
    have hsees : π.sees (p.after s.start).scanner := by
      simp only at hs
      split at hs <;> exact hs
    obtain ⟨h1, h2⟩ := hp.agrees h.start trivial trivial hsees
    have ho := hp.reads.outer_start h.good
    have ho' := hp.reads.outer_start h.good'
    refine ⟨h1, ?_⟩
    simp only [← h1]
    split
    · exact h2.complete h.inner ho ho' k
    · exact h2.abandon h.inner ho ho'

instance Rule.nodeAround (k : Kind) (p : Parser Unit) [hp : Rule p] :
    Rule (Parser.nodeAround k p) where
  reads s hg := .around k (.refl s) (hp.reads (good_precede hg))
  agrees π s s' h _ _ hs := by
    obtain ⟨hprecede, level, level', h1, h2, h3⟩ := h.precede
    obtain ⟨-, h4⟩ := hp.agrees hprecede trivial trivial hs
    have ho := (hp.reads.follows (good_precede h.good)).outer
    have ho' := (hp.reads.follows (good_precede h.good')).outer
    exact ⟨rfl, h4.complete h1 (ho.trans h2) (ho'.trans h3) k⟩

end Parser

end DialogueScript

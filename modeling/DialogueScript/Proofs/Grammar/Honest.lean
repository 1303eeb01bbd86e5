import DialogueScript.Proofs.Grammar.Items
import DialogueScript.Proofs.Scanner.Errors
import DialogueScript.Proofs.Tree.Clean

/-!
Rules hide no error: what they put into the trees without a report is clean. An error is not
reported at a token that is itself an error, since taking that token reports it; so such a rule owes
a report until the token is taken in the mode in which it was seen.
-/

set_option synthInstance.maxSize 4096

namespace DialogueScript

namespace ParserState

/-- As long as nothing was reported, the finished trees of the innermost open node are clean. -/
def Tidy (s : ParserState) : Prop := s.diagnostics = [] → ∀ t ∈ s.forest.inner, t.Clean

/-- Something was reported, or will be when the next token is taken in the given mode. -/
def Owes (mode : Mode) (s : ParserState) : Prop := s.diagnostics ≠ [] ∨ s.kindAt mode = .errorToken

section
variable {s s' : ParserState}

lemma Tidy.of_reported (h : s.diagnostics ≠ []) : s.Tidy := fun hd => absurd hd h

lemma Follows.reported (h : Follows s s') (hd : s.diagnostics ≠ []) : s'.diagnostics ≠ [] := by
  obtain ⟨ds, hds⟩ := h.diagnostics
  rw [← hds]
  simp [hd]

lemma Owes.look {mode mode' : Mode} (h : s.Owes mode)
    (hm : mode' = mode ∨ mode'.isIndentSensitive = false) : (s.look mode').Owes mode := by
  refine h.imp id fun hk => ?_
  rcases hm with rfl | hm
  · rwa [kindAt_look]
  · have := Scanner.ahead_looking_of_insensitive (s := s.scanner) hm mode
    rwa [kindAt, ParserState.look, this]

/-- Taking an error token reports it. -/
lemma Good.reported_take (h : s.Good) {mode : Mode} (ho : s.Owes mode) :
    (s.take mode).diagnostics ≠ [] := by
  rw [h.diagnostics_take]
  rcases ho with hd | hk
  · simp [hd]
  · have hsome := ((h.scanner.takes mode).error_iff).1 hk
    obtain ⟨e, he⟩ := Option.isSome_iff_exists.1 hsome
    simp [errorsOf, he]

lemma Good.clean_take (h : s.Good) {mode : Mode} (hk : s.kindAt mode ≠ .errorToken) :
    (Tree.leaf (s.scanner.ahead mode).token).Clean := by
  have htoken := (h.scanner.takes mode).isToken
  refine Tree.clean_leaf ⟨?_, hk, ?_⟩
  · rintro heq
    rw [heq] at htoken
    exact absurd htoken (by decide)
  · rintro heq
    rw [heq] at htoken
    exact absurd htoken (by decide)

lemma Good.tidy_take (h : s.Good) (ht : s.Tidy) (mode : Mode) : (s.take mode).Tidy := by
  by_cases hk : s.kindAt mode = .errorToken
  · exact .of_reported (h.reported_take (.inr hk))
  · intro hd t hmem
    have hnil : s.diagnostics = [] := by
      rw [h.diagnostics_take] at hd
      exact (List.append_eq_nil_iff.1 hd).1
    rcases List.mem_cons.1 hmem with rfl | hmem
    · exact h.clean_take hk
    · exact ht hnil t hmem

end

end ParserState

namespace Parser

open ParserState

variable {α β σ : Type}

/-- A rule that only does what rules can do. -/
class Readable (p : Parser α) : Prop where
  reads : Reading p

lemma Readable.follows (p : Parser α) [h : Readable p] {s : ParserState} (hg : s.Good) :
    Follows s (p.after s) :=
  h.reads.follows hg

instance (p : Parser α) [h : Rule p] : Readable p := ⟨h.reads⟩

instance (p : Parser α) (f : α → Parser β) [hp : Readable p] [hf : ∀ a, Readable (f a)] :
    Readable (p >>= f) :=
  ⟨.bind hp.reads fun a => (hf a).reads⟩

instance {c : Prop} [Decidable c] (p q : Parser α) [hp : Readable p] [hq : Readable q] :
    Readable (if c then p else q) := by
  split
  · exact hp
  · exact hq

instance (step : σ → Parser (ForInStep σ)) (a : σ) [h : ∀ a, Readable (step a)] :
    Readable (loop step a) :=
  ⟨.loop (fun a => (h a).reads) a⟩

instance (k : Kind) (p : Parser α) [h : Readable p] : Readable (node k p) := ⟨h.reads.node k⟩

instance (k : Kind) (p : Parser Unit) [h : Readable p] : Readable (nodeAround k p) :=
  ⟨fun s hg => .around k (.refl s) (h.reads (good_precede hg))⟩

/-- A rule that hides no error. -/
class Honest (p : Parser α) : Prop where
  tidy : ∀ ⦃s⦄, s.Good → s.Quiet → s.Tidy → (p.after s).Tidy

/-- A rule that hides no error if a report is owed or has been made. -/
class HonestWhenOwed (mode : Mode) (p : Parser α) : Prop where
  tidy : ∀ ⦃s⦄, s.Good → s.Quiet → s.Tidy → s.Owes mode → (p.after s).Tidy

/-- A rule that makes the report that is owed. -/
class ReportsOwed (mode : Mode) (p : Parser α) : Prop where
  reported : ∀ ⦃s⦄, s.Good → s.Quiet → s.Owes mode → (p.after s).diagnostics ≠ []

/-- A rule that reports an error in any case. -/
class AlwaysReports (p : Parser α) : Prop where
  reported : ∀ ⦃s⦄, s.Good → s.Quiet → (p.after s).diagnostics ≠ []

/-! ### Sequences -/

instance (mode : Mode) (p : Parser α) [h : Honest p] : HonestWhenOwed mode p :=
  ⟨fun _ hg hq ht _ => h.tidy hg hq ht⟩

instance (mode : Mode) (p : Parser α) [h : ReportsOwed mode p] : HonestWhenOwed mode p :=
  ⟨fun _ hg hq _ ho => .of_reported (h.reported hg hq ho)⟩

instance (p : Parser α) [h : AlwaysReports p] : Honest p :=
  ⟨fun _ hg hq _ => .of_reported (h.reported hg hq)⟩

instance (mode : Mode) (p : Parser α) [h : AlwaysReports p] : ReportsOwed mode p :=
  ⟨fun _ hg hq _ => h.reported hg hq⟩

instance (a : α) : Honest (pure a : Parser α) := ⟨fun _ _ _ h => h⟩

section
variable (p : Parser α) (f : α → Parser β) [hr : Readable p]

instance [hp : Honest p] [hf : ∀ a, Honest (f a)] : Honest (p >>= f) where
  tidy _ hg hq ht :=
    have h := Readable.follows p hg
    (hf _).tidy h.good (h.quiet hq) (hp.tidy hg hq ht)

instance [hp : AlwaysReports p] [∀ a, Readable (f a)] : AlwaysReports (p >>= f) where
  reported _ hg hq :=
    (Readable.follows (f _) (Readable.follows p hg).good).reported (hp.reported hg hq)

instance (mode : Mode) [hp : ReportsOwed mode p] [∀ a, Readable (f a)] :
    ReportsOwed mode (p >>= f) where
  reported _ hg hq ho :=
    (Readable.follows (f _) (Readable.follows p hg).good).reported (hp.reported hg hq ho)

end

instance (p : Parser α) (b : β) [hp : Honest p] : Honest (p >>= fun _ => pure b) :=
  ⟨fun _ hg hq ht => hp.tidy hg hq ht⟩

lemma Honest.seq {p : Parser α} {f : α → Parser β} (hr : Readable p) (hp : Honest p)
    (hf : ∀ a, Honest (f a)) : Honest (p >>= f) :=
  inferInstance

lemma Honest.withState {f : ParserState → Parser α} (h : ∀ s, Honest (f s)) : Honest (get >>= f) :=
  ⟨fun s hg hq ht => (h s).tidy hg hq ht⟩

section
variable {c : Prop} [Decidable c] (p q : Parser α)

instance [hp : Honest p] [hq : Honest q] : Honest (if c then p else q) := by
  split
  · exact hp
  · exact hq

instance (mode : Mode) [hp : HonestWhenOwed mode p] [hq : HonestWhenOwed mode q] :
    HonestWhenOwed mode (if c then p else q) := by
  split
  · exact hp
  · exact hq

end

/-! ### Tokens and errors -/

section
variable (mode : Mode)

instance : Honest (peekKind mode) where
  tidy s hg _ ht := by
    rw [hg.after_peekKind]
    exact ht

instance : Honest (peekCommand mode) where
  tidy s hg _ ht := by
    rw [hg.after_peekCommand]
    exact ht

instance : Readable (peekRange mode) where
  reads s hg := by
    rw [hg.after_peekRange]
    exact .look mode (.refl s)

instance : Honest (peekRange mode) where
  tidy s hg _ ht := by
    rw [hg.after_peekRange]
    exact ht

instance (kind : Kind) : Honest (isAt mode kind) := by
  unfold isAt
  infer_instance

instance (kinds : KindSet) : Honest (isAtAny mode kinds) := by
  unfold isAtAny
  infer_instance

instance : Honest (isAtLineEnd mode) := by
  unfold isAtLineEnd
  infer_instance

instance : Honest (isInLine mode) := by
  unfold isInLine
  infer_instance

instance (kinds : KindSet) : Honest (isBefore mode kinds) := by
  unfold isBefore
  infer_instance

instance : Honest (advance mode) where
  tidy s hg _ ht := by
    rw [hg.after_advance]
    split
    · exact ht
    · exact hg.tidy_take ht mode

instance : ReportsOwed mode (advance mode) where
  reported s hg _ ho := by
    rw [hg.after_advance]
    split
    · next hk => exact ho.resolve_right (by simp [hk])
    · exact hg.reported_take ho

instance (kind : Kind) : Honest (eat mode kind) := by
  unfold eat
  infer_instance

lemma tidy_report {s : ParserState} (ht : s.Tidy) (range : Range) (e : GrammarError) (m : String) :
    (s.report range e m).Tidy := by
  unfold ParserState.report
  split
  · exact ht
  · exact .of_reported (by simp)

instance (e : GrammarError) (m : String) : Honest (errorOf mode e m) where
  tidy s hg _ ht := by
    rw [hg.after_errorOf]
    split
    · exact ht
    · exact tidy_report (s := s.look mode) ht _ e m

lemma owes_errorOf {s : ParserState} (hg : s.Good) (hq : s.Quiet) (e : GrammarError) (m : String) :
    ((errorOf mode e m).after s).Owes mode := by
  rw [hg.after_errorOf]
  split
  · next hk => exact .inr ((kindAt_look s mode).trans hk)
  · left
    have : (s.look mode).cancelled = false := hq.running
    simp [ParserState.report, this]

instance (m : String) : Honest (error mode m) := by
  unfold error
  infer_instance

instance (kind : Kind) (m : String) : Honest (expect mode kind m) := by
  unfold expect
  infer_instance

instance (m : String) (f : Unit → Parser α) [hf : HonestWhenOwed mode (f ())] :
    Honest (error mode m >>= f) where
  tidy s hg hq ht := by
    have h := Rule.follows (error mode m) hg
    exact hf.tidy h.good (h.quiet hq) (Honest.tidy (p := error mode m) hg hq ht)
      (owes_errorOf mode hg hq _ m)

instance (m : String) (f : Unit → Parser α) [hf : ReportsOwed mode (f ())] :
    AlwaysReports (error mode m >>= f) where
  reported s hg hq := by
    have h := Rule.follows (error mode m) hg
    exact hf.reported h.good (h.quiet hq) (owes_errorOf mode hg hq _ m)

end

instance : Honest poll where
  tidy s _ hq ht := by
    rw [(Quiet.poll hq).2]
    exact ht

instance : Honest isCancelled := ⟨fun _ _ _ ht => ht⟩

/-! ### Looking with something owed -/

section
variable {mode mode' : Mode} (hm : mode' = mode ∨ mode'.isIndentSensitive = false)
include hm

lemma HonestWhenOwed.isAtAny {kinds : KindSet} {f : Bool → Parser α}
    (h : ∀ b, HonestWhenOwed mode (f b)) :
    HonestWhenOwed mode (isAtAny mode' kinds >>= f) where
  tidy s hg hq ht ho := by
    rw [after_bind, hg.after_isAtAny]
    exact (h _).tidy (hg.look mode') ⟨hq.never, hq.running⟩ ht (ho.look hm)

lemma HonestWhenOwed.isAtLineEnd {f : Bool → Parser α} (h : ∀ b, HonestWhenOwed mode (f b)) :
    HonestWhenOwed mode (isAtLineEnd mode' >>= f) where
  tidy s hg hq ht ho := by
    rw [after_bind, hg.after_isAtLineEnd]
    exact (h _).tidy (hg.look mode') ⟨hq.never, hq.running⟩ ht (ho.look hm)

end

section
variable {mode : Mode}

lemma ReportsOwed.peekKind {f : Kind → Parser α} (hr : ∀ k, Readable (f k))
    (h : ReportsOwed mode (f .errorToken)) :
    ReportsOwed mode (peekKind mode >>= f) where
  reported s hg hq ho := by
    have hlook := hg.look mode
    rw [after_bind, hg.answer_peekKind, hg.after_peekKind]
    rcases ho with hd | hk
    · exact (Readable.follows (f _) hlook).reported hd
    · rw [hk]
      exact h.reported hlook ⟨hq.never, hq.running⟩ (Owes.look (.inr hk) (.inl rfl))

/-- An error does not end a line. -/
lemma ReportsOwed.isAtLineEnd {f : Bool → Parser α} (hr : ∀ b, Readable (f b))
    (h : ReportsOwed mode (f false)) :
    ReportsOwed mode (isAtLineEnd mode >>= f) :=
  ReportsOwed.peekKind (f := fun k => f (decide (k = .newline) || decide (k = .eof)))
    (fun _ => hr _) h

lemma ReportsOwed.isAtAny {kinds : KindSet} {f : Bool → Parser α}
    (hk : kinds.contains .errorToken = false) (hr : ∀ b, Readable (f b))
    (h : ReportsOwed mode (f false)) : ReportsOwed mode (isAtAny mode kinds >>= f) :=
  ReportsOwed.peekKind (f := fun k => f (kinds.contains k)) (fun _ => hr _) (hk ▸ h)

/-- What stands next is known to what is done about it. -/
lemma Honest.peekKind {f : Kind → Parser α} (h : ∀ ⦃s⦄, s.Good → s.Quiet → s.Tidy →
    ((f (s.kindAt mode)).after s).Tidy) : Honest (peekKind mode >>= f) where
  tidy s hg hq ht := by
    have := h (hg.look mode) ⟨hq.never, hq.running⟩ ht
    rw [kindAt_look] at this
    rwa [after_bind, hg.answer_peekKind, hg.after_peekKind]

end

/-! ### Nodes -/

lemma quiet_start {s : ParserState} (h : s.Quiet) : s.start.Quiet := ⟨h.never, h.running⟩

lemma tidy_start (s : ParserState) : s.start.Tidy := by
  intro _ t ht
  simp [ParserState.start, Forest.start] at ht

/-- A node of what a rule took, in front of the trees that were there before. -/
lemma tidy_complete {p : Parser α} (hr : Reading p) {s : ParserState} (hg : s.Good) (ht : s.Tidy)
    (k : Kind) (hk : (p.after s.start).diagnostics = [] →
      (Tree.node k (p.after s.start).forest.trees).Clean) :
    ((p.after s.start).complete k).Tidy := by
  intro hd t hmem
  have hnil : s.diagnostics = [] := by
    by_contra h
    exact (hr.follows (good_start hg)).reported h hd
  rw [hr.inner_complete hg] at hmem
  rcases List.mem_cons.1 hmem with rfl | hmem
  · exact hk hd
  · exact ht hnil t hmem

lemma mem_trees {f : Forest} {t : Tree} : t ∈ f.trees ↔ t ∈ f.inner := by simp [Forest.trees]

lemma Honest.inNode {k : Kind} {p : Parser α} (hk : Tree.Ordinary k) (hr : Readable p)
    (hp : Honest p) : Honest (node k p) where
  tidy s hg hq ht := by
    have := hp.tidy (good_start hg) (quiet_start hq) (tidy_start s)
    exact tidy_complete hr.reads hg ht k fun hd =>
      Tree.clean_node hk fun c hc => this hd c (mem_trees.1 hc)

lemma Honest.inNodeOf {p : Parser Kind} (hk : ∀ s, Tree.Ordinary (p.answer s)) (hr : Readable p)
    (hp : Honest p) : Honest (nodeOf p) where
  tidy s hg hq ht := by
    have := hp.tidy (good_start hg) (quiet_start hq) (tidy_start s)
    exact tidy_complete hr.reads hg ht _ fun hd =>
      Tree.clean_node (hk _) fun c hc => this hd c (mem_trees.1 hc)

instance (k : Kind) (p : Parser α) [hp : AlwaysReports p] : AlwaysReports (node k p) :=
  ⟨fun _ hg hq => hp.reported (good_start hg) (quiet_start hq)⟩

instance (mode : Mode) (k : Kind) (p : Parser α) [hp : ReportsOwed mode p] :
    ReportsOwed mode (node k p) :=
  ⟨fun _ hg hq ho => hp.reported (good_start hg) (quiet_start hq) ho⟩

lemma Honest.inNodeAround {k : Kind} {p : Parser Unit} (hk : Tree.Ordinary k) (hr : Readable p)
    (hp : Honest p) : Honest (nodeAround k p) where
  tidy s hg hq ht := by
    have hprecede := good_precede hg
    have hf := hr.reads.follows hprecede
    obtain ⟨level, hlevel, hsub, hsub'⟩ : ∃ level,
        s.precede.forest.outer = level :: s.forest.outer ∧
        (∀ t ∈ level, t ∈ s.forest.inner) ∧ ∀ t ∈ s.precede.forest.inner, t ∈ s.forest.inner := by
      unfold ParserState.precede Forest.precede Forest.start
      split
      · next h => exact ⟨_, rfl, by simp [h], by simp⟩
      · next newest level h => exact ⟨level, rfl, by simp +contextual [h], by simp [h]⟩
    have htidy := hp.tidy hprecede ⟨hq.never, hq.running⟩ fun hd t hmem => ht hd t (hsub' t hmem)
    intro hd t hmem
    have hnil : s.diagnostics = [] := by
      by_contra h
      exact hf.reported h hd
    have ho := hf.outer.trans hlevel
    have hinner : ((p.after s.precede).complete k).forest.inner =
        .node k (p.after s.precede).forest.trees :: level := by
      simp [ParserState.complete, Forest.complete, ho]
    rw [after_nodeAround, hinner] at hmem
    rcases List.mem_cons.1 hmem with rfl | hmem
    · exact Tree.clean_node hk fun c hc => htidy hd c (mem_trees.1 hc)
    · exact ht hnil t (hsub t hmem)

lemma Honest.inNodeIf {k : Kind} {p : Parser Bool} (hk : Tree.Ordinary k) (hr : Readable p)
    (hp : Honest p) : Honest (nodeIf k p) where
  tidy s hg hq ht := by
    have htidy := hp.tidy (good_start hg) (quiet_start hq) (tidy_start s)
    have ho := hr.reads.outer_start hg
    unfold Parser.after
    rw [run_nodeIf]
    split
    · exact tidy_complete hr.reads hg ht k fun hd =>
        Tree.clean_node hk fun c hc => htidy hd c (mem_trees.1 hc)
    · intro hd t hmem
      have hnil : s.diagnostics = [] := by
        by_contra h
        exact (hr.reads.follows (good_start hg)).reported h hd
      have hinner : (p.after s.start).abandon.forest.inner =
          (p.after s.start).forest.inner ++ s.forest.inner := by
        simp [ParserState.abandon, Forest.abandon, ho]
      rw [hinner] at hmem
      rcases List.mem_append.1 hmem with hmem | hmem
      · exact htidy hd t hmem
      · exact ht hnil t hmem

/-! ### Repetition -/

lemma Honest.loop {step : σ → Parser (ForInStep σ)} (hr : ∀ a, Reading (step a))
    (h : ∀ a, Honest (step a)) (a : σ) : Honest (loop step a) where
  tidy s hg hq ht := by
    unfold Parser.after
    rw [run_loop]
    generalize s.scanner.budget + 1 = n
    induction n generalizing a s with
    | zero => exact ht
    | succ n ih =>
      have hf := (hr a).follows hg
      have hstep := (h a).tidy hg hq ht
      rcases hs : (step a).answer s with b | b
      · rw [run_loopUpTo_done hs]
        exact hstep
      · rw [run_loopUpTo_yield hs]
        exact ih b _ hf.good (hf.quiet hq) hstep

instance (step : σ → Parser (ForInStep σ)) (a : σ) [hr : ∀ a, Readable (step a)]
    [h : ∀ a, Honest (step a)] : Honest (loop step a) :=
  .loop (fun a => (hr a).reads) h a

instance (condition : Parser Bool) (rule : Parser Unit) [Readable condition] [Readable rule]
    [Honest condition] [Honest rule] : Honest (repeatWhile condition rule) := by
  unfold repeatWhile whileStep
  infer_instance

/-- A loop makes the report that its first step makes. -/
lemma ReportsOwed.loop {mode : Mode} {step : σ → Parser (ForInStep σ)} (hr : ∀ a, Reading (step a))
    {a : σ} (h : ReportsOwed mode (step a)) : ReportsOwed mode (Parser.loop step a) where
  reported s hg hq ho := by
    have hstep := h.reported hg hq ho
    unfold Parser.after at hstep ⊢
    rw [run_loop]
    rcases hs : (step a).answer s with b | b
    · rw [run_loopUpTo_done hs]
      exact hstep
    · rw [run_loopUpTo_yield hs]
      exact ((Reading.loopUpTo hr s.scanner.budget b).follows ((hr a).follows hg).good).reported
        hstep

/-! ### Statements -/

/-- Nothing is hidden, or a report is owed where the next statement starts. -/
def TidyOrOwes (s : ParserState) : Prop := s.Tidy ∨ s.Owes .statement

/-- A rule that hides no error, unless the next statement will report one. -/
class HonestOrOwes (p : Parser α) : Prop where
  tidyOrOwes : ∀ ⦃s⦄, s.Good → s.Quiet → s.Tidy → TidyOrOwes (p.after s)

instance (p : Parser α) [h : Honest p] : HonestOrOwes p :=
  ⟨fun _ hg hq ht => .inl (h.tidy hg hq ht)⟩

instance (p : Parser α) (f : α → Parser β) [Readable p] [hp : Honest p]
    [hf : ∀ a, HonestOrOwes (f a)] :
    HonestOrOwes (p >>= f) where
  tidyOrOwes _ hg hq ht :=
    have h := Readable.follows p hg
    (hf _).tidyOrOwes h.good (h.quiet hq) (hp.tidy hg hq ht)

instance {c : Prop} [Decidable c] (p q : Parser α) [hp : HonestOrOwes p] [hq : HonestOrOwes q] :
    HonestOrOwes (if c then p else q) := by
  split
  · exact hp
  · exact hq

instance (p : Parser α) (b : β) [hp : HonestOrOwes p] : HonestOrOwes (p >>= fun _ => pure b) :=
  ⟨fun _ hg hq ht => hp.tidyOrOwes hg hq ht⟩

/-- A rule that finds the kind of a node: it is an error only if a report was made or is owed. -/
class HonestKind (p : Parser Kind) : Prop where
  tidy : ∀ ⦃s⦄, s.Good → s.Quiet → s.Tidy →
    (p.after s).Tidy ∧ (Tree.Ordinary (p.answer s) ∨ (p.after s).Owes .statement)

instance (p : Parser α) (f : α → Parser Kind) [Readable p] [hp : Honest p]
    [hf : ∀ a, HonestKind (f a)] :
    HonestKind (p >>= f) where
  tidy _ hg hq ht :=
    have h := Readable.follows p hg
    (hf _).tidy h.good (h.quiet hq) (hp.tidy hg hq ht)

instance {c : Prop} [Decidable c] (p q : Parser Kind) [hp : HonestKind p] [hq : HonestKind q] :
    HonestKind (if c then p else q) := by
  split
  · exact hp
  · exact hq

instance (p : Parser Kind) [hr : Readable p] [hp : HonestKind p] : HonestOrOwes (nodeOf p) where
  tidyOrOwes s hg hq ht := by
    obtain ⟨h1, h2⟩ := hp.tidy (good_start hg) (quiet_start hq) (tidy_start s)
    rcases h2 with hk | ho
    · exact .inl (tidy_complete hr.reads hg ht _ fun hd =>
        Tree.clean_node hk fun c hc => h1 hd c (mem_trees.1 hc))
    · exact .inr ho

end Parser

end DialogueScript

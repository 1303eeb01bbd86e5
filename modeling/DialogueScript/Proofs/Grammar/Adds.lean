import DialogueScript.Proofs.Grammar.Honest

/-!
What rules add to the finished trees. A rule leaves the trees that are there and puts new ones in
front of them. Which trees these can be is proved once, over any property of trees that holds of
tokens and goes from the children of a node to the node: for nodes in which the grammar descends by
a level, with one level more.
-/

set_option synthInstance.maxSize 4096

namespace DialogueScript

namespace ParserState

variable {s : ParserState}

/-- How many missing ends were reported. -/
def missing (s : ParserState) : Nat := s.diagnostics.countP (·.problem = .grammar .missingEndMarker)

@[simp] lemma missing_look (s : ParserState) (mode : Mode) : (s.look mode).missing = s.missing :=
  rfl

@[simp] lemma missing_start (s : ParserState) : s.start.missing = s.missing := rfl

@[simp] lemma missing_complete (s : ParserState) (k : Kind) : (s.complete k).missing = s.missing :=
  rfl

/-- What is wrong with a token is no missing end. -/
lemma Good.missing_take (h : s.Good) (mode : Mode) : (s.take mode).missing = s.missing := by
  rw [missing, h.diagnostics_take, List.countP_append, errorsOf]
  split <;> simp [missing]

lemma missing_report (s : ParserState) (range : Range) {e : GrammarError}
    (he : e ≠ .missingEndMarker) (m : String) : (s.report range e m).missing = s.missing := by
  unfold report
  split
  · rfl
  · simp [missing, he]

end ParserState

namespace Parser

open ParserState

variable {α β σ : Type} {ends : Bool} {P : Tree → Prop}

/-! ### Loops -/

section
variable {step : σ → Parser (ForInStep σ)} (hr : ∀ a, Reading (step a)) {I : σ → ParserState → Prop}
  (h : ∀ ⦃a s⦄, s.Good → I a s → I ((step a).answer s).value ((step a).after s))
include hr h

lemma loopUpTo_keeps (n : Nat) {a : σ} {s : ParserState} (hg : s.Good) (ha : I a s) :
    I ((loopUpTo step n a).answer s) ((loopUpTo step n a).after s) := by
  unfold Parser.answer Parser.after
  induction n generalizing a s with
  | zero => exact ha
  | succ n ih =>
    have hstep := h hg ha
    rcases hs : (step a).answer s with b | b <;> rw [hs] at hstep
    · rw [run_loopUpTo_done hs]
      exact hstep
    · rw [run_loopUpTo_yield hs]
      exact ih ((hr a).follows hg).good hstep

/-- What every step of a loop keeps, whether it goes on or not, the loop keeps. -/
lemma loop_keeps {a : σ} {s : ParserState} (hg : s.Good) (ha : I a s) :
    I ((loop step a).answer s) ((loop step a).after s) :=
  loopUpTo_keeps hr h (s.scanner.budget + 1) hg ha

end

/-! ### Adding trees -/

/-- What a rule can do to the trees of the innermost open node: those that were there stay, and new
ones with `P` come behind them. Unless it is about `ends`, no missing end is reported. -/
structure Grown (ends : Bool) (P : Tree → Prop) (s u : ParserState) : Prop where
  inner : ∃ ys, u.forest.inner = ys ++ s.forest.inner ∧ ∀ t ∈ ys, P t
  missing : ends = false → u.missing = s.missing

namespace Grown

variable {s s' u : ParserState}

lemma refl (s : ParserState) : Grown ends P s s := ⟨⟨[], rfl, by simp⟩, fun _ => rfl⟩

/-- No tree is new. -/
lemma of_same (h : u.forest.inner = s.forest.inner) (hm : u.missing = s.missing) :
    Grown ends P s u :=
  ⟨⟨[], h, by simp⟩, fun _ => hm⟩

lemma trans (h : Grown ends P s s') (h' : Grown ends P s' u) : Grown ends P s u := by
  obtain ⟨⟨ys, h1, h2⟩, h3⟩ := h
  obtain ⟨⟨zs, h4, h5⟩, h6⟩ := h'
  refine ⟨⟨zs ++ ys, by rw [h4, h1, List.append_assoc], fun t ht => ?_⟩,
    fun he => (h6 he).trans (h3 he)⟩
  rcases List.mem_append.1 ht with ht | ht
  · exact h5 t ht
  · exact h2 t ht

lemma mono {Q : Tree → Prop} (h : Grown ends P s u) (hPQ : ∀ t, P t → Q t) : Grown ends Q s u := by
  obtain ⟨⟨ys, h1, h2⟩, h3⟩ := h
  exact ⟨⟨ys, h1, fun t ht => hPQ t (h2 t ht)⟩, h3⟩

lemma of_look {mode : Mode} (h : Grown ends P (s.look mode) u) : Grown ends P s u :=
  ⟨h.inner, h.missing⟩

lemma take (hg : s.Good) {mode : Mode} (h : P (.leaf (s.scanner.ahead mode).token)) :
    Grown ends P s (s.take mode) :=
  ⟨⟨[_], rfl, by simpa using h⟩, fun _ => hg.missing_take mode⟩

end Grown

/-- A rule that adds only trees with `P` to those that are there. -/
class Adds (ends : Bool) (P : Tree → Prop) (p : Parser α) : Prop where
  grown : ∀ ⦃s⦄, s.Good → Grown ends P s (p.after s)

lemma Adds.grow (ends : Bool) (P : Tree → Prop) (p : Parser α) [h : Adds ends P p] {s : ParserState}
    (hg : s.Good) : Grown ends P s (p.after s) :=
  h.grown hg

namespace Adds

lemma mono {Q : Tree → Prop} {p : Parser α} (h : Adds ends P p) (hPQ : ∀ t, P t → Q t) :
    Adds ends Q p :=
  ⟨fun _ hg => (h.grown hg).mono hPQ⟩

instance (a : α) : Adds ends P (pure a : Parser α) := ⟨fun s _ => .refl s⟩

instance (p : Parser α) (f : α → Parser β) [Readable p] [hp : Adds ends P p]
    [hf : ∀ a, Adds ends P (f a)] : Adds ends P (p >>= f) :=
  ⟨fun _ hg => (hp.grown hg).trans ((hf _).grown (Readable.follows p hg).good)⟩

instance (p : Parser α) (b : β) [hp : Adds ends P p] : Adds ends P (p >>= fun _ => pure b) :=
  ⟨fun _ hg => hp.grown hg⟩

lemma seq {p : Parser α} {f : α → Parser β} (hr : Readable p) (hp : Adds ends P p)
    (hf : ∀ a, Adds ends P (f a)) : Adds ends P (p >>= f) :=
  inferInstance

lemma withState {f : ParserState → Parser α} (h : ∀ s, Adds ends P (f s)) :
    Adds ends P (get >>= f) :=
  ⟨fun s hg => (h s).grown hg⟩

instance {c : Prop} [Decidable c] (p q : Parser α) [hp : Adds ends P p] [hq : Adds ends P q] :
    Adds ends P (if c then p else q) := by
  split
  · exact hp
  · exact hq

lemma loopUpTo {step : σ → Parser (ForInStep σ)} (hr : ∀ a, Reading (step a))
    (h : ∀ a, Adds ends P (step a)) (n : Nat) (a : σ) : Adds ends P (loopUpTo step n a) where
  grown s hg := loopUpTo_keeps (I := fun _ u => Grown ends P s u) hr
    (fun a _ hg' hu => hu.trans ((h a).grown hg')) n hg (.refl s)

instance (step : σ → Parser (ForInStep σ)) (a : σ) [hr : ∀ a, Readable (step a)]
    [h : ∀ a, Adds ends P (step a)] : Adds ends P (loop step a) :=
  ⟨fun s hg => (loopUpTo (fun a => (hr a).reads) h (s.scanner.budget + 1) a).grown hg⟩

instance (condition : Parser Bool) (rule : Parser Unit) [Readable condition] [Readable rule]
    [Adds ends P condition] [Adds ends P rule] : Adds ends P (repeatWhile condition rule) := by
  unfold repeatWhile whileStep
  infer_instance

section
variable (mode : Mode)

instance : Adds ends P (peekKind mode) :=
  ⟨fun _ hg => by rw [hg.after_peekKind]; exact .of_same rfl rfl⟩

instance : Adds ends P (peekCommand mode) :=
  ⟨fun _ hg => by rw [hg.after_peekCommand]; exact .of_same rfl rfl⟩

instance : Adds ends P (peekRange mode) :=
  ⟨fun _ hg => by rw [hg.after_peekRange]; exact .of_same rfl rfl⟩

instance (kind : Kind) : Adds ends P (isAt mode kind) := by
  unfold isAt
  infer_instance

instance (kinds : KindSet) : Adds ends P (isAtAny mode kinds) := by
  unfold isAtAny
  infer_instance

instance : Adds ends P (isAtLineEnd mode) := by
  unfold isAtLineEnd
  infer_instance

instance : Adds ends P (isInLine mode) := by
  unfold isInLine
  infer_instance

instance (kinds : KindSet) : Adds ends P (isBefore mode kinds) := by
  unfold isBefore
  infer_instance

lemma errorOf {e : GrammarError} (he : ends = true ∨ e ≠ .missingEndMarker) (m : String) :
    Adds ends P (errorOf mode e m) where
  grown s hg := by
    refine ⟨⟨[], by rw [(Good.errorOf_keeps hg mode e m).2]; rfl, by simp⟩, fun hends => ?_⟩
    rw [hg.after_errorOf]
    split
    · rfl
    · exact missing_report (s.look mode) _ (he.resolve_left (by simp [hends])) m

instance (e : GrammarError) (m : String) : Adds true P (Parser.errorOf mode e m) :=
  .errorOf mode (.inl rfl) m

instance (m : String) : Adds ends P (error mode m) := .errorOf mode (.inr (by simp)) m

lemma reportAt (range : Range) {problem : Option (GrammarError × String)}
    (h : ends = true ∨ ∀ e m, problem = some (e, m) → e ≠ .missingEndMarker) :
    Adds ends P (reportAt range problem) := by
  rcases problem with _ | ⟨e, m⟩
  · exact inferInstanceAs (Adds ends P (pure () : Parser Unit))
  · refine ⟨fun s _ => ⟨⟨[], ?_, by simp⟩, fun hends => ?_⟩⟩ <;> rw [Parser.reportAt, after_errorAt]
    · rw [forest_report]
      rfl
    · exact missing_report s range (h.resolve_left (by simp [hends]) e m rfl) m

instance (range : Range) (problem : Option (GrammarError × String)) :
    Adds true P (Parser.reportAt range problem) := .reportAt range (.inl rfl)

lemma advance (h : ∀ token : Token, P (.leaf token)) : Adds ends P (advance mode) where
  grown s hg := by
    rw [hg.after_advance]
    split
    · exact .of_same rfl rfl
    · exact .take hg (h _)

lemma eat {kind : Kind} (hk : ∀ token : Token, token.kind = kind → P (.leaf token))
    (hne : kind ≠ .eof) : Adds ends P (eat mode kind) where
  grown s hg := by
    rw [hg.after_eat mode hne]
    split
    · next h => exact .take hg (hk _ h)
    · exact .of_same rfl rfl

end

instance : Adds ends P poll :=
  ⟨fun s _ => by
    rcases poll_cases s with ⟨-, h⟩ | ⟨-, -, h⟩ | ⟨-, -, h⟩ <;> rw [h]
    · exact .refl s
    · exact .of_same rfl (by simp [ParserState.missing, ParserState.stop])
    · exact .of_same rfl rfl⟩

instance : Adds ends P isCancelled := ⟨fun s _ => .refl s⟩

end Adds

/-! ### Nodes around a tree -/

/-- The newest tree and what a rule adds to it become a node. -/
lemma inner_nodeAround {k : Kind} {p : Parser Unit} (hr : Readable p) (hp : Adds ends P p)
    {s : ParserState} (hg : s.Good) {t : Tree} {ts : List Tree} (ht : s.forest.inner = t :: ts) :
    ∃ ys, ((nodeAround k p).after s).forest.inner = .node k (t :: ys) :: ts ∧ ∀ c ∈ ys, P c := by
  have hprecede := good_precede hg
  have ho := (hr.reads.follows hprecede).outer
  obtain ⟨ys, h1, h2⟩ := (hp.grown hprecede).inner
  have hforest : s.precede.forest = ⟨[t], ts :: s.forest.outer⟩ := by
    simp [ParserState.precede, Forest.precede, ht]
  rw [hforest] at ho h1
  refine ⟨ys.reverse, ?_, by simpa using h2⟩
  simp [after_nodeAround, ParserState.complete, Forest.complete, Forest.trees, ho, h1]

/-- At least one tree with `P` was added. -/
structure Topped (ends : Bool) (P : Tree → Prop) (s u : ParserState) : Prop where
  inner : ∃ t ts, u.forest.inner = t :: ts ++ s.forest.inner ∧ P t ∧ ∀ c ∈ ts, P c
  missing : ends = false → u.missing = s.missing

namespace Topped

variable {s u : ParserState}

lemma look (h : Topped ends P s u) (mode : Mode) : Topped ends P s (u.look mode) :=
  ⟨h.inner, h.missing⟩

lemma grown (h : Topped ends P s u) : Grown ends P s u := by
  obtain ⟨⟨t, ts, h1, h2, h3⟩, h4⟩ := h
  exact ⟨⟨t :: ts, h1, List.forall_mem_cons.2 ⟨h2, h3⟩⟩, h4⟩

end Topped

/-- A rule that has added a tree if it answers with a kind. -/
class AddsOperand (ends : Bool) (P : Tree → Prop) (p : Parser (Option Kind)) : Prop where
  grown : ∀ ⦃s⦄, s.Good → Grown ends P s (p.after s)
  topped : ∀ ⦃s⦄, s.Good → (p.answer s).isSome = true → Topped ends P s (p.after s)

instance (p : Parser (Option Kind)) [h : AddsOperand ends P p] : Adds ends P p := ⟨h.grown⟩

section
variable {k : Kind} {p : Parser α} [hr : Readable p] {s : ParserState} (hg : s.Good)
include hg

/-- A node is one tree. -/
lemma grown_node (h : P (.node k (p.after s.start).forest.trees)) :
    Grown true P s ((node k p).after s) :=
  ⟨⟨[_], by rw [after_node, hr.reads.inner_complete hg]; rfl, List.forall_mem_singleton.2 h⟩,
    by simp⟩

/-- A node of what a rule adds where it stands. -/
lemma topped_node_of {Q : Tree → Prop} (h : Grown ends Q s.start (p.after s.start))
    (hk : (∀ c ∈ (p.after s.start).forest.trees, Q c) →
      P (.node k (p.after s.start).forest.trees)) :
    Topped ends P s ((node k p).after s) := by
  obtain ⟨⟨ys, h1, h2⟩, h3⟩ := h
  refine ⟨⟨_, [], by rw [after_node, hr.reads.inner_complete hg]; rfl,
    hk fun c hc => h2 c ?_, by simp⟩, h3⟩
  rw [mem_trees, h1] at hc
  simpa [ParserState.start, Forest.start] using hc

end

lemma topped_node {Q : Tree → Prop} {k : Kind} {p : Parser α} (hr : Readable p) (hp : Adds ends Q p)
    (hk : ∀ cs, (∀ c ∈ cs, Q c) → P (.node k cs)) {s : ParserState} (hg : s.Good) :
    Topped ends P s ((node k p).after s) :=
  topped_node_of hg (hp.grown (good_start hg)) (hk _)

lemma grown_nodeOf {p : Parser Kind} [Readable p] {s : ParserState} (hg : s.Good)
    (h : P (.node (p.answer s.start) (p.after s.start).forest.trees)) :
    Grown true P s ((nodeOf p).after s) :=
  grown_node hg h

lemma topped_nodeOf_of {Q : Tree → Prop} {p : Parser Kind} [Readable p] {s : ParserState}
    (hg : s.Good) (h : Grown ends Q s.start (p.after s.start))
    (hk : ∀ cs, (∀ c ∈ cs, Q c) → P (.node (p.answer s.start) cs)) :
    Topped ends P s ((nodeOf p).after s) :=
  topped_node_of hg h (hk _)

lemma topped_nodeOf {Q : Tree → Prop} {p : Parser Kind} (hr : Readable p) (hp : Adds ends Q p)
    {s : ParserState} (hk : ∀ cs, (∀ c ∈ cs, Q c) → P (.node (p.answer s.start) cs)) (hg : s.Good) :
    Topped ends P s ((nodeOf p).after s) :=
  topped_node hr hp hk hg

namespace Adds

/-- A node of what a rule takes. -/
lemma inNode {Q : Tree → Prop} {k : Kind} {p : Parser α} (hr : Readable p) (hp : Adds ends Q p)
    (hk : ∀ cs, (∀ c ∈ cs, Q c) → P (.node k cs)) : Adds ends P (node k p) where
  grown _ hg := (topped_node hr hp hk hg).grown

lemma inNodeIf {k : Kind} {p : Parser Bool} (hr : Readable p) (hp : Adds ends P p)
    (hk : ∀ ⦃s : ParserState⦄, s.Good → p.answer s.start = true →
      (∀ c ∈ (p.after s.start).forest.trees, P c) → P (.node k (p.after s.start).forest.trees)) :
    Adds ends P (nodeIf k p) where
  grown s hg := by
    unfold Parser.after
    rw [run_nodeIf]
    split
    · next hans => exact (topped_node_of hg (hp.grown (good_start hg)) (hk hg hans)).grown
    · obtain ⟨⟨ys, h1, h2⟩, h3⟩ := hp.grown (good_start hg)
      have hinner : (p.after s.start).abandon.forest.inner =
          (p.after s.start).forest.inner ++ s.forest.inner := by
        simp [ParserState.abandon, Forest.abandon, hr.reads.outer_start hg]
      refine ⟨⟨ys, ?_, h2⟩, h3⟩
      rw [hinner, h1, show s.start.forest.inner = [] from rfl, List.append_nil]

end Adds

/-- The tree that was added last and what a rule adds behind it become a node. -/
lemma topped_nodeAround {Q R : Tree → Prop} {k : Kind} {p : Parser Unit} (hr : Readable p)
    (hp : Adds ends R p) (hk : ∀ c cs, P c → (∀ d ∈ cs, R d) → Q (.node k (c :: cs)))
    (hPQ : ∀ t, P t → Q t) {s u : ParserState} (hg : u.Good) (h : Topped ends P s u) :
    Topped ends Q s ((nodeAround k p).after u) := by
  obtain ⟨⟨t, ts, h1, h2, h3⟩, h4⟩ := h
  obtain ⟨ys, h5, h6⟩ := inner_nodeAround (k := k) hr hp hg h1
  have hmissing := (hp.grown (good_precede hg)).missing
  exact ⟨⟨_, ts, h5, hk _ _ h2 h6, fun c hc => hPQ c (h3 c hc)⟩,
    fun he => (hmissing he).trans (h4 he)⟩

namespace AddsOperand

/-- A rule that adds a tree in any case. -/
lemma of_topped {p : Parser (Option Kind)}
    (h : ∀ ⦃s⦄, s.Good → Topped ends P s (p.after s)) : AddsOperand ends P p :=
  ⟨fun _ hg => (h hg).grown, fun _ hg _ => h hg⟩

lemma of_none {p : Parser α} (hp : Adds ends P p) : AddsOperand ends P (p >>= fun _ => pure none) :=
  ⟨fun _ hg => hp.grown hg, fun _ _ h => by simp at h⟩

lemma peekKind {mode : Mode} {f : Kind → Parser (Option Kind)} (h : ∀ k, AddsOperand ends P (f k)) :
    AddsOperand ends P (peekKind mode >>= f) where
  grown s hg := by
    rw [after_bind, hg.answer_peekKind, hg.after_peekKind]
    exact ((h _).grown (hg.look mode)).of_look
  topped s hg hs := by
    rw [answer_bind, hg.answer_peekKind, hg.after_peekKind] at hs
    rw [after_bind, hg.answer_peekKind, hg.after_peekKind]
    have htop := (h _).topped (hg.look mode) hs
    exact ⟨htop.inner, htop.missing⟩

end AddsOperand

end Parser

end DialogueScript

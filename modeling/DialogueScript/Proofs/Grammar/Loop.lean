import DialogueScript.Proofs.Grammar.Rule

/-!
Repetition. A loop whose steps take a token each time they go on ends by itself: the bound on the
number of its steps plays no part in what it does.
-/

namespace DialogueScript

open ParserState

namespace Parser

variable {α β σ : Type}

/-! ### Loops that end -/

/-- A step that goes on makes the budget smaller and keeps `I`. -/
def Advances (I : σ → ParserState → Prop) (step : σ → Parser (ForInStep σ)) : Prop :=
  ∀ ⦃a s⦄, s.Good → I a s → ∀ ⦃b⦄, (step a).answer s = .yield b →
    ((step a).after s).scanner.budget < s.scanner.budget ∧ I b ((step a).after s)

section
variable {step : σ → Parser (ForInStep σ)} {n : Nat} {a b : σ} {s : ParserState}

lemma run_loopUpTo_yield (h : (step a).answer s = .yield b) :
    (loopUpTo step (n + 1) a).run s = (loopUpTo step n b).run ((step a).after s) := by
  have hrun : (step a).run s = (.yield b, (step a).after s) := Prod.ext h rfl
  rw [loopUpTo, StateT.run_bind, hrun]
  rfl

lemma run_loopUpTo_done (h : (step a).answer s = .done b) :
    (loopUpTo step (n + 1) a).run s = (b, (step a).after s) := by
  have hrun : (step a).run s = (.done b, (step a).after s) := Prod.ext h rfl
  rw [loopUpTo, StateT.run_bind, hrun]
  rfl

lemma Reading.loopUpTo (h : ∀ a, Reading (step a)) (n : Nat) (a : σ) :
    Reading (loopUpTo step n a) := by
  induction n generalizing a with
  | zero => exact fun s _ => .refl s
  | succ n ih =>
    intro s hg
    unfold Parser.after
    rcases hs : (step a).answer s with b | b
    · rw [run_loopUpTo_done hs]
      exact h a hg
    · rw [run_loopUpTo_yield hs]
      exact (h a hg).trans (ih b ((h a).follows hg).good)

lemma run_loop : (loop step a).run s = (loopUpTo step (s.scanner.budget + 1) a).run s := rfl

lemma Reading.loop (h : ∀ a, Reading (step a)) (a : σ) : Reading (loop step a) := by
  intro s hg
  exact Reading.loopUpTo h (s.scanner.budget + 1) a hg

/-- **A loop ends with a step that is done**, in a state that its steps lead to. -/
lemma loop_ends {I : σ → ParserState → Prop} (hI : ∀ ⦃a s⦄, I a s → ∀ ⦃b⦄,
      (step a).answer s = .yield b →
        ((step a).after s).scanner.budget < s.scanner.budget ∧ I b ((step a).after s))
    (ha : I a s) : ∃ b u, I b u ∧ (step b).answer u = .done ((loop step a).answer s) ∧
      (loop step a).after s = (step b).after u := by
  unfold Parser.answer Parser.after
  rw [run_loop]
  suffices ∀ n, s.scanner.budget < n → ∃ b u, I b u ∧
      (step b).answer u = .done ((loopUpTo step n a).run s).1 ∧
      ((loopUpTo step n a).run s).2 = (step b).after u from this _ (Nat.lt_succ_self _)
  intro n
  induction n generalizing a s with
  | zero => omega
  | succ n ih =>
    intro hn
    rcases hs : (step a).answer s with b | b
    · refine ⟨a, s, ha, ?_, ?_⟩ <;> rw [run_loopUpTo_done hs]
      exact hs
    · obtain ⟨hlt, hb⟩ := hI ha hs
      rw [run_loopUpTo_yield hs]
      exact ih hb (by omega)

lemma loop_done {I : σ → ParserState → Prop} (h : ∀ a, Reading (step a)) (hI : Advances I step)
    (hg : s.Good) (ha : I a s) : ∃ b u, u.Good ∧ I b u ∧ Reads s u ∧
      (step b).answer u = .done ((loop step a).answer s) ∧
      (loop step a).after s = (step b).after u := by
  obtain ⟨b, u, ⟨h1, h2, h3⟩, h4⟩ := loop_ends (I := fun b u => u.Good ∧ I b u ∧ Reads s u)
    (fun a' s' ⟨h1, h2, h3⟩ b hb => by
      obtain ⟨hlt, hb'⟩ := hI h1 h2 hb
      exact ⟨hlt, ((h a').follows h1).good, hb', h3.trans (h a' h1)⟩) ⟨hg, ha, .refl s⟩
  exact ⟨b, u, h1, h2, h3, h4⟩

lemma run_loop_done (h : (step a).answer s = .done b) :
    (loop step a).run s = (b, (step a).after s) := by
  rw [run_loop, run_loopUpTo_done h]

/-- How often a loop may go on plays no part, as long as that is often enough. -/
lemma run_loopUpTo_eq {I : σ → ParserState → Prop}
    (h : ∀ a ⦃s : ParserState⦄, s.Good → ((step a).after s).Good) (hI : Advances I step)
    (hg : s.Good) (ha : I a s) {m : Nat} (hn : s.scanner.budget < n) (hm : s.scanner.budget < m) :
    (loopUpTo step n a).run s = (loopUpTo step m a).run s := by
  induction n generalizing a s m with
  | zero => omega
  | succ n ih =>
    obtain ⟨m, rfl⟩ : ∃ k, m = k + 1 := ⟨m - 1, by omega⟩
    rcases hs : (step a).answer s with b | b
    · rw [run_loopUpTo_done hs, run_loopUpTo_done hs]
    · obtain ⟨hlt, hb⟩ := hI hg ha hs
      rw [run_loopUpTo_yield hs, run_loopUpTo_yield hs]
      exact ih (h a hg) hb (by omega) (by omega)

/-- A loop that goes on is the same loop behind its first step. -/
lemma run_loop_yield {I : σ → ParserState → Prop}
    (h : ∀ a ⦃s : ParserState⦄, s.Good → ((step a).after s).Good) (hI : Advances I step)
    (hg : s.Good) (ha : I a s) (hs : (step a).answer s = .yield b) :
    (loop step a).run s = (loop step b).run ((step a).after s) := by
  obtain ⟨hlt, hb⟩ := hI hg ha hs
  rw [run_loop, run_loopUpTo_yield hs, run_loop]
  exact run_loopUpTo_eq h hI (h a hg) hb hlt (Nat.lt_succ_self _)

/-- What a loop does behind a step. -/
def proceed (step : σ → Parser (ForInStep σ)) : ForInStep σ → Parser σ
  | .yield b => loop step b
  | .done b => pure b

/-- A loop is its first step and what it does behind that. -/
lemma run_loop_proceed {I : σ → ParserState → Prop}
    (h : ∀ a ⦃s : ParserState⦄, s.Good → ((step a).after s).Good) (hI : Advances I step)
    (hg : s.Good) (ha : I a s) : (loop step a).run s = (step a >>= proceed step).run s := by
  have hbind : (step a >>= proceed step).run s =
      (proceed step ((step a).answer s)).run ((step a).after s) := rfl
  rw [hbind]
  rcases hs : (step a).answer s with b | b
  · rw [run_loop_done hs]
    rfl
  · exact run_loop_yield h hI hg ha hs

/-- A loop takes at least what its first step takes. -/
lemma loop_budget_le (h : ∀ a, Reading (step a)) (hg : s.Good) (a : σ) :
    ((loop step a).after s).scanner.budget ≤ ((step a).after s).scanner.budget := by
  unfold Parser.after
  rw [run_loop]
  rcases hs : (step a).answer s with b | b
  · rw [run_loopUpTo_done hs]
    exact le_rfl
  · rw [run_loopUpTo_yield hs]
    exact ((Reading.loopUpTo h s.scanner.budget b).follows ((h a).follows hg).good).budget_le

lemma loop_first_done (h : (step a).answer s = .done b) {Q : ParserState → Prop}
    (hQ : Q ((step a).after s)) : Q ((loop step a).after s) := by
  unfold Parser.after at hQ ⊢
  rw [run_loop, run_loopUpTo_done h]
  exact hQ

end

lemma Matches.loop {I I' : σ → ParserState → Prop} {step step' : σ → Parser (ForInStep σ)}
    (hr : ∀ a, Reading (step a)) (hm : ∀ a, Matches (I a) (step a) (I' a) (step' a))
    (hI : Advances I step) (hI' : Advances I' step') (a : σ) :
    Matches (I a) (loop step a) (I' a) (loop step' a) := by
  intro π s s' h ha ha' hs
  unfold Parser.answer Parser.after at *
  rw [run_loop] at hs ⊢
  rw [run_loop]
  suffices ∀ n n', s.scanner.budget < n → s'.scanner.budget < n' →
      π.sees ((loopUpTo step n a).run s).2.scanner →
      ((loopUpTo step n a).run s).1 = ((loopUpTo step' n' a).run s').1 ∧
      InStep π ((loopUpTo step n a).run s).2 ((loopUpTo step' n' a).run s').2 from
    this _ _ (Nat.lt_succ_self _) (Nat.lt_succ_self _) hs
  clear hs
  intro n
  induction n generalizing a s s' with
  | zero => omega
  | succ n ih =>
    rintro (_ | n') hn hn' hs
    · omega
    · have hmid := ((hr a).follows h.good).good
      rcases hstep : (step a).answer s with b | b
      · rw [run_loopUpTo_done hstep] at hs ⊢
        obtain ⟨h1, h2⟩ := hm a h ha ha' hs
        rw [run_loopUpTo_done (h1 ▸ hstep)]
        exact ⟨rfl, h2⟩
      · rw [run_loopUpTo_yield hstep] at hs ⊢
        obtain ⟨h1, h2⟩ := hm a h ha ha' ((Reading.loopUpTo hr n b).sees hmid hs)
        have hstep' : (step' a).answer s' = .yield b := h1 ▸ hstep
        obtain ⟨h3, h4⟩ := hI h.good ha hstep
        obtain ⟨h5, h6⟩ := hI' h.good' ha' hstep'
        rw [run_loopUpTo_yield hstep']
        exact ih b h2 h4 h6 n' (by omega) (by omega) hs

/-- The rule of a loop that needs no invariant. -/
lemma Rule.loop {step : σ → Parser (ForInStep σ)} (h : ∀ a, Rule (step a))
    (hI : Advances (fun _ => Any) step) (a : σ) : Rule (loop step a) where
  reads := .loop (fun a => (h a).reads) a
  agrees := .loop (fun a => (h a).reads) (fun a => (h a).agrees) hI hI a

/-! ### Steps that take a token -/

/-- A rule that takes a token if one stands next in the given mode. -/
class Consumes (mode : Mode) (p : Parser α) : Prop where
  budget_lt : ∀ ⦃s⦄, s.Good → s.kindAt mode ≠ .eof → (p.after s).scanner.budget < s.scanner.budget

lemma Consumes.lt (mode : Mode) (p : Parser α) [h : Consumes mode p] {s : ParserState} (hg : s.Good)
    (hk : s.kindAt mode ≠ .eof) : (p.after s).scanner.budget < s.scanner.budget :=
  h.budget_lt hg hk

lemma budget_look (s : ParserState) (mode : Mode) :
    (s.look mode).scanner.budget = s.scanner.budget := by
  simp [ParserState.look, Scanner.looking, Scanner.budget]

lemma Rule.budget_le (p : Parser α) [Rule p] {s : ParserState} (hg : s.Good) :
    (p.after s).scanner.budget ≤ s.scanner.budget :=
  (Rule.follows p hg).budget_le

instance (mode : Mode) : Consumes mode (advance mode) where
  budget_lt s hg hk := by
    rw [hg.after_advance, if_neg hk]
    have ht := (hg.scanner.takes mode).budget_lt (hg.scanner.settle mode) hk
    simp only [Scanner.budget, Scanner.settle_rest, Scanner.settle_stack] at ht
    exact ht

instance (mode : Mode) (p : Parser α) (f : α → Parser β) [hp : Consumes mode p] [Rule p]
    [∀ a, Rule (f a)] : Consumes mode (p >>= f) where
  budget_lt _ hg hk :=
    lt_of_le_of_lt (Rule.budget_le (f _) (Rule.good p hg)) (hp.budget_lt hg hk)

lemma Consumes.seq {mode : Mode} {p : Parser α} {f : α → Parser β} (hp : Consumes mode p)
    (hr : Rule p) (hf : ∀ a, Rule (f a)) : Consumes mode (p >>= f) :=
  inferInstance

instance (mode : Mode) {c : Prop} [Decidable c] (p q : Parser α) [hp : Consumes mode p]
    [hq : Consumes mode q] : Consumes mode (if c then p else q) := by
  split
  · exact hp
  · exact hq

instance (mode : Mode) (k : Kind) (p : Parser α) [hp : Consumes mode p] :
    Consumes mode (node k p) where
  budget_lt _ hg hk := hp.budget_lt (good_start hg) hk

instance (mode : Mode) (p : Parser Kind) [hp : Consumes mode p] : Consumes mode (nodeOf p) where
  budget_lt _ hg hk := hp.budget_lt (good_start hg) hk

lemma Consumes.inNodeOf {mode : Mode} {p : Parser Kind} (hp : Consumes mode p) :
    Consumes mode (nodeOf p) :=
  inferInstance

instance (mode : Mode) (k : Kind) (p : Parser Unit) [hp : Consumes mode p] :
    Consumes mode (nodeAround k p) where
  budget_lt _ hg hk := hp.budget_lt (good_precede hg) hk

instance (mode : Mode) (step : σ → Parser (ForInStep σ)) (a : σ) [h : Consumes mode (step a)]
    [hs : ∀ a, Rule (step a)] : Consumes mode (loop step a) where
  budget_lt _ hg hk :=
    lt_of_le_of_lt (loop_budget_le (fun a => (hs a).reads) hg a) (h.budget_lt hg hk)

/-- Reporting an error takes nothing. -/
lemma Good.errorOf_keeps {s : ParserState} (hg : s.Good) (mode : Mode) (e : GrammarError)
    (m : String) :
    ((errorOf mode e m).after s).scanner = (s.look mode).scanner ∧
      ((errorOf mode e m).after s).forest = s.forest := by
  rw [hg.after_errorOf]
  split
  · exact ⟨rfl, rfl⟩
  · exact ⟨scanner_report .., forest_report ..⟩

lemma Good.kindAt_errorOf {s : ParserState} (hg : s.Good) (mode : Mode) (e : GrammarError)
    (m : String) : ((errorOf mode e m).after s).kindAt mode = s.kindAt mode ∧
      ((errorOf mode e m).after s).scanner.budget = s.scanner.budget := by
  rw [kindAt, (Good.errorOf_keeps hg mode e m).1]
  exact ⟨kindAt_look s mode, budget_look s mode⟩

lemma Good.commandAt_errorOf {s : ParserState} (hg : s.Good) (mode : Mode) (e : GrammarError)
    (m : String) : ((errorOf mode e m).after s).commandAt mode = s.commandAt mode := by
  rw [commandAt, (Good.errorOf_keeps hg mode e m).1]
  exact commandAt_look s mode

lemma Good.answer_expect {s : ParserState} (hg : s.Good) (mode : Mode) (kind : Kind) (m : String) :
    (expect mode kind m).answer s = decide (s.kindAt mode = kind) := by
  simp only [expect, answer_bind, hg.answer_eat, answer_ite, answer_pure, decide_eq_true_eq]
  split <;> simp [*]

lemma Good.after_expect {s : ParserState} (hg : s.Good) (mode : Mode) {kind : Kind}
    (hne : kind ≠ .eof) (m : String) : (expect mode kind m).after s =
      if s.kindAt mode = kind then s.take mode else (error mode m).after (s.look mode) := by
  simp only [expect, after_bind, hg.answer_eat, hg.after_eat mode hne, after_ite, after_pure,
    decide_eq_true_eq]
  split <;> rfl

lemma Consumes.errorOf {mode : Mode} {f : Unit → Parser α} (hf : Consumes mode (f ()))
    (e : GrammarError) (m : String) : Consumes mode (errorOf mode e m >>= f) where
  budget_lt s hg hk := by
    have hgood := Rule.good (Parser.errorOf mode e m) hg
    obtain ⟨h1, h2⟩ := Good.kindAt_errorOf hg mode e m
    exact lt_of_lt_of_eq (hf.budget_lt hgood (fun h => hk (h1 ▸ h))) h2

instance (mode : Mode) (e : GrammarError) (m : String) (f : Unit → Parser α)
    [hf : Consumes mode (f ())] : Consumes mode (errorOf mode e m >>= f) :=
  .errorOf hf e m

instance (mode : Mode) (m : String) (f : Unit → Parser α) [hf : Consumes mode (f ())] :
    Consumes mode (error mode m >>= f) :=
  .errorOf hf _ m

/-- A step of a loop that takes a token whenever it goes on, in a state with `P`. -/
def Goes (P : ParserState → Prop) (p : Parser (ForInStep σ)) : Prop :=
  ∀ ⦃s⦄, s.Good → P s → ∀ ⦃b⦄, p.answer s = .yield b →
    (p.after s).scanner.budget < s.scanner.budget

lemma Goes.advances {step : σ → Parser (ForInStep σ)} (h : ∀ a, Goes Any (step a)) :
    Advances (fun _ => Any) step :=
  fun a _ hg _ _ hb => ⟨h a hg trivial hb, trivial⟩

lemma goes_done {P : ParserState → Prop} (a : σ) : Goes P (pure (.done a)) := by
  intro s _ _ b hb
  simp at hb

lemma Goes.of_consumes {P : ParserState → Prop} {p : Parser (ForInStep σ)} (mode : Mode)
    [h : Consumes mode p] (hP : ∀ s, P s → s.kindAt mode ≠ .eof) : Goes P p :=
  fun _ hg hs _ _ => h.budget_lt hg (hP _ hs)

lemma Goes.peekKind {mode : Mode} {f : Kind → Parser (ForInStep σ)}
    (h : ∀ k, Goes (·.kindAt mode = k) (f k)) : Goes Any (peekKind mode >>= f) := by
  intro s hg _ b hb
  rw [answer_bind, hg.answer_peekKind, hg.after_peekKind] at hb
  rw [after_bind, hg.answer_peekKind, hg.after_peekKind]
  have := h (s.kindAt mode) (hg.look mode) (kindAt_look s mode) hb
  rwa [budget_look] at this

lemma Goes.of_kinds (mode : Mode) {p : Parser (ForInStep σ)} (h : ∀ k, Goes (·.kindAt mode = k) p) :
    Goes Any p :=
  fun _ hg _ => h _ hg rfl

/-- A command that stands next starts with a token. -/
lemma Goes.ofCommand {mode : Mode} {f : Option Kind → Parser (ForInStep σ)}
    (hnone : Goes Any (f none)) (h : ∀ k, Goes (·.kindAt mode = .commandStart) (f (some k))) :
    Goes Any (Parser.peekCommand mode >>= f) := by
  intro s hg _ b hb
  have hlook := hg.look mode
  rw [answer_bind, hg.answer_peekCommand, hg.after_peekCommand] at hb
  rw [after_bind, hg.answer_peekCommand, hg.after_peekCommand, ← budget_look s mode]
  rcases hc : s.commandAt mode with _ | k <;> rw [hc] at hb
  · exact hnone hlook trivial hb
  · exact h k hlook ((kindAt_look s mode).trans (kindAt_of_commandAt hc)) hb

section
variable {mode : Mode} {k : Kind} {f : Bool → Parser (ForInStep σ)}

lemma Goes.peekCommand {g : Option Kind → Parser (ForInStep σ)}
    (h : ∀ keyword, Goes (·.kindAt mode = k) (g keyword)) :
    Goes (·.kindAt mode = k) (peekCommand mode >>= g) := by
  rintro s hg rfl b hb
  rw [answer_bind, hg.answer_peekCommand, hg.after_peekCommand] at hb
  rw [after_bind, hg.answer_peekCommand, hg.after_peekCommand, ← budget_look s mode]
  exact h _ (hg.look mode) (kindAt_look s mode) hb

lemma Goes.isAt {kind : Kind} (h : Goes (·.kindAt mode = k) (f (decide (k = kind)))) :
    Goes (·.kindAt mode = k) (isAt mode kind >>= f) := by
  rintro s hg rfl b hb
  rw [answer_bind, hg.answer_isAt, hg.after_isAt] at hb
  rw [after_bind, hg.answer_isAt, hg.after_isAt, ← budget_look s mode]
  exact h (hg.look mode) (kindAt_look s mode) hb

lemma Goes.isAtAny {kinds : KindSet} (h : Goes (·.kindAt mode = k) (f (kinds.contains k))) :
    Goes (·.kindAt mode = k) (isAtAny mode kinds >>= f) := by
  rintro s hg rfl b hb
  rw [answer_bind, hg.answer_isAtAny, hg.after_isAtAny] at hb
  rw [after_bind, hg.answer_isAtAny, hg.after_isAtAny, ← budget_look s mode]
  exact h (hg.look mode) (kindAt_look s mode) hb

end

lemma Goes.bind {p : Parser α} {f : α → Parser (ForInStep σ)} [Rule p]
    (h : ∀ a, Goes Any (f a)) : Goes Any (p >>= f) := by
  intro s hg _ b hb
  exact lt_of_lt_of_le (h _ (Rule.good p hg) trivial hb) (Rule.budget_le p hg)

lemma Goes.ite {P : ParserState → Prop} {c : Prop} [Decidable c] {p q : Parser (ForInStep σ)}
    (hp : Goes P p) (hq : Goes P q) : Goes P (if c then p else q) := by
  split
  · exact hp
  · exact hq

instance (condition : Parser Bool) (rule : Parser Unit) [Rule condition] [Rule rule] :
    Rule (whileStep condition rule) := by
  unfold whileStep
  infer_instance

section
variable {condition : Parser Bool} {rule : Parser Unit} (mode : Mode) [hr : Consumes mode rule]
  (hlook : ∀ ⦃s⦄, s.Good → condition.after s = s.look mode)
  (h : ∀ ⦃s⦄, s.Good → condition.answer s = true → s.kindAt mode ≠ .eof)
include hlook h

/-- A repetition whose condition looks at the token that is taken next. -/
lemma advances_whileStep :
    Advances (fun _ => Any) fun _ : Unit => whileStep condition rule := by
  refine fun a s hg _ b hb => ⟨?_, trivial⟩
  simp only [whileStep, answer_bind, answer_ite, answer_pure] at hb
  split at hb
  · next hc =>
    simp only [whileStep, after_bind, hc, if_true, after_pure, hlook hg]
    rw [← budget_look s mode]
    exact hr.budget_lt (hg.look mode) (by rw [kindAt_look]; exact h hg hc)
  · simp at hb

lemma Rule.repeatWhile [Rule condition] [Rule rule] : Rule (repeatWhile condition rule) :=
  Rule.loop (fun _ => inferInstance) (advances_whileStep mode hlook h) ()

lemma repeatWhile_done [Rule condition] [Rule rule] {s : ParserState} (hg : s.Good) :
    ∃ u, u.Good ∧ Reads s u ∧ condition.answer u = false ∧
      (Parser.repeatWhile condition rule).after s = u.look mode := by
  have hstep : ∀ _ : Unit, Rule (whileStep condition rule) := fun _ => inferInstance
  obtain ⟨-, u, h1, -, h2, h3, h4⟩ :=
    loop_done (a := ()) (fun a => (hstep a).reads) (advances_whileStep mode hlook h) hg trivial
  refine ⟨u, h1, h2, ?_⟩
  simp only [whileStep, answer_bind, answer_ite, answer_pure] at h3
  split at h3
  · simp at h3
  · next hc =>
    refine ⟨by simpa using hc, h4.trans ?_⟩
    simp only [whileStep, after_bind, hc, Bool.false_eq_true, if_false, after_pure, hlook h1]

end

end Parser

end DialogueScript

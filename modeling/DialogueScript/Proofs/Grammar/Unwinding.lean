import DialogueScript.Proofs.Grammar.Inline
import DialogueScript.Proofs.Scanner.Closing

/-!
Two readings side by side: one of a text that ends with a whole line, the other of the same text
with a title behind it. Up to the last line they go through the same states. Behind it the first
stands at the end of the text and the other in front of the title, and all that is left to do inside
a body is to close what is open, which both do in the same way.
-/

set_option synthInstance.maxSize 512

namespace DialogueScript

lemma Kind.ne_eof_of_isStructural {k : Kind} (h : k.isStructural = true) : k ≠ .eof := by
  rintro rfl
  exact absurd h (by decide)

lemma Kind.ne_titleKw_of_isStructural {k : Kind} (h : k.isStructural = true) : k ≠ .titleKw := by
  rintro rfl
  exact absurd h (by decide)

/-- The one text is over where a title follows in the other. -/
structure Change.Titled (c : Change) : Prop where
  old : c.oldTail = []
  new : Text.isTitled c.newTail = true

/-- No rule makes a line that closes all blocks close fewer of them. -/
lemma Reads.closesAll {s₀ s : ParserState} (h : Reads s₀ s) (hg : s₀.Good)
    (hc : s₀.scanner.ClosesAll) : s.scanner.ClosesAll := by
  refine h.keeps (I := fun u _ => u.ClosesAll) hg hc (fun _ _ mode _ hu => hu.settle mode) ?_
  intro u _ mode hu hc
  have hafter : (u.after mode).ClosesAll := (hu.takes mode).closesAll (hc.settle mode)
  exact hafter

namespace ParserState

open DialogueScript.Parser

/-! ### Where the two readings stand -/

/-- Both stand on the same line of the text, which ends with a break. -/
structure Within (c : Change) (s s' : ParserState) : Prop where
  agree : Agree c s s'
  onLine : s.scanner.OnLine
  terminated : Text.isTerminated s.scanner.rest = true
  closesAll : s.scanner.ClosesAll

/-- One stands behind the last line, the other in front of the title. -/
structure Closing (c : Change) (s s' : ParserState) : Prop where
  good : s.Good
  good' : s'.Good
  ending : s.scanner.Ending c.newTail c.oldBase c.newBase s'.scanner
  inner : s.forest.inner = s'.forest.inner
  quiet : s.Quiet
  quiet' : s'.Quiet

/-- Both stand at the start of a line, or behind the last one. -/
def Paired (c : Change) (s s' : ParserState) : Prop :=
  (Within c s s' ∧ s.scanner.lineStart = true) ∨ Closing c s s'

variable {c : Change} {s s' : ParserState}

/-- A title is out of view as long as the end of the text is. -/
lemma sees_of_unseen (hc : c.Titled) (h : 0 < s.scanner.unseen) : s.Sees c :=
  .inr (.inr ⟨by simpa [hc.old] using h, by simp [hc.old], Text.head?_of_isTitled hc.new⟩)

namespace Within

lemma look (h : Within c s s') (hc : c.Titled) (mode : Mode) :
    Within c (s.look mode) (s'.look mode) ∧ s.kindAt mode = s'.kindAt mode ∧
      s.commandAt mode = s'.commandAt mode := by
  have hline : (s.look mode).scanner.OnLine := h.onLine.looking mode
  have hsees : (s.look mode).Sees c := sees_of_unseen hc hline.unseen_pos
  refine ⟨⟨h.agree.look hsees, hline, ?_, h.closesAll.settle mode⟩, h.agree.kindAt_eq hsees,
    h.agree.commandAt_eq hsees⟩
  rw [ParserState.look, Scanner.looking, Scanner.settle_rest]
  exact h.terminated

lemma setForest (h : Within c s s') {f f' : Forest} {r r' : Record} (hf : f.inner = f'.inner) :
    Within c { s with forest := f, record := r } { s' with forest := f', record := r' } :=
  ⟨h.agree.setForest hf, h.onLine, h.terminated, h.closesAll⟩

end Within

namespace Closing

lemma setForest (h : Closing c s s') {f f' : Forest} {r r' : Record} (hf : f.inner = f'.inner) :
    Closing c { s with forest := f, record := r } { s' with forest := f', record := r' } :=
  ⟨⟨h.good.scanner, h.good.silent⟩, ⟨h.good'.scanner, h.good'.silent⟩, h.ending, hf,
    ⟨h.quiet.never, h.quiet.running⟩, ⟨h.quiet'.never, h.quiet'.running⟩⟩

lemma look (h : Closing c s s') (hc : c.Titled) (mode : Mode) :
    Closing c (s.look mode) (s'.look mode) := by
  obtain ⟨⟨h1, h2, h3, h4, h5, h6⟩, h7, h8, h9, h10⟩ := h.ending.settle hc.new mode
  exact ⟨h.good.look mode, h.good'.look mode, ⟨⟨h1, h2, h3, h4, h5, h6⟩, h7, h8, h9, h10⟩, h.inner,
    ⟨h.quiet.never, h.quiet.running⟩, ⟨h.quiet'.never, h.quiet'.running⟩⟩

/-- What can stand next: the same token that closes a block or is a blank line, or the end of the
text here and the title there. -/
lemma kindAt_cases (h : Closing c s s') (hc : c.Titled) {mode : Mode}
    (hm : mode.isIndentSensitive = true) :
    (s.kindAt mode = s'.kindAt mode ∧ (s.kindAt mode = .dedent ∨ s.kindAt mode = .blankLine) ∧
      Closing c (s.take mode) (s'.take mode)) ∨
    (s.kindAt mode = .eof ∧ s'.kindAt mode = .titleKw) := by
  rcases h.ending.ahead_cases hc.new h.good.scanner h.good'.scanner hm with ⟨h1, h2, h3⟩ | h1
  · refine .inl ⟨by rw [kindAt, h1.token, kindAt], h2, h.good.take mode, h.good'.take mode, ?_, ?_,
      ⟨h.quiet.never, h.quiet.running⟩, ⟨h.quiet'.never, h.quiet'.running⟩⟩
    · obtain ⟨⟨g1, g2, g3, g4, g5, g6⟩, g7, g8, g9, g10⟩ := h3
      exact ⟨⟨g1, g2, g3, g4, g5, g6⟩, g7, g8, g9, g10⟩
    · simp only [ParserState.take, Forest.add, h1.token, h.inner]
  · exact .inr h1

lemma commandAt_eq (h : Closing c s s') (hc : c.Titled) {mode : Mode}
    (hm : mode.isIndentSensitive = true) : s.commandAt mode = none ∧ s'.commandAt mode = none := by
  have hnone : ∀ u : ParserState, u.kindAt mode ≠ .commandStart → u.commandAt mode = none := by
    intro u hu
    rw [commandAt, Scanner.commandAhead, ← kindAt, if_neg hu]
  rcases h.kindAt_cases hc hm with ⟨h1, h2, -⟩ | ⟨h1, h2⟩
  · rw [h1] at h2
    exact ⟨hnone s (by rcases h2 with h | h <;> simp [h1, h]),
      hnone s' (by rcases h2 with h | h <;> simp [h])⟩
  · exact ⟨hnone s (by simp [h1]), hnone s' (by simp [h2])⟩

end Closing

namespace Paired

section
variable (h : Paired c s s')
include h

lemma good : s.Good := h.elim (·.1.agree.good) (·.good)

lemma good' : s'.Good := h.elim (·.1.agree.good') (·.good')

lemma quiet : s.Quiet := h.elim (·.1.agree.quiet) (·.quiet)

lemma quiet' : s'.Quiet := h.elim (·.1.agree.quiet') (·.quiet')

lemma inner : s.forest.inner = s'.forest.inner := h.elim (·.1.agree.inner) (·.inner)

lemma lineStart : s.scanner.lineStart = true := h.elim (·.2) (·.ending.lineStart)

lemma closesAll : s.scanner.ClosesAll := h.elim (·.1.closesAll) (·.ending.closesAll)

lemma config : s.scanner.config = s'.scanner.config :=
  h.elim (·.1.agree.scanner.config) (·.ending.alike.config)

lemma setForest {f f' : Forest} {r r' : Record} (hf : f.inner = f'.inner) :
    Paired c { s with forest := f, record := r } { s' with forest := f', record := r' } :=
  h.imp (fun h => ⟨h.1.setForest hf, h.2⟩) (·.setForest hf)

lemma complete {level : List Tree} {o o' : List (List Tree)} (ho : s.forest.outer = level :: o)
    (ho' : s'.forest.outer = level :: o') (k : Kind) : Paired c (s.complete k) (s'.complete k) := by
  refine h.setForest ?_
  simp [Forest.complete, ho, ho', Forest.trees, h.inner]

end

section
variable (h : Paired c s s') (hc : c.Titled) {mode : Mode}
include h hc

lemma look (hm : mode.isIndentSensitive = true) : Paired c (s.look mode) (s'.look mode) := by
  rcases h with ⟨h, hstart⟩ | h
  · refine .inl ⟨(h.look hc mode).1, ?_⟩
    simp [ParserState.look, Scanner.looking, Scanner.settle_of_sensitive _ hm, hstart]
  · exact .inr (h.look hc mode)

lemma commandAt_eq (hm : mode.isIndentSensitive = true) :
    s.commandAt mode = s'.commandAt mode := by
  rcases h with ⟨h, -⟩ | h
  · exact (h.look hc mode).2.2
  · obtain ⟨h1, h2⟩ := h.commandAt_eq hc hm
    rw [h1, h2]

/-- The same kinds stand next, but for the end of the text and the title. -/
lemma kindAt_cases (hm : mode.isIndentSensitive = true) :
    s.kindAt mode = s'.kindAt mode ∨ (s.kindAt mode = .eof ∧ s'.kindAt mode = .titleKw) := by
  rcases h with ⟨h, -⟩ | h
  · exact .inl (h.look hc mode).2.1
  · exact (h.kindAt_cases hc hm).imp_left (·.1)

lemma kindAt_iff (hm : mode.isIndentSensitive = true) {k : Kind} (h1 : k ≠ .eof)
    (h2 : k ≠ .titleKw) :
    s.kindAt mode = k ↔ s'.kindAt mode = k := by
  rcases h.kindAt_cases hc hm with heq | ⟨h3, h4⟩
  · rw [heq]
  · rw [h3, h4]
    exact iff_of_false (Ne.symm h1) (Ne.symm h2)

/-- Behind the last line there is nothing but what closes blocks. -/
lemma within (hm : mode.isIndentSensitive = true) (h1 : s.kindAt mode ≠ .dedent)
    (h2 : s.kindAt mode ≠ .blankLine) (h3 : s.kindAt mode ≠ .eof) :
    Within c s s' ∧ s.scanner.lineStart = true := by
  rcases h with h | h
  · exact h
  · rcases h.kindAt_cases hc hm with ⟨-, h4 | h4, -⟩ | ⟨h4, -⟩
    · exact absurd h4 h1
    · exact absurd h4 h2
    · exact absurd h4 h3

/-- The tokens that the indentation asks for are taken in step. -/
lemma take (hm : mode.isIndentSensitive = true) (hk : (s.kindAt mode).isStructural = true) :
    Paired c (s.take mode) (s'.take mode) := by
  rcases h with ⟨h, -⟩ | h
  · have hg := h.agree.good.scanner
    have htakes := hg.takes mode
    have hline : (s.take mode).scanner.OnLine := by
      have : (s.scanner.after mode).OnLine := h.onLine.after hg (fun h' => by
        rw [kindAt, h'] at hk
        exact absurd hk (by decide))
      exact this
    have hsees := sees_of_unseen hc hline.unseen_pos
    refine .inl ⟨⟨h.agree.take hsees (Kind.ne_eof_of_isStructural hk), hline, ?_, ?_⟩,
      (htakes.of_structural (hg.settle mode) hk).1⟩
    · exact Text.isTerminated_suffix ⟨_, (h.agree.good.rest_take mode).symm⟩ h.terminated
    · have : (s.scanner.after mode).ClosesAll :=
        htakes.closesAll (h.closesAll.settle mode)
      exact this
  · rcases h.kindAt_cases hc hm with ⟨-, -, h⟩ | ⟨h, -⟩
    · exact .inr h
    · exact absurd h (Kind.ne_eof_of_isStructural hk)

end

/-- Where nothing of the line has been looked at, it is another line or the end. -/
lemma of_untouched (hc : c.Titled) (h : Agree c s s') (hfresh : s.scanner.Untouched)
    (hterm : Text.isTerminated s.scanner.rest = true) (hcloses : s.scanner.ClosesAll) :
    Paired c s s' := by
  have hstart : s.scanner.lineStart = true := by
    simp only [Scanner.Untouched, Scanner.isFresh, Bool.and_eq_true] at hfresh
    exact hfresh.1.1
  by_cases hover : contentOf s.scanner.rest = []
  · have halike := h.scanner
    rw [hc.old] at halike
    exact .inr ⟨h.good, h.good', ⟨halike, hstart, hover, hterm, hcloses⟩, h.inner,
      h.quiet, h.quiet'⟩
  · refine .inl ⟨⟨h, ?_, hterm, hcloses⟩, hstart⟩
    rw [Scanner.OnLine, Scanner.beyond, if_pos hstart]
    refine Nat.pos_of_ne_zero fun hzero => hover (Text.eq_nil_of_isTerminated ?_ hzero)
    exact Text.isTerminated_suffix ⟨_, concat_lineTrivia s.scanner.rest⟩ hterm

end Paired

/-- Both stand at the start of a line or behind the last one, under a condition for each. -/
def Facing (c : Change) (P P' : ParserState → Prop) (s s' : ParserState) : Prop :=
  Paired c s s' ∧ P s ∧ P' s'

end ParserState

namespace Parser

open ParserState
open Scanner (OnLine Untouched NoBreak AtKeyword Anywhere)

variable {α β σ : Type} {c : Change} {s s' : ParserState}

/-! ### Rules in step -/

/-- In states that are in the relation `R`, two rules give the same answer and lead to states in the
relation `S`. -/
def Relates (R : ParserState → ParserState → Prop) (p p' : Parser α)
    (S : α → ParserState → ParserState → Prop) : Prop :=
  ∀ ⦃s s'⦄, R s s' → p.answer s = p'.answer s' ∧ S (p.answer s) (p.after s) (p'.after s')

namespace Relates

variable {R R₁ : ParserState → ParserState → Prop} {S S₁ : α → ParserState → ParserState → Prop}
  {p p' q q' : Parser α}

lemma mono (h : Relates R p p' S) (hR : ∀ s s', R₁ s s' → R s s')
    (hS : ∀ a s s', S a s s' → S₁ a s s') : Relates R₁ p p' S₁ := by
  intro s s' hs
  obtain ⟨h1, h2⟩ := h (hR s s' hs)
  exact ⟨h1, hS _ _ _ h2⟩

lemma pure {a : α} (h : ∀ s s', R s s' → S a s s') :
    Relates R (Pure.pure a : Parser α) (Pure.pure a) S :=
  fun s s' hs => ⟨rfl, h s s' hs⟩

lemma bind {T : β → ParserState → ParserState → Prop} {f g : α → Parser β} (hp : Relates R p p' S)
    (hf : ∀ a, Relates (S a) (f a) (g a) T) : Relates R (p >>= f) (p' >>= g) T := by
  intro s s' hs
  obtain ⟨h1, h2⟩ := hp hs
  rw [answer_bind, answer_bind, after_bind, after_bind, ← h1]
  exact hf _ h2

lemma ite {b : Prop} [Decidable b] (hp : b → Relates R p p' S) (hq : ¬ b → Relates R q q' S) :
    Relates R (if b then p else q) (if b then p' else q') S := by
  split
  · exact hp ‹_›
  · exact hq ‹_›

/-- Only what one of the readings comes to has to be known. -/
lemma also (h : Relates R p p' S) {Q : α → ParserState → Prop}
    (hQ : ∀ s s', R s s' → Q (p.answer s) (p.after s)) :
    Relates R p p' (fun a s s' => S a s s' ∧ Q a s) := by
  intro s s' hs
  obtain ⟨h1, h2⟩ := h hs
  exact ⟨h1, h2, hQ s s' hs⟩

/-- Nodes are closed around the same trees. -/
lemma nodeOf {P P' : ParserState → Prop} {p p' : Parser Kind}
    (h : Relates (Facing c P P') p p' fun _ => Paired c) (hr : Reading p) (hr' : Reading p')
    (hP : ∀ s, P s → P s.start) (hP' : ∀ s, P' s → P' s.start) :
    Relates (Facing c P P') (Parser.nodeOf p) (Parser.nodeOf p') fun _ => Paired c := by
  intro s s' hs
  have hstart : Facing c P P' s.start s'.start := ⟨hs.1.setForest rfl, hP s hs.2.1, hP' s' hs.2.2⟩
  obtain ⟨h1, h2⟩ := h hstart
  have ho' := hr'.outer_start hs.1.good'
  rw [← hs.1.inner] at ho'
  refine ⟨h1, ?_⟩
  rw [after_nodeOf, after_nodeOf, ← h1]
  exact h2.complete (hr.outer_start hs.1.good) ho' _

lemma node {P P' : ParserState → Prop} {k : Kind}
    (h : Relates (Facing c P P') p p' fun _ => Paired c) (hr : Reading p) (hr' : Reading p')
    (hP : ∀ s, P s → P s.start) (hP' : ∀ s, P' s → P' s.start) :
    Relates (Facing c P P') (Parser.node k p) (Parser.node k p') fun _ => Paired c := by
  intro s s' hs
  have hstart : Facing c P P' s.start s'.start := ⟨hs.1.setForest rfl, hP s hs.2.1, hP' s' hs.2.2⟩
  obtain ⟨h1, h2⟩ := h hstart
  have ho' := hr'.outer_start hs.1.good'
  rw [← hs.1.inner] at ho'
  exact ⟨h1, h2.complete (hr.outer_start hs.1.good) ho' k⟩

/-- Loops go on and end in step. -/
lemma loop {I I' : σ → ParserState → Prop} {step step' : σ → Parser (ForInStep σ)}
    (hstep : ∀ a, Relates (Facing c (I a) (I' a)) (step a) (step' a) fun _ => Paired c)
    (hI : Advances I step) (hI' : Advances I' step') (a : σ) :
    Relates (Facing c (I a) (I' a)) (loop step a) (loop step' a) fun _ => Paired c := by
  intro s s' hs
  unfold Parser.answer Parser.after
  rw [run_loop, run_loop]
  suffices ∀ n n', s.scanner.budget < n → s'.scanner.budget < n' →
      ((loopUpTo step n a).run s).1 = ((loopUpTo step' n' a).run s').1 ∧
      Paired c ((loopUpTo step n a).run s).2 ((loopUpTo step' n' a).run s').2 from
    this _ _ (Nat.lt_succ_self _) (Nat.lt_succ_self _)
  intro n
  induction n generalizing a s s' with
  | zero => omega
  | succ n ih =>
    rintro (_ | n') hn hn'
    · omega
    · obtain ⟨h1, h2⟩ := hstep a hs
      rcases hb : (step a).answer s with b | b
      · rw [run_loopUpTo_done hb, run_loopUpTo_done (h1 ▸ hb)]
        exact ⟨rfl, h2⟩
      · have hb' : (step' a).answer s' = .yield b := h1 ▸ hb
        obtain ⟨h3, h4⟩ := hI hs.1.good hs.2.1 hb
        obtain ⟨h5, h6⟩ := hI' hs.1.good' hs.2.2 hb'
        rw [run_loopUpTo_yield hb, run_loopUpTo_yield hb']
        exact ih b ⟨h2, h4, h6⟩ n' (by omega) (by omega)

end Relates

/-! ### Rules that stay on their line -/

section
variable (hc : c.Titled)
include hc

/-- A rule that depends on nothing but what its scanner sees does the same for both. -/
lemma Within.agrees (p : Parser α) [Rule p] (h : Within c s s')
    (hs : 0 < (p.after s).scanner.unseen) :
    p.answer s = p.answer s' ∧ Agree c (p.after s) (p.after s') ∧
      Text.isTerminated (p.after s).scanner.rest = true ∧ (p.after s).scanner.ClosesAll := by
  have hf := Rule.follows p h.agree.good
  obtain ⟨h1, h2⟩ := Rule.agrees.agree h.agree trivial trivial (sees_of_unseen hc hs)
  exact ⟨h1, h2, Text.isTerminated_suffix hf.suffix h.terminated,
    (Rule.reads h.agree.good).closesAll h.agree.good h.closesAll⟩

lemma Relates.stay {P : Scanner → Prop} (p : Parser α) [Rule p] [hp : Leads P OnLine p] :
    Relates (fun s s' => Within c s s' ∧ P s.scanner) p p fun _ => Within c := by
  rintro s s' ⟨h, hP⟩
  have hline := hp.leads h.agree.good h.onLine hP
  obtain ⟨h1, h2, h3, h4⟩ := Within.agrees hc p h hline.unseen_pos
  exact ⟨h1, h2, hline, h3, h4⟩

/-- A rule that takes the break of the line leads to the next line, or behind the last one. -/
lemma Relates.finish {P : Scanner → Prop} (p : Parser α) [Rule p] [hp : Leads P Untouched p] :
    Relates (fun s s' => Within c s s' ∧ P s.scanner) p p fun _ => Paired c := by
  rintro s s' ⟨h, hP⟩
  have hnew := hp.leads h.agree.good h.onLine hP
  obtain ⟨h1, h2, h3, h4⟩ := Within.agrees hc p h hnew.unseen_pos
  exact ⟨h1, .of_untouched hc h2 hnew h3 h4⟩

/-! ### Looking and taking at the start of a line -/

variable {mode : Mode} (hm : mode.isIndentSensitive = true)
include hm

lemma relates_isAt {kind : Kind} (h1 : kind ≠ .eof) (h2 : kind ≠ .titleKw) :
    Relates (Paired c) (isAt mode kind) (isAt mode kind)
      fun b s s' => Paired c s s' ∧ (b = true → s.kindAt mode = kind) := by
  intro s s' h
  rw [h.good.answer_isAt, h.good'.answer_isAt, h.good.after_isAt, h.good'.after_isAt]
  exact ⟨decide_eq_decide.2 (h.kindAt_iff hc hm h1 h2), h.look hc hm, by simp⟩

lemma relates_eat {kind : Kind} (hk : kind.isStructural = true) :
    Relates (Paired c) (eat mode kind) (eat mode kind) fun _ => Paired c := by
  have h1 := Kind.ne_eof_of_isStructural hk
  intro s s' h
  have hiff := h.kindAt_iff hc hm h1 (Kind.ne_titleKw_of_isStructural hk)
  rw [h.good.answer_eat, h.good'.answer_eat, h.good.after_eat mode h1, h.good'.after_eat mode h1]
  refine ⟨decide_eq_decide.2 hiff, ?_⟩
  by_cases hkind : s.kindAt mode = kind
  · rw [if_pos hkind, if_pos (hiff.1 hkind)]
    exact h.take hc hm (by rwa [hkind])
  · rw [if_neg hkind, if_neg (mt hiff.2 hkind)]
    exact h.look hc hm

lemma relates_peekCommand : Relates (Paired c) (peekCommand mode) (peekCommand mode)
    fun o s s' => Paired c s s' ∧ s.commandAt mode = o := by
  intro s s' h
  rw [h.good.answer_peekCommand, h.good'.answer_peekCommand, h.good.after_peekCommand,
    h.good'.after_peekCommand]
  exact ⟨h.commandAt_eq hc hm, h.look hc hm, commandAt_look s mode⟩

/-- Reporting an error changes nothing of where the readings stand. -/
lemma relates_errorOf (e : GrammarError) (m : String) (o : Option Kind) :
    Relates (fun s s' => Paired c s s' ∧ s.commandAt mode = o) (errorOf mode e m) (errorOf mode e m)
      fun _ s s' => Paired c s s' ∧ s.commandAt mode = o := by
  rintro s s' ⟨h, ho⟩
  obtain ⟨h1, h2⟩ := Good.errorOf_keeps h.good mode e m
  obtain ⟨h1', h2'⟩ := Good.errorOf_keeps h.good' mode e m
  have hcommand : ((errorOf mode e m).after s).commandAt mode = o := by
    rw [commandAt, h1]
    exact (commandAt_look s mode).trans ho
  refine ⟨rfl, ?_, hcommand⟩
  rcases h with ⟨h, hstart⟩ | h
  · refine .inl ⟨(Relates.stay hc (P := Anywhere) (errorOf mode e m) ⟨h, trivial⟩).2, ?_⟩
    rw [h1]
    exact (Paired.look (.inl ⟨h, hstart⟩) hc hm).lineStart
  · obtain ⟨hg, hg', hend, hinner, -, -⟩ := h.look hc mode
    have hf := Rule.follows (errorOf mode e m) h.good
    have hf' := Rule.follows (errorOf mode e m) h.good'
    refine .inr ⟨hf.good, hf'.good, ?_, ?_, hf.quiet h.quiet, hf'.quiet h.quiet'⟩
    · rw [h1, h1']
      exact hend
    · rw [h2, h2']
      exact h.inner

end

end Parser

end DialogueScript

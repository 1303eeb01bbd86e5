import DialogueScript.Proofs.Grammar.Loop
import DialogueScript.Proofs.Scanner.Spelling

/-!
Reading text that is in order, step by step: which tokens stand next, which trees are finished, and
where the scanner is afterwards. Positions play no part. Nothing is reported on the way, unless it
is of a kind that is left out of account.
-/

namespace DialogueScript

namespace Scanner

section
variable {s : Scanner} {mode : Mode} {k : Kind} {w b r : Text}
  (hscan : (s.settle mode).scan mode = (s.settle mode).content mode)
  (hbody : (s.settle mode).body mode = w ++ b ++ r) (ht : TokenAt mode k w b r)
include hscan hbody ht

lemma ahead_content : s.ahead mode =
    ⟨(Token.ofParts ((s.settle mode).leading mode) k w (trailing mode k (b ++ r))).placed s.offset,
      mode, none, .content⟩ := by
  have htake : (w ++ b ++ r).take w.length = w := by rw [List.append_assoc, List.take_left]
  have hdrop : (w ++ b ++ r).drop w.length = b ++ r := by rw [List.append_assoc, List.drop_left]
  rw [ahead, hscan, content_eq_body, hbody, ht.next, settle_offset]
  simp only [htake, hdrop]

lemma after_content : ∃ n, s.after mode =
    { s with
      rest := r
      offset := n
      line := none
      lineStart := decide (k = .newline)
      peeked := none } := by
  have hahead := ahead_content hscan hbody ht
  have hrest : (s.settle mode).rest = (s.ahead mode).token.fullText ++ r := by
    rw [hahead, ← concat_leading _ mode, hbody]
    simp [Token.ofParts, ht.trail]
  have hproper : (s.ahead mode).token.Proper := by
    rw [hahead]
    exact Token.proper_ofParts _ _ _ _
  refine ⟨s.offset + (s.ahead mode).token.size, ?_⟩
  rw [after, take_content (by rw [hahead]) (by rw [hahead, settle_offset]; rfl) hproper hrest,
    hahead, settle_eq]
  rfl

end

end Scanner

namespace Scanner

/-- The scanner stands in the middle of a line, in front of `r`. -/
structure Midline (stack : IndentStack) (r : Text) (s : Scanner) : Prop where
  lineStart : s.lineStart = false
  line : s.line = none
  rest : s.rest = r
  stack : s.stack = stack

end Scanner

namespace ParserState

/-- A state in order that nothing can cancel, whose scanner is at a place. -/
structure At (q : Scanner → Prop) (s : ParserState) : Prop where
  good : s.Good
  quiet : s.Quiet
  here : q s.scanner

/-- Opening and closing nodes does not move the scanner. -/
lemma At.setForest {q : Scanner → Prop} {s : ParserState} (h : s.At q) (f : Forest)
    (r : Record) : At q { s with forest := f, record := r } :=
  ⟨⟨h.good.scanner, h.good.silent⟩, ⟨h.quiet.never, h.quiet.running⟩, h.here⟩

end ParserState

namespace Parser

open ParserState

variable {α β σ : Type}

/-- At the place `q` stands a token of kind `k`, and looking at it leads nowhere else. -/
structure Faces (mode : Mode) (k : Kind) (q : Scanner → Prop) : Prop where
  kind : ∀ ⦃s : ParserState⦄, s.At q → s.kindAt mode = k
  look : ∀ ⦃s : ParserState⦄, s.At q → (s.look mode).At q

/-- The token at the place `q` is `w`, nothing is wrong with it, and `q'` is the place behind it. -/
structure Offers (mode : Mode) (k : Kind) (w : Text) (q q' : Scanner → Prop) : Prop
    extends Faces mode k q where
  take : ∀ ⦃s : ParserState⦄, s.At q → (s.take mode).At q' ∧
    (s.take mode).diagnostics = s.diagnostics ∧ ∃ token : Token, token.kind = k ∧ token.text = w ∧
      (s.take mode).forest = s.forest.add (.leaf token)

/-- From the place `q`, with the trees `pre` already finished, a rule answers `a` and leads to the
place `q'`. By then the trees are some with `V`. Nothing was reported, or nothing that one wants to
keep. -/
def Course (q : Scanner → Prop) (pre : List Tree) (p : Parser α) (a : α) (V : List Tree → Prop)
    (q' : Scanner → Prop) (keep : Diagnostic → Bool := fun _ => true) : Prop :=
  ∀ ⦃s : ParserState⦄ ⦃base⦄, s.At q → s.forest.inner = pre.reverse ++ base →
    p.answer s = a ∧ (p.after s).At q' ∧
      (p.after s).diagnostics.filter keep = s.diagnostics.filter keep ∧
      (p.after s).forest.outer = s.forest.outer ∧
      ∃ ts, V ts ∧ (p.after s).forest.inner = ts.reverse ++ base


/-- The trees `pre` and a leaf behind them. -/
def Leaf (pre : List Tree) (k : Kind) (w : Text) (ts : List Tree) : Prop :=
  ∃ token : Token, token.kind = k ∧ token.text = w ∧ ts = pre ++ [.leaf token]

namespace Course

variable {q q' q'' : Scanner → Prop} {pre : List Tree} {p : Parser α} {a : α} {b : β}
  {V W : List Tree → Prop} {mode : Mode} {k : Kind} {w : Text} {keep : Diagnostic → Bool}

lemma pure (h : V pre) : Course q pre (pure a) a V q keep :=
  fun _ _ hs hi => ⟨rfl, hs, rfl, rfl, pre, h, hi⟩

lemma bind {f : α → Parser β} (h : Course q pre p a V q' keep)
    (hf : ∀ ts, V ts → Course q' ts (f a) b W q'' keep) : Course q pre (p >>= f) b W q'' keep := by
  intro s base hs hi
  obtain ⟨h1, h2, h3, h4, ts, h5, h6⟩ := h hs hi
  obtain ⟨g1, g2, g3, g4, us, g5, g6⟩ := hf ts h5 h2 h6
  rw [answer_bind, after_bind, h1]
  exact ⟨g1, g2, g3.trans h3, g4.trans h4, us, g5, g6⟩

/-- What a rule does does not depend on the trees before it. -/
lemma frame (h : Course q [] p a V q' keep) :
    Course q pre p a (fun ts => ∃ us, V us ∧ ts = pre ++ us) q' keep := by
  intro s base hs hi
  obtain ⟨h1, h2, h3, h4, us, h5, h6⟩ := @h _ (pre.reverse ++ base) hs (by simpa using hi)
  exact ⟨h1, h2, h3, h4, pre ++ us, ⟨us, h5, rfl⟩, by simp [h6]⟩

lemma step {f : α → Parser β} (h : Course q [] p a V q' keep)
    (hf : ∀ us, V us → Course q' (pre ++ us) (f a) b W q'' keep) :
    Course q pre (p >>= f) b W q'' keep := by
  refine h.frame.bind ?_
  rintro _ ⟨us, hus, rfl⟩
  exact hf us hus

lemma mono (h : Course q pre p a V q' keep) (hV : ∀ ts, V ts → W ts) :
    Course q pre p a W q' keep := by
  intro s base hs hi
  obtain ⟨h1, h2, h3, h4, ts, h5, h6⟩ := h hs hi
  exact ⟨h1, h2, h3, h4, ts, hV ts h5, h6⟩

/-- Where nothing is reported, nothing is kept. -/
lemma mute (h : Course q pre p a V q') : Course q pre p a V q' keep := by
  intro s base hs hi
  obtain ⟨h1, h2, h3, h4⟩ := h hs hi
  rw [List.filter_eq_self.2 (by simp), List.filter_eq_self.2 (by simp)] at h3
  exact ⟨h1, h2, by rw [h3], h4⟩

/-- A rule can start from any place that is one of those it starts from. -/
lemma enter (h : Course q pre p a V q' keep) (hq : ∀ ⦃s⦄, q'' s → q s) :
    Course q'' pre p a V q' keep :=
  fun _ _ hs hi => h ⟨hs.good, hs.quiet, hq hs.here⟩ hi

/-! ### Nodes -/

lemma node (k : Kind) (h : Course q [] p a V q' keep) :
    Course q pre (node k p) a (fun ts => ∃ us, V us ∧ ts = pre ++ [.node k us]) q' keep := by
  intro s base hs hi
  obtain ⟨h1, h2, h3, h4, us, h5, h6⟩ := @h s.start [] (hs.setForest _ _) rfl
  have houter : (p.after s.start).forest.outer = s.forest.inner :: s.forest.outer := h4
  refine ⟨h1, h2.setForest _ _, h3, ?_, _, ⟨us, h5, rfl⟩, ?_⟩
  · rw [after_node, ParserState.complete, Forest.complete, houter]
  · rw [after_node, ParserState.complete, Forest.complete, houter, hi]
    simp [Forest.trees, h6]

/-- A rule that makes a node and then answers. -/
lemma node_answer (k : Kind) (h : Course q [] p a V q' keep)
    (hV : ∀ us, V us → W (pre ++ [.node k us])) :
    Course q pre (Parser.node k p >>= fun _ => Pure.pure b) b W q' keep := by
  refine (h.node k).bind ?_
  rintro _ ⟨us, hus, rfl⟩
  exact .pure (hV us hus)

lemma nodeOf {p : Parser Kind} (h : Course q [] p k V q' keep) :
    Course q pre (nodeOf p) k (fun ts => ∃ us, V us ∧ ts = pre ++ [.node k us]) q' keep := by
  have hnode : Course q pre _ _ _ q' keep := h.node k
  intro s base hs hi
  have hans : p.answer s.start = k := (hnode hs hi).1
  rw [answer_nodeOf, after_nodeOf, hans]
  exact ⟨rfl, (hnode hs hi).2⟩

/-- A node around the tree that was finished last takes that tree in. -/
lemma nodeAround {p : Parser Unit} {t : Tree} (k : Kind) (h : Course q [t] p () V q' keep) :
    Course q [t] (nodeAround k p) () (fun ts => ∃ us, V us ∧ ts = [.node k us]) q' keep := by
  intro s base hs hi
  have hprecede : s.forest.precede = ⟨[t], base :: s.forest.outer⟩ := by
    simp [Forest.precede, hi]
  have hinner : s.precede.forest.inner = [t].reverse ++ [] := by
    rw [ParserState.precede, hprecede]
    rfl
  obtain ⟨-, h2, h3, h4, us, h5, h6⟩ := h (s := s.precede) (hs.setForest _ _) hinner
  have houter : (p.after s.precede).forest.outer = base :: s.forest.outer := by
    rw [h4, ParserState.precede, hprecede]
  refine ⟨rfl, h2.setForest _ _, h3, ?_, _, ⟨us, h5, rfl⟩, ?_⟩
  · rw [after_nodeAround, ParserState.complete, Forest.complete, houter]
  · rw [after_nodeAround, ParserState.complete, Forest.complete, houter]
    simp [Forest.trees, h6]

/-- The node of a rule that finds something to put into it. -/
lemma nodeIf {p : Parser Bool} (k : Kind) (h : Course q [] p true V q' keep) :
    Course q pre (nodeIf k p) true (fun ts => ∃ us, V us ∧ ts = pre ++ [.node k us]) q' keep := by
  have hnode : Course q pre _ _ _ q' keep := h.node k
  intro s base hs hi
  have hans : p.answer s.start = true := (hnode hs hi).1
  unfold Parser.answer Parser.after
  rw [run_nodeIf, hans]
  exact ⟨rfl, (hnode hs hi).2⟩

/-! ### Looking -/

lemma peekKind {f : Kind → Parser β} (hq : Faces mode k q) (h : Course q pre (f k) b W q' keep) :
    Course q pre (peekKind mode >>= f) b W q' keep := by
  intro s base hs hi
  rw [answer_bind, after_bind, hs.good.answer_peekKind, hs.good.after_peekKind, hq.kind hs]
  exact h (hq.look hs) hi

lemma isAt {f : Bool → Parser β} {kind : Kind} (hq : Faces mode k q)
    (h : Course q pre (f (decide (k = kind))) b W q' keep) :
    Course q pre (isAt mode kind >>= f) b W q' keep := by
  intro s base hs hi
  rw [answer_bind, after_bind, hs.good.answer_isAt, hs.good.after_isAt, hq.kind hs]
  exact h (hq.look hs) hi

lemma isAtAny {f : Bool → Parser β} {kinds : KindSet} (hq : Faces mode k q)
    (h : Course q pre (f (kinds.contains k)) b W q' keep) :
    Course q pre (isAtAny mode kinds >>= f) b W q' keep := by
  intro s base hs hi
  rw [answer_bind, after_bind, hs.good.answer_isAtAny, hs.good.after_isAtAny, hq.kind hs]
  exact h (hq.look hs) hi

lemma peekRange {f : Range → Parser β} (hq : Faces mode k q)
    (h : ∀ range, Course q pre (f range) b W q' keep) :
    Course q pre (peekRange mode >>= f) b W q' keep := by
  intro s base hs hi
  rw [answer_bind, after_bind, hs.good.after_peekRange]
  exact h _ (hq.look hs) hi

/-- The keyword of the command that stands next. -/
lemma peekCommand {f : Option Kind → Parser β} {keyword : Option Kind} (hq : Faces mode k q)
    (hc : ∀ ⦃s : ParserState⦄, s.At q → s.commandAt mode = keyword)
    (h : Course q pre (f keyword) b W q' keep) :
    Course q pre (peekCommand mode >>= f) b W q' keep := by
  intro s base hs hi
  rw [answer_bind, after_bind, hs.good.answer_peekCommand, hs.good.after_peekCommand, hc hs]
  exact h (hq.look hs) hi

lemma isCancelled {f : Bool → Parser β} (h : Course q pre (f false) b W q' keep) :
    Course q pre (isCancelled >>= f) b W q' keep := by
  intro s base hs hi
  have hcancel : Parser.isCancelled.answer s = s.cancelled ∧ Parser.isCancelled.after s = s :=
    ⟨rfl, rfl⟩
  rw [answer_bind, after_bind, hcancel.1, hcancel.2, hs.quiet.running]
  exact h hs hi

/-- Remembering a position changes nothing that is read. -/
lemma checkpoint {f : Unit → Parser β} (h : Course q pre (f ()) b W q' keep) :
    Course q pre (checkpoint >>= f) b W q' keep := by
  intro s base hs hi
  have hs' : (Parser.checkpoint.after s).At q :=
    ⟨⟨hs.good.scanner, hs.good.silent⟩, ⟨hs.quiet.never, hs.quiet.running⟩, hs.here⟩
  exact h hs' hi

/-- A rule may read the configuration if it leads to the same place with every one. -/
lemma withConfig {f : Config → Parser β} (h : ∀ config, Course q pre (f config) b W q' keep) :
    Course q pre (get >>= fun s => f s.scanner.config) b W q' keep :=
  fun s _ hs hi => h s.scanner.config hs hi

lemma poll {f : Bool → Parser β} (h : Course q pre (f false) b W q' keep) :
    Course q pre (poll >>= f) b W q' keep := by
  intro s base hs hi
  obtain ⟨h1, h2⟩ := Quiet.poll hs.quiet
  rw [answer_bind, after_bind, h1, h2]
  exact h hs hi

/-! ### Taking -/

lemma advance (h : Offers mode k w q q') (hk : k ≠ .eof) :
    Course q pre (advance mode) () (Leaf pre k w) q' keep := by
  intro s base hs hi
  obtain ⟨h1, h2, token, h3, h4, h5⟩ := h.take hs
  rw [hs.good.after_advance, if_neg (by rwa [h.kind hs]), h5]
  exact ⟨rfl, h1, by rw [h2], rfl, _, ⟨token, h3, h4, rfl⟩, by simp [Forest.add, hi]⟩

lemma eat (h : Offers mode k w q q') (hk : k ≠ .eof) :
    Course q pre (eat mode k) true (Leaf pre k w) q' keep := by
  intro s base hs hi
  have hkind := h.kind hs
  have hadvance : Course q pre _ _ _ q' keep := advance h hk
  have hadvance := hadvance hs hi
  rw [hs.good.after_advance, hkind, if_neg hk] at hadvance
  rw [hs.good.answer_eat, hs.good.after_eat mode hk, hkind, if_pos rfl]
  exact ⟨by simp, hadvance.2⟩

lemma bump (h : Offers mode k w q q') : Course q pre (bump mode) () (Leaf pre k w) q' keep := by
  intro s base hs hi
  obtain ⟨h1, h2, token, h3, h4, h5⟩ := h.take hs
  rw [hs.good.after_bump, h5]
  exact ⟨rfl, h1, by rw [h2], rfl, _, ⟨token, h3, h4, rfl⟩, by simp [Forest.add, hi]⟩

/-- A token of another kind stands next. -/
lemma eat_other {kind : Kind} (hq : Faces mode k q) (hne : k ≠ kind) (hk : kind ≠ .eof) :
    Course q pre (Parser.eat mode kind) false (· = pre) q keep := by
  intro s base hs hi
  have hkind : s.kindAt mode ≠ kind := by rwa [hq.kind hs]
  rw [hs.good.answer_eat, hs.good.after_eat mode hk, if_neg hkind]
  exact ⟨by simpa using hkind, hq.look hs, rfl, rfl, pre, rfl, hi⟩

lemma expect (h : Offers mode k w q q') (hk : k ≠ .eof) (m : String) :
    Course q pre (expect mode k m) true (Leaf pre k w) q' keep :=
  (eat h hk).bind fun _ hts => .pure hts

/-! ### Repetition -/

section
variable {step : σ → Parser (ForInStep σ)} {x y z : σ}

lemma loop_done (h : Course q pre (step x) (.done y) V q' keep) :
    Course q pre (loop step x) y V q' keep := by
  intro s base hs hi
  obtain ⟨h1, h2⟩ := h hs hi
  have hrun := run_loop_done h1
  unfold Parser.answer Parser.after
  rw [hrun]
  exact ⟨rfl, h2⟩

/-- A loop is its first step and then, unless that is done, the same loop again. -/
lemma loop_bind {I : σ → ParserState → Prop} {f : σ → Parser β}
    (hr : ∀ x ⦃s : ParserState⦄, s.Good → ((step x).after s).Good) (hI : Advances I step)
    (hx : ∀ ⦃s⦄, s.At q → I x s)
    (h : Course q pre (step x >>= fun next => proceed step next >>= f) b W q' keep) :
    Course q pre (loop step x >>= f) b W q' keep := by
  intro s base hs hi
  have hrun : (loop step x >>= f).run s =
      (step x >>= fun next => proceed step next >>= f).run s := by
    rw [← bind_assoc, StateT.run_bind, StateT.run_bind, run_loop_proceed hr hI hs.good (hx hs)]
  have := h hs hi
  unfold Parser.answer Parser.after at *
  rwa [hrun]

lemma loop_yield_bind {I : σ → ParserState → Prop} {f : σ → Parser β}
    (hr : ∀ x ⦃s : ParserState⦄, s.Good → ((step x).after s).Good) (hI : Advances I step)
    (hx : ∀ ⦃s⦄, s.At q → I x s) (h : Course q pre (step x) (.yield y) V q' keep)
    (hf : ∀ ts, V ts → Course q' ts (loop step y >>= f) b W q'' keep) :
    Course q pre (loop step x >>= f) b W q'' keep :=
  loop_bind hr hI hx (h.bind hf)

lemma loop_yield {I : σ → ParserState → Prop}
    (hr : ∀ x ⦃s : ParserState⦄, s.Good → ((step x).after s).Good) (hI : Advances I step)
    (hx : ∀ ⦃s⦄, s.At q → I x s) (h : Course q pre (step x) (.yield y) V q' keep)
    (hf : ∀ ts, V ts → Course q' ts (loop step y) z W q'' keep) :
    Course q pre (loop step x) z W q'' keep := by
  rw [← bind_pure (loop step x)]
  refine loop_yield_bind hr hI hx h fun ts hts => ?_
  rw [bind_pure]
  exact hf ts hts

end

end Course

/-! ### In the middle of a line -/

section
variable {stack : IndentStack} {mode : Mode} {k : Kind} {w b r : Text}

lemma Midline.look (hm : mode.isIndentSensitive = false) {s : ParserState}
    (h : s.At (Scanner.Midline stack r)) : (s.look mode).At (Scanner.Midline stack r) := by
  have heq : (s.look mode).scanner = { s.scanner with peeked := some (s.scanner.ahead mode) } := by
    simp [ParserState.look, Scanner.looking, Scanner.settle_of_insensitive _ hm]
  refine ⟨h.good.look mode, ⟨h.quiet.never, h.quiet.running⟩, ?_⟩
  rw [heq]
  exact ⟨h.here.lineStart, h.here.line, h.here.rest, h.here.stack⟩

variable (ht : Scanner.Facing mode k w b r)
include ht

lemma Midline.scan {s : Scanner} (h : s.Midline stack (w ++ b ++ r)) :
    (s.settle mode).scan mode = (s.settle mode).content mode ∧
      (s.settle mode).body mode = w ++ b ++ r := by
  rw [Scanner.settle_of_insensitive _ ht.insensitive]
  refine ⟨?_, ?_⟩
  · simp [Scanner.scan, h.lineStart]
  · rw [Scanner.body_of_midLine _ _ h.lineStart, gapLength, h.rest, ht.gap]
    rfl

lemma Midline.faces : Faces mode k (Scanner.Midline stack (w ++ b ++ r)) where
  kind s h := by
    obtain ⟨h1, h2⟩ := Midline.scan ht h.here
    rw [ParserState.kindAt, Scanner.ahead_content h1 h2 ht.toTokenAt]
    rfl
  look _ h := Midline.look ht.insensitive h

end

end Parser

namespace ParserState

variable {s : ParserState} {mode : Mode} {k : Kind} {w b r : Text}

/-- Taking a token of the text itself. -/
lemma take_content (hg : s.Good)
    (hscan : (s.scanner.settle mode).scan mode = (s.scanner.settle mode).content mode)
    (hbody : (s.scanner.settle mode).body mode = w ++ b ++ r) (ht : Scanner.TokenAt mode k w b r) :
    (s.take mode).diagnostics = s.diagnostics ∧ (∃ token : Token, token.kind = k ∧ token.text = w ∧
      (s.take mode).forest = s.forest.add (.leaf token)) ∧ ∃ n, (s.take mode).scanner =
      { s.scanner with
        rest := r
        offset := n
        line := none
        lineStart := decide (k = .newline)
        peeked := none
        diagnostics := [] } := by
  have hahead := Scanner.ahead_content hscan hbody ht
  obtain ⟨n, hafter⟩ := Scanner.after_content hscan hbody ht
  refine ⟨?_, ⟨(s.scanner.ahead mode).token, ?_, ?_, rfl⟩, n, ?_⟩
  · rw [hg.diagnostics_take, hahead]
    simp [errorsOf]
  · rw [hahead]
    rfl
  · rw [hahead]
    exact Token.text_ofParts ..
  · simp [ParserState.take, hafter]

end ParserState

namespace Parser

lemma Midline.offers {stack : IndentStack} {mode : Mode} {k : Kind} {w b r : Text}
    (ht : Scanner.Facing mode k w b r) (hk : k ≠ .newline) :
    Offers mode k w (Scanner.Midline stack (w ++ b ++ r)) (Scanner.Midline stack r) where
  toFaces := Midline.faces ht
  take s h := by
    obtain ⟨h1, h2⟩ := Midline.scan ht h.here
    obtain ⟨h3, h4, n, h5⟩ := ParserState.take_content h.good h1 h2 ht.toTokenAt
    refine ⟨⟨h.good.take mode, ⟨h.quiet.never, h.quiet.running⟩, ?_⟩, h3, h4⟩
    rw [h5]
    exact ⟨by simp [hk], rfl, rfl, h.here.stack⟩

end Parser

end DialogueScript

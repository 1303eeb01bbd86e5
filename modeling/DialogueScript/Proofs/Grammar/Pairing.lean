import DialogueScript.Proofs.Grammar.Reads
import Mathlib.Data.List.Forall2

/-!
Two runs of the grammar in step. What a run can notice of its text is what the scanner shows it: the
kind of the token that stands next, and the keyword behind a `<<`. Two scanners that show the same
all along lead two runs through the same rules; how far their positions, tokens and errors agree is
left open here.
-/

namespace DialogueScript

/-- What it means for two runs to be alike. -/
structure Likeness where
  /-- The scanners stand at places of their texts that correspond. -/
  scanner : Scanner → Scanner → Prop
  /-- The first scanner has not looked at anything in which the texts may differ. -/
  sees : Scanner → Prop
  tree : Tree → Tree → Prop
  range : Range → Range → Prop
  found : List Diagnostic → List Diagnostic → Prop

namespace Likeness

/-- Two scanners are shown the same by what stands next. -/
structure Looks (π : Likeness) (mode : Mode) (s s' : Scanner) : Prop where
  kind : (s.ahead mode).token.kind = (s'.ahead mode).token.kind
  command : s.commandAhead mode = s'.commandAhead mode
  range : π.range ((s.ahead mode).token.range s.offset) ((s'.ahead mode).token.range s'.offset)
  looking : π.scanner (s.looking mode) (s'.looking mode)

/-- Two scanners stay alike by taking what stands next. -/
structure Takes (π : Likeness) (mode : Mode) (s s' : Scanner) : Prop where
  error : (s.ahead mode).error = (s'.ahead mode).error
  leaf : π.tree (.leaf (s.ahead mode).token) (.leaf (s'.ahead mode).token)
  after : π.scanner { s.after mode with diagnostics := [] } { s'.after mode with diagnostics := [] }

end Likeness

/-- A likeness that looking and taking keep. -/
structure Pairing extends Likeness where
  sees_mono {s u : Scanner} : s.unseen ≤ u.unseen → sees s → sees u
  config_eq {s s' : Scanner} : scanner s s' → s.config = s'.config
  looks {s s' : Scanner} {mode : Mode} : s.Good → s'.Good → scanner s s' → sees (s.looking mode) →
    toLikeness.Looks mode s s'
  takes {s s' : Scanner} {mode : Mode} : s.Good → s'.Good → scanner s s' → sees (s.looking mode) →
    (s.ahead mode).token.kind ≠ .eof → toLikeness.Takes mode s s'
  node {k : Kind} {cs cs' : List Tree} : List.Forall₂ tree cs cs' → tree (.node k cs) (.node k cs')
  report {ds ds' : List Diagnostic} {r r' : Range} (p : Problem) (m : String) : found ds ds' →
    range r r' → found (ds ++ [{ problem := p, message := m, range := r }])
      (ds' ++ [{ problem := p, message := m, range := r' }])

namespace Scanner

/-- Before the end of the text, only a token that closes a block takes none of it. -/
lemma Good.size_ahead_eq_zero {s : Scanner} (h : s.Good) {mode : Mode}
    (hk : (s.ahead mode).token.kind ≠ .eof) :
    (s.ahead mode).token.size = 0 ↔ (s.ahead mode).token.kind = .dedent := by
  have ht := h.takes mode
  have hprogress := ht.progress (h.settle mode)
  rw [Token.size, Text.size_eq_zero]
  refine ⟨fun hnil => ?_, fun hdedent => ?_⟩
  · rcases hprogress with hne | ⟨hdedent, -⟩ | ⟨heof, -⟩
    · exact absurd hnil hne
    · exact hdedent
    · exact absurd heof hk
  · generalize s.ahead mode = l, s.after mode = u at ht hdedent
    cases ht with
    | dedent => rfl
    | blank | indent => simp [Token.ofParts] at hdedent
    | mismatch p _ hline hd he hl => simp [hl, Token.ofParts] at hdedent
    | content _ hidle hblank hl =>
      subst hl
      rw [content_token, Token.ofParts] at hdedent
      have hread := reading_next mode ((s.settle mode).body mode)
      generalize Lexeme.next mode ((s.settle mode).body mode) = x,
        behind mode ((s.settle mode).body mode) = t' at hread hdedent
      cases hread with
      | eof | newline => simp at hdedent
      | plain _ _ _ _ hfits =>
        have := hfits.plain.structural
        simp only at hdedent
        rw [hdedent] at this
        exact absurd this (by decide)

lemma Good.offset_after {s : Scanner} (h : s.Good) (mode : Mode) :
    (s.after mode).offset = s.offset + (s.ahead mode).token.size :=
  (h.takes mode).offset_eq.trans (congrArg (· + _) (settle_offset s mode))

end Scanner

/-- The same likeness, which also tells whether the scanners have moved on from some positions. -/
def Pairing.since (π : Pairing) (o o' : Nat) : Pairing where
  scanner s s' := π.scanner s s' ∧ o ≤ s.offset ∧ o' ≤ s'.offset ∧ (s.offset = o ↔ s'.offset = o')
  sees := π.sees
  tree := π.tree
  range := π.range
  found := π.found
  sees_mono := π.sees_mono
  config_eq h := π.config_eq h.1
  looks {s s' mode} hs hs' h hsees := by
    have hoff : (s.looking mode).offset = s.offset := Scanner.settle_offset s mode
    have hoff' : (s'.looking mode).offset = s'.offset := Scanner.settle_offset s' mode
    obtain ⟨h1, h2, h3, h4⟩ := π.looks hs hs' h.1 hsees
    exact ⟨h1, h2, h3, h4, by rw [hoff, hoff']; exact h.2⟩
  takes {s s' mode} hs hs' h hsees hk := by
    have hkind := (π.looks hs hs' h.1 hsees).kind
    obtain ⟨h1, h2, h3⟩ := π.takes hs hs' h.1 hsees hk
    refine ⟨h1, h2, h3, ?_⟩
    have hsize := hs.size_ahead_eq_zero hk
    have hsize' := hs'.size_ahead_eq_zero (hkind ▸ hk)
    rw [← hkind, ← hsize] at hsize'
    simp only [hs.offset_after mode, hs'.offset_after mode]
    omega
  node := π.node
  report := π.report

namespace ParserState

/-- Reading is not cancelled and cannot be. -/
structure Quiet (s : ParserState) : Prop where
  never : s.cancelAt = none
  running : s.cancelled = false

lemma Follows.quiet {s s' : ParserState} (h : Follows s s') (hq : s.Quiet) : s'.Quiet :=
  ⟨h.cancelAt.trans hq.never, (h.uncancelled hq.never).trans hq.running⟩

/-- What taking the next token reports, if the token starts at `position`. -/
def errorsOf (l : Lexed) (position : Nat) : List Diagnostic :=
  match l.error with
  | none => []
  | some e => [{ problem := .lexical e, message := (Problem.lexical e).message,
                 range := l.token.range position }]

lemma Good.diagnostics_take {s : ParserState} (h : s.Good) (mode : Mode) :
    (s.take mode).diagnostics =
      s.diagnostics ++ errorsOf (s.scanner.ahead mode) s.scanner.offset := by
  have : (s.scanner.after mode).diagnostics =
      errorsOf (s.scanner.ahead mode) s.scanner.offset := by
    have hrange : (s.scanner.ahead mode).kindRange = _ := h.rangeAt_eq mode
    rw [(h.scanner.takes mode).diagnostics_eq, Scanner.report, errorsOf, hrange]
    cases he : (s.scanner.ahead mode).error <;> simp [h.silent]
  simp only [ParserState.take, this]

lemma Quiet.report {s : ParserState} (h : s.Quiet) (r : Range) (e : GrammarError) (m : String) :
    s.report r e m =
      { s with diagnostics :=
        s.diagnostics ++ [{ problem := .grammar e, message := m, range := r }] } := by
  simp [ParserState.report, h.running]

/-- The states of two runs in step. -/
structure InStep (π : Pairing) (s s' : ParserState) : Prop where
  good : s.Good
  good' : s'.Good
  scanner : π.scanner s.scanner s'.scanner
  inner : List.Forall₂ π.tree s.forest.inner s'.forest.inner
  found : π.found s.diagnostics s'.diagnostics
  quiet : s.Quiet
  quiet' : s'.Quiet

namespace InStep

variable {π : Pairing} {s s' : ParserState}

lemma looks (h : InStep π s s') {mode : Mode} (hs : π.sees (s.look mode).scanner) :
    π.Looks mode s.scanner s'.scanner :=
  π.looks h.good.scanner h.good'.scanner h.scanner hs

lemma kindAt_eq (h : InStep π s s') {mode : Mode} (hs : π.sees (s.look mode).scanner) :
    s.kindAt mode = s'.kindAt mode := (h.looks hs).kind

lemma commandAt_eq (h : InStep π s s') {mode : Mode} (hs : π.sees (s.look mode).scanner) :
    s.commandAt mode = s'.commandAt mode := (h.looks hs).command

/-- A range that two runs find at the same token. -/
lemma rangeAt (h : InStep π s s') {mode : Mode} (hs : π.sees (s.look mode).scanner) :
    π.range (s.rangeAt mode) (s'.rangeAt mode) := by
  rw [h.good.rangeAt_eq, h.good'.rangeAt_eq]
  exact (h.looks hs).range

lemma look (h : InStep π s s') {mode : Mode} (hs : π.sees (s.look mode).scanner) :
    InStep π (s.look mode) (s'.look mode) where
  good := h.good.look mode
  good' := h.good'.look mode
  scanner := (h.looks hs).looking
  inner := h.inner
  found := h.found
  quiet := ⟨h.quiet.never, h.quiet.running⟩
  quiet' := ⟨h.quiet'.never, h.quiet'.running⟩

lemma sees_take (h : s.Good) {mode : Mode} (hs : π.sees (s.take mode).scanner) :
    π.sees (s.look mode).scanner := by
  refine π.sees_mono ?_ hs
  rw [ParserState.look, Scanner.unseen_looking]
  exact h.scanner.unseen_after_le mode

lemma take (h : InStep π s s') {mode : Mode} (hs : π.sees (s.take mode).scanner)
    (hk : s.kindAt mode ≠ .eof) : InStep π (s.take mode) (s'.take mode) := by
  have hlook := sees_take h.good hs
  have ht := π.takes h.good.scanner h.good'.scanner h.scanner hlook hk
  refine ⟨h.good.take mode, h.good'.take mode, ht.after, ?_, ?_, ⟨h.quiet.never, h.quiet.running⟩,
    ⟨h.quiet'.never, h.quiet'.running⟩⟩
  · exact .cons ht.leaf h.inner
  · rw [h.good.diagnostics_take, h.good'.diagnostics_take, errorsOf, errorsOf, ← ht.error]
    rcases (s.scanner.ahead mode).error with _ | e
    · simpa using h.found
    · exact π.report _ _ h.found (h.looks hlook).range

lemma report (h : InStep π s s') {r r' : Range} (e : GrammarError) (m : String)
    (hr : π.range r r') :
    InStep π (s.report r e m) (s'.report r' e m) := by
  rw [h.quiet.report, h.quiet'.report]
  exact ⟨⟨h.good.scanner, h.good.silent⟩, ⟨h.good'.scanner, h.good'.silent⟩, h.scanner, h.inner,
    π.report _ _ h.found hr, ⟨h.quiet.never, h.quiet.running⟩, ⟨h.quiet'.never, h.quiet'.running⟩⟩

/-- Only the trees of the innermost open node matter. -/
lemma setForest (h : InStep π s s') {f f' : Forest} {r r' : Record}
    (hf : List.Forall₂ π.tree f.inner f'.inner) :
    InStep π { s with forest := f, record := r } { s' with forest := f', record := r' } where
  good := ⟨h.good.scanner, h.good.silent⟩
  good' := ⟨h.good'.scanner, h.good'.silent⟩
  scanner := h.scanner
  inner := hf
  found := h.found
  quiet := ⟨h.quiet.never, h.quiet.running⟩
  quiet' := ⟨h.quiet'.never, h.quiet'.running⟩

lemma start (h : InStep π s s') : InStep π s.start s'.start := h.setForest .nil

/-- The finished trees in order. -/
lemma trees (h : InStep π s s') : List.Forall₂ π.tree s.forest.trees s'.forest.trees :=
  List.rel_reverse h.inner

lemma complete (h : InStep π s s') {level level' : List Tree} {o o' : List (List Tree)}
    (hlevel : List.Forall₂ π.tree level level') (ho : s.forest.outer = level :: o)
    (ho' : s'.forest.outer = level' :: o') (k : Kind) :
    InStep π (s.complete k) (s'.complete k) := by
  refine h.setForest ?_
  simp only [Forest.complete, ho, ho']
  exact .cons (π.node h.trees) hlevel

lemma abandon (h : InStep π s s') {level level' : List Tree} {o o' : List (List Tree)}
    (hlevel : List.Forall₂ π.tree level level') (ho : s.forest.outer = level :: o)
    (ho' : s'.forest.outer = level' :: o') : InStep π s.abandon s'.abandon := by
  refine h.setForest ?_
  simp only [Forest.abandon, ho, ho']
  exact List.rel_append h.inner hlevel

/-- A node is put around the newest trees, which are alike, or around nothing. -/
lemma precede (h : InStep π s s') : InStep π s.precede s'.precede ∧ ∃ level level',
    List.Forall₂ π.tree level level' ∧ s.forest.precede.outer = level :: s.forest.outer ∧
      s'.forest.precede.outer = level' :: s'.forest.outer := by
  have hinner := h.inner
  unfold ParserState.precede Forest.precede
  generalize hxs : s.forest.inner = xs, hys : s'.forest.inner = ys at hinner
  cases hinner with
  | nil => exact ⟨h.setForest .nil, [], [], .nil, by rw [Forest.start, hxs],
      by rw [Forest.start, hys]⟩
  | cons hxy hrest => exact ⟨h.setForest (.cons hxy .nil), _, _, hrest, rfl, rfl⟩

/-- Whether the runs move on from here can be told. -/
lemma since (h : InStep π s s') : InStep (π.since s.scanner.offset s'.scanner.offset) s s' :=
  ⟨h.good, h.good', ⟨h.scanner, le_rfl, le_rfl, by simp⟩, h.inner, h.found, h.quiet, h.quiet'⟩

lemma of_since {o o' : Nat} (h : InStep (π.since o o') s s') :
    InStep π s s' ∧ (s.scanner.offset = o ↔ s'.scanner.offset = o') :=
  ⟨⟨h.good, h.good', h.scanner.1, h.inner, h.found, h.quiet, h.quiet'⟩, h.scanner.2.2.2⟩

end InStep

end ParserState

end DialogueScript

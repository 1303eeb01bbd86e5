import DialogueScript.Grammar.Parser
import DialogueScript.Proofs.Scanner.Bump

/-!
What the smallest steps of the grammar do to the state of the parser, for a state whose scanner is
in order. Everything else in the grammar is made of these.
-/

namespace DialogueScript

namespace Parser

variable {α β : Type}

/-- What a rule answers. -/
def answer (p : Parser α) (s : ParserState) : α := (p.run s).1

/-- The state that a rule leads to. -/
def after (p : Parser α) (s : ParserState) : ParserState := (p.run s).2

@[simp] lemma answer_pure (a : α) (s : ParserState) : (pure a : Parser α).answer s = a := rfl

@[simp] lemma after_pure (a : α) (s : ParserState) : (pure a : Parser α).after s = s := rfl

@[simp] lemma answer_bind (p : Parser α) (f : α → Parser β) (s : ParserState) :
    (p >>= f).answer s = (f (p.answer s)).answer (p.after s) := rfl

@[simp] lemma after_bind (p : Parser α) (f : α → Parser β) (s : ParserState) :
    (p >>= f).after s = (f (p.answer s)).after (p.after s) := rfl

/-- A rule can depend on the state it starts from. -/
lemma answer_get_bind (f : ParserState → Parser α) (s : ParserState) :
    (get >>= f : Parser α).answer s = (f s).answer s := rfl

lemma after_get_bind (f : ParserState → Parser α) (s : ParserState) :
    (get >>= f : Parser α).after s = (f s).after s := rfl

@[simp] lemma answer_map (f : α → β) (p : Parser α) (s : ParserState) :
    (f <$> p).answer s = f (p.answer s) := rfl

@[simp] lemma after_map (f : α → β) (p : Parser α) (s : ParserState) :
    (f <$> p).after s = p.after s := rfl

@[simp] lemma answer_offset (s : ParserState) : offset.answer s = s.scanner.offset := rfl

@[simp] lemma after_offset (s : ParserState) : offset.after s = s := rfl

@[simp] lemma answer_ite (c : Prop) [Decidable c] (p q : Parser α) (s : ParserState) :
    (if c then p else q).answer s = if c then p.answer s else q.answer s := by
  split <;> rfl

@[simp] lemma after_ite (c : Prop) [Decidable c] (p q : Parser α) (s : ParserState) :
    (if c then p else q).after s = if c then p.after s else q.after s := by
  split <;> rfl

end Parser

namespace ParserState

/-- The scanner is in order and has handed over its diagnostics. -/
structure Good (s : ParserState) : Prop where
  scanner : s.scanner.Good
  silent : s.scanner.diagnostics = []

section
variable (s : ParserState) (mode : Mode)

/-- The kind of the token that stands next. -/
def kindAt : Kind := (s.scanner.ahead mode).token.kind

/-- Where the own text of the token that stands next lies. -/
def rangeAt : Range := (s.scanner.ahead mode).kindRange

/-- The keyword after the `<<` that stands next, if a command does. -/
def commandAt : Option Kind := s.scanner.commandAhead mode

/-- The state after looking at the token that stands next. -/
def look : ParserState := { s with scanner := s.scanner.looking mode }

/-- The state after taking the token that stands next. -/
def take : ParserState :=
  { s with
    scanner := { s.scanner.after mode with diagnostics := [] }
    forest := s.forest.add (.leaf (s.scanner.ahead mode).token)
    record := s.record.token (s.scanner.ahead mode).token
    diagnostics := s.diagnostics ++ (s.scanner.after mode).diagnostics }

/-- The state after reporting an error. -/
def report (range : Range) (e : GrammarError) (message : String) : ParserState :=
  if s.cancelled then s
  else { s with diagnostics := s.diagnostics ++ [{ problem := .grammar e, message, range }] }

def start : ParserState := { s with forest := s.forest.start, record := s.record.start }

def complete (kind : Kind) : ParserState :=
  { s with forest := s.forest.complete kind, record := s.record.complete kind }

def abandon : ParserState := { s with forest := s.forest.abandon, record := s.record.abandon }

def precede : ParserState := { s with forest := s.forest.precede, record := s.record.precede }

end

@[simp] lemma scanner_report (s : ParserState) (range : Range) (e : GrammarError) (m : String) :
    (s.report range e m).scanner = s.scanner := by
  unfold report
  split <;> rfl

@[simp] lemma forest_report (s : ParserState) (range : Range) (e : GrammarError) (m : String) :
    (s.report range e m).forest = s.forest := by
  unfold report
  split <;> rfl

@[simp] lemma scanner_start (s : ParserState) : s.start.scanner = s.scanner := rfl

@[simp] lemma scanner_precede (s : ParserState) : s.precede.scanner = s.scanner := rfl

@[simp] lemma scanner_complete (s : ParserState) (k : Kind) : (s.complete k).scanner = s.scanner :=
  rfl

@[simp] lemma kindAt_start (s : ParserState) (mode : Mode) : s.start.kindAt mode = s.kindAt mode :=
  rfl

@[simp] lemma kindAt_complete (s : ParserState) (k : Kind) (mode : Mode) :
    (s.complete k).kindAt mode = s.kindAt mode := rfl

/-! ### Looking twice -/

section
variable (s : ParserState) (mode : Mode)

lemma settle_looking : (s.scanner.looking mode).settle mode = s.scanner.looking mode :=
  Scanner.settle_looking_of_before (.refl mode)

lemma ahead_looking : (s.scanner.looking mode).ahead mode = s.scanner.ahead mode :=
  Scanner.ahead_of_before (.refl mode)

@[simp] lemma kindAt_look : (s.look mode).kindAt mode = s.kindAt mode := by
  rw [kindAt, look, ahead_looking, kindAt]

@[simp] lemma rangeAt_look : (s.look mode).rangeAt mode = s.rangeAt mode := by
  rw [rangeAt, look, ahead_looking, rangeAt]

@[simp] lemma commandAt_look : (s.look mode).commandAt mode = s.commandAt mode := by
  have hfrom (n : Nat) : (s.scanner.looking mode).textFrom n = s.scanner.textFrom n := by
    simp [Scanner.textFrom, Scanner.looking]
  simp only [commandAt, look, Scanner.commandAhead, ahead_looking, hfrom]

lemma kindAt_of_commandAt {s : ParserState} {mode : Mode} {k : Kind}
    (h : s.commandAt mode = some k) :
    s.kindAt mode = .commandStart :=
  Scanner.kind_of_commandAhead h

@[simp] lemma look_look : (s.look mode).look mode = s.look mode := by
  simp only [look]
  rw [Scanner.looking, ahead_looking, settle_looking]
  rfl

@[simp] lemma take_look : (s.look mode).take mode = s.take mode := by
  have hafter : (s.scanner.looking mode).after mode = s.scanner.after mode :=
    Scanner.after_of_before (.refl mode)
  simp only [take, look, hafter, ahead_looking]

end

/-! ### Steps of a state in order -/

namespace Good

variable {s : ParserState} (h : s.Good) (mode : Mode)
include h

lemma look : (s.look mode).Good :=
  ⟨h.scanner.looking mode, (Scanner.settle_diagnostics _ _).trans h.silent⟩

lemma take : (s.take mode).Good := ⟨(h.scanner.after mode).setDiagnostics [], rfl⟩

lemma report (range : Range) (e : GrammarError) (m : String) : (s.report range e m).Good :=
  ⟨by simpa using h.scanner, by simpa using h.silent⟩

/-- The range is that of the token behind its trivia. -/
lemma rangeAt_eq : s.rangeAt mode = (s.scanner.ahead mode).token.range s.scanner.offset := by
  rw [rangeAt, (h.scanner.takes mode).kindRange_eq, Scanner.settle_offset]

lemma run_peek :
    (Parser.peek mode).run s = ((s.scanner.ahead mode).toPlacedToken, s.look mode) := by
  have : (Parser.peek mode).run s =
      ((s.scanner.peek mode).1, { s with scanner := (s.scanner.peek mode).2 }) := rfl
  rw [this, h.scanner.peek_eq]
  rfl

@[simp] lemma answer_peek :
    (Parser.peek mode).answer s = (s.scanner.ahead mode).toPlacedToken := by
  rw [Parser.answer, h.run_peek]

@[simp] lemma after_peek : (Parser.peek mode).after s = s.look mode := by
  rw [Parser.after, h.run_peek]

@[simp] lemma answer_peekKind : (Parser.peekKind mode).answer s = s.kindAt mode := by
  simp [Parser.peekKind, h, kindAt]

@[simp] lemma after_peekKind : (Parser.peekKind mode).after s = s.look mode := by
  simp [Parser.peekKind, h]

@[simp] lemma answer_peekRange : (Parser.peekRange mode).answer s = s.rangeAt mode := by
  have : (Parser.peekRange mode).answer s = ((Parser.peek mode).answer s).kindRange := rfl
  rw [this, h.answer_peek, rangeAt]

@[simp] lemma after_peekRange : (Parser.peekRange mode).after s = s.look mode := by
  have : (Parser.peekRange mode).after s = (Parser.peek mode).after s := rfl
  rw [this, h.after_peek]

lemma run_peekCommand : (Parser.peekCommand mode).run s = (s.commandAt mode, s.look mode) := by
  have : (Parser.peekCommand mode).run s = ((s.scanner.peekCommandKeyword mode).1,
      { s with scanner := (s.scanner.peekCommandKeyword mode).2 }) := rfl
  rw [this, h.scanner.peekCommandKeyword_eq]
  rfl

@[simp] lemma answer_peekCommand : (Parser.peekCommand mode).answer s = s.commandAt mode := by
  rw [Parser.answer, h.run_peekCommand]

@[simp] lemma after_peekCommand : (Parser.peekCommand mode).after s = s.look mode := by
  rw [Parser.after, h.run_peekCommand]

@[simp] lemma answer_isAt (kind : Kind) :
    (Parser.isAt mode kind).answer s = decide (s.kindAt mode = kind) := by
  simp [Parser.isAt, h]

@[simp] lemma after_isAt (kind : Kind) : (Parser.isAt mode kind).after s = s.look mode := by
  simp [Parser.isAt, h]

@[simp] lemma answer_isAtAny (kinds : KindSet) :
    (Parser.isAtAny mode kinds).answer s = kinds.contains (s.kindAt mode) := by
  simp [Parser.isAtAny, h]

@[simp] lemma after_isAtAny (kinds : KindSet) :
    (Parser.isAtAny mode kinds).after s = s.look mode := by
  simp [Parser.isAtAny, h]

@[simp] lemma answer_isAtLineEnd : (Parser.isAtLineEnd mode).answer s =
    (decide (s.kindAt mode = .newline) || decide (s.kindAt mode = .eof)) := by
  simp [Parser.isAtLineEnd, h]

@[simp] lemma after_isAtLineEnd : (Parser.isAtLineEnd mode).after s = s.look mode := by
  simp [Parser.isAtLineEnd, h]

@[simp] lemma answer_isInLine : (Parser.isInLine mode).answer s =
    !(decide (s.kindAt mode = .newline) || decide (s.kindAt mode = .eof)) := by
  simp [Parser.isInLine, h]

@[simp] lemma after_isInLine : (Parser.isInLine mode).after s = s.look mode := by
  simp [Parser.isInLine, h]

@[simp] lemma answer_isBefore (kinds : KindSet) :
    (Parser.isBefore mode kinds).answer s = !kinds.contains (s.kindAt mode) := by
  simp [Parser.isBefore, h]

@[simp] lemma after_isBefore (kinds : KindSet) :
    (Parser.isBefore mode kinds).after s = s.look mode := by
  simp [Parser.isBefore, h]

@[simp] lemma after_bump : (Parser.bump mode).after s = s.take mode := by
  have : (Parser.bump mode).after s =
      { s with
        scanner := { (s.scanner.bump mode).2 with diagnostics := [] }
        forest := s.forest.add (.leaf (s.scanner.bump mode).1.token)
        record := s.record.token (s.scanner.bump mode).1.token
        diagnostics := s.diagnostics ++ (s.scanner.bump mode).2.diagnostics } := rfl
  rw [this, h.scanner.bump_eq]
  rfl

@[simp] lemma after_advance : (Parser.advance mode).after s =
    if s.kindAt mode = .eof then s.look mode else s.take mode := by
  have hlook := h.look mode
  simp only [Parser.advance, Parser.after_bind, h.after_peekKind, h.answer_peekKind,
    Parser.after_ite, Parser.after_pure, hlook.after_bump, take_look, ne_eq, ite_not]

@[simp] lemma answer_eat (kind : Kind) :
    (Parser.eat mode kind).answer s = decide (s.kindAt mode = kind) := by
  by_cases hk : s.kindAt mode = kind <;> simp [Parser.eat, h, hk]

lemma after_eat {kind : Kind} (hne : kind ≠ .eof) : (Parser.eat mode kind).after s =
    if s.kindAt mode = kind then s.take mode else s.look mode := by
  have hlook := h.look mode
  by_cases hk : s.kindAt mode = kind
  · simp [Parser.eat, h, hk, hlook, hne]
  · simp [Parser.eat, h, hk]

end Good

@[simp] lemma after_errorAt (s : ParserState) (range : Range) (e : GrammarError) (m : String) :
    (Parser.errorAt range e m).after s = s.report range e m := rfl

lemma Good.after_errorOf {s : ParserState} (h : s.Good) (mode : Mode) (e : GrammarError)
    (m : String) :
    (Parser.errorOf mode e m).after s = if s.kindAt mode = .errorToken then s.look mode
      else (s.look mode).report (s.rangeAt mode) e m := by
  have hrange : (s.scanner.ahead mode).kindRange = s.rangeAt mode := rfl
  have hkind : (s.scanner.ahead mode).token.kind = s.kindAt mode := rfl
  by_cases hk : s.kindAt mode = .errorToken <;> simp [Parser.errorOf, h, hrange, hkind, hk]

end ParserState

end DialogueScript

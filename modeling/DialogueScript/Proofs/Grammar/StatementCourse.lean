import DialogueScript.Proofs.Grammar.NodeCourse

/-!
Reading runs of statements, each of which starts on a line of its own. The line that stands next
tells whether a run goes on.
-/

namespace DialogueScript

open Scanner

namespace Scanner

/-- The scanner stands at the start of the line that `r` starts with, with `d` blocks open. -/
def Ahead (d : Nat) (r : Text) (s : Scanner) : Prop := ∃ j c, LineOf j c r ∧ s.LineAt d j c

lemma ahead_eq {d j : Nat} {c r : Text} (h : LineOf j c r) : Ahead d r = LineAt d j c := by
  funext s
  refine propext ⟨?_, fun hs => ⟨j, c, h, hs⟩⟩
  rintro ⟨j', c', h', hs⟩
  obtain ⟨rfl, rfl⟩ := h.unique h'
  exact hs

/-- The content of the line is what the scanner has in front of it, behind some blanks. -/
lemma LineAt.contentOf_rest {d j : Nat} {c : Text} {s : Scanner} (h : s.LineAt d j c) :
    contentOf s.rest = c := by
  obtain ⟨b, hb, hrest⟩ := h.rest
  rw [hrest, contentOf_content hb h.content]

end Scanner

namespace Parser

open ParserState

variable {d j d' j' : Nat} {c c' r : Text} {pre : List Tree} {q' q'' : Scanner → Prop}
  {statement : KindSet → Parser Unit} {terminators : KindSet} {V W : List Tree → Prop}
  {keep : Diagnostic → Bool}

/-! ### The line that stands next -/

lemma kindOf_self (d : Nat) (c : Text) : kindOf d d c = (Lexeme.next .statement c).kind := by
  simp [kindOf]

lemma kindOf_of_lt (h : j < d) (c : Text) : kindOf d j c = .dedent := if_pos h

/-- The text of a line does not start with a token that only its indentation asks for. -/
lemma isStructural_next (hc : c.Content) :
    (Lexeme.next .statement c).kind.isStructural = false := by
  rcases c with _ | ⟨x, xs⟩
  · exact absurd rfl hc.ne_nil
  · have hbreak : isLineBreak x = false := by
      by_contra hx
      obtain ⟨n, hn, -⟩ := Text.lineBreak?_cons_of_break xs (by simpa using hx)
      rw [hc.lineBreak] at hn
      simp at hn
    exact (Lexeme.fits_next .statement xs hbreak).plain.structural

/-- In front of a line that opens no block stands no token that opens one, and no blank line. -/
lemma kindOf_plain (hc : c.Content) (hj : j ≤ d) :
    kindOf d j c ≠ .indent ∧ kindOf d j c ≠ .blankLine := by
  rw [kindOf]
  split
  · simp
  · rw [if_neg (by omega)]
    have := isStructural_next hc
    constructor <;> intro hk <;> simp [hk, Kind.isStructural] at this

/-- The keyword of the command that stands next in a statement. -/
def keywordOf (d j : Nat) (c : Text) : Option Kind :=
  if kindOf d j c = .commandStart then commandKeywordAt? (c.drop (Lexeme.next .statement c).length)
  else none

lemma LineAt.commandAt (hj : j ≤ d + 1) {s : ParserState} (h : s.At (LineAt d j c)) :
    s.commandAt .statement = keywordOf d j c := by
  have hfaces : Faces .statement (kindOf d j c) (LineAt d j c) := LineAt.faces rfl hj
  have hkind := hfaces.kind h
  rw [keywordOf]
  split
  · next hk =>
    have hahead : (s.scanner.ahead .statement).token.kind = .commandStart := hkind.trans hk
    rw [ParserState.commandAt, (h.good.scanner.commandAhead_eq hahead).2, (h.here.settle _).body]
  · next hk =>
    rcases hc : s.commandAt .statement with _ | keyword
    · rfl
    · exact absurd (hkind.symm.trans (kindAt_of_commandAt hc)) hk

/-- A run of statements ends in front of the line. -/
def EndsAt (terminators : KindSet) (d j : Nat) (c : Text) : Prop :=
  endsBlock (kindOf d j c) ∨
    ∃ keyword, keywordOf d j c = some keyword ∧ terminators.contains keyword = true

lemma Course.endsStatements {α : Type} {a : α} (b : Bool) {f : Bool → Parser α} (hj : j ≤ d + 1)
    (hb : EndsAt terminators d j c ↔ b = true) (h : Course (LineAt d j c) pre (f b) a W q' keep) :
    Course (LineAt d j c) pre (endsStatements terminators >>= f) a W q' keep := by
  intro s base hs hi
  obtain ⟨h1, h2⟩ := run_endsStatements terminators hs.good
  have hfaces : Faces .statement (kindOf d j c) (LineAt d j c) := LineAt.faces rfl hj
  have hends : EndsAt terminators d j c ↔ endsBlock (s.kindAt .statement) ∨
      s.kindAt .statement = .commandStart ∧
        (s.commandAt .statement).any terminators.contains = true := by
    rw [hfaces.kind hs, LineAt.commandAt hj hs, EndsAt, Option.any_eq_true]
    refine or_congr_right ⟨?_, ?_⟩
    · rintro ⟨keyword, hk, hc⟩
      refine ⟨?_, keyword, hk, hc⟩
      by_contra hne
      simp [keywordOf, hne] at hk
    · rintro ⟨-, keyword, hk, hc⟩
      exact ⟨keyword, hk, hc⟩
  have hans : (Parser.endsStatements terminators).answer s = b := by
    rw [Bool.eq_iff_iff, h2, ← hends, hb]
  rw [answer_bind, after_bind, hans, h1]
  exact h (hfaces.look hs) hi

/-! ### Runs of statements -/

/-- A run that is over takes nothing. -/
lemma statementList_end (hj : j ≤ d + 1) (h : EndsAt terminators d j c) :
    Course (LineAt d j c) pre (statementList statement terminators) () (· = pre)
      (LineAt d j c) keep := by
  have hstep : Course (LineAt d j c) pre (listStep terminators statement) (.done ()) (· = pre)
      (LineAt d j c) keep :=
        Course.poll (Course.endsStatements true hj (by simpa using h) (.pure rfl))
  unfold statementList
  exact hstep.loop_done.bind fun _ hts => .pure hts

/-- A statement that moves on to another line takes something. -/
lemma statementStep_course [∀ t, Rule (statement t)]
    (h : Course (LineAt d j c) pre (statement terminators) () V (LineAt d' j' c') keep)
    (hne : c' ≠ c) : Course (LineAt d j c) pre (statementStep terminators statement) (.yield ()) V
      (LineAt d' j' c') keep := by
  intro s base hs hi
  have hcourse := h hs hi
  have hoff : ((statement terminators).after s).scanner.offset ≠ s.scanner.offset := by
    intro hoff
    have hf := Rule.follows (statement terminators) hs.good
    obtain ⟨u, hu⟩ := hf.suffix
    have hsize := hf.offset
    rw [hoff, ← hu, Text.size_append] at hsize
    have hnil : u = [] := by
      have hzero : Text.size u = 0 := by omega
      exact Text.size_eq_zero.1 hzero
    have hrest : ((statement terminators).after s).scanner.rest = s.scanner.rest := by
      simpa [hnil] using hu
    apply hne
    rw [← hcourse.2.1.here.contentOf_rest, hrest, hs.here.contentOf_rest]
  unfold Parser.answer Parser.after
  rw [statementStep, run_ifStuck, if_neg hoff]
  exact ⟨rfl, hcourse.2⟩

lemma statementList_cons [∀ t, Rule (statement t)] (hj : j ≤ d + 1)
    (hgo : ¬ EndsAt terminators d j c)
    (h : Course (LineAt d j c) [] (statement terminators) () V (LineAt d' j' c') keep)
    (hne : c' ≠ c)
    (hrest : Course (LineAt d' j' c') [] (statementList statement terminators) () W q' keep) :
    Course (LineAt d j c) [] (statementList statement terminators) ()
      (fun ts => ∃ us vs, V us ∧ W vs ∧ ts = us ++ vs) q' keep := by
  have hstep : Course (LineAt d j c) [] (listStep terminators statement) (.yield ()) V
      (LineAt d' j' c') keep :=
    Course.poll (Course.endsStatements false hj (by simpa using hgo) (statementStep_course h hne))
  unfold statementList at hrest ⊢
  refine Course.loop_yield_bind (I := fun _ => Any) (fun _ _ hg => Rule.good _ hg)
    (advances_listStep terminators statement) (fun _ _ => trivial) hstep fun us hus => ?_
  refine hrest.frame.mono ?_
  rintro _ ⟨vs, hvs, rfl⟩
  exact ⟨us, vs, hus, hvs, rfl⟩

/-- What starts with text or an interpolation is a line. -/
lemma statement_line {q : Scanner → Prop} {levels : Nat} {k : Kind} (hq : Faces .statement k q)
    (hk : k = .text ∨ k = .leftBrace) (h : Course q pre (line levels .statement) () V q' keep) :
    Course q pre (Parser.statement (levels + 1) terminators) () V q' keep := by
  rw [Parser.statement]
  refine Course.peekKind hq ?_
  rcases hk with rfl | rfl <;> exact h

end Parser

end DialogueScript

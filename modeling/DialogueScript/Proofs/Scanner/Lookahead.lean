import DialogueScript.Proofs.Scanner.Resume

/-!
Looking ahead leaves no trace. A look may start the line that an unterminated text ends with, make
the plan of a line and keep the token that it saw, so it does change the scanner. What is taken next
in a mode cannot tell, as long as nothing was settled that this mode would not have settled itself.
-/

namespace DialogueScript

namespace Scanner

/-- The calls that look at what stands next, in a mode that can be looked in before taking a token
in the given one. -/
def Call.LooksBefore (mode : Mode) : Call → Prop
  | .peek first | .peekCommandKeyword first => first.Before mode
  | .bump _ | .takeDiagnostics | .bumpRest => False

instance (mode : Mode) : DecidablePred (Call.LooksBefore mode) := fun c => by
  cases c <;> unfold Call.LooksBefore <;> infer_instance

/-- Taking a token in a mode shows no difference between two scanners. -/
structure Indistinct (mode : Mode) (s s' : Scanner) : Prop where
  ahead : s'.ahead mode = s.ahead mode
  after : s'.after mode = s.after mode
  diagnostics : s'.diagnostics = s.diagnostics

namespace Indistinct

variable {s s' s'' : Scanner} {mode : Mode}

lemma refl (mode : Mode) (s : Scanner) : Indistinct mode s s := ⟨rfl, rfl, rfl⟩

lemma trans (h : Indistinct mode s s') (h' : Indistinct mode s' s'') : Indistinct mode s s'' :=
  ⟨h'.ahead.trans h.ahead, h'.after.trans h.after, h'.diagnostics.trans h.diagnostics⟩

lemma looking {first : Mode} (h : first.Before mode) : Indistinct mode s (s.looking first) :=
  ⟨ahead_of_before h, after_of_before h, settle_diagnostics s first⟩

lemma bump_eq (h : Indistinct mode s s') (hs : s.Good) (hs' : s'.Good) :
    s'.bump mode = s.bump mode := by
  rw [hs.bump_eq, hs'.bump_eq, h.ahead, h.after]

/-- The answers to taking a token and to everything that is asked then. -/
lemma answers_eq (h : Indistinct mode s s') (hs : s.Good) (hs' : s'.Good) (future : List Call) :
    s'.answers (.bump mode :: future) = s.answers (.bump mode :: future) := by
  have hbump := h.bump_eq hs hs'
  have hcall : s'.call (.bump mode) = s.call (.bump mode) := by simp only [call, hbump]
  have hshown : s'.shown (.bump mode) = s.shown (.bump mode) := by simp only [shown, hbump]
  have hanswer : s'.answer (.bump mode) = s.answer (.bump mode) := by
    simp only [answer, hcall, hshown, h.diagnostics]
  simp only [answers, hanswer, hcall]

end Indistinct

/-- One look. -/
lemma indistinct_call {s : Scanner} {mode : Mode} {c : Call} (hs : s.Good)
    (hc : c.LooksBefore mode) :
    (s.call c).2.Good ∧ Indistinct mode s (s.call c).2 := by
  cases c with
  | peek first =>
    simp only [call, hs.peek_eq]
    exact ⟨hs.looking first, .looking hc⟩
  | peekCommandKeyword first =>
    simp only [call, hs.peekCommandKeyword_eq]
    exact ⟨hs.looking first, .looking hc⟩
  | bump | takeDiagnostics | bumpRest => exact hc.elim

/-- Any number of looks, by induction on them. -/
lemma indistinct_calls {s : Scanner} {mode : Mode} {looks : List Call} (hs : s.Good)
    (hlooks : ∀ c ∈ looks, c.LooksBefore mode) :
    (s.calls looks).2.Good ∧ Indistinct mode s (s.calls looks).2 := by
  induction looks generalizing s with
  | nil => exact ⟨hs, .refl mode s⟩
  | cons c looks ih =>
    obtain ⟨hgood, hone⟩ := indistinct_call hs (hlooks c List.mem_cons_self)
    obtain ⟨hgood', hrest⟩ := ih hgood fun c' hc' => hlooks c' (List.mem_cons_of_mem c hc')
    exact ⟨hgood', hone.trans hrest⟩

/-- **Lookahead is transparent**: whatever was asked of a scanner before, looking any number of
times in modes that settle nothing more than `mode` reports nothing, and changes neither the token
that is then taken in `mode`, nor the scanner behind it, nor the answer to anything that is asked
later. -/
theorem lookahead_transparent {config : Config} {t : Text} {offset : Nat} {stack : IndentStack}
    {start : Scanner} (hstart : resume? config t offset stack = some start) (hstack : stack.Rising)
    (past : List Call) {mode : Mode} {looks : List Call}
    (hlooks : ∀ c ∈ looks, c.LooksBefore mode) :
    let s := (start.calls past).2
    let s' := (s.calls looks).2
    s'.bump mode = s.bump mode ∧ s'.diagnostics = s.diagnostics ∧
      ∀ future, s'.answers (.bump mode :: future) = s.answers (.bump mode :: future) := by
  have hs := good_calls hstart hstack past
  obtain ⟨hs', hsame⟩ := indistinct_calls hs hlooks
  exact ⟨hsame.bump_eq hs hs', hsame.diagnostics, hsame.answers_eq hs hs'⟩

/-- Two blocks are open where the text ends without a line break: looks in four modes, of which one
starts the line, and the two blocks are closed as without them. -/
theorem lookahead_at_unterminated_end :
    resume? {} "é\n    a \t".toList 3 ⟨[2, 4]⟩ = some (atLine {} "    a \t".toList 3 ⟨[2, 4]⟩) ∧
      (IndentStack.mk [2, 4]).Rising ∧
      let s := ((atLine {} "    a \t".toList 3 ⟨[2, 4]⟩).calls [.peek .header, .bump .statement]).2
      let looks : List Call := [.peek .text, .peekCommandKeyword .statement, .peek .expr,
        .peek .afterOption, .peek .text]
      (∀ c ∈ looks, c.LooksBefore .statement) ∧ s.lineStart = false ∧
        (s.calls looks).2 ≠ s ∧ (s.calls looks).2.lineStart = true ∧
        ((s.calls looks).2.bump .statement).1.token.kind = .dedent ∧
        (s.calls looks).2.bump .statement = s.bump .statement ∧
        ∀ future, (s.calls looks).2.answers (.bump .statement :: future) =
          s.answers (.bump .statement :: future) := by
  have hstart : resume? {} "é\n    a \t".toList 3 ⟨[2, 4]⟩ =
      some (atLine {} "    a \t".toList 3 ⟨[2, 4]⟩) := by decide +kernel
  have hrising : (IndentStack.mk [2, 4]).Rising := by decide
  have hlooks : ∀ c ∈ [Call.peek .text, .peekCommandKeyword .statement, .peek .expr,
      .peek .afterOption, .peek .text], c.LooksBefore .statement := by decide
  obtain ⟨hbump, -, hanswers⟩ :=
    lookahead_transparent hstart hrising [.peek .header, .bump .statement] hlooks
  exact ⟨hstart, hrising, hlooks, by decide +kernel, by decide +kernel, by decide +kernel,
    by decide +kernel, hbump, hanswers⟩

/-- The other way round a look does leave a trace: it starts the line, and the block that is closed
there is seen in every mode. -/
example :
    let s := ((atLine {} "  a".toList 0 ⟨[2]⟩).calls [.bump .statement]).2
    (s.bump .text).1.token.kind = .eof ∧
      ((s.peek .statement).2.bump .text).1.token.kind = .dedent := by
  decide +kernel

end Scanner

end DialogueScript

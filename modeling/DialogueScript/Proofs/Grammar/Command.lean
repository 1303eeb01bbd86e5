import DialogueScript.Grammar.Command
import DialogueScript.Proofs.Grammar.LineEnd

/-!
The rules for commands depend on nothing but what their scanner sees. The blocks of cases in an enum
can nest no deeper than the text is long, so the bound on their nesting plays no part either.
-/

set_option synthInstance.maxSize 512

namespace DialogueScript

namespace Parser

open ParserState

instance : Rule commandStart := by
  unfold commandStart
  infer_instance

instance : Consumes .statement commandStart := by
  unfold commandStart
  infer_instance

instance : Rule commandClose := by
  unfold commandClose
  infer_instance

instance : EndsLine commandClose := by
  unfold commandClose
  infer_instance

instance : Rule commandVariable := by
  unfold commandVariable
  infer_instance

instance : Rule eatEquals := by
  unfold eatEquals
  infer_instance

section
variable (levels : Nat)

instance : Rule (setValue levels) := by
  unfold setValue
  dsimp only
  infer_instance

instance : EndsLine (setValue levels) := by
  unfold setValue
  dsimp only
  infer_instance

instance : Rule (setCommand levels) := by
  unfold setCommand
  infer_instance

instance : Consumes .statement (setCommand levels) := by
  unfold setCommand
  infer_instance

instance : EndsLine (setCommand levels) := by
  unfold setCommand
  infer_instance

instance : Rule (callTarget levels) :=
  ⟨.ranged .expr Rule.reads _, .ranged .expr Rule.reads Rule.agrees _⟩

instance : Rule (callCommand levels) := by
  rw [callCommand]
  infer_instance

instance : Consumes .statement (callCommand levels) := by
  rw [callCommand]
  infer_instance

instance : EndsLine (callCommand levels) := by
  rw [callCommand]
  infer_instance

instance : Rule typeClause := by
  unfold typeClause
  infer_instance

instance : Rule (declareValue levels) := by
  unfold declareValue
  exact .seq inferInstance fun _ => .optional inferInstance fun _ => .seq inferInstance fun _ =>
    .seq inferInstance fun _ => .optional inferInstance fun _ => inferInstance

instance : EndsLine (declareValue levels) := by
  unfold declareValue
  exact .seq inferInstance fun _ => .optional inferInstance fun _ => .seq inferInstance fun _ =>
    .seq inferInstance fun _ => .optional inferInstance fun _ => inferInstance

instance : Rule (declareCommand levels) := by
  rw [declareCommand]
  infer_instance

instance : Consumes .statement (declareCommand levels) := by
  rw [declareCommand]
  infer_instance

instance : EndsLine (declareCommand levels) := by
  rw [declareCommand]
  infer_instance

instance : Rule (jumpTarget levels) := by
  unfold jumpTarget
  infer_instance

instance : Rule (jumpCommand levels) := by
  unfold jumpCommand
  infer_instance

instance : Consumes .statement (jumpCommand levels) := by
  unfold jumpCommand
  infer_instance

instance : EndsLine (jumpCommand levels) := by
  unfold jumpCommand
  infer_instance

instance : Rule returnCommand := by
  unfold returnCommand
  infer_instance

instance : Consumes .statement returnCommand := by
  unfold returnCommand
  infer_instance

instance : EndsLine returnCommand := by
  unfold returnCommand
  infer_instance

instance (found : Bool) : Rule (freeStep levels found) := by
  unfold freeStep
  refine .seq inferInstance fun k => ?_
  split <;> infer_instance

lemma advances_freeStep : Advances (fun _ => Any) (freeStep levels) := by
  refine Goes.advances fun _ => .peekKind fun k => ?_
  split
  · exact .of_consumes .commandText (by rintro s h; simp [h])
  · exact .of_consumes .commandText (by rintro s h; simp [h])
  · exact goes_done _

instance (found : Bool) : Rule (loop (freeStep levels) found) :=
  Rule.loop inferInstance (advances_freeStep levels) _

instance : Rule (freeText levels) := by
  unfold freeText
  infer_instance

instance : Rule freeRest := by
  unfold freeRest
  infer_instance

instance : EndsLine freeRest := by
  unfold freeRest
  dsimp only
  infer_instance

instance : Rule (freeCommand levels) := by
  unfold freeCommand
  infer_instance

instance : Consumes .statement (freeCommand levels) := by
  unfold freeCommand
  infer_instance

instance : EndsLine (freeCommand levels) := by
  unfold freeCommand
  infer_instance

instance (keyword kind : Kind) (message : String) : Rule (closeWith keyword kind message) := by
  unfold closeWith
  infer_instance

instance (keyword : Kind) : Consumes .statement (strayClause keyword) := by
  unfold strayClause
  dsimp only
  infer_instance

instance (keyword : Kind) : Rule (strayClause keyword) := by
  unfold strayClause
  dsimp only
  infer_instance

instance : Rule (enumCase levels) := by
  unfold enumCase
  dsimp only
  infer_instance

instance : Consumes .statement (enumCase levels) := by
  unfold enumCase
  dsimp only
  infer_instance

instance : EndsLine (enumCase levels) := by
  unfold enumCase
  dsimp only
  infer_instance

/-! ### Blocks of cases -/

/-- The kinds at which a block ends, and so does what stands in it. -/
def endsBlock (k : Kind) : Prop := k = .eof ∨ k = .bodyEnd ∨ k = .titleKw ∨ k = .dedent

lemma caseStepAt_cases (cases : Nat) (k : Kind) :
    (endsBlock k ∧
      ∀ nesting, caseStepAt levels (caseBlock levels nesting) cases k = pure (.done cases)) ∨
    (k = .indent ∧ ∀ nesting, caseStepAt levels (caseBlock levels nesting) cases k =
      (do return .yield (cases + (← caseBlock levels nesting)))) ∨
    (¬ endsBlock k ∧
      ∀ nesting, caseStepAt levels (caseBlock levels nesting) cases k = caseLine levels cases) := by
  cases k
  case eof => exact .inl ⟨.inl rfl, fun _ => rfl⟩
  case bodyEnd => exact .inl ⟨.inr (.inl rfl), fun _ => rfl⟩
  case titleKw => exact .inl ⟨.inr (.inr (.inl rfl)), fun _ => rfl⟩
  case dedent => exact .inl ⟨.inr (.inr (.inr rfl)), fun _ => rfl⟩
  case indent => exact .inr (.inl ⟨rfl, fun _ => rfl⟩)
  all_goals exact .inr (.inr ⟨by simp [endsBlock], fun _ => rfl⟩)

/-- What a block of cases needs: it starts here, and it can nest as deep as the text allows. -/
structure Fits (nesting : Nat) (s : ParserState) : Prop where
  length : s.scanner.rest.length ≤ nesting
  indent : s.kindAt .statement = .indent

/-- What its loop needs: the last line was taken with its end. -/
structure Between (nesting : Nat) (s : ParserState) : Prop where
  length : s.scanner.rest.length ≤ nesting
  noBreak : s.kindAt .statement ≠ .newline

lemma Fits.pos {nesting : Nat} {s : ParserState} (hg : s.Good) (h : Fits nesting s) :
    nesting ≠ 0 := by
  rintro rfl
  have ht := hg.scanner.takes .statement
  have hrest := ht.rest_eq
  rw [Scanner.settle_rest, List.length_eq_zero_iff.1 (Nat.le_zero.1 h.length)] at hrest
  have hind : (s.scanner.ahead .statement).token.kind = .indent := h.indent
  rcases ht.progress (hg.scanner.settle .statement) with h1 | ⟨h1, -⟩ | ⟨h1, -⟩
  · exact h1 (List.append_eq_nil_iff.1 hrest.symm).1
  · simp [hind] at h1
  · simp [hind] at h1

instance (cases : Nat) : Rule (caseLine levels cases) := by
  unfold caseLine caseOr
  infer_instance

lemma reading_caseStepAt {nesting : Nat} (h : Reading (caseBlock levels nesting)) (cases : Nat)
    (k : Kind) : Reading (caseStepAt levels (caseBlock levels nesting) cases k) := by
  rcases caseStepAt_cases levels cases k with ⟨-, hk⟩ | ⟨-, hk⟩ | ⟨-, hk⟩ <;> rw [hk]
  · exact Rule.reads
  · exact .bind h fun _ => Rule.reads
  · exact Rule.reads

lemma reading_caseStep {nesting : Nat} (h : Reading (caseBlock levels nesting)) (cases : Nat) :
    Reading (caseStep levels (caseBlock levels nesting) cases) :=
  .bind Rule.reads fun k => reading_caseStepAt levels h cases k

lemma reading_caseRun {nesting : Nat} (h : Reading (caseBlock levels nesting)) :
    Reading (caseRun levels (caseBlock levels nesting)) :=
  .bind Rule.reads fun _ => .bind (.loop (reading_caseStep levels h) 0) fun _ => Rule.reads

lemma reading_caseBlock (nesting : Nat) : Reading (caseBlock levels nesting) := by
  induction nesting with
  | zero =>
    rw [caseBlock]
    exact Rule.reads
  | succ nesting ih =>
    rw [caseBlock]
    exact .node (reading_caseRun levels ih) _

lemma Consumes.skipLine {s : ParserState} (hg : s.Good) {mode : Mode}
    (h1 : s.kindAt mode ≠ .newline) (h2 : s.kindAt mode ≠ .eof) :
    ((skipLine mode).after s).scanner.budget < s.scanner.budget := by
  have hlook := hg.look mode
  simp only [Parser.skipLine, after_bind, hg.answer_isAtLineEnd, hg.after_isAtLineEnd, h1, h2,
    decide_false, Bool.or_self, Bool.not_false, if_true]
  rw [← budget_look s mode]
  exact Consumes.budget_lt hlook (by rwa [kindAt_look])

lemma Consumes.errorLine {s : ParserState} (hg : s.Good) {mode : Mode} (message : String)
    (h1 : s.kindAt mode ≠ .newline) (h2 : s.kindAt mode ≠ .eof) :
    ((errorLine mode message).after s).scanner.budget < s.scanner.budget := by
  obtain ⟨hk, hb⟩ := Good.kindAt_errorOf hg mode .unexpectedToken message
  have hu := Rule.good (error mode message) hg
  rw [← error] at hk hb
  rw [Parser.errorLine, after_bind, ← hb]
  exact Consumes.skipLine hu (by rwa [hk]) (by rwa [hk])

/-- A block of cases takes a token and leaves the parser where its loop can go on. -/
def CaseBlockSpec (nesting : Nat) : Prop :=
  ∀ ⦃s⦄, s.Good → Fits nesting s →
    ((caseBlock levels nesting).after s).scanner.budget < s.scanner.budget ∧
      Between nesting ((caseBlock levels nesting).after s)

lemma Between.follows {nesting : Nat} {s s' : ParserState} (h : Between nesting s)
    (hf : Follows s s') (hk : s'.kindAt .statement ≠ .newline) : Between nesting s' :=
  ⟨le_trans hf.suffix.length_le h.length, hk⟩

lemma between_caseLine {nesting : Nat} {s : ParserState} (hg : s.Good) (h : Between nesting s)
    (hk : s.kindAt .statement ≠ .eof) (cases : Nat) :
    ((caseLine levels cases).after s).scanner.budget < s.scanner.budget ∧
      Between nesting ((caseLine levels cases).after s) := by
  have hlook := hg.look .statement
  have hf := Rule.follows (caseLine levels cases) hg
  have hlook1 : (s.look .statement).kindAt .statement ≠ .newline := by
    rw [kindAt_look]
    exact h.noBreak
  have hlook2 : (s.look .statement).kindAt .statement ≠ .eof := by rwa [kindAt_look]
  have hbudget := budget_look s .statement
  simp only [caseLine, caseOr, after_bind, hg.answer_peekCommand, hg.after_peekCommand] at hf ⊢
  generalize s.look .statement = u at hlook hlook1 hlook2 hbudget hf
  rw [← hbudget]
  split at hf
  · next hc =>
    rw [if_pos hc]
    have hlt := Consumes.lt .statement (enumCase levels) hlook hlook2
    have hat := EndsLine.after (enumCase levels) hlook
    have hv := Rule.good (enumCase levels) hlook
    rw [after_bind, after_pure] at hf ⊢
    generalize (enumCase levels).after u = v at hlt hat hv hf
    exact ⟨hlt, h.follows hf (hat.kind_ne hv .statement rfl rfl)⟩
  · next hc =>
    rw [if_neg hc]
    have hlt := Consumes.errorLine hlook "only `<<case>>` lines are allowed in an enum"
      hlook1 hlook2
    have hat := ended_errorLine hlook "only `<<case>>` lines are allowed in an enum" (.inr hlook1)
    have hv := Rule.good (errorLine .statement "only `<<case>>` lines are allowed in an enum") hlook
    rw [after_bind, after_bind, after_pure] at hf ⊢
    generalize (errorLine .statement "only `<<case>>` lines are allowed in an enum").after u = v
      at hlt hat hv hf
    refine ⟨lt_of_le_of_lt (Rule.budget_le eatNewline hv) hlt, h.follows hf ?_⟩
    exact hat.kind_ne (Rule.good eatNewline hv) .statement rfl rfl

lemma advances_caseStep {nesting : Nat} (h : CaseBlockSpec levels nesting) :
    Advances (fun _ => Between nesting) (caseStep levels (caseBlock levels nesting)) := by
  intro a s hg hs b hb
  have hlook := hg.look .statement
  have hbudget := budget_look s .statement
  have hbetween : Between nesting (s.look .statement) :=
    hs.follows (.look hg _) (by rw [kindAt_look]; exact hs.noBreak)
  rw [caseStep, answer_bind, hg.answer_peekKind, hg.after_peekKind] at hb
  rw [caseStep, after_bind, hg.answer_peekKind, hg.after_peekKind, ← hbudget]
  have hk : (s.look .statement).kindAt .statement = s.kindAt .statement := kindAt_look _ _
  generalize s.look .statement = u at hlook hbetween hb hk hbudget
  rcases caseStepAt_cases levels a (s.kindAt .statement) with ⟨-, heq⟩ | ⟨hi, heq⟩ | ⟨he, heq⟩ <;>
    rw [heq] at hb ⊢
  · simp at hb
  · exact h hlook ⟨hbetween.length, hk.trans hi⟩
  · exact between_caseLine levels hlook hbetween (fun h => he (.inl (hk.symm.trans h))) a

lemma caseStep_done {nesting cases : Nat} {s : ParserState} (hg : s.Good) {b : Nat}
    (h : (caseStep levels (caseBlock levels nesting) cases).answer s = .done b) :
    endsBlock (s.kindAt .statement) ∧
      (caseStep levels (caseBlock levels nesting) cases).after s = s.look .statement := by
  rw [caseStep, answer_bind, hg.answer_peekKind, hg.after_peekKind] at h
  rw [caseStep, after_bind, hg.answer_peekKind, hg.after_peekKind]
  rcases caseStepAt_cases levels cases (s.kindAt .statement) with
    ⟨hk, heq⟩ | ⟨-, heq⟩ | ⟨-, heq⟩ <;> rw [heq] at h ⊢
  · exact ⟨hk, rfl⟩
  · simp at h
  · simp only [caseLine, caseOr, answer_bind, answer_ite, answer_pure] at h
    split at h <;> simp at h

/-- The token that opens a block takes some of the text. -/
lemma length_take_indent {s : ParserState} (hg : s.Good) (hk : s.kindAt .statement = .indent) :
    (s.take .statement).scanner.rest.length < s.scanner.rest.length := by
  have ht := hg.scanner.takes .statement
  have hrest := congrArg List.length ht.rest_eq
  rw [Scanner.settle_rest, List.length_append] at hrest
  have hind : (s.scanner.ahead .statement).token.kind = .indent := hk
  rcases ht.progress (hg.scanner.settle .statement) with h1 | ⟨h1, -⟩ | ⟨h1, -⟩
  · have hpos := List.length_pos_iff.2 h1
    have heq : (s.take .statement).scanner.rest = (s.scanner.after .statement).rest := rfl
    rw [heq]
    omega
  · simp [hind] at h1
  · simp [hind] at h1

lemma caseBlock_spec (nesting : Nat) : CaseBlockSpec levels nesting := by
  induction nesting with
  | zero => exact fun s hg h => absurd rfl (h.pos hg)
  | succ nesting ih =>
    intro s hg h
    have hf := (reading_caseBlock levels (nesting + 1)).follows hg
    have hs := good_start hg
    have hne : s.start.kindAt .statement ≠ .eof := by simp [h.indent]
    have htake := hs.take .statement
    have hlt := Consumes.lt .statement (advance .statement) hs hne
    have hat : AtLine (s.start.take .statement) := atLine_take hs (.inl h.indent)
    have hlen := length_take_indent hs h.indent
    have hlength := h.length
    rw [hs.after_advance, if_neg hne] at hlt
    rw [caseBlock, after_node] at hf ⊢
    simp only [caseRun, after_bind, after_pure, hs.after_advance, if_neg hne] at hf ⊢
    rw [scanner_start] at hlen hlt
    generalize s.start.take .statement = t at *
    have hbetween : Between nesting t := ⟨by omega, hat.kind_ne htake .statement rfl rfl⟩
    obtain ⟨b, u, h1, h2, h3, h4, h5⟩ := loop_done (a := 0)
      (reading_caseStep levels (reading_caseBlock levels nesting)) (advances_caseStep levels ih)
      htake hbetween
    obtain ⟨-, h6⟩ := caseStep_done levels h1 h4
    have hlook := h1.look .statement
    have hle := (h3.follows htake).budget_le
    have hbudget := budget_look u .statement
    have hnl : (u.look .statement).kindAt .statement ≠ .newline := by
      rw [kindAt_look]
      exact h2.noBreak
    rw [h5, h6] at hf ⊢
    generalize u.look .statement = v at *
    have hv := Rule.budget_le (expect .statement .dedent "expected the end of the indented block")
      hlook
    refine ⟨by rw [scanner_complete]; omega, le_trans hf.suffix.length_le h.length, ?_⟩
    rw [kindAt_complete, Good.after_expect hlook _ (by simp)]
    split
    · next hd => exact (atLine_take hlook (.inr hd)).kind_ne (hlook.take _) _ rfl rfl
    · rw [error, (Good.kindAt_errorOf (hlook.look _) _ _ _).1, kindAt_look]
      exact hnl

lemma Between.look {nesting : Nat} {s : ParserState} (hg : s.Good) (h : Between nesting s) :
    Between nesting (s.look .statement) :=
  h.follows (.look hg _) (by rw [kindAt_look]; exact h.noBreak)

lemma Fits.advance {nesting : Nat} {s : ParserState} (hg : s.Good) (h : Fits (nesting + 1) s) :
    Between nesting ((advance .statement).after s) := by
  have hlength := h.length
  have hlen := length_take_indent hg h.indent
  rw [hg.after_advance, if_neg (by simp [h.indent])]
  exact ⟨by omega, (atLine_take hg (.inl h.indent)).kind_ne (hg.take _) _ rfl rfl⟩

lemma matches_caseStep {nesting nesting' : Nat}
    (h : Matches (Fits nesting) (caseBlock levels nesting) (Fits nesting')
      (caseBlock levels nesting')) (cases : Nat) :
    Matches (Between nesting) (caseStep levels (caseBlock levels nesting) cases) (Between nesting')
      (caseStep levels (caseBlock levels nesting') cases) := by
  refine .peekKind (fun _ hg => .look hg) (fun _ hg => .look hg) (fun k => ?_) fun k => ?_
  · exact reading_caseStepAt levels (reading_caseBlock levels nesting) cases k
  · rcases caseStepAt_cases levels cases k with ⟨-, hk⟩ | ⟨rfl, hk⟩ | ⟨-, hk⟩ <;> rw [hk, hk]
    · exact Rule.matches inferInstance _ _
    · have hblock : Matches (fun s => Between nesting s ∧ s.kindAt .statement = .indent)
          (caseBlock levels nesting) (fun s => Between nesting' s ∧ s.kindAt .statement = .indent)
          (caseBlock levels nesting') :=
        h.weaken (fun s hs => ⟨hs.1.length, hs.2⟩) (fun s hs => ⟨hs.1.length, hs.2⟩)
      exact .bind (fun _ => Rule.reads) hblock (fun _ => Rule.agrees) (fun _ _ _ => trivial)
        (fun _ _ _ => trivial) (reading_caseBlock levels nesting)
    · exact Rule.matches inferInstance _ _

/-- How deep blocks of cases may nest does not matter where the text is too short for more. -/
lemma matches_caseBlock (nesting nesting' : Nat) : Matches (Fits nesting) (caseBlock levels nesting)
    (Fits nesting') (caseBlock levels nesting') := by
  induction nesting generalizing nesting' with
  | zero => exact fun π s s' h hs => absurd rfl (hs.pos h.good)
  | succ nesting ih =>
    rcases nesting' with _ | nesting'
    · exact fun π s s' h _ hs' => absurd rfl (hs'.pos h.good')
    · have hsteps := Reading.loop (reading_caseStep levels (reading_caseBlock levels nesting)) 0
      have hloop := Matches.loop (reading_caseStep levels (reading_caseBlock levels nesting))
        (matches_caseStep levels (ih nesting'))
        (advances_caseStep levels (caseBlock_spec levels nesting))
        (advances_caseStep levels (caseBlock_spec levels nesting')) 0
      have hrun : Matches (Fits (nesting + 1)) (caseRun levels (caseBlock levels nesting))
          (Fits (nesting' + 1)) (caseRun levels (caseBlock levels nesting')) :=
        .bind (fun _ => .bind hsteps fun _ => Rule.reads) (Rule.matches inferInstance _ _)
          (fun _ => .bind (fun _ => Rule.reads) hloop (fun _ => Rule.agrees) (fun _ _ _ => trivial)
            (fun _ _ _ => trivial) hsteps) (fun _ hg h => h.advance hg) (fun _ hg h => h.advance hg)
          Rule.reads
      rw [caseBlock, caseBlock]
      exact (hrun.node (reading_caseRun levels (reading_caseBlock levels nesting))
        (reading_caseRun levels (reading_caseBlock levels nesting')) .block).weaken
        (fun _ h => ⟨h.length, h.indent⟩) (fun _ h => ⟨h.length, h.indent⟩)

/-! ### Enums -/

lemma reading_casesHere : Reading (casesHere levels) :=
  fun s hg => reading_caseBlock levels s.scanner.rest.length hg

lemma matches_casesHere : Matches (·.kindAt .statement = .indent) (casesHere levels)
    (·.kindAt .statement = .indent) (casesHere levels) :=
  fun _ _ _ h hs hs' => matches_caseBlock levels _ _ h ⟨le_rfl, hs⟩ ⟨le_rfl, hs'⟩

instance (cases : Nat) : Rule (enumStep levels cases) := by
  have : Rule (peekKind .statement >>= enumStepAt levels cases) := by
    refine .peekKind fun k => ?_
    unfold enumStepAt caseOr
    split
    · exact ⟨.bind (reading_casesHere levels) fun _ => Rule.reads,
        .bind (fun _ => Rule.reads) (matches_casesHere levels) (fun _ => Rule.agrees)
          (fun _ _ _ => trivial) (fun _ _ _ => trivial) (reading_casesHere levels)⟩
    · exact ⟨Rule.reads, Rule.matches inferInstance _ _⟩
    · exact ⟨Rule.reads, Rule.matches inferInstance _ _⟩
  unfold enumStep
  infer_instance

lemma advances_enumStep : Advances (fun _ => Any) (enumStep levels) := by
  refine Goes.advances fun cases => .bind fun stop => .ite (goes_done _) (.peekKind fun k => ?_)
  unfold enumStepAt caseOr
  split
  · intro s hg hk b _
    exact (caseBlock_spec levels s.scanner.rest.length hg ⟨le_rfl, hk⟩).1
  · refine .peekCommand fun keyword => .ite (.of_consumes .statement ?_) (goes_done _)
    rintro s hk
    simp [hk]
  · exact goes_done _

instance : Rule enumName := by
  unfold enumName
  infer_instance

instance : Rule (enumCommand levels) := by
  have := Rule.loop (fun _ => inferInstance) (advances_enumStep levels) 0
  unfold enumCommand enumHead enumName enumTail enumCases
  infer_instance

end

end Parser

end DialogueScript

import DialogueScript.Proofs.Parse.Orderly

/-!
Every loop of the grammar moves. For each loop, the states in which a parse can come to it are those
that its rules lead to and in which the tokens stand next that the loop is called at. In all of
them, a step that does not leave the loop moves the position, except that a step over the statements
of a body may close a block instead.
-/

set_option synthInstance.maxSize 512

namespace DialogueScript

open DialogueScript.Parser ParserState
open Scanner (Before Calm LineOver)

namespace Parse

section
variable (config : Config) (t : Text) (cancelAt : Option Nat)

/-- The states that a parse can come through: those that rules lead to, also behind a checkpoint and
in nodes that are open. -/
inductive Reaches : ParserState → Prop where
  | begun : Reaches (begun config t cancelAt)
  | mark {s : ParserState} : Reaches s → Reaches s.mark
  | start {s : ParserState} : Reaches s → Reaches s.start
  | precede {s : ParserState} : Reaches s → Reaches s.precede
  | reads {s u : ParserState} : Reaches s → Reads s u → Reaches u

/-- The states inside of a line. A line is read where a child of the root is, or where a token
stands next that closes no block. That token is taken in the mode in which it was looked at. From
then on, no indentation is compared. -/
inductive InLine : ParserState → Prop where
  | child {nodes : Nat} {s : ParserState} : Visits itemStep 0 (begun config t cancelAt) nodes s →
      poll.answer s.mark = false → InLine (poll.after s.mark)
  | next {mode : Mode} {s : ParserState} : Reaches config t cancelAt s →
      s.kindAt mode ≠ .dedent → InLine s
  | behind {mode : Mode} {s : ParserState} : Reaches config t cancelAt s → s.kindAt mode ≠ .dedent →
      InLine ((advance mode).after s)
  | start {s : ParserState} : InLine s → InLine s.start
  | precede {s : ParserState} : InLine s → InLine s.precede
  | skims {s u : ParserState} : InLine s → Skims s u → InLine u

/-- Where blocks of cases are read: in an enum, and in other such blocks. -/
inductive CasesAt (levels : Nat) : Nat → ParserState → Prop where
  | enum {s : ParserState} : Reaches config t cancelAt s → s.kindAt .statement = .indent →
      CasesAt levels s.scanner.rest.length s
  | block {nesting cases : Nat} {s u : ParserState} : CasesAt levels (nesting + 1) s →
      Visits (caseStep levels (caseBlock levels nesting)) 0
        ((advance .statement).after s.start) cases u →
      u.kindAt .statement = .indent → CasesAt levels nesting (u.look .statement)

end

/-- A run of statements comes to its next statement: reading is not cancelled, and the run does not
end. -/
structure NextStatement (terminators : KindSet) (u v : ParserState) : Prop where
  running : poll.answer u = false
  goesOn : (endsStatements terminators).answer (poll.after u) = false
  state : v = (endsStatements terminators).after (poll.after u)

/-- Each statement of a run that starts here moves the position, so nothing is done about one that
does not. -/
def EachMoves (levels : Nat) (terminators : KindSet) (s : ParserState) : Prop :=
  ∀ ⦃a u v⦄, Visits (fun _ : Unit => listStep terminators (statement levels)) () s a u →
    NextStatement terminators u v →
      v.scanner.Before ((statement levels terminators).after v).scanner ∧
      (statementStep terminators (statement levels)).run v =
        (.yield (), (statement levels terminators).after v)

/-- The loops inside of a line: over an operand that is nested too deeply, over arguments, over
hashtags, and over the rest of a line, of a command or of an interpolation. -/
structure LineLoops (s : ParserState) : Prop where
  tooDeep : Onward Before deepStep 0 s
  arguments : ∀ levels, Onward Before (fun _ => argStep (expr levels)) () s
  hashtags : Onward Before (fun _ => whileStep (isAt .text .hash) hashtag) () s
  lineRest : Onward Before (fun _ => whileStep (isInLine .text) (advance .text)) () s
  commandRest : Onward Before (fun _ => whileStep (isBefore .expr commandEnds) (advance .expr)) () s
  interpolationRest :
    Onward Before (fun _ => whileStep (isBefore .expr interpolationEnds) (advance .expr)) () s

/-- All loops of a parse move. -/
structure Progress (config : Config) (t : Text) (cancelAt : Option Nat) : Prop where
  items : Onward Before itemStep 0 (begun config t cancelAt)
  /-- The headers of a node. -/
  headers : ∀ s, Reaches config t cancelAt s → nodeFirst.contains (s.kindAt .header) = true →
    Onward Before headerStep 0 ((peekRange .header).after s.start)
  /-- The statements of a body, of a block and of a clause. -/
  body : ∀ s u, Reaches config t cancelAt s →
    Visits (fun _ : Unit => bodyStep) () (bodyHead.after s.start) () u → EachMoves maxDepth .empty u
  block : ∀ levels s, Reaches config t cancelAt s → s.kindAt .statement = .indent →
    EachMoves levels .empty ((advance .statement).after s.start)
  clause : ∀ levels terminators s, Reaches config t cancelAt s →
    EachMoves levels terminators ((endOfLine .text).after s)
  /-- A body goes on behind a block that was not opened there, which is closed then. -/
  bodyBlocks : ∀ s, Reaches config t cancelAt s → Onward
    (fun s s' => s.Before s' ∨ s'.stack.depth < s.stack.depth) (fun _ : Unit => bodyStep) () s
  chains : ∀ levels terminators s, Reaches config t cancelAt s →
    Onward Before (ifStep (statement levels) levels terminators) false s ∧
      Onward Before (onceStep (statement levels) levels terminators) false s
  /-- Options or items of a line group. -/
  groups : ∀ levels lineGroup s, Reaches config t cancelAt s →
    s.kindAt .statement = arrowOf lineGroup →
    Onward Before (groupStep (statement levels) levels lineGroup) .statement s.start
  enums : ∀ levels s, Reaches config t cancelAt s → Onward Before (enumStep levels) 0 s
  cases : ∀ levels n s, CasesAt config t cancelAt levels n s → ∃ nesting, n = nesting + 1 ∧
    Onward Before (caseStep levels (caseBlock levels nesting)) 0
      ((advance .statement).after s.start)
  /-- The text of a line and of a command. -/
  lineText : ∀ levels first s, Reaches config t cancelAt s →
    Onward Before (textStep levels first) false s.start
  commandText : ∀ levels s, Reaches config t cancelAt s → Onward Before (freeStep levels) false s
  operators : ∀ levels tiers floor first s, Reaches config t cancelAt s →
    Onward Before (operatorStep (climb (operand levels) tiers) floor) first s
  inLine : ∀ s, InLine config t cancelAt s → LineLoops s
  /-- So no statement is missed. -/
  diagnostics : ∀ d ∈ (withCancel config t cancelAt).diagnostics, d.message ≠ "expected a statement"
  /-- No child of the root is empty, but for the rest of a text that was not read to its end and for
  the end of the text. Only tokens that close blocks are, which no loop takes but that over the
  statements of a body. -/
  children : ∃ children rest eof,
    (withCancel config t cancelAt).tree = .node .sourceFile (children ++ (rest ++ [.leaf eof])) ∧
    (∀ tree ∈ children, tree.text ≠ []) ∧ eof.kind = .eof ∧
    (rest = [] ∨ (finalState config t cancelAt).cancelled = true ∧ ∃ cs, rest = [.node .error cs]) ∧
    ∀ tree ∈ children ++ rest, tree.InPlace

section
variable {config : Config} {t : Text} {cancelAt : Option Nat} {s : ParserState}

lemma Reaches.good (h : Reaches config t cancelAt s) : s.Good := by
  induction h with
  | begun => exact (whole_start config t cancelAt).good
  | mark _ ih => exact ih.mark
  | start _ ih => exact good_start ih
  | precede _ ih => exact good_precede ih
  | reads _ h ih => exact (h.follows ih).good

/-- Inside of a line no block is closed next. -/
lemma InLine.calm (h : InLine config t cancelAt s) : s.Good ∧ s.scanner.Calm := by
  induction h with
  | @child nodes s h hp =>
    have hs : s.Good ∧ AtChild s := by
      refine h.keeps (I := fun _ s => s.Good ∧ AtChild s) ⟨?_, ?_⟩ ?_
      · exact (sound_start config t cancelAt).whole.good
      · exact (sound_start config t cancelAt).atChild
      · exact fun _ _ ⟨hg, hs⟩ _ hb => itemStep_keeps hg hs hb
    have hrunning : s.cancelled = false := running_of_poll (s := s.mark) hp
    have hcalm := (hs.2.resolve_left (by simp [hrunning])).2
    exact ⟨Rule.good poll hs.1.mark, by rwa [scanner_poll]⟩
  | next h hk => exact ⟨h.good, Scanner.calm_of_kind_ne h.good.scanner.toSane hk⟩
  | @behind mode s h hk =>
      exact ⟨Rule.good (advance mode) h.good, (Triple.advance mode h.good hk).2⟩
  | start _ ih => exact ⟨good_start ih.1, ih.2⟩
  | precede _ ih => exact ⟨good_precede ih.1, ih.2⟩
  | skims _ h ih => exact ⟨h.good ih.1, (h.calm ih.1 ih.2).1⟩

/-- A block of cases is read where one starts, and it can nest as deep as the text allows. -/
lemma CasesAt.fits {levels n : Nat} (h : CasesAt config t cancelAt levels n s) :
    s.Good ∧ Fits n s := by
  induction h with
  | enum h hk => exact ⟨h.good, le_rfl, hk⟩
  | @block nesting cases s u _ hv hk ih =>
    obtain ⟨hg, hfits⟩ := ih
    have hstart := good_start hg
    have hbetween : Between nesting ((advance .statement).after s.start) :=
      Fits.advance hstart ⟨hfits.length, hfits.indent⟩
    have hu : u.Good ∧ Between nesting u := by
      refine hv.keeps (I := fun _ u => u.Good ∧ Between nesting u) ⟨Rule.good _ hstart, hbetween⟩ ?_
      rintro a u ⟨hu, hbetween⟩ b hb
      have hr := reading_caseStep levels (reading_caseBlock levels nesting) a
      exact ⟨(hr.follows hu).good,
        (advances_caseStep levels (caseBlock_spec levels nesting) hu hbetween hb).2⟩
    exact ⟨hu.1.look _, (hu.2.look hu.1).length, (kindAt_look u _).trans hk⟩

/-- Where the last line was taken with its end, each statement that follows moves the position. -/
lemma eachMoves (levels : Nat) (terminators : KindSet) (hg : s.Good) (hs : s.scanner.LineOver) :
    EachMoves levels terminators s := by
  intro a u v hv ⟨hrunning, hgoesOn, hstate⟩
  have hu : u.Good ∧ u.scanner.LineOver := by
    refine hv.keeps (I := fun _ u => u.Good ∧ u.scanner.LineOver) ⟨hg, hs⟩ ?_
    rintro a u ⟨hu, hover⟩ b hb
    obtain ⟨hforward, hnext⟩ := triple_listStep (moving_statement levels) terminators hu hover
    rw [hb] at hnext
    exact ⟨hforward.good hu, hnext⟩
  have hpoll := Rule.good poll hu.1
  have hover : (poll.after u).scanner.LineOver := by rw [scanner_poll]; exact hu.2
  obtain ⟨hforward, -, hstarts⟩ := triple_endsStatements terminators hpoll hover
  have hlt := (moving_statement levels).moves terminators (hforward.good hpoll) (hstarts hgoesOn)
  rw [hstate]
  refine ⟨hlt, ?_⟩
  rw [statementStep, run_ifStuck, if_neg hlt.ne']
  rfl

end

/-- **Every loop of the grammar moves**, for every text, configuration and time of cancelling. -/
theorem loops_progress (config : Config) (t : Text) (cancelAt : Option Nat) :
    Progress config t cancelAt where
  items := onward_itemStep 0 (sound_start config t cancelAt).whole.good
    (sound_start config t cancelAt).atChild
  headers s hs hk := by
    have hstart := good_start hs.good
    have hne : s.kindAt .header ≠ .newline ∧ s.kindAt .header ≠ .dedent := by
      constructor <;> (intro h; rw [h] at hk; exact absurd hk (by decide))
    have hcalm := Scanner.calm_of_kind_ne hs.good.scanner.toSane hne.2
    have hlook := Flat.calm (peekKind .header) hstart hcalm
    rw [hstart.after_peekKind] at hlook
    rw [hstart.after_peekRange]
    exact onward_headerStep 0 (hstart.look .header) (AtHeader.look (s := s.start) hne.1) hlook
  body s u hs hv := by
    have hstart := good_start hs.good
    have hhead := Rule.good bodyHead hstart
    have hu : u.Good ∧ u.scanner.LineOver := by
      refine hv.keeps (I := fun _ u => u.Good ∧ u.scanner.LineOver) ⟨hhead, ?_⟩ ?_
      · exact (EndsLine.after bodyHead hstart).kind_ne hhead .statement rfl rfl
      · rintro a u ⟨hu, hover⟩ b hb
        obtain ⟨hforward, hnext⟩ := triple_bodyStep hu hover
        rw [hb] at hnext
        exact ⟨hforward.good hu, hnext⟩
    exact eachMoves maxDepth .empty hu.1 hu.2
  block levels s hs hk := by
    have hstart := good_start hs.good
    have hk' : s.start.kindAt .statement = .indent := hk
    rw [hstart.after_advance, if_neg (by simp [hk'])]
    exact eachMoves levels .empty (hstart.take _)
      ((atLine_take hstart (.inl hk')).kind_ne (hstart.take _) _ rfl rfl)
  clause levels terminators s hs := by
    have hu := Rule.good (endOfLine .text) hs.good
    exact eachMoves levels terminators hu
      ((EndsLine.after (endOfLine .text) hs.good).kind_ne hu _ rfl rfl)
  bodyBlocks s hs := onward_bodyStep hs.good
  chains levels terminators s hs := ⟨onward_ifStep _ _ _ _ hs.good, onward_onceStep _ _ _ _ hs.good⟩
  groups levels lineGroup s hs hk :=
    onward_groupStep levels (statement levels) lineGroup (good_start hs.good) ⟨rfl, hk⟩
  enums levels s hs := onward_enumStep levels 0 hs.good
  cases levels n s hs := by
    obtain ⟨hg, hfits⟩ := hs.fits
    have hlt := length_take_indent hg hfits.indent
    have hle := hfits.length
    obtain ⟨nesting, rfl⟩ : ∃ nesting, n = nesting + 1 := ⟨n - 1, by omega⟩
    exact ⟨nesting, rfl, onward_caseBlock levels (good_start hg) ⟨hfits.length, hfits.indent⟩⟩
  lineText levels first s hs := onward_textStep levels first (good_start hs.good)
  commandText levels s hs := onward_freeStep levels false hs.good
  operators levels tiers floor first s hs := onward_operatorStep tiers floor first hs.good
  inLine s hs := by
    obtain ⟨hg, hcalm⟩ := hs.calm
    exact ⟨onward_deepStep hg hcalm, fun levels => onward_argStep levels hg hcalm,
      onward_hashtags hg hcalm, onward_advanceLine hg hcalm, onward_advanceTo (by decide) hg hcalm,
      onward_advanceTo (by decide) hg hcalm⟩
  diagnostics d hd := (worded_diagnostics config t cancelAt d hd).message_ne
  children := by
    obtain ⟨children, rest, eof, h⟩ := (sound_start config t cancelAt).script
    exact ⟨children, rest, eof, congrArg (Tree.node .sourceFile) h.trees, h.nonempty, h.eof,
      h.unread, h.inPlace⟩

end Parse

end DialogueScript

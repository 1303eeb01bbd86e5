import DialogueScript.Proofs.Grammar.FirstLine
import DialogueScript.Proofs.Grammar.Unwinding

/-!
The statements of a body in step. Whatever is open where the one text ends is closed where the title
stands in the other: a run of statements, a block, a group, a chain, an enum.
-/

set_option synthInstance.maxSize 512

namespace DialogueScript

namespace ParserState

variable {c : Change} {s s' : ParserState}

lemma Paired.offset (h : Paired c s s') :
    ∃ n, s.scanner.offset = c.oldBase + n ∧ s'.scanner.offset = c.newBase + n :=
  h.elim (·.1.agree.scanner.offset) (·.ending.alike.offset)

/-- Only blank lines behind an option are tokens of their own. -/
lemma Good.kindAt_ne_blankLine (h : s.Good) : s.kindAt .statement ≠ .blankLine := by
  have ht := h.scanner.takes .statement
  rw [kindAt]
  generalize s.scanner.ahead .statement = l, s.scanner.after .statement = u at ht
  cases ht with
  | dedent | indent => simp [Token.ofParts]
  | blank p b t' hm => simp at hm
  | mismatch p _ hline hd he hl => simp [hl, Token.ofParts]
  | content _ hidle hblank hl =>
    subst hl
    rw [Scanner.content_token, Token.ofParts]
    have hread := Scanner.reading_next .statement ((s.scanner.settle .statement).body .statement)
    generalize Lexeme.next .statement ((s.scanner.settle .statement).body .statement) = x,
      Scanner.behind .statement ((s.scanner.settle .statement).body .statement) = t' at hread
    cases hread with
    | eof | newline => simp
    | plain _ _ _ _ hfits =>
      intro hk
      have := hfits.plain.structural
      simp only at hk
      simp [hk, Kind.isStructural] at this

/-- What does not end the statements is on a line of the text. -/
lemma Paired.within_of_statement (h : Paired c s s') (hc : c.Titled)
    (hk : ¬ Parser.endsBlock (s.kindAt .statement)) : Within c s s' :=
  (h.within hc Mode.isIndentSensitive_statement (fun h => hk (.inr (.inr (.inr h))))
    h.good.kindAt_ne_blankLine (fun h => hk (.inl h))).1

end ParserState

namespace Parser

open ParserState
open Scanner (OnLine Untouched NoBreak AtKeyword Anywhere)

variable {α β σ : Type} {c : Change}

lemma relates_poll : Relates (Paired c) poll poll fun b s s' => b = false ∧ Paired c s s' := by
  intro s s' h
  rw [(Quiet.poll h.quiet).1, (Quiet.poll h.quiet).2, (Quiet.poll h.quiet').1,
    (Quiet.poll h.quiet').2]
  exact ⟨rfl, rfl, h⟩

/-- Nothing stops either reading. -/
lemma Relates.poll {f f' : Bool → Parser β} {T : β → ParserState → ParserState → Prop}
    (h : Relates (Paired c) (f false) (f' false) T) :
    Relates (Paired c) (poll >>= f) (poll >>= f') T := by
  refine .bind relates_poll fun b => ?_
  cases b
  · exact h.mono (fun _ _ h => h.2) fun _ _ _ h => h
  · exact fun _ _ h => absurd h.1 (by simp)

lemma Relates.withConfig {f : ParserState → Parser β} {T : β → ParserState → ParserState → Prop}
    (h : ∀ s, Relates (Paired c) (f s) (f s) T)
    (hf : ∀ s s' : ParserState, s.scanner.config = s'.scanner.config → f s = f s') :
    Relates (Paired c) (get >>= f) (get >>= f) T := by
  intro s s' hs
  have heq := hf s s' hs.config
  have h1 : ∀ u, (get >>= f).answer u = (f u).answer u := fun _ => rfl
  have h2 : ∀ u, (get >>= f).after u = (f u).after u := fun _ => rfl
  rw [h1, h1, h2, h2, ← heq]
  exact h s hs

section
variable (hc : c.Titled)
include hc

/-! ### Looking and taking -/

lemma relates_error (e : GrammarError) (m : String) :
    Relates (Paired c) (errorOf .statement e m) (errorOf .statement e m) fun _ => Paired c := by
  intro s s' h
  obtain ⟨h1, h2, -⟩ := relates_errorOf hc Mode.isIndentSensitive_statement e m _ ⟨h, rfl⟩
  exact ⟨h1, h2⟩

lemma relates_expect {kind : Kind} (hk : kind.isStructural = true) (m : String) :
    Relates (Paired c) (expect .statement kind m) (expect .statement kind m) fun _ => Paired c := by
  refine .bind (relates_eat hc rfl hk) fun b => .ite (fun _ => .pure fun _ _ h => h) fun _ => ?_
  exact .bind (relates_error hc _ m) fun _ => .pure fun _ _ h => h

/-- A token that the indentation asks for is taken in step. -/
lemma relates_advance {k : Kind} (hstruct : k.isStructural = true) {Q : ParserState → Prop} :
    Relates (Facing c (·.kindAt .statement = k) Q) (advance .statement) (advance .statement)
      fun _ => Paired c := by
  have hne := Kind.ne_eof_of_isStructural hstruct
  rintro s s' ⟨h, hk, -⟩
  have hk' : s'.kindAt .statement = k :=
    (h.kindAt_iff hc rfl hne (Kind.ne_titleKw_of_isStructural hstruct)).1 hk
  rw [h.good.after_advance, h.good'.after_advance, if_neg (by rwa [hk]), if_neg (by rwa [hk'])]
  exact ⟨rfl, h.take hc rfl (by rwa [hk])⟩

/-- A command with a keyword is on a line of the text. -/
lemma relates_keyword (p : Parser α) [Rule p] [Leads AtKeyword Untouched p]
    {Q : ParserState → Prop} :
    Relates (Facing c (fun s => AtKeyword s.scanner) Q) p p fun _ => Paired c := by
  refine (Relates.finish hc (P := AtKeyword) p).mono (fun s s' h => ⟨?_, h.2.1⟩) fun _ _ _ h => h
  obtain ⟨keyword, hkeyword⟩ := Option.ne_none_iff_exists'.1 h.2.1
  have hk := kindAt_of_commandAt hkeyword
  exact h.1.within_of_statement hc (by simp [hk, endsBlock])

/-- What stands next is known to what is done about it, be it a token, or the end of the text and
the title. -/
lemma Relates.peekKind {P P' : ParserState → Prop} {f f' : Kind → Parser β}
    {T : β → ParserState → ParserState → Prop} (hP : ∀ s, s.Good → P s → P (s.look .statement))
    (hP' : ∀ s, s.Good → P' s → P' (s.look .statement))
    (h : ∀ k, Relates (Facing c (fun s => P s ∧ s.kindAt .statement = k) fun s => P' s ∧
      s.kindAt .statement = k) (f k) (f' k) T)
    (hend : Relates (Facing c (fun s => P s ∧ s.kindAt .statement = .eof) P') (f .eof)
      (f' .titleKw) T) :
    Relates (Facing c P P') (peekKind .statement >>= f) (peekKind .statement >>= f') T := by
  rintro s s' ⟨hs, hPs, hPs'⟩
  have hlook := hs.look hc Mode.isIndentSensitive_statement
  have hk := kindAt_look s .statement
  have hk' := kindAt_look s' .statement
  rw [answer_bind, answer_bind, after_bind, after_bind, hs.good.answer_peekKind,
    hs.good'.answer_peekKind, hs.good.after_peekKind, hs.good'.after_peekKind]
  rcases hs.kindAt_cases hc Mode.isIndentSensitive_statement with heq | ⟨h1, h2⟩
  · rw [← heq] at hk' ⊢
    exact h _ ⟨hlook, ⟨hP s hs.good hPs, hk⟩, hP' s' hs.good' hPs', hk'⟩
  · rw [h1] at hk ⊢
    rw [h2]
    exact hend ⟨hlook, ⟨hP s hs.good hPs, hk⟩, hP' s' hs.good' hPs'⟩

/-! ### Runs of statements -/

lemma relates_endsStatements (terminators : KindSet) :
    Relates (Paired c) (endsStatements terminators) (endsStatements terminators)
      fun b s s' => Paired c s s' ∧ (b = false → AtStatement s ∧ s.scanner.isFresh = false) := by
  intro s s' h
  obtain ⟨h1, h2⟩ := run_endsStatements terminators h.good
  obtain ⟨h1', h2'⟩ := run_endsStatements terminators h.good'
  have hlook := h.look hc Mode.isIndentSensitive_statement
  rw [h1, h1']
  refine ⟨?_, hlook, fun hb => ⟨⟨hlook.lineStart, ?_⟩, isFresh_look s _⟩⟩
  · rw [Bool.eq_iff_iff, h2, h2', h.commandAt_eq hc Mode.isIndentSensitive_statement]
    rcases h.kindAt_cases hc Mode.isIndentSensitive_statement with heq | ⟨h3, h4⟩
    · rw [heq]
    · rw [h3, h4]
      simp [endsBlock]
  · rw [kindAt_look]
    intro hk
    rw [h2.2 (.inl hk)] at hb
    simp at hb

section
variable {statement : KindSet → Parser Unit} [∀ t, Rule (statement t)]
  (hshort : ∀ t, Shortens AtStatement (statement t))
  (hst : ∀ t, Relates (Facing c AtStatement Any) (statement t) (statement t) fun _ => Paired c)
  (levels : Nat) (terminators : KindSet)
include hshort hst

/-- A statement is never stuck on a line of the text. -/
lemma relates_statementStep :
    Relates (Facing c (fun s => AtStatement s ∧ s.scanner.isFresh = false) Any)
      (statementStep terminators statement) (statementStep terminators statement)
      fun _ => Paired c := by
  rintro s s' ⟨h, ⟨hat, hfresh⟩, -⟩
  obtain ⟨-, h2⟩ := hst terminators ⟨h, hat, trivial⟩
  have hlt := hshort terminators h.good (h.within_of_statement hc hat.kind).onLine hfresh hat
  have hf := Rule.follows (statement terminators) h.good
  have hmoved : ((statement terminators).after s).scanner.offset ≠ s.scanner.offset := by
    intro heq
    have hoff := hf.offset
    obtain ⟨y, hy⟩ := hf.suffix
    have hlen := congrArg List.length hy
    rw [List.length_append] at hlen
    have hpos := Text.size_pos (t := y) (List.ne_nil_of_length_pos (by omega))
    rw [← hy, Text.size_append, heq] at hoff
    omega
  have hmoved' : ((statement terminators).after s').scanner.offset ≠ s'.scanner.offset := by
    obtain ⟨n, h3, h4⟩ := h.offset
    obtain ⟨m, h5, h6⟩ := h2.offset
    omega
  rw [statementStep, Parser.answer, Parser.answer, Parser.after, Parser.after, run_ifStuck,
    run_ifStuck, if_neg hmoved, if_neg hmoved']
  exact ⟨rfl, h2⟩

lemma relates_statementList :
    Relates (Paired c) (statementList statement terminators) (statementList statement terminators)
      fun _ => Paired c := by
  have hstep : Relates (Facing c Any Any) (listStep terminators statement)
      (listStep terminators statement) fun _ => Paired c := by
    refine Relates.mono (R := Paired c) (.poll ?_) (fun _ _ h => h.1) fun _ _ _ h => h
    refine .bind (relates_endsStatements hc terminators) fun b => ?_
    refine .ite (fun _ => .pure fun _ _ h => h.1) fun hb => ?_
    exact (relates_statementStep hc hshort hst terminators).mono
      (fun s s' h => ⟨h.1, h.2 (by simpa using hb), trivial⟩) fun _ _ _ h => h
  have hadv := advances_listStep terminators statement
  unfold statementList
  refine .bind (S := fun _ => Paired c) ?_ fun _ => .pure fun _ _ h => h
  exact (Relates.loop (fun _ => hstep) hadv hadv ()).mono (fun _ _ h => ⟨h, trivial, trivial⟩)
    fun _ _ _ h => h

/-! ### Blocks and groups -/

lemma relates_block : Relates (Facing c (·.kindAt .statement = .indent) Any) (block statement)
    (block statement) fun _ => Paired c := by
  refine .node
    (.bind (relates_advance hc rfl) fun _ => .bind (S := fun _ => Paired c) ?_ fun _ => ?_)
    Rule.reads Rule.reads (fun _ h => h) fun _ h => h
  · exact relates_statementList hc hshort hst .empty
  · exact .bind (relates_expect hc rfl _) fun _ => .pure fun _ _ h => h

lemma relates_groupItem {mode : Mode} (hm : mode.isIndentSensitive = true) {arrow : Kind}
    (ha : arrow = .lineGroupArrow ∨ arrow = .shortcutArrow) (kind : Kind) :
    Relates (Facing c (·.kindAt mode = arrow) Any) (groupItem levels statement mode kind)
      (groupItem levels statement mode kind) fun _ => Paired c := by
  rw [groupItem]
  refine .node (.bind (S := fun _ => Paired c) ?_ fun _ => ?_) Rule.reads Rule.reads (fun _ h => h)
    fun _ h => h
  · refine (Relates.finish hc (P := NoBreak mode) (itemHead levels mode)).mono (fun s s' h => ?_)
      fun _ _ _ h => h
    have hk : s.kindAt mode = .lineGroupArrow ∨ s.kindAt mode = .shortcutArrow := by
      rcases ha with rfl | rfl
      · exact .inl h.2.1
      · exact .inr h.2.1
    refine ⟨(h.1.within hc hm ?_ ?_ ?_).1, ?_⟩
    · rcases hk with hk | hk <;> simp [hk]
    · rcases hk with hk | hk <;> simp [hk]
    · rcases hk with hk | hk <;> simp [hk]
    · rw [NoBreak, ← kindAt]
      rcases hk with hk | hk <;> simp [hk]
  · refine .bind (relates_isAt hc Mode.isIndentSensitive_statement (by simp) (by simp)) fun b => ?_
    refine .ite (fun hb => ?_) fun _ => .pure fun _ _ h => h.1
    refine .bind (S := fun _ => Paired c) ?_ fun _ => .pure fun _ _ h => h
    exact (relates_block hc hshort hst).mono (fun s s' h => ⟨h.1, h.2 hb, trivial⟩) fun _ _ _ h => h

omit hshort hst [∀ t, Rule (statement t)] in
lemma relates_groupTail (lineGroup : Bool) {mode : Mode} (hm : mode.isIndentSensitive = true) :
    Relates (Paired c) (groupTail lineGroup mode) (groupTail lineGroup mode) fun _ => Paired c := by
  refine .bind (relates_eat hc hm rfl) fun b =>
    .ite (fun _ => .pure fun _ _ h => h) fun _ => .poll ?_
  refine .bind (relates_isAt hc hm ?_ ?_) fun b =>
    .ite (fun _ => .pure fun _ _ h => h.1) fun _ => .pure fun _ _ h => h.1
  · cases lineGroup <;> simp [arrowOf]
  · cases lineGroup <;> simp [arrowOf]

lemma relates_groupStep (lineGroup : Bool) (mode : Mode) :
    Relates (Facing c (AtArrow lineGroup mode) (AtArrow lineGroup mode))
      (groupStep statement levels lineGroup mode) (groupStep statement levels lineGroup mode)
      fun _ => Paired c := by
  rintro s s' ⟨h, ⟨hm, hk⟩, -⟩
  have hstep : Relates (Facing c (·.kindAt mode = arrowOf lineGroup) Any)
      (groupStep statement levels lineGroup mode) (groupStep statement levels lineGroup mode)
      fun _ => Paired c :=
    .bind (relates_groupItem hc hshort hst levels hm (arrowOf_cases lineGroup) _) fun hadBlock =>
      .withConfig (fun _ => relates_groupTail hc lineGroup (itemMode_sensitive _))
        fun s s' h => by rw [h]
  exact hstep ⟨h, hk, trivial⟩

lemma relates_group (lineGroup : Bool) :
    Relates (Facing c (·.kindAt .statement = arrowOf lineGroup) Any)
      (group levels statement lineGroup) (group levels statement lineGroup) fun _ => Paired c := by
  have harrow := arrowOf_cases lineGroup
  have hadv : Advances (AtArrow lineGroup) (groupStep statement levels lineGroup) :=
    advances_groupStep_sensitive _ levels lineGroup
  have hloop : Relates (Facing c (·.kindAt .statement = arrowOf lineGroup) Any)
      (loop (groupStep statement levels lineGroup) Mode.statement)
      (loop (groupStep statement levels lineGroup) Mode.statement) fun _ => Paired c :=
    (Relates.loop (relates_groupStep hc hshort hst levels lineGroup) hadv hadv .statement).mono
      (fun s s' h => ⟨h.1, ⟨rfl, h.2.1⟩, rfl,
        (h.1.kindAt_iff hc rfl (by rcases harrow with h | h <;> simp [h])
          (by rcases harrow with h | h <;> simp [h])).1 h.2.1⟩) fun _ _ _ h => h
  have hreads : Reading (loop (groupStep statement levels lineGroup) Mode.statement) :=
    .loop (fun _ => Rule.reads) _
  unfold group
  refine .node (.bind hloop fun _ => .pure fun _ _ h => h) ?_ ?_ (fun _ h => h) fun _ h => h
  · exact .bind hreads fun _ => Rule.reads
  · exact .bind hreads fun _ => Rule.reads

/-! ### Chains -/

lemma relates_clause (kind : Kind) (conditional : Bool) :
    Relates (Facing c (fun s => AtKeyword s.scanner) Any)
      (clause levels statement kind conditional terminators)
      (clause levels statement kind conditional terminators) fun _ => Paired c := by
  rw [clause_eq]
  refine .node (.bind (relates_keyword hc _) fun _ => ?_) Rule.reads Rule.reads (fun _ h => h)
    fun _ h => h
  exact relates_statementList hc hshort hst terminators

lemma relates_onceClause : Relates (Facing c (fun s => AtKeyword s.scanner) Any)
    (onceClause levels statement terminators) (onceClause levels statement terminators)
    fun _ => Paired c := by
  rw [onceClause_eq]
  refine .node (.bind (relates_keyword hc _) fun _ => ?_) Rule.reads Rule.reads (fun _ h => h)
    fun _ h => h
  exact relates_statementList hc hshort hst terminators

/-- A further clause of a chain, maybe with an error in front of it. -/
lemma relates_further {keyword kind : Kind} (afterElse conditional : Bool) (message : String)
    (next : Bool) :
    Relates (fun s s' => Paired c s s' ∧ s.commandAt .statement = some keyword)
      (ambiguous afterElse message >>= fun _ =>
        clause levels statement kind conditional terminators >>= fun _ =>
          (pure (.yield next) : Parser (ForInStep Bool)))
      (ambiguous afterElse message >>= fun _ =>
        clause levels statement kind conditional terminators >>= fun _ =>
          (pure (.yield next) : Parser (ForInStep Bool)))
      fun _ => Paired c := by
  refine .bind (S := fun _ s s' => Paired c s s' ∧ s.commandAt .statement = some keyword) ?_
    fun _ => ?_
  · cases afterElse
    · exact .pure fun _ _ h => h
    · exact relates_errorOf hc rfl _ _ _
  · refine .bind (S := fun _ => Paired c) ?_ fun _ => .pure fun _ _ h => h
    exact (relates_clause hc hshort hst levels terminators kind conditional).mono
      (fun s s' h => ⟨h.1, atKeyword_of_command h.2, trivial⟩) fun _ _ _ h => h

lemma relates_ifStep (afterElse : Bool) : Relates (Facing c Any Any)
    (ifStep statement levels terminators afterElse) (ifStep statement levels terminators afterElse)
    fun _ => Paired c := by
  refine .mono (.bind (relates_peekCommand hc Mode.isIndentSensitive_statement) fun o => ?_)
    (fun _ _ h => h.1) fun _ _ _ h => h
  split
  · exact relates_further hc hshort hst levels terminators _ _ _ _
  · exact relates_further hc hshort hst levels terminators _ _ _ _
  · exact .pure fun _ _ h => h.1

lemma relates_onceStep (afterElse : Bool) : Relates (Facing c Any Any)
    (onceStep statement levels terminators afterElse)
      (onceStep statement levels terminators afterElse) fun _ => Paired c := by
  refine .mono (.bind (relates_peekCommand hc Mode.isIndentSensitive_statement) fun o => ?_)
    (fun _ _ h => h.1) fun _ _ _ h => h
  refine .ite (fun ho => ?_) fun _ => .pure fun _ _ h => h.1
  subst ho
  exact relates_further hc hshort hst levels terminators _ _ _ _

omit hshort hst [∀ t, Rule (statement t)] in
lemma relates_closeWith (keyword kind : Kind) (message : String) :
    Relates (Paired c) (closeWith keyword kind message) (closeWith keyword kind message)
      fun _ => Paired c := by
  refine .bind (relates_peekCommand hc Mode.isIndentSensitive_statement) fun o =>
    .ite (fun ho => ?_) fun _ => ?_
  · have hclose : Relates (fun s s' => Paired c s s' ∧ s.commandAt .statement = o)
        (commandStart >>= fun _ => commandClose) (commandStart >>= fun _ => commandClose)
        fun _ => Paired c := by
      exact (relates_keyword hc _ (Q := Any)).mono
        (fun s s' h => ⟨h.1, atKeyword_of_command (h.2.trans ho), trivial⟩) fun _ _ _ h => h
    have := hclose.bind (f := fun _ => (pure kind : Parser Kind)) (g := fun _ => pure kind)
      (T := fun _ => Paired c) fun _ => .pure fun _ _ h => h
    rwa [bind_assoc] at this
  · exact .mono (.bind (relates_error hc _ _) fun _ => .pure fun _ _ h => h) (fun _ _ h => h.1)
      fun _ _ _ h => h

lemma relates_ifStatement : Relates (Facing c (fun s => AtKeyword s.scanner) Any)
    (ifStatement levels statement terminators) (ifStatement levels statement terminators)
    fun _ => Paired c := by
  have hadv := advances_ifStep statement levels (terminators.union ifTerminators)
  unfold ifStatement
  refine .bind (.nodeOf (.bind (relates_clause hc hshort hst ..) fun _ => ?_) Rule.reads Rule.reads
    (fun _ h => h) fun _ h => h) fun _ => .pure fun _ _ h => h
  refine .bind (S := fun _ => Paired c) ?_ fun _ => relates_closeWith hc _ _ _
  exact (Relates.loop (relates_ifStep hc hshort hst levels _) hadv hadv false).mono
    (fun _ _ h => ⟨h, trivial, trivial⟩) fun _ _ _ h => h

lemma relates_onceStatement : Relates (Facing c (fun s => AtKeyword s.scanner) Any)
    (onceStatement levels statement terminators) (onceStatement levels statement terminators)
    fun _ => Paired c := by
  have hadv := advances_onceStep statement levels (terminators.union onceTerminators)
  unfold onceStatement
  refine .bind
    (.nodeOf (.bind (relates_onceClause hc hshort hst ..) fun _ => ?_) Rule.reads Rule.reads
    (fun _ h => h) fun _ h => h) fun _ => .pure fun _ _ h => h
  refine .bind (S := fun _ => Paired c) ?_ fun _ => relates_closeWith hc _ _ _
  exact (Relates.loop (relates_onceStep hc hshort hst levels _) hadv hadv false).mono
    (fun _ _ h => ⟨h, trivial, trivial⟩) fun _ _ _ h => h

end

/-! ### Enums -/

section
variable (levels : Nat)

lemma relates_caseLine (cases : Nat) {Q : ParserState → Prop} : Relates (Facing c AtStatement Q)
    (caseLine levels cases) (caseLine levels cases) fun _ => Paired c := by
  have hlook : Relates (Facing c AtStatement Q) (peekCommand .statement) (peekCommand .statement)
      fun o s s' => (Paired c s s' ∧ s.commandAt .statement = o) ∧ AtStatement s := by
    refine .also ((relates_peekCommand hc rfl).mono (fun _ _ h => h.1) fun _ _ _ h => h) ?_
    intro s s' h
    rw [h.1.good.after_peekCommand]
    exact h.2.1.look
  refine .bind hlook fun o => .ite (fun ho => ?_) fun _ => ?_
  · refine .bind (S := fun _ => Paired c) ?_ fun _ => .pure fun _ _ h => h
    exact (relates_keyword hc (enumCase levels) (Q := Any)).mono
      (fun s s' h => ⟨h.1.1, atKeyword_of_command (h.1.2.trans ho), trivial⟩) fun _ _ _ h => h
  · have hline := (Relates.finish hc (P := NoBreak .statement) (errorLine .statement
        "only `<<case>>` lines are allowed in an enum" >>= fun _ => eatNewline)).bind
      (f := fun _ => (pure (.yield cases) : Parser (ForInStep Nat)))
      (g := fun _ => pure (.yield cases)) (T := fun _ => Paired c) fun _ => .pure fun _ _ h => h
    rw [bind_assoc] at hline
    exact hline.mono (fun s s' h => ⟨h.1.1.within_of_statement hc h.2.kind, h.2.noBreak h.1.1.good⟩)
      fun _ _ _ h => h

lemma relates_caseStep {nesting nesting' : Nat}
    (h : Relates (Facing c (Fits nesting) (Fits nesting')) (caseBlock levels nesting)
      (caseBlock levels nesting') fun _ => Paired c) (cases : Nat) :
    Relates (Facing c (Between nesting) (Between nesting'))
      (caseStep levels (caseBlock levels nesting) cases)
      (caseStep levels (caseBlock levels nesting') cases) fun _ => Paired c := by
  refine .peekKind hc (fun _ hg => .look hg) (fun _ hg => .look hg) (fun k => ?_)
    (.pure fun _ _ h => h.1)
  rcases caseStepAt_cases levels cases k with ⟨-, hk⟩ | ⟨rfl, hk⟩ | ⟨hne, hk⟩ <;> rw [hk, hk]
  · exact .pure fun _ _ h => h.1
  · refine .bind (S := fun _ => Paired c) ?_ fun _ => .pure fun _ _ h => h
    exact h.mono (fun s s' hs => ⟨hs.1, ⟨hs.2.1.1.length, hs.2.1.2⟩, hs.2.2.1.length, hs.2.2.2⟩)
      fun _ _ _ h => h
  · exact (relates_caseLine hc levels cases (Q := Any)).mono
      (fun s s' hs => ⟨hs.1, ⟨hs.1.lineStart, by rw [hs.2.1.2]; exact hne⟩, trivial⟩) fun _ _ _ h =>
        h

lemma relates_caseBlock (nesting nesting' : Nat) : Relates (Facing c (Fits nesting) (Fits nesting'))
    (caseBlock levels nesting) (caseBlock levels nesting') fun _ => Paired c := by
  induction nesting generalizing nesting' with
  | zero => exact fun s s' h => absurd rfl (h.2.1.pos h.1.good)
  | succ nesting ih =>
    rcases nesting' with _ | nesting'
    · exact fun s s' h => absurd rfl (h.2.2.pos h.1.good')
    · have hloop := Relates.loop (relates_caseStep hc levels (ih nesting'))
        (advances_caseStep levels (caseBlock_spec levels nesting))
        (advances_caseStep levels (caseBlock_spec levels nesting')) 0
      have hopen : Relates (Facing c (Fits (nesting + 1)) (Fits (nesting' + 1)))
          (advance .statement)
          (advance .statement) fun _ => Facing c (Between nesting) (Between nesting') := by
        intro s s' h
        obtain ⟨h1, h2⟩ := relates_advance hc rfl (Q := Any) ⟨h.1, h.2.1.indent, trivial⟩
        exact ⟨h1, h2, h.2.1.advance h.1.good, h.2.2.advance h.1.good'⟩
      rw [caseBlock, caseBlock]
      refine .node (.bind hopen fun _ => .bind hloop fun _ => ?_)
        (reading_caseRun levels (reading_caseBlock levels nesting))
        (reading_caseRun levels (reading_caseBlock levels nesting'))
        (fun _ h => ⟨h.length, h.indent⟩) fun _ h => ⟨h.length, h.indent⟩
      exact .bind (relates_expect hc rfl _) fun _ => .pure fun _ _ h => h

lemma relates_casesHere : Relates (Facing c (·.kindAt .statement = .indent)
    (·.kindAt .statement = .indent)) (casesHere levels) (casesHere levels) fun _ => Paired c :=
  fun _ _ h => relates_caseBlock hc levels _ _ ⟨h.1, ⟨le_rfl, h.2.1⟩, le_rfl, h.2.2⟩

lemma relates_enumStep (cases : Nat) : Relates (Facing c Any Any) (enumStep levels cases)
    (enumStep levels cases) fun _ => Paired c := by
  refine Relates.mono (R := Paired c) (.poll ?_) (fun _ _ h => h.1) fun _ _ _ h => h
  refine Relates.mono (R := Facing c Any Any)
    (.peekKind hc (fun _ _ _ => trivial) (fun _ _ _ => trivial)
    (fun k => ?_) (.pure fun _ _ h => h.1)) (fun _ _ h => ⟨h, trivial, trivial⟩) fun _ _ _ h => h
  unfold enumStepAt caseOr
  split
  · refine .bind (S := fun _ => Paired c) ?_ fun _ => .pure fun _ _ h => h
    exact (relates_casesHere hc levels).mono (fun s s' h => ⟨h.1, h.2.1.2, h.2.2.2⟩) fun _ _ _ h =>
      h
  · refine .mono (.bind (relates_peekCommand hc Mode.isIndentSensitive_statement) fun o => ?_)
      (fun _ _ h => h.1) fun _ _ _ h => h
    refine .ite (fun ho => ?_) fun _ => .pure fun _ _ h => h.1
    refine .bind (S := fun _ => Paired c) ?_ fun _ => .pure fun _ _ h => h
    exact (relates_keyword hc (enumCase levels) (Q := Any)).mono
      (fun s s' h => ⟨h.1, atKeyword_of_command (h.2.trans ho), trivial⟩) fun _ _ _ h => h
  · exact .pure fun _ _ h => h.1

lemma relates_enumCommand :
    Relates (Facing c (fun s => AtKeyword s.scanner) Any) (enumCommand levels)
    (enumCommand levels) fun _ => Paired c := by
  have hadv := advances_enumStep levels
  rw [enumCommand]
  refine .bind (.nodeOf (.bind (relates_keyword hc enumHead) fun _ => ?_) Rule.reads Rule.reads
    (fun _ h => h) fun _ h => h) fun _ => .pure fun _ _ h => h
  have hloop := (Relates.loop (relates_enumStep hc levels) hadv hadv 0).mono
    (fun _ _ h => ⟨h, trivial, trivial⟩) fun _ _ _ h => h
  refine .bind (S := fun _ => Paired c) (.bind hloop fun cases => ?_) fun _ =>
    relates_closeWith hc _ _ _
  exact .ite (fun _ => relates_error hc _ _) fun _ => .pure fun _ _ h => h

end

/-! ### All statements -/

section
variable {statement : KindSet → Parser Unit} [∀ t, Rule (statement t)]
  (hshort : ∀ t, Shortens AtStatement (statement t))
  (hst : ∀ t, Relates (Facing c AtStatement Any) (statement t) (statement t) fun _ => Paired c)
  (levels : Nat) (terminators : KindSet)
include hshort hst

lemma relates_command : Relates (Facing c (·.kindAt .statement = .commandStart) Any)
    (command levels statement terminators) (command levels statement terminators)
    fun _ => Paired c := by
  have hlook : Relates (Facing c (·.kindAt .statement = .commandStart) Any) (peekCommand .statement)
      (peekCommand .statement) fun o s s' =>
        (Paired c s s' ∧ s.commandAt .statement = o) ∧ s.kindAt .statement = .commandStart := by
    refine .also ((relates_peekCommand hc rfl).mono (fun _ _ h => h.1) fun _ _ _ h => h) ?_
    intro s s' h
    rw [h.1.good.after_peekCommand, kindAt_look]
    exact h.2.1
  have hkey : ∀ {p : Parser Unit} {k : Kind},
      Relates (Facing c (fun s => AtKeyword s.scanner) Any) p p (fun _ => Paired c) →
      Relates (fun s s' => (Paired c s s' ∧ s.commandAt .statement = some k) ∧
        s.kindAt .statement = .commandStart) p p fun _ => Paired c := fun h =>
    h.mono (fun s s' h => ⟨h.1.1, atKeyword_of_command h.1.2, trivial⟩) fun _ _ _ h => h
  have hline : ∀ {o : Option Kind} (p : Parser Unit) [Rule p]
      [Leads (NoBreak .statement) Untouched p],
      Relates (fun s s' => (Paired c s s' ∧ s.commandAt .statement = o) ∧
        s.kindAt .statement = .commandStart) p p fun _ => Paired c := by
    intro o p _ _
    refine (Relates.finish hc (P := NoBreak .statement) p).mono (fun s s' h => ⟨?_, ?_⟩) fun _
      _ _ h => h
    · exact h.1.1.within_of_statement hc (by simp [h.2, endsBlock])
    · rw [NoBreak, ← kindAt, h.2]
      simp
  refine .bind hlook fun o => ?_
  split
  · exact hkey (relates_ifStatement hc hshort hst levels terminators)
  · exact hkey (relates_onceStatement hc hshort hst levels terminators)
  · exact hkey (relates_keyword hc _)
  · exact hkey (relates_keyword hc _)
  · exact hkey (relates_keyword hc _)
  · exact hkey (relates_keyword hc _)
  · exact hkey (relates_keyword hc _)
  · exact hkey (relates_keyword hc _)
  · exact hkey (relates_enumCommand hc levels)
  · exact .ite (fun _ => hline _) fun _ => hline _
  · exact hline _

lemma relates_statementOf :
    Relates (Facing c AtStatement Any) (statementOf levels statement terminators)
    (statementOf levels statement terminators) fun _ => Paired c := by
  have hline : ∀ {k : Kind} (p : Parser Unit) [Rule p] [Leads (NoBreak .statement) Untouched p],
      Relates (Facing c (fun s => AtStatement s ∧ s.kindAt .statement = k)
        fun s => Any s ∧ s.kindAt .statement = k) p p fun _ => Paired c := by
    intro k p _ _
    exact (Relates.finish hc (P := NoBreak .statement) p).mono
      (fun s s' h => ⟨h.1.within_of_statement hc h.2.1.1.kind, h.2.1.1.noBreak h.1.good⟩)
      fun _ _ _ h => h
  refine .peekKind hc (fun _ _ h => h.look) (fun _ _ _ => trivial) (fun k => ?_)
    fun s s' h => absurd (Or.inl h.2.1.2) h.2.1.1.kind
  split
  · exact (relates_block hc hshort hst).mono (fun s s' h => ⟨h.1, h.2.1.2, trivial⟩) fun _ _ _ h =>
      h
  · exact (relates_group hc hshort hst levels false).mono (fun s s' h => ⟨h.1, h.2.1.2, trivial⟩)
      fun _ _ _ h => h
  · exact (relates_group hc hshort hst levels true).mono (fun s s' h => ⟨h.1, h.2.1.2, trivial⟩)
      fun _ _ _ h => h
  · exact (relates_command hc hshort hst levels terminators).mono
      (fun s s' h => ⟨h.1, h.2.1.2, trivial⟩) fun _ _ _ h => h
  · exact hline _
  · exact hline _

end

/-- **Every statement is read in step**, whatever is still open inside it. -/
lemma relates_statement (levels : Nat) (terminators : KindSet) :
    Relates (Facing c AtStatement Any) (statement levels terminators) (statement levels terminators)
      fun _ => Paired c := by
  induction levels generalizing terminators with
  | zero =>
    rw [statement]
    exact (Relates.finish hc (P := NoBreak .statement) _).mono
      (fun s s' h => ⟨h.1.within_of_statement hc h.2.1.kind, h.2.1.noBreak h.1.good⟩) fun _ _ _ h =>
        h
  | succ levels ih =>
    rw [statement]
    exact relates_statementOf hc (shortens_statement levels) ih levels terminators

end

end Parser

end DialogueScript

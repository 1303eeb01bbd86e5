import DialogueScript.Proofs.Grammar.ExprTree
import DialogueScript.Proofs.Grammar.Making

/-!
The parts that the rules for expressions make. Where a part is missing at an error token, a report
is owed in the mode that the token was seen in. Modes that read the text alike see the same errors,
so the report is made where the command, the interpolation or the header ends in which the
expression stands.
-/

set_option synthInstance.maxSize 4096

namespace DialogueScript

namespace Parser

open ParserState

variable {α : Type} {flat : Bool} {s : ParserState}

/-! ### Paying -/

lemma Owes.terms {m m' : Mode} (hm : m.readsTerms = true) (hm' : m'.readsTerms = true)
    (h : s.Owes m) :
    s.Owes m' :=
  h.imp_right (Scanner.error_of_terms hm hm')

lemma ReportsOwed.terms {m m' : Mode} {p : Parser α} (h : ReportsOwed m p)
    (hm : m.readsTerms = true) (hm' : m'.readsTerms = true) : ReportsOwed m' p :=
  ⟨fun _ hg hq ho => h.reported hg hq (Owes.terms hm' hm ho)⟩

instance : ReportsOwed .expr (advance .command) := .terms inferInstance (m := .command) rfl rfl

instance : ReportsOwed .expr (advance .name) := .terms inferInstance (m := .name) rfl rfl

lemma ReportsOwed.seq {mode : Mode} {p : Parser α} {f : α → Parser β} (hr : Readable p)
    (hp : ReportsOwed mode p) (hf : ∀ a, Readable (f a)) : ReportsOwed mode (p >>= f) :=
  inferInstance

/-- A token that is no error is not there when a report is owed. -/
lemma ReportsOwed.eat {mode : Mode} {kind : Kind} (hk : kind ≠ .errorToken) {f : Bool → Parser α}
    (hr : ∀ b, Readable (f b)) (h : ReportsOwed mode (f false)) :
    ReportsOwed mode (Parser.eat mode kind >>= f) :=
  ReportsOwed.peekKind
    (f := fun k =>
      (if decide (k = kind) then advance mode >>= fun _ => pure true else pure false) >>= f)
    (fun _ => inferInstance) (by simpa [hk.symm] using h)

/-- Where no line ends, the end of the line is found missing. -/
lemma reported_endOfLine {mode : Mode} (hg : s.Good) (hq : s.Quiet) (h : s.kindAt mode ≠ .newline)
    (h' : s.kindAt mode ≠ .eof) : ((endOfLine mode).after s).Reported := by
  have hlook := hg.look mode
  have hquiet : ((s.look mode).look mode).Quiet := ⟨hq.never, hq.running⟩
  have hreports :=
    AlwaysReports.reported (p := errorLine mode "expected end of line" >>= fun _ => eatNewline)
    (hlook.look mode) hquiet
  rw [endOfLine, after_bind, hg.answer_isAt, hg.after_isAt, decide_eq_false h', if_neg (by simp),
    after_bind,
    hlook.answer_eat, hlook.after_eat mode (by simp), kindAt_look, decide_eq_false h,
      if_neg (by simp),
    if_neg h]
  exact hreports

/-- What is an error here ends no line there. -/
lemma reportsOwed_endOfLine {mode mode' : Mode}
    (h : ∀ s : Scanner, (s.ahead mode).token.kind = .errorToken →
      (s.ahead mode').token.kind ≠ .newline ∧ (s.ahead mode').token.kind ≠ .eof) :
    ReportsOwed mode (endOfLine mode') where
  reported s hg hq ho := by
    rcases ho with hd | hk
    · exact (Rule.follows (endOfLine mode') hg).reported hd
    · exact reported_endOfLine hg hq (h s.scanner hk).1 (h s.scanner hk).2

instance (mode : Mode) : ReportsOwed mode (endOfLine mode) := reportsOwed_endOfLine fun _ h => by
    simp [h]

instance : ReportsOwed .expr (endOfLine .header) :=
  reportsOwed_endOfLine fun _ => Scanner.header_of_expr_error

instance : ReportsOwed .headerValue (endOfLine .header) :=
  reportsOwed_endOfLine fun _ => Scanner.header_of_value_error

instance : ReportsOwed .hashtag (endOfLine .header) :=
  reportsOwed_endOfLine fun _ h => Scanner.header_of_text_error (Scanner.text_error_of_hashtag h)

section
variable {mode : Mode}

/-- Behind a missing `>>`, at least the error is taken. -/
lemma alwaysReports_commandEnd (hm : mode.readsTerms = true) :
    AlwaysReports (error mode "expected `>>`" >>= fun _ =>
    isAtLineEnd mode >>= fun b => if b = true then pure () else
      node .error (advanceTo commandEnds) >>= fun _ =>
        eat .expr .commandEnd >>= fun _ => pure ()) := by
  have : ReportsOwed mode (advanceTo commandEnds) :=
    (reportsOwed_advanceTo commandEnds (by decide)).terms rfl hm
  have : ReportsOwed mode (isAtLineEnd mode >>= fun b => if b = true then pure () else
      node .error (advanceTo commandEnds) >>= fun _ =>
        eat .expr .commandEnd >>= fun _ => pure ()) :=
    .isAtLineEnd (fun _ => inferInstance)
      (inferInstanceAs (ReportsOwed mode (node .error _ >>= fun _ => _)))
  infer_instance

/-- The `>>` is there, or its lack is reported. -/
lemma makes_commandEnd (hm : mode.readsTerms = true) :
    Makes Reported s (commandEnd mode) fun _ ts _ =>
    TokenOf .commandEnd ts := by
  have := alwaysReports_commandEnd hm
  unfold commandEnd
  refine .eat mode (by simp) (fun _ token ht => ?_) fun _ => ?_
  · rw [if_pos rfl]
    exact .pure ⟨token, ht, rfl⟩
  · rw [if_neg (by simp)]
    exact .of_alwaysReports

lemma builds_commandEnd (hm : mode.readsTerms = true) : Builds Reported flat (commandEnd mode) := by
  have := alwaysReports_commandEnd hm
  unfold commandEnd
  infer_instance

lemma reportsOwed_commandEnd (hm : mode.readsTerms = true) :
    ReportsOwed .expr (commandEnd mode) := by
  have := alwaysReports_commandEnd hm
  have : ReportsOwed mode (commandEnd mode) := by
    refine .eat (by simp) (fun _ => inferInstance) ?_
    rw [if_neg (by simp)]
    infer_instance
  exact this.terms hm rfl

end

instance : Builds Reported flat (commandEnd .expr) := builds_commandEnd rfl

instance : Builds Reported flat (commandEnd .command) := builds_commandEnd rfl

instance : ReportsOwed .expr (commandEnd .expr) := reportsOwed_commandEnd rfl

instance : ReportsOwed .expr (commandEnd .command) := reportsOwed_commandEnd rfl

/-! ### Recovery -/

section
variable (mode : Mode)

instance : Builds Reported false advanceLine := by
  unfold advanceLine isInLine
  infer_instance

instance : Builds Reported false (skipLine mode) := by
  unfold skipLine
  infer_instance

instance : Builds Reported flat eatNewline := by
  unfold eatNewline
  infer_instance

instance : Builds Reported flat (endOfLine mode) := by
  unfold endOfLine
  infer_instance

end

/-- An error that is taken with its token is reported. -/
lemma alwaysReports_errorRecover (mode : Mode) (message : String) {recovery : KindSet}
    (h : recovery.contains .errorToken = false) :
    AlwaysReports (errorRecover mode message recovery) := by
  have : ReportsOwed mode (isAtAny mode recovery >>= fun a => isAtLineEnd mode >>= fun b =>
      if (!a && !b) = true then node .error (advance mode) else pure ()) :=
    .isAtAny h (fun _ => inferInstance) (.isAtLineEnd (fun _ => inferInstance)
      (inferInstanceAs (ReportsOwed mode (node .error (advance mode)))))
  unfold errorRecover
  infer_instance

instance : AlwaysReports tooDeep := by
  have : ReportsOwed .expr (loop deepStep 0) :=
    .loop (fun _ => Rule.reads) (.peekKind (fun _ => inferInstance) (inferInstanceAs
      (ReportsOwed .expr (advance .expr >>= fun _ => pure (ForInStep.yield 0)))))
  unfold tooDeep
  infer_instance

/-- A name is made, or its lack is reported. -/
lemma makes_name {recovery : KindSet} (h : recovery.contains .errorToken = false) :
    Makes Reported s (name recovery) fun _ ts _ => NodeOf .name ts := by
  have := alwaysReports_errorRecover .name "expected a name" h
  unfold name
  refine .isAt ?_
  split
  · next hk =>
    have hk : s.kindAt .name = .ident := by simpa using hk
    refine .asNode (Makes.advance .name (by simp [hk])) ?_
    rintro - cs - - ⟨⟨token, ht, rfl⟩, -⟩
    simpa [Tree.hasParts, hk] using ht
  · exact .of_alwaysReports

/-! ### Operands -/

/-- A rule that answers with the kind of the expression that it makes. -/
def Operand (a : Option Kind) (ts : List Tree) : Prop :=
  ∃ k, k.isExprKind = true ∧ a = some k ∧ NodeOf k ts

lemma Operand.of_node {k : Kind} {ts : List Tree} (hk : k.isExprKind = true) (h : NodeOf k ts) :
    Operand (some k) ts :=
  ⟨k, hk, rfl, h⟩

lemma Operand.isExpr {a : Option Kind} {ts : List Tree} (h : Operand a ts) :
    ∃ t ∈ ts, IsExpr t := by
  obtain ⟨k, hk, -, cs, rfl⟩ := h
  exact ⟨_, List.mem_singleton.2 rfl, k, cs, hk, rfl⟩

lemma makes_variableExpr :
    Makes (Owes .expr) s variableExpr fun _ ts _ => NodeOf .variableExpr ts := by
  have hname :
      Finds (Owes .expr) (IsToken .ident) (expect .name .ident "expected a variable name") :=
    fun s => (Finds.expect .name (by simp) _ s).of_reportDue fun _ => Owes.terms rfl rfl
  unfold variableExpr
  refine Finds.inNode (.behind fun _ => .before hname) ?_
  rintro cs - _ hc ⟨token, ht, rfl⟩
  exact Tree.hasToken_of_mem hc ht

/-- A literal that is there. -/
lemma makes_literal {kind : Kind} (hkind : kind.isExprKind = true) (hk : s.kindAt .expr ≠ .eof)
    (h : ∀ token : Token, token.kind = s.kindAt .expr → Tree.hasParts kind [.leaf token] = true) :
    Makes Reported s (literalExpr kind) fun a ts _ => Operand a ts := by
  have hnode : Makes Reported s (node kind (advance .expr)) fun _ ts _ => NodeOf kind ts := by
    refine .asNode (Makes.advance .expr hk) ?_
    rintro - cs - - ⟨⟨token, ht, rfl⟩, -⟩
    exact h token ht
  exact hnode.map fun _ _ _ => .of_node hkind

/-- A dot with the name behind it. -/
lemma makes_memberName (hk : s.kindAt .expr = .dot) : Makes Reported s memberName fun _ ts _ =>
    ∃ token ds, token.kind = .dot ∧ ts = [.leaf token, .node .name ds] := by
  unfold memberName
  refine .bind (E := Reported) (Makes.advance .expr (by simp [hk])) fun _ ts u
    ⟨⟨token, ht, hts⟩, _⟩ => ?_
  refine (makes_name (by decide)).mono ?_
  rintro - us - ⟨ds, rfl⟩
  exact ⟨token, ds, ht.trans hk, by rw [hts]; rfl⟩

/-- The word in front of a call's arguments, of a member's dot, or by itself. -/
lemma makes_wordHead (hk : s.kindAt .expr = .ident) :
    Makes Reported s (nodeOf wordKind) fun k ts u =>
    NodeOf k ts ∧
      (k = .identExpr ∨ k = .name ∧ (u.kindAt .expr = .leftParen ∨ u.kindAt .expr = .dot)) := by
  have hinner : Makes Reported s.start wordKind fun k ts u => TokenOf .ident ts ∧ (k = .identExpr ∨
      k = .name ∧ (u.kindAt .expr = .leftParen ∨ u.kindAt .expr = .dot)) := by
    have hstart : s.start.kindAt .expr = .ident := hk
    unfold wordKind
    refine .seq (E := Reported) (Makes.advance .expr (by simp [hstart])) inferInstance
      (fun _ => .seq inferInstance inferInstance fun k => by split <;> infer_instance) fun _ ts
        u hts => ?_
    rw [hstart] at hts
    refine .peekKind ?_
    have htoken : TokenOf .ident (ts ++ []) := by simpa using hts.1
    split
    · next hp => exact .pure ⟨htoken, .inr ⟨rfl, .inl (by simpa using hp)⟩⟩
    · next hp => exact .pure ⟨htoken, .inr ⟨rfl, .inr (by simpa using hp)⟩⟩
    · exact .pure ⟨htoken, .inl rfl⟩
  refine (Makes.nodeOf hinner ?_).mono ?_
  · rintro k cs u - ⟨⟨token, ht, rfl⟩, hword⟩
    have hparts := Tree.hasToken_of_mem (List.mem_singleton.2 rfl) ht
    rcases hword with rfl | ⟨rfl, -⟩ <;> exact hparts
  · rintro k ts v ⟨cs, u, rfl, rfl, -, hword⟩
    exact ⟨⟨cs, rfl⟩, hword⟩

section
variable {expr : Parser (Option Kind)} [Rule expr] [Carries (Owes .expr) (Owes .expr) expr]
  (hexpr : ∀ s, Makes (Owes .expr) s expr fun a ts _ => Operand a ts)
include hexpr

lemma makes_argList : Makes (Owes .expr) s (argList expr) fun _ ts _ => NodeOf .argList ts := by
  have : Builds (Owes .expr) false expr := .of_makes hexpr
  have : Carries (Owes .expr) (Owes .expr) (argStep expr) := by
    unfold argStep argEnd
    infer_instance
  have : Builds (Owes .expr) false (argStep expr) := by
    unfold argStep argEnd
    infer_instance
  have hinner : Builds (Owes .expr) false
    (advance .expr >>= fun _ => loop (fun _ => argStep expr) () >>=
    fun _ => expect .expr .rightParen "expected `)`" >>= fun _ => pure ()) := inferInstance
  unfold argList
  exact .asNode (hinner.makes s.start) fun _ _ _ _ _ => rfl

/-- A call, a member or a plain name. -/
lemma makes_wordExpr (hk : s.kindAt .expr = .ident) :
    Makes (Owes .expr) s (wordExpr expr) fun k ts _ =>
    k.isExprKind = true ∧ NodeOf k ts := by
  have : Carries Reported (Owes .expr) (wordTail expr) := by
    unfold wordTail
    infer_instance
  rw [wordExpr]
  refine .into (makes_wordHead hk) inferInstance inferInstance fun head ts u hg hq hu hword => ?_
  obtain ⟨⟨cs, rfl⟩, hhead⟩ := hword
  have hlook := hg.look .expr
  have hquiet : (u.look .expr).Quiet := ⟨hq.never, hq.running⟩
  have hadded : Added s (u.look .expr) [.node head cs] := ⟨hu.inner, hu.complete⟩
  rcases hhead with rfl | ⟨rfl, hnext⟩
  · exact fun _ => ⟨_, hu, rfl, cs, rfl⟩
  · rw [if_neg (by simp), wordTail, answer_bind, after_bind, hg.answer_isAt, hg.after_isAt]
    by_cases hp : u.kindAt .expr = .leftParen
    · rw [decide_eq_true hp, if_pos rfl, answer_bind, after_bind, answer_pure, after_pure]
      intro hnot
      have hparts (ys : List Tree) : (nameAmong? (.node .name cs :: ys)).isSome = true :=
        Tree.nameAmong?_isSome List.mem_cons_self
      obtain ⟨ys, -, h1, -⟩ := Makes.nodeAround hadded (k := .callExpr) (makes_argList hexpr)
        (fun ys _ _ _ => hparts ys) hlook hquiet hnot
      exact ⟨_, h1, rfl, _, rfl⟩
    · rw [decide_eq_false hp, if_neg (by simp), answer_bind, after_bind, answer_pure, after_pure]
      have hdot : (u.look .expr).precede.kindAt .expr = .dot :=
        (kindAt_look u .expr).trans (hnext.resolve_left hp)
      intro hnot
      have hparts : ∀ ys, (∃ token ds, token.kind = .dot ∧ ys = [.leaf token, .node .name ds]) →
          Tree.hasParts .memberExpr (.node .name cs :: ys) = true := by
        rintro ys ⟨token, ds, ht, rfl⟩
        simpa [Tree.hasParts, Expr.afterDot, ht, Tree.kind] using
          Tree.nameAmong?_isSome (List.mem_singleton.2 rfl)
      obtain ⟨ys, -, h1, -⟩ := Makes.nodeAround hadded (makes_memberName hdot).owing
        (fun ys _ _ => hparts ys) hlook hquiet hnot
      exact ⟨_, h1, rfl, _, rfl⟩

omit [Carries (Owes .expr) (Owes .expr) expr] in
/-- An expression in parentheses. -/
lemma makes_parens : Makes (Owes .expr) s (parens expr) fun _ ts _ => NodeOf .parenExpr ts := by
  have hfinds : Finds (Owes .expr) IsExpr expr :=
    fun s => (hexpr s).mono fun _ _ _ => Operand.isExpr
  refine Finds.inNode (.behind fun _ => .before hfinds) ?_
  rintro cs - _ hc ⟨k, ds, hk, rfl⟩
  exact Tree.among?_isSome hc hk

lemma makes_primaryExpr : Makes (Owes .expr) s (primaryExpr expr) fun a ts _ => Operand a ts := by
  unfold primaryExpr
  refine .peekKind ?_
  rw [← kindAt_look s .expr]
  generalize s.look .expr = u
  unfold primaryAt
  split
  · next hk =>
    exact .owing (makes_literal rfl (by simp [hk]) fun _ ht =>
      Tree.hasToken_of_mem (List.mem_singleton.2 rfl) (ht.trans hk))
  · next hk =>
    exact .owing (makes_literal rfl (by simp [hk]) fun _ ht =>
      Tree.hasToken_of_mem (List.mem_singleton.2 rfl) (ht.trans hk))
  · next hk =>
    exact .owing (makes_literal rfl (by simp [hk]) fun _ ht =>
      Tree.findSome?_tokensAmong (List.mem_singleton.2 rfl) (by simp [ht, hk]))
  · next hk =>
    exact .owing (makes_literal rfl (by simp [hk]) fun _ ht =>
      Tree.findSome?_tokensAmong (List.mem_singleton.2 rfl) (by simp [ht, hk]))
  · next hk =>
    exact .owing (makes_literal rfl (by simp [hk]) fun _ ht =>
      Tree.hasToken_of_mem (List.mem_singleton.2 rfl) (ht.trans hk))
  · exact (makes_parens hexpr).map fun _ _ _ => .of_node rfl
  · exact makes_variableExpr.map fun _ _ _ => .of_node rfl
  · next hk =>
    refine Makes.owing (.map ?_ fun _ _ _ => .of_node (k := .memberExpr) rfl)
    refine .asNode (makes_memberName hk) ?_
    rintro - cs - - ⟨token, ds, ht, rfl⟩
    simpa [Tree.hasParts, Expr.afterDot, ht, Tree.kind] using
      Tree.nameAmong?_isSome (List.mem_singleton.2 rfl)
  · next hk => exact (makes_wordExpr hexpr hk).map fun _ _ _ h => .of_node h.1 h.2
  · have := alwaysReports_errorRecover .expr "expected expression"
      (show exprRecovery.contains .errorToken = false by decide)
    exact .of_alwaysReports

end

section
variable (expr : Parser (Option Kind)) [Rule expr]

instance : Readable (primaryExpr expr) := by
  unfold primaryExpr
  refine ⟨.bind Rule.reads fun k => ?_⟩
  unfold primaryAt
  split <;> exact Readable.reads

/-- Where an error stands, an operand reports it. -/
lemma reportsOwed_primaryExpr : ReportsOwed .expr (primaryExpr expr) := by
  have := alwaysReports_errorRecover .expr "expected expression"
    (show exprRecovery.contains .errorToken = false by decide)
  unfold primaryExpr
  refine .peekKind (fun k => ?_) ?_
  · unfold primaryAt
    split <;> infer_instance
  · exact inferInstanceAs (ReportsOwed .expr (errorRecover .expr _ _ >>= fun _ => pure none))

end

/-! ### Operators -/

/-- An operator, and the operand behind it. -/
def Operated (op : Kind) (ts : List Tree) : Prop :=
  ∃ token : Token, token.kind = op ∧ ∃ j ds, j.isExprKind = true ∧ ts = [.leaf token, .node j ds]

lemma makes_operated {p : Parser (Option Kind)} [Readable p]
    (h : ∀ s, Makes (Owes .expr) s p fun a ts _ => Operand a ts) (hk : s.kindAt .expr ≠ .eof) :
    Makes (Owes .expr) s (advance .expr >>= fun _ => p >>= fun _ => pure ()) fun _ ts _ =>
      Operated (s.kindAt .expr) ts := by
  refine .bind (E := Reported) (Makes.advance .expr hk) fun _ ts u hts => ?_
  obtain ⟨⟨token, ht, rfl⟩, -⟩ := hts
  refine (h u).map fun _ us _ hus => ?_
  obtain ⟨j, hj, -, ds, rfl⟩ := hus
  exact ⟨token, ht, j, ds, hj, rfl⟩

section
variable {operand : Parser (Option Kind)} [Rule operand]

lemma reportsOwed_climb [ReportsOwed .expr operand] (tiers floor : Nat) :
    ReportsOwed .expr (climb operand tiers floor) := by
  rcases tiers with _ | tiers
  · rwa [climb]
  · have := rule_operators operand (rule_climb operand tiers) floor
    rw [climb]
    refine .seq inferInstance inferInstance fun r => ?_
    split <;> infer_instance

variable (operand) in
lemma carries_operatorStep (tiers floor : Nat) (whole : Kind) :
    Carries (Owes .expr) (Owes .expr) (operatorStep (climb operand tiers) floor whole) := by
  have := rule_climb operand tiers
  refine .seq inferInstance inferInstance fun k => ?_
  split <;> infer_instance

/-- An operator and the operand behind it go into a node with the operand in front. -/
lemma makes_operators {tiers : Nat}
    (h : ∀ floor s, Makes (Owes .expr) s (climb operand tiers floor) fun a ts _ => Operand a ts)
    {u : ParserState} (hg : u.Good) (hq : u.Quiet) (floor : Nat) {first : Kind} {ts : List Tree}
    (hu : Added s u ts) (hts : Operand (some first) ts)
    (hnot : ¬ Owes .expr ((operators (climb operand tiers) floor first).after u)) :
    ∃ us, Added s ((operators (climb operand tiers) floor first).after u) us ∧
      Operand ((operators (climb operand tiers) floor first).answer u) us := by
  have hrule := rule_climb operand tiers
  have hreads := rule_operatorStep operand hrule floor
  have hcarries := carries_operatorStep operand tiers floor
  change ¬ Owes .expr ((loop (operatorStep (climb operand tiers) floor) first).after u) at hnot
  refine Makes.loop_from (I := fun whole us _ => Operand (some whole) us)
    (fun whole us v hv hqv hs hw => ?_) hg hq hu hts hnot
  have hlook := hv.look .expr
  have hquiet : (v.look .expr).Quiet := ⟨hqv.never, hqv.running⟩
  have hadded : Added s (v.look .expr) us := ⟨hs.inner, hs.complete⟩
  rw [operatorStep, answer_bind, after_bind, hv.answer_peekKind, hv.after_peekKind]
  split
  · exact fun _ => ⟨us, hadded, hw⟩
  · next op hop =>
    split
    · exact fun _ => ⟨us, hadded, hw⟩
    · intro hD
      obtain ⟨k, hk, hwhole, cs, rfl⟩ := hw
      have hkind : (v.look .expr).precede.kindAt .expr = v.kindAt .expr := kindAt_look v .expr
      have hne : v.kindAt .expr ≠ .eof := by
        rintro heq
        simp [heq, BinaryOp.ofKind?] at hop
      have hparts (ys : List Tree) (hys : Operated (v.kindAt .expr) ys) :
          Tree.hasParts .binaryExpr (.node k cs :: ys) = true := by
        obtain ⟨token, ht, j, ds, hj, rfl⟩ := hys
        exact Tree.hasParts_binaryExpr hk hj (by simp [ht, hop])
      obtain ⟨ys, -, h1, -⟩ :=
        Makes.nodeAround hadded (makes_operated (h op.precedence) (hkind ▸ hne))
        (fun ys _ _ hys => hparts ys (hkind ▸ hys)) hlook hquiet hD
      exact ⟨_, h1, .of_node rfl ⟨_, rfl⟩⟩

lemma makes_climb (h : ∀ s, Makes (Owes .expr) s operand fun a ts _ => Operand a ts)
    (tiers floor : Nat) (s : ParserState) :
    Makes (Owes .expr) s (climb operand tiers floor) fun a ts _ => Operand a ts := by
  induction tiers generalizing floor s with
  | zero =>
    rw [climb]
    exact h s
  | succ tiers ih =>
    have hrule := rule_operatorStep operand (rule_climb operand tiers) floor
    have hcarries := carries_operatorStep operand tiers floor
    rw [climb]
    refine .into (h s) inferInstance (fun r => ?_) fun r ts u hg hq hu hr => ?_
    · unfold operators
      split <;> infer_instance
    · obtain ⟨k, hk, rfl, hts⟩ := hr
      exact makes_operators ih hg hq floor hu (.of_node hk hts)

end

lemma reportsOwed_operand (levels : Nat) : ReportsOwed .expr (operand levels) := by
  cases levels with
  | zero => exact inferInstanceAs (ReportsOwed .expr tooDeep)
  | succ levels =>
    rw [operand]
    exact .peekKind (fun _ => inferInstance) (reportsOwed_primaryExpr _)

/-- Every expression that is read is whole, or an error was reported, or stands next. -/
lemma makes_operand (levels : Nat) (s : ParserState) :
    Makes (Owes .expr) s (operand levels) fun a ts _ => Operand a ts := by
  induction levels generalizing s with
  | zero =>
    rw [operand]
    exact .of_alwaysReports
  | succ levels ih =>
    have hpays := reportsOwed_operand levels
    have hexpr := makes_climb ih (BinaryOp.maxPrecedence + 1) 0
    rw [operand]
    refine .peekKind ?_
    split
    · next hop =>
      refine .map (Q := fun _ ts _ => NodeOf .unaryExpr ts) ?_ fun _ _ _ => .of_node rfl
      have hne : (s.look .expr).start.kindAt .expr ≠ .eof := by
        rw [kindAt_start, kindAt_look]
        rintro heq
        simp [heq, UnaryOp.ofKind?] at hop
      refine .asNode (makes_operated ih hne) ?_
      rintro - cs - - ⟨token, ht, j, ds, hj, rfl⟩
      rw [kindAt_start, kindAt_look] at ht
      exact Bool.and_eq_true_iff.2 ⟨Tree.findSome?_tokensAmong List.mem_cons_self (ht ▸ hop),
        Tree.among?_isSome (List.mem_cons_of_mem _ (List.mem_singleton.2 rfl)) hj⟩
    · have : ReportsOwed .expr (exprOf (operand levels)) := reportsOwed_climb _ _
      exact makes_primaryExpr hexpr

instance (levels : Nat) : ReportsOwed .expr (expr levels) := by
  have := reportsOwed_operand levels
  exact reportsOwed_climb _ _

lemma makes_expr (levels : Nat) (s : ParserState) :
    Makes (Owes .expr) s (expr levels) fun a ts _ => Operand a ts :=
  makes_climb (makes_operand levels) _ _ s

lemma finds_expr (levels : Nat) : Finds (Owes .expr) IsExpr (expr levels) :=
  fun s => (makes_expr levels s).mono fun _ _ _ => Operand.isExpr

end Parser

end DialogueScript

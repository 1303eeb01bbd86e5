import DialogueScript.Ast.View
import DialogueScript.Proofs.Grammar.Tolerant

/-!
What reading an expression makes of any text. The trees are given by rules of their own, with the
number of levels that are left and with the operator that an operand stands behind. A property of
all of them is then proved by induction on these rules, and no longer on the run of a parser.
-/

set_option synthInstance.maxSize 4096

namespace DialogueScript

/-- The kinds of expressions that are operands: all but those that join two of them. -/
def Kind.isOperand (k : Kind) : Bool := k.isExprKind && k ≠ .binaryExpr

namespace Parser

open ParserState

/-- The trees that an expression can consist of, damaged or not, where a number of levels is left
for what is nested in it and its operators bind more tightly than `floor`. Parentheses, calls and
unary operators take a level, and what is behind an operator binds more tightly than it. -/
inductive ExprTree : Nat → Nat → Tree → Prop
  | leaf {n floor : Nat} {token : Token} :
      token.kind ≠ .blankLine → token.kind ≠ .commandStart → ExprTree n floor (.leaf token)
  | name {n floor : Nat} {cs : List Tree} :
      (∀ c ∈ cs, ExprTree n floor c) → ExprTree n floor (.node .name cs)
  | error {n floor : Nat} {cs : List Tree} :
      (∀ c ∈ cs, ExprTree n floor c) → (∀ c ∈ cs, c.kind ≠ .enumKw) →
        ExprTree n floor (.node .error cs)
  | args {n : Nat} {cs : List Tree} : (∀ c ∈ cs, ExprTree n 0 c) → ExprTree n 0 (.node .argList cs)
  /-- A variable can stand alone, and then needs no level. -/
  | var {n : Nat} {cs : List Tree} :
      (∀ c ∈ cs, ExprTree n BinaryOp.maxPrecedence c) → ExprTree n 0 (.node .variableExpr cs)
  | operand {n floor : Nat} {k : Kind} {cs : List Tree} : k.isOperand = true →
      (∀ c ∈ cs, ExprTree n 0 c) → ExprTree (n + 1) floor (.node k cs)
  | binary {n floor : Nat} {first : Tree} {cs : List Tree} (op : BinaryOp) : floor < op.precedence →
      ExprTree n floor first → (∀ c ∈ cs, ExprTree n op.precedence c) →
      ExprTree n floor (.node .binaryExpr (first :: cs))

instance (n floor : Nat) : Lenient (ExprTree n floor) where
  leaf _ := .leaf
  name _ := .name
  error _ h := .error (fun c hc => (h c hc).1) fun c hc => (h c hc).2

/-- What holds no expression, so that it needs no level. -/
def Bare (t : Tree) : Prop := ∀ n floor, ExprTree n floor t

instance : Lenient Bare where
  leaf _ h h' _ _ := .leaf h h'
  name _ h n floor := .name fun c hc => h c hc n floor
  error _ h n floor := .error (fun c hc => (h c hc).1 n floor) fun c hc => (h c hc).2

/-- A property that goes from the children of an expression or an argument list to the node holds of
all that an expression consists of. -/
lemma ExprTree.closed {P : Tree → Prop} [hP : Lenient P]
    (hnode : ∀ k cs, k.isExprKind = true ∨ k = .argList → (∀ c ∈ cs, P c) → P (.node k cs))
    {n floor : Nat} {t : Tree} (h : ExprTree n floor t) : P t := by
  induction h with
  | leaf hk hk' => exact hP.leaf _ hk hk'
  | name _ ih => exact hP.name _ ih
  | error _ hk ih => exact hP.error _ fun c hc => ⟨ih c hc, hk c hc⟩
  | args _ ih => exact hnode _ _ (.inr rfl) ih
  | var _ ih => exact hnode _ _ (.inl rfl) ih
  | operand hk _ ih =>
    simp only [Kind.isOperand, Bool.and_eq_true] at hk
    exact hnode _ _ (.inl hk.1) ih
  | binary op _ _ _ ih ihs => exact hnode _ _ (.inl rfl) (List.forall_mem_cons.2 ⟨ih, ihs⟩)

/-! ### Operands -/

section
variable {ends : Bool} {P : Tree → Prop} [hP : Lenient P]

instance : Adds ends (ErrorPart P) (loop deepStep 0) := by
  have (opened : Nat) : Adds ends (ErrorPart P) (deepStep opened) := by
    unfold deepStep
    infer_instance
  infer_instance

instance : AddsOperand ends P tooDeep := by
  unfold tooDeep
  refine .of_topped fun s hg => ?_
  exact topped_node (Q := ErrorPart P)
    (p := error .expr "expression is nested too deeply" >>= fun _ =>
    loop deepStep 0 >>= fun _ => pure ()) inferInstance inferInstance hP.error hg

instance : Adds ends P memberName := by
  unfold memberName
  infer_instance

instance (expr : Parser (Option Kind)) [Rule expr] [Adds ends P expr] :
    Adds ends P (argStep expr) := by
  unfold argStep argEnd
  infer_instance

end

instance {ends : Bool} {P : Tree → Prop} [Lenient P] : Adds ends P wordKind := by
  unfold wordKind
  refine .seq inferInstance inferInstance fun _ => .seq inferInstance inferInstance fun k => ?_
  split <;> infer_instance

section
variable {ends : Bool} {n : Nat}

instance : Adds ends (ExprTree n 0) variableExpr := by
  unfold variableExpr
  exact .inNode (Q := ExprTree n BinaryOp.maxPrecedence) inferInstance inferInstance fun _ => .var

section
variable (expr : Parser (Option Kind)) [Rule expr] [Adds ends (ExprTree n 0) expr] (floor : Nat)

instance : Adds ends (ExprTree n 0) (argList expr) := by
  unfold argList
  exact .inNode (Q := ExprTree n 0) inferInstance inferInstance fun _ => .args

omit [Rule expr] [Adds ends (ExprTree n 0) expr] in
/-- A word is the name in front of something, or an expression by itself. -/
lemma topped_wordHead {s : ParserState} (hg : s.Good) :
    ((nodeOf wordKind).answer s = .name ∧ Topped ends Bare s ((nodeOf wordKind).after s)) ∨
    ((nodeOf wordKind).answer s = .identExpr ∧
      Topped ends (ExprTree (n + 1) floor) s ((nodeOf wordKind).after s)) := by
  rw [answer_nodeOf]
  rcases answer_wordKind s.start with hkind | hkind
  · refine .inl ⟨hkind, topped_nodeOf (Q := Bare) inferInstance inferInstance (fun cs h => ?_) hg⟩
    rw [hkind]
    exact Lenient.name cs h
  · refine .inr
      ⟨hkind, topped_nodeOf (Q := ExprTree n 0) inferInstance inferInstance (fun cs h => ?_) hg⟩
    rw [hkind]
    exact .operand rfl h

/-- A call is one level above its arguments. -/
lemma topped_wordExpr {s : ParserState} (hg : s.Good) :
    Topped ends (ExprTree (n + 1) floor) s ((wordExpr expr).after s) := by
  have hhead := @topped_wordHead ends n floor s hg
  have hu := Rule.good (nodeOf wordKind) hg
  have hlook := hu.look .expr
  rw [wordExpr, after_bind]
  generalize (nodeOf wordKind).answer s = head, (nodeOf wordKind).after s = u at *
  rcases hhead with ⟨rfl, htop⟩ | ⟨rfl, htop⟩
  · rw [if_neg (by decide), wordTail, after_bind, hu.after_isAt]
    split <;> rw [after_bind, after_pure]
    · exact topped_nodeAround (R := ExprTree n 0) (p := argList expr) inferInstance inferInstance
        (fun c cs hc hcs => .operand rfl (List.forall_mem_cons.2 ⟨hc n 0, hcs⟩))
        (fun _ h => h (n + 1) floor) hlook (htop.look .expr)
    · exact topped_nodeAround (R := Bare) (p := memberName) inferInstance inferInstance
        (fun c cs hc hcs =>
          .operand rfl (List.forall_mem_cons.2 ⟨hc n 0, fun d hd => hcs d hd n 0⟩))
        (fun _ h => h (n + 1) floor) hlook (htop.look .expr)
  · rw [if_pos rfl]
    exact htop

omit [Rule expr] [Adds ends (ExprTree n 0) expr] in
lemma addsOperand_literalExpr {k : Kind} (hk : k.isOperand = true) :
    AddsOperand ends (ExprTree (n + 1) floor) (literalExpr k) :=
  .of_topped fun _ hg =>
    topped_node (Q := ExprTree n 0) (p := advance .expr) inferInstance inferInstance
    (fun _ => .operand hk) hg

instance : AddsOperand ends (ExprTree (n + 1) floor) (primaryExpr expr) := by
  unfold primaryExpr
  refine .peekKind fun k => ?_
  unfold primaryAt parens
  split
  · exact addsOperand_literalExpr floor rfl
  · exact addsOperand_literalExpr floor rfl
  · exact addsOperand_literalExpr floor rfl
  · exact addsOperand_literalExpr floor rfl
  · exact addsOperand_literalExpr floor rfl
  · refine .of_topped fun s hg => ?_
    rw [after_bind, after_pure]
    exact topped_node (Q := ExprTree n 0) (p := advance .expr >>= fun _ => expr >>= fun _ =>
      expect .expr .rightParen "expected `)`" >>= fun _ => pure ()) inferInstance inferInstance
      (fun _ => .operand rfl) hg
  · refine .of_topped fun s hg => ?_
    rw [after_bind, after_pure]
    exact topped_node (Q := ExprTree n 0) (p := advance .expr >>= fun _ =>
      expect .name .ident "expected a variable name" >>= fun _ => pure ()) inferInstance
      inferInstance (fun _ => .operand rfl) hg
  · refine .of_topped fun s hg => ?_
    rw [after_bind, after_pure]
    exact topped_node (Q := ExprTree n 0) (p := memberName) inferInstance inferInstance
      (fun _ => .operand rfl) hg
  · refine .of_topped fun s hg => ?_
    rw [after_bind, after_pure]
    exact topped_wordExpr expr floor hg
  · exact .of_none inferInstance

end

/-! ### Operators -/

section
variable (operand : Parser (Option Kind)) [Rule operand]

/-- What is behind an operator binds more tightly than it. -/
lemma topped_operators {tiers : Nat}
    (hright : ∀ floor, Adds ends (ExprTree n floor) (climb operand tiers floor)) (floor : Nat)
    (first : Kind) {s u : ParserState} (hg : u.Good) (hu : Topped ends (ExprTree n floor) s u) :
    Topped ends (ExprTree n floor) s ((operators (climb operand tiers) floor first).after u) := by
  have := rule_climb operand tiers
  have hr : ∀ whole, Reading (operatorStep (climb operand tiers) floor whole) := by
    intro whole
    refine .bind Rule.reads fun k => ?_
    split <;> exact Rule.reads
  rw [operators, after_bind, after_pure]
  refine loop_keeps (I := fun _ v => Topped ends (ExprTree n floor) s v) hr
    (fun whole v hv h => ?_) hg hu
  have hlook := h.look .expr
  rw [operatorStep, after_bind, hv.answer_peekKind, hv.after_peekKind]
  split
  · exact hlook
  · next op _ =>
    split
    · exact hlook
    · next hop =>
      have := hright op.precedence
      exact topped_nodeAround (R := ExprTree n op.precedence) (p := advance .expr >>= fun _ =>
        climb operand tiers op.precedence >>= fun _ => pure ()) inferInstance inferInstance
        (fun c cs => .binary op (Nat.lt_of_not_le hop)) (fun _ h => h) (hv.look .expr) hlook

lemma addsOperand_climb (hoperand : ∀ floor, AddsOperand ends (ExprTree n floor) operand)
    (tiers floor : Nat) : AddsOperand ends (ExprTree n floor) (climb operand tiers floor) := by
  induction tiers generalizing floor with
  | zero =>
    rw [climb]
    exact hoperand floor
  | succ tiers ih =>
    have hsome : ∀ ⦃s⦄, s.Good → ∀ ⦃first⦄, operand.answer s = some first →
        Topped ends (ExprTree n floor) s
          ((operators (climb operand tiers) floor first).after (operand.after s)) :=
      fun s hg first h => topped_operators operand (fun _ => inferInstance) floor first
        (Rule.good operand hg) ((hoperand floor).topped hg (by simp [h]))
    rw [climb]
    refine ⟨fun s hg => ?_, fun s hg h => ?_⟩
    · rw [after_bind]
      rcases hr : operand.answer s with _ | first
      · exact (hoperand floor).grown hg
      · exact (hsome hg hr).grown
    · rw [answer_bind] at h
      rw [after_bind]
      rcases hr : operand.answer s with _ | first <;> rw [hr] at h
      · simp at h
      · exact hsome hg hr

end

lemma addsOperand_operand (levels floor : Nat) :
    AddsOperand ends (ExprTree levels floor) (operand levels) := by
  induction levels generalizing floor with
  | zero => exact inferInstanceAs (AddsOperand ends (ExprTree 0 floor) tooDeep)
  | succ levels ih =>
    have : AddsOperand ends (ExprTree levels 0) (exprOf (operand levels)) :=
      addsOperand_climb (operand levels) ih _ _
    rw [operand]
    refine .peekKind fun k => ?_
    split
    · refine .of_topped fun s hg => ?_
      exact topped_node (Q := ExprTree levels 0)
        (p := advance .expr >>= fun _ => operand levels >>= fun _ =>
        pure ()) inferInstance inferInstance (fun _ => .operand rfl) hg
    · infer_instance

/-- **An expression adds only trees of expressions**, whatever the text is. -/
instance (levels : Nat) : Adds ends (ExprTree levels 0) (expr levels) := by
  have : AddsOperand ends (ExprTree levels 0) (exprOf (operand levels)) :=
    addsOperand_climb (operand levels) (addsOperand_operand levels) _ _
  exact inferInstanceAs (Adds ends (ExprTree levels 0) (exprOf (operand levels)))

end

end Parser

end DialogueScript

import DialogueScript.Proofs.Expression.TooDeep

/-!
Reading terms of any depth. Where levels are left, an operand is read to its end. Where none is
left, it is passed over with the rest of the expression around it. Nothing is reported but that, as
long as no comma stands in what is passed over.
-/

namespace DialogueScript

open DialogueScript.Parser DialogueScript.Scanner

namespace Term

/-! ### What is passed over -/

/-- Whether some operand of a term, outside its parentheses, is passed over if so many levels are
left. -/
def overflows : Nat → Term → Bool
  | 0, _ => true
  | n + 1, unary _ operand => overflows n operand
  | n + 1, binary _ lhs rhs => overflows (n + 1) lhs || overflows (n + 1) rhs
  | _ + 1, _ => false

mutual

/-- Whether no comma stands in what is passed over if so many levels are left. Behind an operand
that is passed over, that is the rest of the expression. -/
def cutsCleanly : Nat → Term → Bool
  | 0, e => commaless e
  | n + 1, call _ args => cutCleanlyAll n args
  | n + 1, paren inner => cutsCleanly n inner
  | n + 1, unary _ operand => cutsCleanly n operand
  | n + 1, binary _ lhs rhs =>
    cutsCleanly (n + 1) lhs && if overflows (n + 1) lhs then commaless rhs
      else cutsCleanly (n + 1) rhs
  | _ + 1, _ => true

def cutCleanlyAll : Nat → List Term → Bool
  | _, [] => true
  | n, a :: as => cutsCleanly n a && cutCleanlyAll n as

end

lemma overflows_zero (e : Term) : e.overflows 0 = true := by
  cases e <;> rfl

lemma cutsCleanly_zero (e : Term) : e.cutsCleanly 0 = e.commaless := by
  cases e <;> simp only [cutsCleanly]

lemma overflows_binary (n : Nat) (op : Kind) (lhs rhs : Term) :
    (binary op lhs rhs).overflows n = (lhs.overflows n || rhs.overflows n) := by
  cases n with
  | zero => simp only [overflows_zero, Bool.or_self]
  | succ n => rw [overflows]

/-- Behind a left operand that is passed over, the right one is passed over with it. -/
lemma cutsCleanly_binary {n : Nat} {op : Kind} {lhs rhs : Term}
    (h : (binary op lhs rhs).cutsCleanly n = true) :
    lhs.cutsCleanly n = true ∧ (lhs.overflows n = true → rhs.commaless = true) ∧
      (lhs.overflows n = false → rhs.cutsCleanly n = true) := by
  cases n with
  | zero =>
    simp only [cutsCleanly_zero, commaless, Bool.and_eq_true] at h
    simp only [cutsCleanly_zero]
    exact ⟨h.1, fun _ => h.2, fun _ => h.2⟩
  | succ n =>
    simp only [cutsCleanly, Bool.and_eq_true] at h
    exact ⟨h.1, fun hover => by simpa [hover] using h.2, fun hover => by simpa [hover] using h.2⟩

mutual

/-- Nothing is passed over in a term that is not too deep. -/
lemma cutsCleanly_of_depth : ∀ (e : Term) (n : Nat), e.depth < n →
    e.overflows n = false ∧ e.cutsCleanly n = true
  | _, 0, h => absurd h (Nat.not_lt_zero _)
  | number _ _, _ + 1, _ => ⟨rfl, rfl⟩
  | string _, _ + 1, _ => ⟨rfl, rfl⟩
  | var _, _ + 1, _ => ⟨rfl, rfl⟩
  | ident _, _ + 1, _ => ⟨rfl, rfl⟩
  | truth _, _ + 1, _ => ⟨rfl, rfl⟩
  | null, _ + 1, _ => ⟨rfl, rfl⟩
  | member _ _, _ + 1, _ => ⟨rfl, rfl⟩
  | call _ args, n + 1, h => ⟨rfl, cutCleanlyAll_of_depth args n (Nat.lt_of_succ_lt_succ h)⟩
  | paren inner, n + 1, h => ⟨rfl, (cutsCleanly_of_depth inner n (Nat.lt_of_succ_lt_succ h)).2⟩
  | unary _ operand, n + 1, h => cutsCleanly_of_depth operand n (Nat.lt_of_succ_lt_succ h)
  | binary _ lhs rhs, n + 1, h => by
    simp only [depth] at h
    obtain ⟨hl, hl'⟩ := cutsCleanly_of_depth lhs (n + 1) (by omega)
    obtain ⟨hr, hr'⟩ := cutsCleanly_of_depth rhs (n + 1) (by omega)
    simp [overflows, cutsCleanly, hl, hl', hr, hr']

lemma cutCleanlyAll_of_depth :
    ∀ (es : List Term) (n : Nat), depthAll es < n → cutCleanlyAll n es = true
  | [], _, _ => rfl
  | a :: as, n, h => by
    simp only [depthAll] at h
    rw [cutCleanlyAll, (cutsCleanly_of_depth a n (by omega)).2,
      cutCleanlyAll_of_depth as n (by omega)]
    rfl

end

mutual

/-- Without commas, none is passed over. -/
lemma cutsCleanly_of_commaless : ∀ (e : Term) (n : Nat), e.commaless = true → e.cutsCleanly n = true
  | e, 0, h => (cutsCleanly_zero e).trans h
  | number _ _, _ + 1, _ => rfl
  | string _, _ + 1, _ => rfl
  | var _, _ + 1, _ => rfl
  | ident _, _ + 1, _ => rfl
  | truth _, _ + 1, _ => rfl
  | null, _ + 1, _ => rfl
  | member _ _, _ + 1, _ => rfl
  | call _ args, n + 1, h => by
    simp only [commaless, Bool.and_eq_true] at h
    exact cutCleanlyAll_of_commaless args n h.2
  | paren inner, n + 1, h => cutsCleanly_of_commaless inner n h
  | unary _ operand, n + 1, h => cutsCleanly_of_commaless operand n h
  | binary _ lhs rhs, n + 1, h => by
    simp only [commaless, Bool.and_eq_true] at h
    simp [cutsCleanly, cutsCleanly_of_commaless lhs (n + 1) h.1, h.2,
      cutsCleanly_of_commaless rhs (n + 1) h.2]

lemma cutCleanlyAll_of_commaless : ∀ (es : List Term) (n : Nat), commalessAll es = true →
    cutCleanlyAll n es = true
  | [], _, _ => rfl
  | a :: as, n, h => by
    simp only [commalessAll, Bool.and_eq_true] at h
    rw [cutCleanlyAll, cutsCleanly_of_commaless a n h.1, cutCleanlyAll_of_commaless as n h.2]
    rfl

end

/-! ### Reading up to where an expression is closed -/

/-- The rest `t` of an expression, which can be passed over up to the token in front of `r` that
closes it. -/
structure Rest (stack : IndentStack) (t r : Text) : Prop where
  crosses : Crosses 0 (Midline stack t) 0 (Midline stack r)
  closes : ∃ c, Faces .expr c (Midline stack r) ∧ exprRecovery.contains c = true

/-- An operand is read up to the text `t` behind it, or up to where the expression around it is
closed. -/
def PassesOperand (n : Nat) (e : Term) : Prop :=
  ∀ ⦃stack ps t r k⦄, e.Written ps t → (e.overflows n = true → Rest stack t r) →
    Faces .expr k (Midline stack t) → k ≠ .leftParen ∧ k ≠ .dot →
    Passes Diagnostic.isOther (Midline stack (Piece.concat ps ++ t)) (operand n) (·.isSome = true)
      (Midline stack (if e.overflows n = true then r else t))

/-- The same for what an expression starts with, with the operators behind it. -/
def PassesSpine (n : Nat) (e : Term) : Prop :=
  ∀ ⦃stack ps t r k tiers floor⦄, e.Written ps t → (e.overflows n = true → Rest stack t r) →
    Faces .expr k (Midline stack t) → Ends e.level k → floor < e.level → 7 ≤ tiers + 1 + floor →
    ∀ ⦃q⦄, (∀ first,
      Passes Diagnostic.isOther (Midline stack (if e.overflows n = true then r else t))
      (operators (climb (operand n) tiers) floor first) (·.isSome = true) q) →
    Passes Diagnostic.isOther (Midline stack (Piece.concat ps ++ t))
      (climb (operand n) (tiers + 1) floor) (·.isSome = true) q

section
variable {n tiers floor : Nat} {stack : IndentStack} {t r : Text} {k : Kind} {q : Scanner → Prop}

lemma operators_pass (first : Kind) (hq : Faces .expr k q)
    (hk : ∀ op, BinaryOp.ofKind? k = some op → op.precedence ≤ floor) :
    Passes Diagnostic.isOther q (operators (climb (operand n) tiers) floor first)
      (·.isSome = true) q := by
  have hstep : Passes Diagnostic.isOther q (operatorStep (climb (operand n) tiers) floor first)
      (· = .done first) q := by
    refine Passes.peekKind hq ?_
    split
    · exact .pure rfl
    · next op hop =>
      rw [if_pos (hk op hop)]
      exact .pure rfl
  exact (Passes.loop_done (A := fun _ => True) hstep trivial).bind fun _ _ => .pure rfl

/-- Where an expression is closed, no operators are left. -/
lemma operators_closed (first : Kind) (h : ∃ c, Faces .expr c q ∧ exprRecovery.contains c = true) :
    Passes Diagnostic.isOther q (operators (climb (operand n) tiers) floor first)
      (·.isSome = true) q := by
  obtain ⟨c, hq, hc⟩ := h
  exact operators_pass first hq (Ends.of_recovery hc floor).operator

/-- A tight operator is taken with the operand behind it. -/
lemma operators_passOne {op : Kind} {o : BinaryOp} {w : Text} {q q' q'' q₃ : Scanner → Prop}
    (first : Kind) (ho : BinaryOp.ofKind? op = some o) (hl : floor < o.precedence)
    (hop : Offers .expr op w q q')
    (hrhs : Passes Diagnostic.isOther q' (climb (operand n) tiers o.precedence)
      (·.isSome = true) q'')
    (hrest : Passes Diagnostic.isOther q'' (operators (climb (operand n) tiers) floor .binaryExpr)
      (·.isSome = true) q₃) :
    Passes Diagnostic.isOther q (operators (climb (operand n) tiers) floor first)
      (·.isSome = true) q₃ := by
  have hne : op ≠ .eof := by
    rintro rfl
    simp [BinaryOp.ofKind?] at ho
  have hrule := fun floor => rule_climb (operand n) tiers floor
  have := rule_operatorStep (operand n) hrule floor
  have hinner : Passes Diagnostic.isOther q (do
      advance .expr
      let _ ← climb (operand n) tiers o.precedence) (fun _ => True) q'' :=
    (Passes.advance hop hne).bind fun _ _ => hrhs.bind fun _ _ => .pure trivial
  have hstep : Passes Diagnostic.isOther q (operatorStep (climb (operand n) tiers) floor first)
      (· = .yield .binaryExpr) q'' := by
    refine Passes.peekKind hop.toFaces ?_
    rw [ho]
    simp only [not_le.2 hl, if_false]
    exact (hinner.nodeAround .binaryExpr).bind fun _ _ => .pure rfl
  exact Passes.loop_yield (I := fun _ => Any) (fun _ _ hg => Rule.good _ hg)
    (advances_operatorStep (operand n) hrule floor) (fun _ _ => trivial) hstep hrest

/-- An expression whose operators bind more tightly than the token behind it. -/
lemma PassesSpine.whole {e : Term} (h : e.PassesSpine n) (tiers : Nat) {ps : List Piece}
    (hw : e.Written ps t) (hrest : e.overflows n = true → Rest stack t r)
    (hq : Faces .expr k (Midline stack t)) (hk : Ends floor k) (hl : floor < e.level)
    (ht : 7 ≤ tiers + 1 + floor) :
    Passes Diagnostic.isOther (Midline stack (Piece.concat ps ++ t))
      (climb (operand n) (tiers + 1) floor)
      (·.isSome = true) (Midline stack (if e.overflows n = true then r else t)) := by
  refine h hw hrest hq ⟨hk.operand, fun op hop => (hk.operator op hop).trans hl.le⟩ hl ht
    fun first => ?_
  by_cases hover : e.overflows n = true
  · rw [if_pos hover]
    exact operators_closed first (hrest hover).closes
  · rw [if_neg hover]
    exact operators_pass first hq hk.operator

/-- A whole expression is read up to where it is closed. -/
lemma PassesSpine.expr {e : Term} (h : e.PassesSpine n) (hspelled : e.spelled = true)
    {ps : List Piece} (hw : e.Written ps r) (hq : Faces .expr k (Midline stack r))
    (hk : exprRecovery.contains k = true) :
    Passes Diagnostic.isOther (Midline stack (Piece.concat ps ++ r)) (Parser.expr n)
      (·.isSome = true) (Midline stack r) := by
  have hwhole :=
    h.whole BinaryOp.maxPrecedence hw (fun _ => ⟨.here 0 (Midline stack r), k, hq, hk⟩) hq
    (.of_recovery hk 0) (level_pos hspelled) (by decide)
  rwa [ite_self] at hwhole

end

/-! ### Operands -/

/-- Without a level that is left, an operand is passed over. -/
lemma passesOperand_zero {e : Term} (h : e.Crossable) (hspelled : e.spelled = true) :
    e.PassesOperand 0 := by
  rintro stack ps t r k hw hrest - -
  obtain ⟨first, hfirst, -⟩ := faces_first stack hspelled hw
  obtain ⟨hcrosses, c, hc, hends⟩ := hrest (overflows_zero e)
  rw [if_pos (overflows_zero e)]
  exact Crosses.tooDeep ((h hw 0).trans hcrosses) hfirst hc hends

section
variable {n : Nat}

/-- An operand in which nothing is nested. -/
lemma passesOperand_flat {e : Term} (hwell : e.wellFormed = true) (hbinary : e.isBinary = false)
    (hflat : e.depth = 0) : e.PassesOperand (n + 1) := by
  rintro stack ps t r k hw - hq hk
  have hfits : e.depth < n + 1 := by omega
  have hcourse := (reads e hwell).operand hbinary hfits hw hq hk
  rw [(cutsCleanly_of_depth e (n + 1) hfits).1, if_neg Bool.false_ne_true]
  exact Passes.of_course hcourse.mute rfl

lemma operand_pass {k : Kind} {q q' : Scanner → Prop} (hq : Faces .expr k q)
    (hk : UnaryOp.ofKind? k = none)
    (h : Passes Diagnostic.isOther q (primaryAt (Parser.expr n) k) (·.isSome = true) q') :
    Passes Diagnostic.isOther q (operand (n + 1)) (·.isSome = true) q' := by
  rw [operand]
  refine Passes.peekKind hq ?_
  rw [hk]
  exact Passes.peekKind hq h

/-- A string is one token, whatever escapes are in it. -/
lemma passesOperand_string {contents : Text} (h : (string contents).spelled = true) :
    (string contents).PassesOperand (n + 1) := by
  rintro stack ps t r k ⟨hps, hs⟩ - - -
  simp only [tokens] at hps
  obtain ⟨p, _, rfl, hp, hnil⟩ := List.map_eq_cons_iff.1 hps
  obtain rfl := List.map_eq_nil_iff.1 hnil
  have hstring : Offers .expr .string (Lexeme.stringText contents)
      (Midline stack (Piece.concat [p] ++ t)) (Midline stack (Piece.concat [] ++ t)) :=
    offers_piece stack hp hs (fun _ _ hb _ hu => Piece.facing_string h hb hu) (by decide)
  exact operand_pass hstring.toFaces rfl
    (((Passes.advance hstring (by decide)).node .stringExpr).bind fun _ _ => .pure rfl)

/-- Parentheses find their end, for passing over what is in them stops there. -/
lemma passesOperand_paren {inner : Term} (h : inner.PassesSpine n)
    (hspelled : (paren inner).spelled = true) :
    (paren inner).PassesOperand (n + 1) := by
  rintro stack ps t r k ⟨hps, hs⟩ - - -
  simp only [tokens] at hps
  obtain ⟨p, xs, p', rfl, hp, hxs, hp'⟩ := Piece.eq_cons_concat hps
  obtain ⟨hopen, hclose, hsx⟩ := offers_parens stack hp hp' hs
  have hinner := h.expr hspelled ⟨hxs, hsx⟩ hclose.toFaces (by decide)
  have hparens : Passes Diagnostic.isOther (Midline stack (Piece.concat (p :: (xs ++ [p'])) ++ t))
      (parens (Parser.expr n)) (fun _ => True) (Midline stack t) := by
    refine Passes.node .parenExpr ?_
    refine (Passes.advance hopen (by decide)).bind fun _ _ => hinner.bind fun _ _ => ?_
    exact (Passes.expect hclose (by decide) _).bind fun _ _ => .pure trivial
  exact operand_pass hopen.toFaces rfl (hparens.bind fun _ _ => .pure rfl)

/-- With the operand of a unary operator, the rest of the expression around the operator is passed
over. -/
lemma passesOperand_unary {op : Kind} {inner : Term} (h : inner.PassesOperand n)
    (hspelled : (unary op inner).spelled = true) : (unary op inner).PassesOperand (n + 1) := by
  rintro stack ps t r k ⟨hps, hs⟩ hrest hq hk
  have hover : (unary op inner).overflows (n + 1) = inner.overflows n := rfl
  rw [hover] at hrest ⊢
  simp only [spelled, Bool.and_eq_true] at hspelled
  simp only [tokens] at hps
  obtain ⟨p, xs, rfl, hp, hxs⟩ := List.map_eq_cons_iff.1 hps
  have hop := offers_operator stack (.inr hspelled.1.1) hp hs
  have hne : op ≠ .eof := by
    rintro rfl
    simp [UnaryOp.ofKind?] at hspelled
  have hrule : Passes Diagnostic.isOther (Midline stack (Piece.concat (p :: xs) ++ t)) (do
      advance .expr
      let _ ← operand n) (fun _ => True)
          (Midline stack (if inner.overflows n = true then r else t)) :=
    (Passes.advance hop hne).bind fun _ _ => (h ⟨hxs, hs.2.2.2⟩ hrest hq hk).bind fun _ _ =>
      .pure trivial
  rw [operand]
  refine Passes.peekKind hop.toFaces ?_
  rw [if_pos hspelled.1.1]
  exact (hrule.node .unaryExpr).bind fun _ _ => .pure rfl

/-! ### Arguments -/

/-- What a step over the arguments does in front of one. -/
lemma argStep_pass {a : Term} {k : Kind} {stack : IndentStack} {ps : List Piece} {r : Text}
    {A : ForInStep Unit → Prop} {q : Scanner → Prop} (h : a.PassesSpine n)
    (hspelled : a.spelled = true) (hw : a.Written ps r) (hq : Faces .expr k (Midline stack r))
    (hk : exprRecovery.contains k = true)
    (hrest : Passes Diagnostic.isOther (Midline stack r) argEnd A q) :
    Passes Diagnostic.isOther (Midline stack (Piece.concat ps ++ r))
      (argStep (Parser.expr n)) A q := by
  obtain ⟨first, hfirst, hmem⟩ := faces_first stack hspelled hw
  have hends : commandEnds.contains first = false :=
    KindSet.not_contains_of_disjoint (by decide) hmem
  have hparen : Kind.rightParen ≠ first := KindSet.ne_of_not_contains hmem (by decide)
  have hcomma : Kind.comma ≠ first := KindSet.ne_of_not_contains hmem (by decide)
  refine Passes.isAt hfirst (Passes.isAtAny hfirst ?_)
  rw [hends]
  simp only [hparen.symm, decide_false, Bool.or_self, Bool.false_eq_true, if_false]
  refine Passes.isAt hfirst ?_
  simp only [hcomma.symm, decide_false, Bool.false_eq_true, if_false]
  refine (h.expr hspelled hw hq hk).bind fun answer hanswer => ?_
  rw [if_neg (by rw [Option.isNone_eq_false_iff.2 hanswer]; simp)]
  exact hrest

/-- Each argument ends at the comma behind it, or at the closing parenthesis. -/
lemma args_pass {stack : IndentStack} {r : Text} (hq : Faces .expr .rightParen (Midline stack r)) :
    ∀ {args : List Term}, (∀ a ∈ args, a.PassesSpine n) → spelledAll args = true →
    ∀ {ps : List Piece}, ps.map (·.token) = argTokens args → Piece.Spaced ps r →
    Passes Diagnostic.isOther (Midline stack (Piece.concat ps ++ r))
      (loop (fun _ => argStep (Parser.expr n)) ()) (fun _ => True) (Midline stack r) := by
  intro args
  have hsettles := settles_climb (operand n) (rule_operand n).2 (BinaryOp.maxPrecedence + 1) 0
  induction args with
  | nil =>
    intro _ _ ps hps _
    obtain rfl := List.map_eq_nil_iff.1 hps
    exact Passes.loop_done (Passes.isAt hq (Passes.isAtAny hq (.pure rfl))) trivial
  | cons a as ih =>
    intro h hspelled ps hps hs
    simp only [spelledAll, Bool.and_eq_true] at hspelled
    simp only [argTokens] at hps
    obtain ⟨xs, ys, rfl, hxs, hys⟩ := List.map_eq_append_iff.1 hps
    obtain ⟨hsx, hsy⟩ := Piece.spaced_append.1 hs
    rw [Piece.concat_append, List.append_assoc]
    rcases as with _ | ⟨b, bs⟩
    · obtain rfl := List.map_eq_nil_iff.1 hys
      refine Passes.loop_done (y := ())
        (argStep_pass (h a (by simp)) hspelled.1 ⟨hxs, hsx⟩ hq (by decide) ?_) trivial
      refine (Passes.eat_other hq (by decide) (by decide)).bind ?_
      rintro _ rfl
      exact Passes.isAtAny hq (.pure rfl)
    · obtain ⟨p, zs, rfl, hp, hzs⟩ := List.map_eq_cons_iff.1 hys
      have hcomma := offers_single stack (k := .comma) (by decide) hp hsy
      have hstep : Passes Diagnostic.isOther
          (Midline stack (Piece.concat xs ++ (Piece.concat (p :: zs) ++ r)))
          (argStep (Parser.expr n)) (· = .yield ()) (Midline stack (Piece.concat zs ++ r)) := by
        refine argStep_pass (h a (by simp)) hspelled.1 ⟨hxs, hsx⟩ hcomma.toFaces (by decide) ?_
        refine (Passes.eat hcomma (by decide)).bind ?_
        rintro _ rfl
        exact .pure rfl
      have hmore := ih (fun c hc => h c (by simp [hc])) hspelled.2 hzs hsy.2.2.2
      rw [← bind_pure (loop _ _)] at hmore ⊢
      exact Passes.loop_yield (I := fun _ => Any) (fun _ _ hg => Rule.good _ hg)
        (advances_argStep (Parser.expr n) hsettles) (fun _ _ => trivial) hstep hmore

lemma passesOperand_call {name : Text} {args : List Term} (h : ∀ a ∈ args, a.PassesSpine n)
    (hspelled : (call name args).spelled = true) : (call name args).PassesOperand (n + 1) := by
  rintro stack ps t r k ⟨hps, hs⟩ - - -
  simp only [spelled, Bool.and_eq_true] at hspelled
  simp only [tokens] at hps
  obtain ⟨p, _, rfl, hp, hps⟩ := List.map_eq_cons_iff.1 hps
  obtain ⟨p', xs, p'', rfl, hp', hxs, hp''⟩ := Piece.eq_cons_concat hps
  have hword := offers_plainWord stack hspelled.1 hp hs
  obtain ⟨hopen, hclose, hsx⟩ := offers_parens stack hp' hp'' hs.2.2.2
  have hinner : Passes Diagnostic.isOther (Midline stack (Piece.concat (p' :: (xs ++ [p''])) ++ t))
      (advance .expr >>= fun _ => loop (fun _ => argStep (Parser.expr n)) () >>= fun _ =>
        expect .expr .rightParen "expected `)`" >>= fun _ => pure ()) (fun _ => True)
          (Midline stack t) := by
    refine (Passes.advance hopen (by decide)).bind fun _ _ => ?_
    refine (args_pass hclose.toFaces h hspelled.2 hxs hsx).bind fun _ _ => ?_
    exact (Passes.expect hclose (by decide) _).bind fun _ _ => .pure trivial
  have hargs : Passes Diagnostic.isOther (Midline stack (Piece.concat (p' :: (xs ++ [p''])) ++ t))
      (argList (Parser.expr n)) (fun _ => True) (Midline stack t) := by
    unfold argList
    exact hinner.node .argList
  have hhead := wordHead_course hword hopen.toFaces
  rw [headOf, if_pos (.inl rfl)] at hhead
  have hrule : Passes Diagnostic.isOther
      (Midline stack (Piece.concat (p :: p' :: (xs ++ [p''])) ++ t))
      (wordExpr (Parser.expr n)) (fun _ => True) (Midline stack t) := by
    refine (Passes.of_course (A := (· = .name)) hhead.mute rfl).bind ?_
    rintro _ rfl
    refine Passes.isAt hopen.toFaces ?_
    exact (hargs.nodeAround .callExpr).bind fun _ _ => .pure trivial
  exact operand_pass hword.toFaces rfl (hrule.bind fun _ _ => .pure rfl)

/-! ### Operators -/

lemma PassesOperand.spine {e : Term} (h : e.PassesOperand n) : e.PassesSpine n := by
  intro stack ps t r k tiers floor hw hrest hq hk hl ht q hnext
  rw [climb]
  refine (h hw hrest hq hk.operand).bind fun answer hanswer => ?_
  obtain ⟨first, rfl⟩ := Option.isSome_iff_exists.1 hanswer
  exact hnext first

/-- A binary term is read by the loop that has read its left operand. If that was passed over, so
were the operator and the right operand. -/
lemma passesSpine_binary {op : Kind} {lhs rhs : Term} (hlhs : lhs.PassesSpine n)
    (hcross : lhs.overflows n = true → rhs.Crossable)
    (hrhs : lhs.overflows n = false → rhs.PassesSpine n)
    (hspelled : (binary op lhs rhs).spelled = true) : (binary op lhs rhs).PassesSpine n := by
  intro stack ps t r k tiers floor hw hrest hq hk hl ht q hnext
  rw [overflows_binary] at hrest hnext
  simp only [spelled, Bool.and_eq_true, Option.any_eq_true, decide_eq_true_eq] at hspelled
  obtain ⟨⟨⟨o, ho, hleft, hright⟩, -⟩, -⟩ := hspelled
  have hlevel : (binary op lhs rhs).level = o.precedence := by simp [level, ho]
  have hsome : (BinaryOp.ofKind? op).isSome = true := by simp [ho]
  rw [hlevel] at hl hk
  -- the pieces of the two operands and of the operator between them
  obtain ⟨hps, hs⟩ := hw
  simp only [tokens] at hps
  obtain ⟨ls, qs, rfl, hls, hqs⟩ := List.map_eq_append_iff.1 hps
  obtain ⟨p, rs, rfl, hp, hrs⟩ := List.map_eq_cons_iff.1 hqs
  obtain ⟨hsl, hsr⟩ := Piece.spaced_append.1 hs
  have hop := offers_operator stack (.inl hsome) hp hsr
  have hends : Ends lhs.level op := .of_binary ho hleft
  have := o.precedence_le
  rcases tiers with _ | tiers
  · simp only [BinaryOp.maxPrecedence] at this
    omega
  rw [Piece.concat_append, List.append_assoc]
  cases hover : lhs.overflows n
  · -- the left operand is read up to the operator
    rw [hover, Bool.false_or] at hrest hnext
    refine hlhs ⟨hls, hsl⟩ (r := r) (fun h => absurd (hover.symm.trans h) Bool.false_ne_true)
      hop.toFaces hends (by omega) ht fun first => ?_
    rw [hover, if_neg Bool.false_ne_true]
    have hoperand := (hrhs hover).whole tiers ⟨hrs, hsr.2.2.2⟩ hrest hq hk hright (by omega)
    exact operators_passOne first ho hl hop hoperand (hnext .binaryExpr)
  · -- the rest is passed over with the left operand
    rw [hover, Bool.true_or, if_pos rfl] at hnext
    have hcloses := hrest (by rw [hover, Bool.true_or])
    have hrest' : Rest stack (Piece.concat (p :: rs) ++ t) r :=
      ⟨crosses_operator stack (.inl hsome) hp hsr
        ((hcross hover ⟨hrs, hsr.2.2.2⟩ 0).trans hcloses.crosses), hcloses.closes⟩
    refine hlhs ⟨hls, hsl⟩ (fun _ => hrest') hop.toFaces hends (by omega) ht fun first => ?_
    rw [hover, if_pos rfl]
    exact hnext first

end

/-! ### All terms -/

/-- A term is read or passed over, as an operand unless it is a binary one. -/
structure PassesOver (n : Nat) (e : Term) : Prop where
  operand : e.isBinary = false → e.PassesOperand n
  spine : e.PassesSpine n

/-- For an operand it is left to show what happens if a level is left for it. -/
lemma PassesOver.of_operand {e : Term} {n : Nat} (hspelled : e.spelled = true)
    (hclean : e.cutsCleanly n = true) (h : ∀ m, n = m + 1 → e.PassesOperand (m + 1)) :
    e.PassesOver n := by
  have hoperand : e.PassesOperand n := by
    rcases n with _ | m
    · rw [cutsCleanly_zero] at hclean
      exact passesOperand_zero (crossable e hspelled hclean) hspelled
    · exact h m rfl
  exact ⟨fun _ => hoperand, hoperand.spine⟩

mutual

/-- **Every term is read or passed over**, however deep it is nested, unless there is a comma in
what is passed over. -/
lemma passes : ∀ (e : Term) (n : Nat), e.spelled = true → e.cutsCleanly n = true → e.PassesOver n
  | number _ _, _, h, hc => .of_operand h hc fun _ _ => passesOperand_flat h rfl rfl
  | string _, _, h, hc => .of_operand h hc fun _ _ => passesOperand_string h
  | var _, _, h, hc => .of_operand h hc fun _ _ => passesOperand_flat h rfl rfl
  | ident _, _, h, hc => .of_operand h hc fun _ _ => passesOperand_flat h rfl rfl
  | truth _, _, h, hc => .of_operand h hc fun _ _ => passesOperand_flat h rfl rfl
  | null, _, h, hc => .of_operand h hc fun _ _ => passesOperand_flat h rfl rfl
  | member _ _, _, h, hc => .of_operand h hc fun _ _ => passesOperand_flat h rfl rfl
  | call name args, n, h, hc => by
    refine .of_operand h hc fun m hm => passesOperand_call (fun a ha => ?_) h
    subst hm
    simp only [spelled, Bool.and_eq_true] at h
    exact (passesAll args m h.2 hc a ha).spine
  | paren inner, n, h, hc => by
    refine .of_operand h hc fun m hm => passesOperand_paren ?_ h
    subst hm
    exact (passes inner m h hc).spine
  | unary op inner, n, h, hc => by
    refine .of_operand h hc fun m hm => passesOperand_unary ?_ h
    subst hm
    simp only [spelled, Bool.and_eq_true, Bool.not_eq_true'] at h
    exact (passes inner m h.2 hc).operand h.1.2
  | binary op lhs rhs, n, h, hc => by
    have hspelled := h
    simp only [spelled, Bool.and_eq_true] at hspelled
    obtain ⟨hl, hcross, hr⟩ := cutsCleanly_binary hc
    exact ⟨nofun, passesSpine_binary (passes lhs n hspelled.1.2 hl).spine
      (fun hover => crossable rhs hspelled.2 (hcross hover))
      (fun hover => (passes rhs n hspelled.2 (hr hover)).spine) h⟩

lemma passesAll : ∀ (es : List Term) (n : Nat), spelledAll es = true → cutCleanlyAll n es = true →
    ∀ e ∈ es, e.PassesOver n
  | [], _, _, _ => by simp
  | a :: as, n, h, hc => by
    simp only [spelledAll, Bool.and_eq_true] at h
    simp only [cutCleanlyAll, Bool.and_eq_true] at hc
    intro e he
    rcases List.mem_cons.1 he with hea | he
    · rw [hea]
      exact passes a n h.1 hc.1
    · exact passesAll as n h.2 hc.2 e he

end

end Term

end DialogueScript

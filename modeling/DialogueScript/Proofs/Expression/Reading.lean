import DialogueScript.Proofs.Ast
import DialogueScript.Proofs.Expression.Tokens

/-!
Reading a term that is written out gives back its value. Operands are read by the levels of nesting
that they need, and a chain of binary operators by climbing: the operators of the left spine are all
taken by one loop, each with an operand on its right that binds more tightly.
-/

namespace DialogueScript

open DialogueScript.Parser DialogueScript.Scanner

lemma Decimal.ofText?_numberText {whole : Text} {fraction : Option Text}
    (hw : isDigits whole = true) (hf : fraction.all isDigits = true) :
    ofText? (Lexeme.numberText whole fraction) =
      some ⟨digitsValue (whole ++ fraction.getD []), (fraction.getD []).length⟩ := by
  simp only [isDigits, Bool.and_eq_true] at hw
  have hdigits : whole.all (fun c => c.isDigit || c = '.') = true := by
    refine List.all_eq_true.2 fun c hc => ?_
    simp [List.all_eq_true.1 hw.2 c hc]
  rcases fraction with _ | f
  · have htake : whole.takeWhile Char.isDigit = whole := by
      simpa using Text.takeWhile_append (t := []) hw.2 (by simp)
    simp only [Lexeme.numberText, ofText?, htake]
    simp [hw.1, hdigits]
  · simp only [Option.all_some, isDigits, Bool.and_eq_true] at hf
    have htake : (whole ++ '.' :: f).takeWhile Char.isDigit = whole := by
      refine Text.takeWhile_append hw.2 ?_
      rintro c ⟨⟩
      decide
    have hfraction : f.all (fun c => c.isDigit || c = '.') = true := by
      refine List.all_eq_true.2 fun c hc => ?_
      simp [List.all_eq_true.1 hf.2 c hc]
    simp only [Lexeme.numberText, ofText?, htake, List.drop_left, List.drop_one, List.tail_cons,
      List.all_append, List.all_cons, hdigits, hfraction, hf.2, hw.1]
    simp

/-- Without a backslash there is nothing to resolve. -/
lemma unescape_of_plain {t : Text} (h : t.all Lexeme.isStringPart = true) : unescape t = t := by
  induction t with
  | nil => rfl
  | cons c cs ih =>
    simp only [List.all_cons, Bool.and_eq_true] at h
    have hc : c ≠ '\\' := by
      rintro rfl
      simp [Lexeme.isStringPart] at h
    rcases cs with _ | ⟨d, ds⟩
    · simp [unescape, hc]
    · rw [unescape, if_neg hc, ih h.2]

lemma stringValue?_stringText {contents : Text} (h : contents.all Lexeme.isStringPart = true) :
    stringValue? (Lexeme.stringText contents) = some contents := by
  simp [Lexeme.stringText, stringValue?, unescape_of_plain h]

namespace Term

/-- The kind of the node that a term becomes. -/
def kind : Term → Kind
  | number .. => .numberExpr
  | string _ => .stringExpr
  | var _ => .variableExpr
  | ident _ => .identExpr
  | truth _ => .boolExpr
  | null => .nullExpr
  | member .. => .memberExpr
  | call .. => .callExpr
  | paren _ => .parenExpr
  | unary .. => .unaryExpr
  | binary .. => .binaryExpr

/-- A single tree that stands for the term. -/
def Means (e : Term) (ts : List Tree) : Prop := ∃ t, ts = [t] ∧ Expr.ofTree? t = some e.value

/-- The term is written as some pieces in front of `r`. -/
structure Written (e : Term) (ps : List Piece) (r : Text) : Prop where
  tokens : ps.map (·.token) = e.tokens
  spaced : Piece.Spaced ps r

/-- A token of kind `k` ends an expression whose operators bind more tightly than `floor`. -/
structure Ends (floor : Nat) (k : Kind) : Prop where
  operand : k ≠ .leftParen ∧ k ≠ .dot
  operator : ∀ op, BinaryOp.ofKind? k = some op → op.precedence ≤ floor

/-- What ends a damaged expression ends any expression. -/
lemma Ends.of_recovery {k : Kind} (h : exprRecovery.contains k = true) (floor : Nat) :
    Ends floor k := by
  refine ⟨⟨?_, ?_⟩, fun op hop => ?_⟩
  · rintro rfl
    exact absurd h (by decide)
  · rintro rfl
    exact absurd h (by decide)
  · simp [not_recovery_of_binary hop] at h

/-- An operator ends the operand in front of it. -/
lemma Ends.of_binary {k : Kind} {op : BinaryOp} {floor : Nat} (h : BinaryOp.ofKind? k = some op)
    (hfloor : op.precedence ≤ floor) : Ends floor k := by
  refine ⟨⟨?_, ?_⟩, fun op' hop' => ?_⟩
  · rintro rfl
    simp [BinaryOp.ofKind?] at h
  · rintro rfl
    simp [BinaryOp.ofKind?] at h
  · obtain rfl : op = op' := by simpa [h] using hop'
    exact hfloor

/-- A term that is no binary one can be read as an operand. -/
def ReadsOperand (e : Term) : Prop :=
  ∀ ⦃levels stack ps r k⦄, e.depth < levels → e.Written ps r → Faces .expr k (Midline stack r) →
    k ≠ .leftParen ∧ k ≠ .dot →
    Course (Midline stack (Piece.concat ps ++ r)) [] (operand levels) (some e.kind) e.Means
      (Midline stack r)

/-- A term is what an expression starts with, if all operators of its left spine are taken and those
behind it bind no more tightly than its own. -/
def ReadsSpine (e : Term) : Prop :=
  ∀ ⦃levels stack ps r k tiers floor⦄, e.depth < levels → e.Written ps r →
    Faces .expr k (Midline stack r) → Ends e.level k → floor < e.level → 7 ≤ tiers + 1 + floor →
    ∀ ⦃answer V q⦄, (∀ t, Expr.ofTree? t = some e.value →
      Course (Midline stack r) [t] (operators (climb (operand levels) tiers) floor e.kind)
        answer V q) →
    Course (Midline stack (Piece.concat ps ++ r)) []
      (climb (operand levels) (tiers + 1) floor) answer V q

/-! ### Whole expressions -/

lemma operators_end {levels tiers floor : Nat} {k first : Kind} {q : Scanner → Prop} {t : Tree}
    (hq : Faces .expr k q) (hk : ∀ op, BinaryOp.ofKind? k = some op → op.precedence ≤ floor) :
    Course q [t] (operators (climb (operand levels) tiers) floor first) (some first)
      (· = [t]) q := by
  have hstep : Course q [t] (operatorStep (climb (operand levels) tiers) floor first)
      (.done first) (· = [t]) q := by
    refine Course.peekKind hq ?_
    split
    · exact .pure rfl
    · next op hop =>
      rw [if_pos (hk op hop)]
      exact .pure rfl
  exact hstep.loop_done.bind fun _ hts => .pure hts

lemma ReadsSpine.whole {e : Term} (h : e.ReadsSpine) (levels tiers : Nat) {floor : Nat}
    {stack : IndentStack} {ps : List Piece} {r : Text} {k : Kind} (hd : e.depth < levels)
    (hw : e.Written ps r) (hq : Faces .expr k (Midline stack r)) (hk : Ends floor k)
    (hl : floor < e.level) (ht : 7 ≤ tiers + 1 + floor) :
    Course (Midline stack (Piece.concat ps ++ r)) [] (climb (operand levels) (tiers + 1) floor)
      (some e.kind) e.Means (Midline stack r) := by
  refine h hd hw hq ⟨hk.operand, fun op hop => (hk.operator op hop).trans hl.le⟩ hl ht ?_
  intro t hvalue
  refine (operators_end hq hk.operator).mono ?_
  rintro _ rfl
  exact ⟨t, rfl, hvalue⟩

lemma ReadsOperand.spine {e : Term} (h : e.ReadsOperand) : e.ReadsSpine := by
  intro levels stack ps r k tiers floor hd hw hq hk hl ht answer V q hrest
  rw [climb]
  refine (h hd hw hq hk.operand).bind ?_
  rintro _ ⟨t, rfl, hvalue⟩
  exact hrest t hvalue

/-- A tight operator joins the tree before it to the operand behind it. -/
lemma operators_join {levels tiers floor : Nat} {op : BinaryOp} {k first : Kind} {w : Text}
    {q q' q'' q₃ : Scanner → Prop} {t : Tree} {rhs : Term} {answer : Option Kind}
    {V : List Tree → Prop} (hop : BinaryOp.ofKind? k = some op) (hl : floor < op.precedence)
    (hq : Offers .expr k w q q')
    (hrhs : Course q' [] (climb (operand levels) tiers op.precedence) (some rhs.kind) rhs.Means q'')
    (hrest : ∀ token u, token.kind = k → token.text = w → Expr.ofTree? u = some rhs.value →
      Course q'' [.node .binaryExpr [t, .leaf token, u]]
        (operators (climb (operand levels) tiers) floor .binaryExpr) answer V q₃) :
    Course q [t] (operators (climb (operand levels) tiers) floor first) answer V q₃ := by
  have hne : k ≠ .eof := by
    rintro rfl
    simp [BinaryOp.ofKind?] at hop
  have hrule := fun floor => rule_climb (operand levels) tiers floor
  have := rule_operatorStep (operand levels) hrule floor
  have hstep : Course q [t] (operatorStep (climb (operand levels) tiers) floor first)
      (.yield .binaryExpr)
      (fun ts => ∃ token u, token.kind = k ∧ token.text = w ∧ Expr.ofTree? u = some rhs.value ∧
        ts = [.node .binaryExpr [t, .leaf token, u]]) q'' := by
    refine Course.peekKind hq.toFaces ?_
    rw [hop]
    simp only [not_le.2 hl, if_false]
    have hinner : Course q [t] (advance .expr >>= fun _ =>
        climb (operand levels) tiers op.precedence >>= fun _ => pure ()) ()
        (fun ts => ∃ token u, token.kind = k ∧ token.text = w ∧ Expr.ofTree? u = some rhs.value ∧
          ts = [t, .leaf token, u]) q'' := by
      refine (Course.advance hq hne).bind ?_
      rintro _ ⟨token, h1, h2, rfl⟩
      refine hrhs.step ?_
      rintro _ ⟨u, rfl, hu⟩
      exact .pure ⟨token, u, h1, h2, hu, rfl⟩
    refine (Course.nodeAround .binaryExpr hinner).bind ?_
    rintro _ ⟨_, ⟨token, u, h1, h2, h3, rfl⟩, rfl⟩
    exact .pure ⟨token, u, h1, h2, h3, rfl⟩
  refine Course.loop_yield_bind (I := fun _ => Any)
    (fun _ _ hg => Rule.good _ hg)
    (advances_operatorStep (operand levels) hrule floor) (fun _ _ => trivial) hstep ?_
  rintro _ ⟨token, u, h1, h2, h3, rfl⟩
  exact hrest token u h1 h2 h3

lemma ofTree?_binary {op : Kind} {o : BinaryOp} {lhs rhs : Term} {t u : Tree} {token : Token}
    (ho : BinaryOp.ofKind? op = some o) (ht : Expr.ofTree? t = some lhs.value)
    (hu : Expr.ofTree? u = some rhs.value) (hkind : token.kind = op)
    (htext : token.text = op.chars) :
    Expr.ofTree? (.node .binaryExpr [t, .leaf token, u]) = some (binary op lhs rhs).value := by
  have hall : Expr.ofAll [t, .leaf token, u] = [lhs.value, rhs.value] := by
    simp [Expr.ofAll_cons, ht, hu]
  have hop : Expr.operatorAmong? [t, .leaf token, u] = some token := by
    rcases t with _ | ⟨j, ts⟩
    · simp at ht
    simp [Expr.operatorAmong?, tokensAmong, hkind, ho]
  rw [Expr.ofTree?]
  simp [hall, hop, value, hkind, htext, ho]

/-- A binary term is read by the loop that has read its left operand. -/
lemma readsSpine_binary {op : Kind} {lhs rhs : Term} (hlhs : lhs.ReadsSpine) (hrhs : rhs.ReadsSpine)
    (hwell : (binary op lhs rhs).wellFormed = true) : (binary op lhs rhs).ReadsSpine := by
  intro levels stack ps r k tiers floor hd hw hq hk hl ht answer V q hrest
  simp only [wellFormed, Bool.and_eq_true, Option.any_eq_true, decide_eq_true_eq] at hwell
  obtain ⟨⟨⟨o, ho, hleft, hright⟩, -⟩, -⟩ := hwell
  have hlevel : (binary op lhs rhs).level = o.precedence := by simp [level, ho]
  rw [hlevel] at hl hk
  simp only [depth] at hd
  -- the pieces of the two operands and of the operator between them
  obtain ⟨htokens, hspaced⟩ := hw
  simp only [tokens] at htokens
  obtain ⟨ls, qs, rfl, hls, hqs⟩ := List.map_eq_append_iff.1 htokens
  obtain ⟨p, rs, rfl, hp, hrs⟩ := List.map_eq_cons_iff.1 hqs
  obtain ⟨hsl, hb, hu, hparted, hsr⟩ := Piece.spaced_append.1 hspaced
  have hface : Facing .expr op p.token p.blanks (Piece.concat rs ++ r) := by
    rw [hp] at hparted ⊢
    exact Piece.facing_operator (.inl (by simp [ho])) hb hparted hu
  have hop : Offers .expr op p.token (Midline stack (Piece.concat (p :: rs) ++ r))
      (Midline stack (Piece.concat rs ++ r)) := by
    rw [Piece.concat_cons_append]
    exact Midline.offers hface (by rintro rfl; simp [BinaryOp.ofKind?] at ho)
  rw [Piece.concat_append, List.append_assoc]
  refine hlhs (by omega) ⟨hls, hsl⟩ hop.toFaces (.of_binary ho hleft) (by omega) ht ?_
  intro t hvalue
  have := o.precedence_le
  rcases tiers with _ | tiers
  · simp only [BinaryOp.maxPrecedence] at this
    omega
  have hright := hrhs.whole levels tiers (by omega) ⟨hrs, hsr⟩ hq hk hright (by omega)
  refine operators_join ho hl hop hright ?_
  intro token u hkind htext hu
  exact hrest _ (ofTree?_binary ho hvalue hu hkind (htext.trans hp))

/-! ### Operands -/

section
variable {q q' : Scanner → Prop} {k : Kind} {w : Text} {levels : Nat}

lemma operand_primary {answer : Option Kind} {V : List Tree → Prop} (hq : Faces .expr k q)
    (hk : UnaryOp.ofKind? k = none)
    (h : Course q [] (primaryAt (expr levels) k) answer V q') :
    Course q [] (operand (levels + 1)) answer V q' := by
  rw [operand]
  refine Course.peekKind hq ?_
  rw [hk]
  exact Course.peekKind hq h

lemma literal (h : Offers .expr k w q q') (hk : k ≠ .eof) (kind : Kind) :
    Course q [] (literalExpr kind) (some kind)
      (fun ts => ∃ token : Token, token.kind = k ∧ token.text = w ∧ ts = [.node kind [.leaf token]])
      q' := by
  refine ((Course.advance h hk).node kind).bind ?_
  rintro _ ⟨_, ⟨token, h1, h2, rfl⟩, rfl⟩
  exact .pure ⟨token, h1, h2, rfl⟩

end

/-- A term that is a single token. -/
lemma readsOperand_literal {e : Term} {k : Kind} {w : Text} (htokens : e.tokens = [w])
    (hface : ∀ b r, b.all isBlank = true → Piece.Parted w (b ++ r) → Text.Unspaced r →
      Facing .expr k w b r)
    (hk : UnaryOp.ofKind? k = none ∧ k ≠ .newline ∧ k ≠ .eof)
    (hrule : ∀ expr, primaryAt expr k = literalExpr e.kind)
    (hvalue : ∀ token : Token, token.kind = k → token.text = w →
      Expr.ofTree? (.node e.kind [.leaf token]) = some e.value) : e.ReadsOperand := by
  rintro (_ | levels) stack ps r _ hd ⟨hps, hspaced⟩ - -
  · omega
  rw [htokens] at hps
  obtain ⟨p, _, rfl, rfl, hnil⟩ := List.map_eq_cons_iff.1 hps
  obtain rfl := List.map_eq_nil_iff.1 hnil
  obtain ⟨hb, hu, hparted, -⟩ := hspaced
  rw [Piece.concat_cons_append]
  have hop : Offers .expr k p.token (Midline stack (p.token ++ p.blanks ++ (Piece.concat [] ++ r)))
      (Midline stack (Piece.concat [] ++ r)) := Midline.offers (hface _ _ hb hparted hu) hk.2.1
  refine operand_primary hop.toFaces hk.1 ?_
  rw [hrule]
  refine (literal hop hk.2.2 e.kind).mono ?_
  rintro _ ⟨token, h1, h2, rfl⟩
  exact ⟨_, rfl, hvalue token h1 h2⟩

lemma head_numberText {whole : Text} {fraction : Option Text} (h : isDigits whole = true) :
    (Lexeme.numberText whole fraction).head?.any Char.isDigit = true := by
  obtain ⟨c, cs, hcs, hc⟩ := Lexeme.head_numberText h fraction
  simp [hcs, hc]

lemma readsOperand_number {whole : Text} {fraction : Option Text}
    (h : (number whole fraction).wellFormed = true) : (number whole fraction).ReadsOperand := by
  simp only [wellFormed, Bool.and_eq_true] at h
  refine readsOperand_literal (k := .number) rfl (fun _ _ hb ht hu =>
    Piece.facing_number h.1 h.2 hb (ht.number (head_numberText h.1)) hu) (by decide) (fun _ => rfl)
    fun token hk hw => ?_
  have hdecimal := Decimal.ofText?_numberText h.1 h.2
  rw [kind, Expr.ofTree?]
  simp [tokenTextAmong?, tokenAmong?, hk, hw, hdecimal, value]

lemma readsOperand_string {contents : Text} (h : (string contents).wellFormed = true) :
    (string contents).ReadsOperand := by
  have hbody := Lexeme.isStringBody_of_all h
  refine readsOperand_literal (k := .string) rfl
    (fun _ _ hb _ hu => Piece.facing_string hbody hb hu)
    (by decide) (fun _ => rfl) fun token hk hw => ?_
  have hvalue := stringValue?_stringText h
  rw [kind, Expr.ofTree?]
  simp [tokenTextAmong?, tokenAmong?, hk, hw, hvalue, value]

lemma readsOperand_truth (b : Bool) : (truth b).ReadsOperand := by
  have hkey : (if b then Kind.trueKw else .falseKw) ∈ exprKeywords := by cases b <;> decide
  refine readsOperand_literal (k := if b then .trueKw else .falseKw) ?_
    (fun _ _ hb ht hu => Piece.facing_keyword hkey hb (ht.word (Piece.keyword_spelling hkey).1) hu)
    (by cases b <;> decide) (fun _ => by cases b <;> rfl) fun token hk hw => ?_
  · cases b <;> rfl
  · rw [kind, Expr.ofTree?]
    cases b <;> simp [Expr.boolAmong?, tokensAmong, value] at hk ⊢ <;> simp [hk]

lemma readsOperand_null : null.ReadsOperand := by
  refine readsOperand_literal (k := .nullKw) rfl (fun _ _ hb ht hu =>
    Piece.facing_keyword (by decide) hb (ht.word (by decide)) hu) (by decide) (fun _ => rfl)
    fun token hk hw => ?_
  rw [kind, Expr.ofTree?]
  simp [tokenTextAmong?, tokenAmong?, hk, hw, value, Kind.chars]
  decide

/-! ### Names -/

section
variable {q q' q'' : Scanner → Prop} {w v : Text}

lemma variableExpr_course (hdollar : Offers .expr .dollar v q q')
    (hname : Offers .name .ident w q' q'') :
    Course q [] variableExpr () (fun ts => ∃ t t' : Token, t.kind = .dollar ∧ t'.kind = .ident ∧
      t'.text = w ∧ ts = [.node .variableExpr [.leaf t, .leaf t']]) q'' := by
  refine (Course.node (V := fun ts => ∃ t t' : Token, t.kind = .dollar ∧ t'.kind = .ident ∧
    t'.text = w ∧ ts = [.leaf t, .leaf t']) .variableExpr ?_).mono ?_
  · refine (Course.advance hdollar (by simp)).bind ?_
    rintro _ ⟨t, h1, -, rfl⟩
    refine (Course.expect hname (by simp) _).bind ?_
    rintro _ ⟨t', h3, h4, rfl⟩
    exact .pure ⟨t, t', h1, h3, h4, rfl⟩
  · rintro _ ⟨_, ⟨t, t', h1, h2, h3, rfl⟩, rfl⟩
    exact ⟨t, t', h1, h2, h3, rfl⟩

lemma name_course (h : Offers .name .ident w q q') (recovery : KindSet) :
    Course q [] (name recovery) () (fun ts => ∃ t : Token, t.kind = .ident ∧ t.text = w ∧
      ts = [.node .name [.leaf t]]) q' := by
  refine Course.isAt h.toFaces ?_
  refine ((Course.advance h (by simp)).node .name).mono ?_
  rintro _ ⟨_, ⟨t, h1, h2, rfl⟩, rfl⟩
  exact ⟨t, h1, h2, rfl⟩

lemma memberName_course (hdot : Offers .expr .dot v q q') (hname : Offers .name .ident w q' q'') :
    Course q [] memberName () (fun ts => ∃ t t' : Token, t.kind = .dot ∧ t'.kind = .ident ∧
      t'.text = w ∧ ts = [.leaf t, .node .name [.leaf t']]) q'' := by
  refine (Course.advance hdot (by simp)).bind ?_
  rintro _ ⟨t, h1, -, rfl⟩
  refine (name_course hname exprRecovery).frame.mono ?_
  rintro _ ⟨_, ⟨t', h2, h3, rfl⟩, rfl⟩
  exact ⟨t, t', h1, h2, h3, rfl⟩

/-- The kind of the node around a word, by the token behind it. -/
def headOf (k : Kind) : Kind := if k = .leftParen ∨ k = .dot then .name else .identExpr

lemma wordHead_course {k : Kind} (h : Offers .expr .ident w q q') (hq : Faces .expr k q') :
    Course q [] (nodeOf wordKind) (headOf k)
      (fun ts => ∃ t : Token, t.kind = .ident ∧ t.text = w ∧ ts = [.node (headOf k) [.leaf t]])
        q' := by
  have hrule : Course q [] wordKind (headOf k) (Leaf [] .ident w) q' := by
    refine (Course.advance h (by simp)).bind fun ts hts => Course.peekKind hq ?_
    split
    · exact .pure hts
    · exact .pure hts
    · next h1 h2 =>
      have hk : headOf k = .identExpr := if_neg (by rintro (h | h); exacts [h1 h, h2 h])
      rw [hk]
      exact .pure hts
  refine hrule.nodeOf.mono ?_
  rintro _ ⟨_, ⟨t, h1, h2, rfl⟩, rfl⟩
  exact ⟨t, h1, h2, rfl⟩

end

section
variable (stack : IndentStack) {p : Piece} {ps : List Piece} {r : Text}

lemma facing_plainWord {word b t : Text} (h : isPlainWord word = true) (hb : b.all isBlank = true)
    (ht : Piece.Parted word (b ++ t)) (hu : Text.Unspaced t) : Facing .expr .ident word b t := by
  simp only [isPlainWord, Bool.and_eq_true, Option.isNone_iff_eq_none] at h
  exact Piece.facing_word h.1 (by rw [h.2]; rfl) hb (ht.word h.1) hu

lemma offers_plainWord {word : Text} (h : isPlainWord word = true) (hp : p.token = word)
    (hs : Piece.Spaced (p :: ps) r) : Offers .expr .ident word
      (Midline stack (Piece.concat (p :: ps) ++ r)) (Midline stack (Piece.concat ps ++ r)) := by
  obtain ⟨hb, hu, ht, -⟩ := hs
  subst hp
  rw [Piece.concat_cons_append]
  exact Midline.offers (facing_plainWord h hb ht hu) (by decide)

lemma offers_name {word : Text} (h : isWord word = true) (hp : p.token = word)
    (hs : Piece.Spaced (p :: ps) r) : Offers .name .ident word
      (Midline stack (Piece.concat (p :: ps) ++ r)) (Midline stack (Piece.concat ps ++ r)) := by
  obtain ⟨hb, hu, ht, -⟩ := hs
  subst hp
  rw [Piece.concat_cons_append]
  exact Midline.offers (Piece.facing_name h hb (ht.word h) hu) (by decide)

lemma offers_single {k : Kind} (hk : k ∈ [Kind.leftParen, .rightParen, .comma, .dot, .dollar])
    (hp : p.token = k.chars) (hs : Piece.Spaced (p :: ps) r) : Offers .expr k k.chars
      (Midline stack (Piece.concat (p :: ps) ++ r)) (Midline stack (Piece.concat ps ++ r)) := by
  obtain ⟨hb, hu, -, -⟩ := hs
  rw [Piece.concat_cons_append, hp]
  refine Midline.offers (Piece.facing_single (.inl rfl) hk hb hu) ?_
  rintro rfl
  simp at hk

/-- Two parentheses, and what stands between them. -/
lemma offers_parens {xs : List Piece} {p' : Piece} (hp : p.token = Kind.leftParen.chars)
    (hp' : p'.token = Kind.rightParen.chars) (hs : Piece.Spaced (p :: (xs ++ [p'])) r) :
    Offers .expr .leftParen Kind.leftParen.chars
      (Midline stack (Piece.concat (p :: (xs ++ [p'])) ++ r))
      (Midline stack (Piece.concat xs ++ (Piece.concat [p'] ++ r))) ∧
    Offers .expr .rightParen Kind.rightParen.chars (Midline stack (Piece.concat [p'] ++ r))
      (Midline stack r) ∧
    Piece.Spaced xs (Piece.concat [p'] ++ r) := by
  obtain ⟨hinner, hlast⟩ := Piece.spaced_append.1 hs.2.2.2
  have hopen := offers_single stack (k := .leftParen) (by decide) hp hs
  rw [Piece.concat_append, List.append_assoc] at hopen
  exact ⟨hopen, offers_single stack (k := .rightParen) (by decide) hp' hlast, hinner⟩

end

lemma readsOperand_var {name : Text} (h : (var name).wellFormed = true) :
    (var name).ReadsOperand := by
  rintro (_ | levels) stack ps r _ hd ⟨hps, hspaced⟩ - -
  · omega
  obtain ⟨p, _, rfl, hp, hps⟩ := List.map_eq_cons_iff.1 hps
  obtain ⟨p', _, rfl, hp', hnil⟩ := List.map_eq_cons_iff.1 hps
  obtain rfl := List.map_eq_nil_iff.1 hnil
  have hdollar := offers_single stack (k := .dollar) (by decide) hp hspaced
  have hname := offers_name stack h hp' hspaced.2.2.2
  refine operand_primary hdollar.toFaces rfl ((variableExpr_course hdollar hname).bind ?_)
  rintro _ ⟨t, t', h1, h2, h3, rfl⟩
  refine .pure ⟨_, rfl, ?_⟩
  rw [Expr.ofTree?]
  simp [tokenTextAmong?, tokenAmong?, h1, h2, h3, value]

lemma readsOperand_ident {name : Text} (h : (ident name).wellFormed = true) :
    (ident name).ReadsOperand := by
  rintro (_ | levels) stack ps r k hd ⟨hps, hspaced⟩ hq hk
  · omega
  obtain ⟨p, _, rfl, rfl, hnil⟩ := List.map_eq_cons_iff.1 hps
  obtain rfl := List.map_eq_nil_iff.1 hnil
  have hword := offers_plainWord stack h rfl hspaced
  have hhead := wordHead_course hword hq
  rw [headOf, if_neg (by tauto)] at hhead
  have hrule : Course (Midline stack (Piece.concat [p] ++ r)) [] (wordExpr (expr levels)) .identExpr
      (ident p.token).Means (Midline stack r) := by
    refine hhead.bind ?_
    rintro _ ⟨t, h1, h2, rfl⟩
    refine .pure ⟨_, rfl, ?_⟩
    rw [Expr.ofTree?]
    simp [tokenTextAmong?, tokenAmong?, h1, h2, value]
  exact operand_primary hword.toFaces rfl (hrule.bind fun _ hts => .pure hts)

lemma readsOperand_member {type : Option Text} {name : Text}
    (h : (member type name).wellFormed = true) : (member type name).ReadsOperand := by
  rintro (_ | levels) stack ps r k hd ⟨hps, hspaced⟩ hq hk
  · omega
  simp only [wellFormed, Bool.and_eq_true] at h
  rcases type with _ | type
  · obtain ⟨p, _, rfl, hp, hps⟩ := List.map_eq_cons_iff.1 hps
    obtain ⟨p', _, rfl, hp', hnil⟩ := List.map_eq_cons_iff.1 hps
    obtain rfl := List.map_eq_nil_iff.1 hnil
    have hdot := offers_single stack (k := .dot) (by decide) hp hspaced
    have hname := offers_name stack h.2 hp' hspaced.2.2.2
    refine operand_primary hdot.toFaces rfl
      (((memberName_course hdot hname).node .memberExpr).bind ?_)
    rintro _ ⟨_, ⟨t, t', h1, h2, h3, rfl⟩, rfl⟩
    refine .pure ⟨_, rfl, ?_⟩
    rw [Expr.ofTree?]
    simp [Expr.beforeDot, Expr.afterDot, hasToken, nameAmong?, nodeAmong?, nodesAmong, Tree.kind,
      tokenTextAmong?, tokenAmong?, h1, h2, h3, value]
  · obtain ⟨p₀, _, rfl, hp₀, hps⟩ := List.map_eq_cons_iff.1 hps
    obtain ⟨p, _, rfl, hp, hps⟩ := List.map_eq_cons_iff.1 hps
    obtain ⟨p', _, rfl, hp', hnil⟩ := List.map_eq_cons_iff.1 hps
    obtain rfl := List.map_eq_nil_iff.1 hnil
    have hword := offers_plainWord stack h.1 hp₀ hspaced
    have hdot := offers_single stack (k := .dot) (by decide) hp hspaced.2.2.2
    have hname := offers_name stack h.2 hp' hspaced.2.2.2.2.2.2
    have hhead := wordHead_course hword hdot.toFaces
    rw [headOf, if_pos (.inr rfl)] at hhead
    have hrule : Course (Midline stack (Piece.concat [p₀, p, p'] ++ r)) [] (wordExpr (expr levels))
        .memberExpr (member (some type) name).Means (Midline stack r) := by
      refine hhead.bind ?_
      rintro _ ⟨t₀, h1, h2, rfl⟩
      refine Course.isAt hdot.toFaces ?_
      refine (Course.nodeAround .memberExpr (memberName_course hdot hname).frame).bind ?_
      rintro _ ⟨_, ⟨_, ⟨t, t', h3, h4, h5, rfl⟩, rfl⟩, rfl⟩
      refine .pure ⟨_, rfl, ?_⟩
      rw [Expr.ofTree?]
      simp [Expr.beforeDot, Expr.afterDot, hasToken, nameAmong?, nodeAmong?, nodesAmong, Tree.kind,
        tokenTextAmong?, tokenAmong?, h1, h2, h3, h4, h5, value]
    exact operand_primary hword.toFaces rfl (hrule.bind fun _ hts => .pure hts)

/-! ### Expressions inside operands -/

lemma level_pos {e : Term} (h : e.spelled = true) : 0 < e.level := by
  cases e with
  | binary op lhs rhs =>
    simp only [spelled, Bool.and_eq_true, Option.any_eq_true] at h
    obtain ⟨⟨⟨o, ho, -⟩, -⟩, -⟩ := h
    cases o <;> simp [level, ho, BinaryOp.precedence]
  | _ => simp [level, UnaryOp.precedence]

/-- A whole expression up to a token that no expression goes on with. -/
lemma ReadsSpine.expr {e : Term} (h : e.ReadsSpine) (hwell : e.wellFormed = true) (levels : Nat)
    {stack : IndentStack} {ps : List Piece} {r : Text} {k : Kind} (hd : e.depth < levels)
    (hw : e.Written ps r) (hq : Faces .expr k (Midline stack r))
    (hk : exprRecovery.contains k = true) :
    Course (Midline stack (Piece.concat ps ++ r)) [] (expr levels) (some e.kind) e.Means
      (Midline stack r) :=
  h.whole _ _ hd hw hq (.of_recovery hk 0) (level_pos (spelled_of_wellFormed _ hwell)) (by decide)

/-- A token of an expression can be looked at in front of any text that it ends at. -/
lemma faces_piece {stack : IndentStack} {k : Kind} {w r : Text} {ps : List Piece} {ws : List Text}
    (htokens : ps.map (·.token) = w :: ws) (hs : Piece.Spaced ps r)
    (hface : ∀ b t, b.all isBlank = true → Piece.Parted w (b ++ t) → Text.Unspaced t →
      Facing .expr k w b t) :
    Faces .expr k (Midline stack (Piece.concat ps ++ r)) := by
  obtain ⟨p, ps, rfl, rfl, hps⟩ := List.map_eq_cons_iff.1 htokens
  obtain ⟨hb, hu, hparted, -⟩ := hs
  rw [Piece.concat_cons_append]
  exact Midline.faces (hface _ _ hb hparted hu)

/-- A term starts with a token that an expression can start with. -/
lemma faces_first (stack : IndentStack) : ∀ {e : Term} {ps : List Piece} {r : Text},
    e.spelled = true → e.Written ps r →
    ∃ k, Faces .expr k (Midline stack (Piece.concat ps ++ r)) ∧ exprFirst.contains k = true
  | number whole fraction, ps, r, h, hw => by
    simp only [spelled, Bool.and_eq_true] at h
    exact ⟨.number, faces_piece hw.tokens hw.spaced fun _ _ hb ht hu =>
      Piece.facing_number h.1 h.2 hb (ht.number (head_numberText h.1)) hu, by decide⟩
  | string contents, ps, r, h, hw =>
    ⟨.string, faces_piece hw.tokens hw.spaced fun _ _ hb _ hu => Piece.facing_string h hb hu,
      by decide⟩
  | var name, ps, r, _, hw =>
    ⟨.dollar, faces_piece hw.tokens hw.spaced fun _ _ hb _ hu =>
      Piece.facing_single (.inl rfl) (by decide) hb hu, by decide⟩
  | ident name, ps, r, h, hw =>
    ⟨.ident, faces_piece hw.tokens hw.spaced fun _ _ hb ht hu => facing_plainWord h hb ht hu,
      by decide⟩
  | truth b, ps, r, _, hw => by
    have hkey : (if b then Kind.trueKw else .falseKw) ∈ exprKeywords := by cases b <;> decide
    have htokens : ps.map (·.token) = [(if b then Kind.trueKw else .falseKw).chars] := by
      rw [hw.tokens]
      cases b <;> rfl
    exact ⟨if b then .trueKw else .falseKw, faces_piece htokens hw.spaced fun _ _ hb ht hu =>
      Piece.facing_keyword hkey hb (ht.word (Piece.keyword_spelling hkey).1) hu, by
        cases b <;> decide⟩
  | null, ps, r, _, hw =>
    ⟨.nullKw, faces_piece hw.tokens hw.spaced fun _ _ hb ht hu =>
      Piece.facing_keyword (by decide) hb (ht.word (by decide)) hu, by decide⟩
  | member none name, ps, r, _, hw =>
    ⟨.dot, faces_piece hw.tokens hw.spaced fun _ _ hb _ hu =>
      Piece.facing_single (.inl rfl) (by decide) hb hu, by decide⟩
  | member (some type) name, ps, r, h, hw => by
    simp only [spelled, Bool.and_eq_true] at h
    exact ⟨.ident, faces_piece hw.tokens hw.spaced fun _ _ hb ht hu =>
      facing_plainWord h.1 hb ht hu, by decide⟩
  | call name args, ps, r, h, hw => by
    simp only [spelled, Bool.and_eq_true] at h
    exact ⟨.ident, faces_piece hw.tokens hw.spaced fun _ _ hb ht hu =>
      facing_plainWord h.1 hb ht hu, by decide⟩
  | paren inner, ps, r, _, hw =>
    ⟨.leftParen, faces_piece hw.tokens hw.spaced fun _ _ hb _ hu =>
      Piece.facing_single (.inl rfl) (by decide) hb hu, by decide⟩
  | unary op operand, ps, r, h, hw => by
    simp only [spelled, Bool.and_eq_true] at h
    refine ⟨op, faces_piece hw.tokens hw.spaced fun b t hb ht hu =>
      Piece.facing_operator (.inr h.1.1) hb ht hu, ?_⟩
    have hop := h.1.1
    unfold UnaryOp.ofKind? at hop
    split at hop
    all_goals first
      | decide
      | simp at hop
  | binary op lhs rhs, ps, r, h, hw => by
    simp only [spelled, Bool.and_eq_true] at h
    obtain ⟨htokens, hspaced⟩ := hw
    obtain ⟨ls, qs, rfl, hls, -⟩ := List.map_eq_append_iff.1 htokens
    rw [Piece.concat_append, List.append_assoc]
    exact faces_first stack h.1.2 ⟨hls, (Piece.spaced_append.1 hspaced).1⟩

section
variable {levels : Nat} {stack : IndentStack} {r : Text}

/-- What a step over the arguments does in front of one. -/
lemma argStep_course {a : Term} {k : Kind} {ps : List Piece} {pre : List Tree}
    {answer : ForInStep Unit} {V : List Tree → Prop} {q : Scanner → Prop} (h : a.ReadsSpine)
    (hwell : a.wellFormed = true) (hd : a.depth < levels) (hw : a.Written ps r)
    (hq : Faces .expr k (Midline stack r)) (hk : exprRecovery.contains k = true)
    (hrest : ∀ t, Expr.ofTree? t = some a.value →
      Course (Midline stack r) (pre ++ [t]) argEnd answer V q) :
    Course (Midline stack (Piece.concat ps ++ r)) pre (argStep (Parser.expr levels))
      answer V q := by
  obtain ⟨first, hfirst, hmem⟩ := faces_first stack (spelled_of_wellFormed a hwell) hw
  have hends : commandEnds.contains first = false :=
    KindSet.not_contains_of_disjoint (by decide) hmem
  have hparen : first ≠ .rightParen := by
    rintro rfl
    exact absurd hmem (by decide)
  have hcomma : first ≠ .comma := by
    rintro rfl
    exact absurd hmem (by decide)
  refine Course.isAt hfirst (Course.isAtAny hfirst ?_)
  rw [hends]
  simp only [hparen, decide_false, Bool.or_self, Bool.false_eq_true, if_false]
  refine Course.isAt hfirst ?_
  simp only [hcomma, decide_false, Bool.false_eq_true, if_false]
  refine (h.expr hwell levels hd hw hq hk).step ?_
  rintro _ ⟨t, rfl, hvalue⟩
  exact hrest t hvalue

lemma args_course (hq : Faces .expr .rightParen (Midline stack r)) : ∀ {args : List Term},
    (∀ a ∈ args, a.ReadsSpine) → wellFormedAll args = true → depthAll args < levels →
    ∀ {ps : List Piece} {pre : List Tree}, ps.map (·.token) = argTokens args → Piece.Spaced ps r →
    Course (Midline stack (Piece.concat ps ++ r)) pre
      (loop (fun _ => argStep (Parser.expr levels)) ()) ()
      (fun ts => ∃ us, Expr.ofAll us = values args ∧ ts = pre ++ us) (Midline stack r) := by
  intro args
  have hsettles :=
    settles_climb (operand levels) (rule_operand levels).2 (BinaryOp.maxPrecedence + 1) 0
  induction args with
  | nil =>
    intro _ _ _ ps pre hps _
    obtain rfl := List.map_eq_nil_iff.1 hps
    refine Course.loop_done (Course.isAt hq (Course.isAtAny hq ?_))
    exact .pure ⟨[], by simp [values], by simp⟩
  | cons a as ih =>
    intro hread hwell hd ps pre hps hs
    simp only [wellFormedAll, Bool.and_eq_true] at hwell
    simp only [depthAll] at hd
    simp only [argTokens] at hps
    obtain ⟨xs, ys, rfl, hxs, hys⟩ := List.map_eq_append_iff.1 hps
    obtain ⟨hsx, hsy⟩ := Piece.spaced_append.1 hs
    rw [Piece.concat_append, List.append_assoc]
    rcases as with _ | ⟨b, bs⟩
    · obtain rfl := List.map_eq_nil_iff.1 hys
      refine Course.loop_done (argStep_course (hread a (by simp)) hwell.1 (by omega) ⟨hxs, hsx⟩ hq
        (by decide) fun t hvalue => ?_)
      refine (Course.eat_other hq (by decide) (by decide)).bind ?_
      rintro _ rfl
      refine Course.isAtAny hq (.pure ⟨[t], ?_, rfl⟩)
      simp [Expr.ofAll_cons, hvalue, values]
    · obtain ⟨p, zs, rfl, hp, hzs⟩ := List.map_eq_cons_iff.1 hys
      have hcomma := offers_single stack (k := .comma) (by decide) hp hsy
      have hstep : Course (Midline stack (Piece.concat xs ++ (Piece.concat (p :: zs) ++ r))) pre
          (argStep (Parser.expr levels)) (.yield ())
          (fun ts => ∃ t token, Expr.ofTree? t = some a.value ∧ ts = pre ++ [t, .leaf token])
          (Midline stack (Piece.concat zs ++ r)) := by
        refine argStep_course (hread a (by simp)) hwell.1 (by omega) ⟨hxs, hsx⟩ hcomma.toFaces
          (by decide) fun t hvalue => ?_
        refine (Course.eat hcomma (by decide)).bind ?_
        rintro _ ⟨token, -, -, rfl⟩
        exact .pure ⟨t, token, hvalue, by simp⟩
      refine Course.loop_yield (I := fun _ => Any) (fun _ _ hg => Rule.good _ hg)
        (advances_argStep (Parser.expr levels) hsettles) (fun _ _ => trivial) hstep ?_
      rintro _ ⟨t, token, hvalue, rfl⟩
      refine (ih (fun c hc => hread c (by simp [hc])) hwell.2 (by omega) hzs hsy.2.2.2).mono ?_
      rintro _ ⟨us, hus, rfl⟩
      exact ⟨[t, .leaf token] ++ us, by simp [Expr.ofAll_cons, hvalue, hus, values], by simp⟩

end

lemma readsOperand_call {name : Text} {args : List Term} (hread : ∀ a ∈ args, a.ReadsSpine)
    (h : (call name args).wellFormed = true) : (call name args).ReadsOperand := by
  rintro (_ | levels) stack ps r k hd ⟨hps, hspaced⟩ hq hk
  · omega
  simp only [wellFormed, Bool.and_eq_true] at h
  simp only [depth] at hd
  simp only [tokens] at hps
  obtain ⟨p, _, rfl, hp, hps⟩ := List.map_eq_cons_iff.1 hps
  obtain ⟨p', xs, p'', rfl, hp', hxs, hp''⟩ := Piece.eq_cons_concat hps
  have hword := offers_plainWord stack h.1 hp hspaced
  obtain ⟨hopen, hclose, hsx⟩ := offers_parens stack hp' hp'' hspaced.2.2.2
  have hargs : Course (Midline stack (Piece.concat (p' :: (xs ++ [p''])) ++ r)) []
      (argList (Parser.expr levels)) ()
      (fun ts => ∃ us, Expr.ofAll us = values args ∧ ts = [.node .argList us])
        (Midline stack r) := by
    have hinner : Course (Midline stack (Piece.concat (p' :: (xs ++ [p''])) ++ r)) []
        (advance .expr >>= fun _ => loop (fun _ => argStep (Parser.expr levels)) () >>= fun _ =>
          expect .expr .rightParen "expected `)`" >>= fun _ => pure ()) ()
        (fun ts => Expr.ofAll ts = values args) (Midline stack r) := by
      refine (Course.advance hopen (by decide)).bind ?_
      rintro _ ⟨t, -, -, rfl⟩
      refine (args_course hclose.toFaces hread h.2 (by omega) hxs hsx).bind ?_
      rintro _ ⟨us, hus, rfl⟩
      refine (Course.expect hclose (by decide) _).bind ?_
      rintro _ ⟨t', -, -, rfl⟩
      exact .pure (by simp [Expr.ofAll_cons, hus])
    unfold argList
    refine (hinner.node .argList).mono ?_
    rintro _ ⟨us, hus, rfl⟩
    exact ⟨us, hus, rfl⟩
  have hhead := wordHead_course hword hopen.toFaces
  rw [headOf, if_pos (.inl rfl)] at hhead
  have hrule : Course (Midline stack (Piece.concat (p :: p' :: (xs ++ [p''])) ++ r)) []
      (wordExpr (Parser.expr levels)) .callExpr (call name args).Means (Midline stack r) := by
    refine hhead.bind ?_
    rintro _ ⟨t, h1, h2, rfl⟩
    refine Course.isAt hopen.toFaces ?_
    refine (Course.nodeAround .callExpr hargs.frame).bind ?_
    rintro _ ⟨_, ⟨_, ⟨us, hus, rfl⟩, rfl⟩, rfl⟩
    refine .pure ⟨_, rfl, ?_⟩
    rw [Expr.ofTree?]
    simp [nameAmong?, nodeAmong?, nodesAmong, tokenTextAmong?, tokenAmong?, Expr.argsOf,
      h1, h2, hus, value]
  exact operand_primary hword.toFaces rfl (hrule.bind fun _ hts => .pure hts)

lemma readsOperand_paren {inner : Term} (hread : inner.ReadsSpine)
    (h : (paren inner).wellFormed = true) : (paren inner).ReadsOperand := by
  rintro (_ | levels) stack ps r k hd ⟨hps, hspaced⟩ hq hk
  · omega
  simp only [depth] at hd
  simp only [tokens] at hps
  obtain ⟨p, xs, p', rfl, hp, hxs, hp'⟩ := Piece.eq_cons_concat hps
  obtain ⟨hopen, hclose, hsx⟩ := offers_parens stack hp hp' hspaced
  have hinner := hread.expr h levels (by omega) ⟨hxs, hsx⟩ hclose.toFaces
    (by decide)
  refine operand_primary hopen.toFaces rfl
    (Course.node_answer (a := ()) (V := fun ts => Expr.ofAll ts = [inner.value]) .parenExpr ?_ ?_)
  · refine (Course.advance hopen (by decide)).bind ?_
    rintro _ ⟨t, -, -, rfl⟩
    refine hinner.step ?_
    rintro _ ⟨u, rfl, hu⟩
    refine (Course.expect hclose (by decide) _).bind ?_
    rintro _ ⟨t', -, -, rfl⟩
    exact .pure (by simp [Expr.ofAll_cons, hu])
  · intro us hus
    refine ⟨_, rfl, ?_⟩
    rw [Expr.ofTree?]
    simp [hus, value]

lemma readsOperand_unary {op : Kind} {inner : Term} (hread : inner.ReadsOperand)
    (h : (unary op inner).wellFormed = true) : (unary op inner).ReadsOperand := by
  rintro (_ | levels) stack ps r k hd ⟨hps, hspaced⟩ hq hk
  · omega
  simp only [wellFormed, Bool.and_eq_true] at h
  simp only [depth] at hd
  simp only [tokens] at hps
  obtain ⟨o, ho⟩ := Option.isSome_iff_exists.1 h.1.1
  obtain ⟨p, xs, rfl, hp, hxs⟩ := List.map_eq_cons_iff.1 hps
  obtain ⟨hb, hu, hparted, hsx⟩ := hspaced
  have hop : Offers .expr op op.chars (Midline stack (Piece.concat (p :: xs) ++ r))
      (Midline stack (Piece.concat xs ++ r)) := by
    rw [hp] at hparted
    rw [Piece.concat_cons_append, hp]
    refine Midline.offers (Piece.facing_operator (.inr h.1.1) hb hparted hu) ?_
    rintro rfl
    simp [UnaryOp.ofKind?] at ho
  rw [operand]
  refine Course.peekKind hop.toFaces ?_
  rw [if_pos h.1.1]
  refine Course.node_answer (a := ()) (V := fun ts => ∃ (t : Token) (u : Tree), t.kind = op ∧
    Expr.ofTree? u = some inner.value ∧ ts = [.leaf t, u]) .unaryExpr ?_ ?_
  · refine (Course.advance hop (by rintro rfl; simp [UnaryOp.ofKind?] at ho)).bind ?_
    rintro _ ⟨t, h1, -, rfl⟩
    refine (hread (by omega) ⟨hxs, hsx⟩ hq hk).step ?_
    rintro _ ⟨u, rfl, hu⟩
    exact .pure ⟨t, u, h1, hu, rfl⟩
  · rintro _ ⟨t, u, h1, h2, rfl⟩
    refine ⟨_, rfl, ?_⟩
    have hall : Expr.ofAll [.leaf t, u] = [inner.value] := by simp [Expr.ofAll_cons, h2]
    rw [Expr.ofTree?]
    simp [hall, tokensAmong, h1, ho, value]

/-! ### All terms -/

/-- A term can be read, as an operand unless it is a binary one. -/
structure Reads (e : Term) : Prop where
  operand : e.isBinary = false → e.ReadsOperand
  spine : e.ReadsSpine

lemma ReadsOperand.reads {e : Term} (h : e.ReadsOperand) : e.Reads := ⟨fun _ => h, h.spine⟩

mutual

/-- **Every well-formed term is read back from any layout of its tokens.** -/
lemma reads : ∀ e : Term, e.wellFormed = true → e.Reads
  | number _ _, h => (readsOperand_number h).reads
  | string _, h => (readsOperand_string h).reads
  | var _, h => (readsOperand_var h).reads
  | ident _, h => (readsOperand_ident h).reads
  | truth b, _ => (readsOperand_truth b).reads
  | null, _ => readsOperand_null.reads
  | member _ _, h => (readsOperand_member h).reads
  | call name args, h => by
    have hwell := h
    simp only [wellFormed, Bool.and_eq_true] at hwell
    exact (readsOperand_call (fun a ha => (readsAll args hwell.2 a ha).spine) h).reads
  | paren inner, h => (readsOperand_paren (reads inner h).spine h).reads
  | unary op inner, h => by
    have hwell := h
    simp only [wellFormed, Bool.and_eq_true, Bool.not_eq_true'] at hwell
    exact (readsOperand_unary ((reads inner hwell.2).operand hwell.1.2) h).reads
  | binary op lhs rhs, h => by
    have hwell := h
    simp only [wellFormed, Bool.and_eq_true] at hwell
    exact ⟨nofun, readsSpine_binary (reads lhs hwell.1.2).spine (reads rhs hwell.2).spine h⟩

lemma readsAll : ∀ es : List Term, wellFormedAll es = true → ∀ e ∈ es, e.Reads
  | [], _ => by simp
  | a :: as, h => by
    simp only [wellFormedAll, Bool.and_eq_true] at h
    intro e he
    rcases List.mem_cons.1 he with hea | he
    · rw [hea]
      exact reads a h.1
    · exact readsAll as h.2 e he

end

/-- A whole expression is read up to a token that no expression goes on with. -/
lemma expr_course {e : Term} (hwell : e.wellFormed = true) {levels : Nat} {stack : IndentStack}
    {ps : List Piece} {r : Text} {k : Kind} (hd : e.depth < levels) (hw : e.Written ps r)
    (hq : Faces .expr k (Midline stack r)) (hk : exprRecovery.contains k = true) :
    Course (Midline stack (Piece.concat ps ++ r)) [] (Parser.expr levels) (some e.kind) e.Means
      (Midline stack r) :=
  (reads e hwell).spine.expr hwell levels hd hw hq hk

end Term

end DialogueScript

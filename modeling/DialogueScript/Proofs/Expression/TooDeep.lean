import DialogueScript.Proofs.Expression.Reading
import DialogueScript.Proofs.Grammar.Passes

/-!
Passing over operands that are nested too deeply. With such an operand the rest of the expression
around it is passed over, up to the parenthesis, comma or brace behind that. Parentheses on the way
are passed over with what is in them, unless there is a comma: passing over stops at a comma even
inside parentheses.
-/

namespace DialogueScript

open DialogueScript.Parser DialogueScript.Scanner

/-- What is reported about an operand for which no level is left. -/
def Diagnostic.isTooDeep (d : Diagnostic) : Bool := d.message = "expression is nested too deeply"

/-- All other problems. -/
def Diagnostic.isOther (d : Diagnostic) : Bool := !d.isTooDeep

namespace Parser

open ParserState

/-! ### Passing over -/

/-- A way over tokens from one place to another, with the number of parentheses that are open at
each. No token on it ends a damaged expression, but for the parentheses that are closed. -/
inductive Crosses : Nat → (Scanner → Prop) → Nat → (Scanner → Prop) → Prop
  | here (n : Nat) (q : Scanner → Prop) : Crosses n q n q
  | opening {n m : Nat} {w : Text} {q q' q'' : Scanner → Prop} :
      Offers .expr .leftParen w q q' → Crosses (n + 1) q' m q'' → Crosses n q m q''
  | closing {n m : Nat} {w : Text} {q q' q'' : Scanner → Prop} :
      Offers .expr .rightParen w q q' → Crosses n q' m q'' → Crosses (n + 1) q m q''
  | other {n m : Nat} {k : Kind} {w : Text} {q q' q'' : Scanner → Prop} :
      Offers .expr k w q q' → k ≠ .leftParen → exprRecovery.contains k = false →
        Crosses n q' m q'' →
      Crosses n q m q''

namespace Crosses

variable {n m l : Nat} {q q' q'' : Scanner → Prop}

lemma trans (h : Crosses n q m q') (h' : Crosses m q' l q'') : Crosses n q l q'' := by
  induction h with
  | here => exact h'
  | opening ho _ ih => exact .opening ho (ih h')
  | closing ho _ ih => exact .closing ho (ih h')
  | other ho hk hr _ ih => exact .other ho hk hr (ih h')

/-- The steps over an operand that is nested too deeply follow such a way. -/
lemma steps {α : Type} {keep : Diagnostic → Bool} {f : Nat → Parser α} {A : α → Prop}
    (h : Crosses n q m q') (hrest : Passes keep q' (loop deepStep m >>= f) A q'') :
    Passes keep q (loop deepStep n >>= f) A q'' := by
  have hyield {n y : Nat} {q q' : Scanner → Prop} (h : Passes keep q (deepStep n) (· = .yield y) q')
      (hrest : Passes keep q' (loop deepStep y >>= f) A q'') :
        Passes keep q (loop deepStep n >>= f) A q'' :=
    Passes.loop_yield (fun _ _ hg => Rule.good _ hg) advances_deepStep (fun _ _ => trivial) h hrest
  induction h with
  | here => exact hrest
  | opening ho _ ih =>
    refine hyield (Passes.peekKind ho.toFaces ?_) (ih hrest)
    exact (Passes.advance ho (by decide)).bind fun _ _ => .pure rfl
  | closing ho _ ih =>
    refine hyield (Passes.peekKind ho.toFaces ?_) (ih hrest)
    simp only [reduceCtorEq, if_false, decide_true, Nat.zero_lt_succ, Bool.and_self, if_true]
    exact (Passes.advance ho (by decide)).bind fun _ _ => .pure rfl
  | other ho hk hr _ ih =>
    have hparen := KindSet.ne_of_not_contains (s := exprRecovery) (k := .rightParen) (by decide) hr
    have heof := KindSet.ne_of_not_contains (s := exprRecovery) (k := .eof) (by decide) hr
    refine hyield (Passes.peekKind ho.toFaces ?_) (ih hrest)
    simp only [hk, hparen, hr, if_false, decide_false, Bool.false_and, Bool.false_eq_true]
    exact (Passes.advance ho heof).bind fun _ _ => .pure rfl

/-- At a token that ends a damaged expression, passing over stops if no parenthesis is open. -/
lemma steps_end {keep : Diagnostic → Bool} {c : Kind} (hc : Faces .expr c q)
    (hends : exprRecovery.contains c = true) :
    Passes keep q (loop deepStep 0) (fun _ => True) q := by
  have hne : c ≠ .leftParen := by
    rintro rfl
    exact absurd hends (by decide)
  refine Passes.loop_done (y := 0) (Passes.peekKind hc ?_) trivial
  simp only [hne, hends, if_false, Nat.lt_irrefl, decide_false, Bool.and_false,
    Bool.false_eq_true, if_true]
  exact .pure rfl

/-- **An operand for which no level is left is passed over** up to what closes the expression around
it. -/
lemma tooDeep {k c : Kind} (h : Crosses 0 q 0 q') (hk : Faces .expr k q) (hc : Faces .expr c q')
    (hends : exprRecovery.contains c = true) :
    Passes Diagnostic.isOther q tooDeep (fun a => a.isSome = true) q' := by
  have hinner :
    Passes Diagnostic.isOther q (error .expr "expression is nested too deeply" >>= fun _ =>
      loop deepStep 0 >>= fun _ => pure ()) (fun _ => True) q' := by
    refine (Passes.error hk fun _ => rfl).bind fun _ _ => ?_
    exact h.steps ((steps_end hc hends).bind fun _ _ => .pure trivial)
  unfold Parser.tooDeep
  exact (hinner.node .error).bind fun _ _ => .pure rfl

end Crosses

end Parser

namespace Term

mutual

/-- Whether every call has at most one argument, so that no commas are between arguments. -/
def commaless : Term → Bool
  | call _ args => args.length ≤ 1 && commalessAll args
  | paren inner => commaless inner
  | unary _ operand => commaless operand
  | binary _ lhs rhs => commaless lhs && commaless rhs
  | _ => true

def commalessAll : List Term → Bool
  | [] => true
  | a :: as => commaless a && commalessAll as

end

/-! ### The way over a term -/

section
variable (stack : IndentStack) {p : Piece} {ps : List Piece} {r w : Text} {k : Kind}

lemma offers_piece (hp : p.token = w) (hs : Piece.Spaced (p :: ps) r)
    (hface : ∀ b t, b.all isBlank = true → Piece.Parted w (b ++ t) → Text.Unspaced t →
      Facing .expr k w b t) (hk : k ≠ .newline) :
    Offers .expr k w (Midline stack (Piece.concat (p :: ps) ++ r))
      (Midline stack (Piece.concat ps ++ r)) := by
  obtain ⟨hb, hu, hparted, -⟩ := hs
  subst hp
  rw [Piece.concat_cons_append]
  exact Midline.offers (hface _ _ hb hparted hu) hk

lemma offers_operator (hk : (BinaryOp.ofKind? k).isSome ∨ (UnaryOp.ofKind? k).isSome)
    (hp : p.token = k.chars) (hs : Piece.Spaced (p :: ps) r) : Offers .expr k k.chars
      (Midline stack (Piece.concat (p :: ps) ++ r)) (Midline stack (Piece.concat ps ++ r)) := by
  refine offers_piece stack hp hs (fun _ _ hb ht hu => Piece.facing_operator hk hb ht hu) ?_
  rintro rfl
  simp [BinaryOp.ofKind?, UnaryOp.ofKind?] at hk

variable {n m : Nat} {q : Scanner → Prop}

/-- A word can be passed over, also one that is a keyword elsewhere. -/
lemma crosses_word (hw : isWord w = true) (hp : p.token = w) (hs : Piece.Spaced (p :: ps) r)
    (h : Crosses n (Midline stack (Piece.concat ps ++ r)) m q) :
    Crosses n (Midline stack (Piece.concat (p :: ps) ++ r)) m q := by
  have hkeys : ∀ k ∈ exprKeywords, k ≠ .newline ∧ k ≠ .leftParen ∧
      exprRecovery.contains k = false := by decide
  have hkind : (keywordIn? exprKeywords w).getD .ident ≠ .newline ∧
      (keywordIn? exprKeywords w).getD .ident ≠ .leftParen ∧
      exprRecovery.contains ((keywordIn? exprKeywords w).getD .ident) = false := by
    rcases hkey : keywordIn? exprKeywords w with _ | k
    · exact ⟨by simp, by simp, by decide⟩
    · exact hkeys k (List.mem_of_find?_eq_some hkey)
  have hoffers := offers_piece stack hp hs
    (fun _ _ hb ht hu => Piece.facing_word hw rfl hb (ht.word hw) hu) hkind.1
  exact .other hoffers hkind.2.1 hkind.2.2 h

lemma crosses_single (hk : k = .dot ∨ k = .dollar) (hp : p.token = k.chars)
    (hs : Piece.Spaced (p :: ps) r) (h : Crosses n (Midline stack (Piece.concat ps ++ r)) m q) :
    Crosses n (Midline stack (Piece.concat (p :: ps) ++ r)) m q := by
  rcases hk with rfl | rfl
  all_goals exact .other (offers_single stack (by decide) hp hs) (by decide) (by decide) h

lemma crosses_operator (hk : (BinaryOp.ofKind? k).isSome ∨ (UnaryOp.ofKind? k).isSome)
    (hp : p.token = k.chars) (hs : Piece.Spaced (p :: ps) r)
    (h : Crosses n (Midline stack (Piece.concat ps ++ r)) m q) :
    Crosses n (Midline stack (Piece.concat (p :: ps) ++ r)) m q := by
  have hops : k ≠ .leftParen ∧ exprRecovery.contains k = false := by
    revert hk
    cases k <;> decide
  exact .other (offers_operator stack hk hp hs) hops.1 hops.2 h

/-- What stands between parentheses is passed over with them. -/
lemma crosses_parens {xs : List Piece} {p' : Piece} (hp : p.token = Kind.leftParen.chars)
    (hp' : p'.token = Kind.rightParen.chars) (hs : Piece.Spaced (p :: (xs ++ [p'])) r)
    (h : Crosses (n + 1) (Midline stack (Piece.concat xs ++ (Piece.concat [p'] ++ r))) (n + 1)
      (Midline stack (Piece.concat [p'] ++ r))) :
    Crosses n (Midline stack (Piece.concat (p :: (xs ++ [p'])) ++ r)) n (Midline stack r) := by
  obtain ⟨hopen, hclose, -⟩ := offers_parens stack hp hp' hs
  exact .opening hopen (h.trans (.closing hclose (.here n _)))

end

/-- A term can be passed over. -/
def Crossable (e : Term) : Prop :=
  ∀ ⦃stack ps r⦄, e.Written ps r → ∀ n,
    Crosses n (Midline stack (Piece.concat ps ++ r)) n (Midline stack r)

lemma crossable_literal {e : Term} {k : Kind} {w : Text} (htokens : e.tokens = [w])
    (hface : ∀ b t, b.all isBlank = true → Piece.Parted w (b ++ t) → Text.Unspaced t →
      Facing .expr k w b t) (hk : k ≠ .newline ∧ k ≠ .leftParen ∧ exprRecovery.contains k = false) :
    e.Crossable := by
  intro stack ps r ⟨hps, hs⟩ n
  rw [htokens] at hps
  obtain ⟨p, _, rfl, hp, hnil⟩ := List.map_eq_cons_iff.1 hps
  obtain rfl := List.map_eq_nil_iff.1 hnil
  exact .other (offers_piece stack hp hs hface hk.1) hk.2.1 hk.2.2 (.here n _)

lemma crossable_word {e : Term} {w : Text} (htokens : e.tokens = [w]) (hw : isWord w = true) :
    e.Crossable := by
  intro stack ps r ⟨hps, hs⟩ n
  rw [htokens] at hps
  obtain ⟨p, _, rfl, hp, hnil⟩ := List.map_eq_cons_iff.1 hps
  obtain rfl := List.map_eq_nil_iff.1 hnil
  exact crosses_word stack hw hp hs (.here n _)

lemma isWord_of_isPlainWord {w : Text} (h : isPlainWord w = true) : isWord w = true := by
  simp only [isPlainWord, Bool.and_eq_true] at h
  exact h.1

lemma crossable_member {type : Option Text} {name : Text} (h : (member type name).spelled = true) :
    (member type name).Crossable := by
  intro stack ps r ⟨hps, hs⟩ n
  simp only [spelled, Bool.and_eq_true] at h
  have hdot {p p' : Piece} (hp : p.token = Kind.dot.chars) (hp' : p'.token = name)
      (hs : Piece.Spaced [p, p'] r) :
      Crosses n (Midline stack (Piece.concat [p, p'] ++ r)) n (Midline stack r) :=
    crosses_single stack (.inl rfl) hp hs (crosses_word stack h.2 hp' hs.2.2.2 (.here n _))
  rcases type with _ | type
  · obtain ⟨p, _, rfl, hp, hps⟩ := List.map_eq_cons_iff.1 hps
    obtain ⟨p', _, rfl, hp', hnil⟩ := List.map_eq_cons_iff.1 hps
    obtain rfl := List.map_eq_nil_iff.1 hnil
    exact hdot hp hp' hs
  · obtain ⟨p₀, _, rfl, hp₀, hps⟩ := List.map_eq_cons_iff.1 hps
    obtain ⟨p, _, rfl, hp, hps⟩ := List.map_eq_cons_iff.1 hps
    obtain ⟨p', _, rfl, hp', hnil⟩ := List.map_eq_cons_iff.1 hps
    obtain rfl := List.map_eq_nil_iff.1 hnil
    exact crosses_word stack (isWord_of_isPlainWord h.1) hp₀ hs (hdot hp hp' hs.2.2.2)

lemma crossable_call {name : Text} {args : List Term} (hargs : ∀ a ∈ args, a.Crossable)
    (h : (call name args).spelled = true) (hlen : args.length ≤ 1) :
    (call name args).Crossable := by
  intro stack ps r ⟨hps, hs⟩ n
  simp only [spelled, Bool.and_eq_true] at h
  simp only [tokens] at hps
  obtain ⟨p, _, rfl, hp, hps⟩ := List.map_eq_cons_iff.1 hps
  obtain ⟨p', xs, p'', rfl, hp', hxs, hp''⟩ := Piece.eq_cons_concat hps
  have hsx := (offers_parens stack hp' hp'' hs.2.2.2).2.2
  refine crosses_word stack (isWord_of_isPlainWord h.1) hp hs
    (crosses_parens stack hp' hp'' hs.2.2.2 ?_)
  rcases args with _ | ⟨a, _ | ⟨b, bs⟩⟩
  · obtain rfl := List.map_eq_nil_iff.1 hxs
    exact .here _ _
  · rw [argTokens, moreTokens, List.append_nil] at hxs
    exact hargs a (by simp) ⟨hxs, hsx⟩ (n + 1)
  · simp at hlen

lemma crossable_paren {inner : Term} (h : inner.Crossable) : (paren inner).Crossable := by
  intro stack ps r ⟨hps, hs⟩ n
  simp only [tokens] at hps
  obtain ⟨p, xs, p', rfl, hp, hxs, hp'⟩ := Piece.eq_cons_concat hps
  exact crosses_parens stack hp hp' hs (h ⟨hxs, (offers_parens stack hp hp' hs).2.2⟩ (n + 1))

lemma crossable_unary {op : Kind} {inner : Term} (hop : (UnaryOp.ofKind? op).isSome)
    (h : inner.Crossable) : (unary op inner).Crossable := by
  intro stack ps r ⟨hps, hs⟩ n
  simp only [tokens] at hps
  obtain ⟨p, xs, rfl, hp, hxs⟩ := List.map_eq_cons_iff.1 hps
  exact crosses_operator stack (.inr hop) hp hs (h ⟨hxs, hs.2.2.2⟩ n)

lemma crossable_binary {op : Kind} {lhs rhs : Term} (hop : (BinaryOp.ofKind? op).isSome)
    (hlhs : lhs.Crossable) (hrhs : rhs.Crossable) : (binary op lhs rhs).Crossable := by
  intro stack ps r ⟨hps, hs⟩ n
  simp only [tokens] at hps
  obtain ⟨ls, qs, rfl, hls, hqs⟩ := List.map_eq_append_iff.1 hps
  obtain ⟨p, rs, rfl, hp, hrs⟩ := List.map_eq_cons_iff.1 hqs
  obtain ⟨hsl, hsr⟩ := Piece.spaced_append.1 hs
  rw [Piece.concat_append, List.append_assoc]
  apply (hlhs ⟨hls, hsl⟩ n).trans
  exact crosses_operator stack (.inl hop) hp hsr (hrhs ⟨hrs, hsr.2.2.2⟩ n)

/-! ### All terms -/

mutual

/-- **Every term without commas can be passed over.** -/
lemma crossable : ∀ e : Term, e.spelled = true → e.commaless = true → e.Crossable
  | number whole fraction, h, _ => by
    simp only [spelled, Bool.and_eq_true] at h
    exact crossable_literal (k := .number) rfl (fun _ _ hb ht hu =>
      Piece.facing_number h.1 h.2 hb (ht.number (head_numberText h.1)) hu) (by decide)
  | string contents, h, _ =>
    crossable_literal (k := .string) rfl (fun _ _ hb _ hu => Piece.facing_string h hb hu)
      (by decide)
  | var name, h, _ => by
    intro stack ps r ⟨hps, hs⟩ n
    obtain ⟨p, _, rfl, hp, hps⟩ := List.map_eq_cons_iff.1 hps
    obtain ⟨p', _, rfl, hp', hnil⟩ := List.map_eq_cons_iff.1 hps
    obtain rfl := List.map_eq_nil_iff.1 hnil
    exact crosses_single stack (.inr rfl) hp hs (crosses_word stack h hp' hs.2.2.2 (.here n _))
  | ident name, h, _ => crossable_word rfl (isWord_of_isPlainWord h)
  | truth b, _, _ => by cases b <;> exact crossable_word rfl (by decide)
  | null, _, _ => crossable_word rfl (by decide)
  | member _ _, h, _ => crossable_member h
  | call name args, h, hc => by
    have hspelled := h
    simp only [spelled, Bool.and_eq_true] at hspelled
    simp only [commaless, Bool.and_eq_true, decide_eq_true_eq] at hc
    exact crossable_call (crossableAll args hspelled.2 hc.2) h hc.1
  | paren inner, h, hc => crossable_paren (crossable inner h hc)
  | unary op inner, h, hc => by
    simp only [spelled, Bool.and_eq_true] at h
    exact crossable_unary h.1.1 (crossable inner h.2 hc)
  | binary op lhs rhs, h, hc => by
    simp only [spelled, Bool.and_eq_true, Option.any_eq_true] at h
    simp only [commaless, Bool.and_eq_true] at hc
    obtain ⟨⟨⟨o, ho, -⟩, hl⟩, hr⟩ := h
    exact crossable_binary (by simp [ho]) (crossable lhs hl hc.1) (crossable rhs hr hc.2)

lemma crossableAll : ∀ es : List Term, spelledAll es = true → commalessAll es = true →
    ∀ e ∈ es, e.Crossable
  | [], _, _ => by simp
  | a :: as, h, hc => by
    simp only [spelledAll, Bool.and_eq_true] at h
    simp only [commalessAll, Bool.and_eq_true] at hc
    intro e he
    rcases List.mem_cons.1 he with hea | he
    · rw [hea]
      exact crossable a h.1 hc.1
    · exact crossableAll as h.2 hc.2 e he

end

end Term

end DialogueScript

import Mathlib.Data.List.Chain
import DialogueScript.Ast.Expr
import DialogueScript.Proofs.Scanner.Spelling

/-!
Expressions as they are written. A term keeps the spelling of every part; its tokens can be laid out
with any blanks between them, and its value is the expression that it stands for.
-/

namespace DialogueScript

inductive Term where
  | number (whole : Text) (fraction : Option Text)
  | string (contents : Text)
  | var (name : Text)
  | ident (name : Text)
  | truth (value : Bool)
  | null
  /-- A member, with the type it belongs to or without. -/
  | member (type : Option Text) (name : Text)
  | call (name : Text) (args : List Term)
  | paren (inner : Term)
  /-- The operator is given by the kind of its token, which says how it is spelled. -/
  | unary (op : Kind) (operand : Term)
  | binary (op : Kind) (lhs rhs : Term)

/-- A word that is no keyword of expressions. -/
def isPlainWord (w : Text) : Bool := isWord w && (keywordIn? exprKeywords w).isNone

namespace Term

def isBinary : Term → Bool
  | binary .. => true
  | _ => false

/-- How tightly the outermost operator binds. A term that is no binary one is tighter than all of
those. -/
def level : Term → Nat
  | binary op _ _ => ((BinaryOp.ofKind? op).map (·.precedence)).getD 0
  | _ => UnaryOp.precedence

mutual

/-- Whether a term can be written without further parentheses: an operand on the left binds at least
as tightly as its operator, one on the right more tightly, and the operand of a unary operator is no
binary term. -/
def wellFormed : Term → Bool
  | number whole fraction => isDigits whole && fraction.all isDigits
  | string contents => contents.all Lexeme.isStringPart
  | var name => isWord name
  | ident name => isPlainWord name
  | truth _ => true
  | null => true
  | member type name => type.all isPlainWord && isWord name
  | call name args => isPlainWord name && wellFormedAll args
  | paren inner => wellFormed inner
  | unary op operand => (UnaryOp.ofKind? op).isSome && !operand.isBinary && wellFormed operand
  | binary op lhs rhs =>
    (BinaryOp.ofKind? op).any (fun o => o.precedence ≤ lhs.level && o.precedence < rhs.level) &&
      wellFormed lhs && wellFormed rhs

def wellFormedAll : List Term → Bool
  | [] => true
  | a :: as => wellFormed a && wellFormedAll as

end

mutual

/-- Whether a term is well-formed, but for the strings in it, which can hold escapes. -/
def spelled : Term → Bool
  | number whole fraction => isDigits whole && fraction.all isDigits
  | string contents => Lexeme.isStringBody contents
  | var name => isWord name
  | ident name => isPlainWord name
  | truth _ => true
  | null => true
  | member type name => type.all isPlainWord && isWord name
  | call name args => isPlainWord name && spelledAll args
  | paren inner => spelled inner
  | unary op operand => (UnaryOp.ofKind? op).isSome && !operand.isBinary && spelled operand
  | binary op lhs rhs =>
    (BinaryOp.ofKind? op).any (fun o => o.precedence ≤ lhs.level && o.precedence < rhs.level) &&
      spelled lhs && spelled rhs

def spelledAll : List Term → Bool
  | [] => true
  | a :: as => spelled a && spelledAll as

end

mutual

lemma spelled_of_wellFormed : ∀ e : Term, e.wellFormed = true → e.spelled = true
  | number _ _, h => h
  | string _, h => Lexeme.isStringBody_of_all h
  | var _, h => h
  | ident _, h => h
  | truth _, _ => rfl
  | null, _ => rfl
  | member _ _, h => h
  | call name args, h => by
    simp only [wellFormed, Bool.and_eq_true] at h
    simp only [spelled, h.1, spelledAll_of_wellFormed args h.2, Bool.and_self]
  | paren inner, h => spelled_of_wellFormed inner h
  | unary op operand, h => by
    simp only [wellFormed, Bool.and_eq_true] at h
    simp only [spelled, h.1, spelled_of_wellFormed operand h.2, Bool.and_self]
  | binary op lhs rhs, h => by
    simp only [wellFormed, Bool.and_eq_true] at h
    simp only [spelled, h.1.1, spelled_of_wellFormed lhs h.1.2, spelled_of_wellFormed rhs h.2,
      Bool.and_self]

lemma spelledAll_of_wellFormed : ∀ es : List Term, wellFormedAll es = true → spelledAll es = true
  | [], _ => rfl
  | a :: as, h => by
    simp only [wellFormedAll, Bool.and_eq_true] at h
    simp only [spelledAll, spelled_of_wellFormed a h.1, spelledAll_of_wellFormed as h.2,
      Bool.and_self]

end

mutual

/-- How deeply parentheses, unary operators and calls are nested. -/
def depth : Term → Nat
  | call _ args => depthAll args + 1
  | paren inner => depth inner + 1
  | unary _ operand => depth operand + 1
  | binary _ lhs rhs => max (depth lhs) (depth rhs)
  | _ => 0

def depthAll : List Term → Nat
  | [] => 0
  | a :: as => max (depth a) (depthAll as)

end

mutual

/-- The tokens of a term, in order. -/
def tokens : Term → List Text
  | number whole fraction => [Lexeme.numberText whole fraction]
  | string contents => [Lexeme.stringText contents]
  | var name => [Kind.dollar.chars, name]
  | ident name => [name]
  | truth value => [if value then Kind.trueKw.chars else Kind.falseKw.chars]
  | null => [Kind.nullKw.chars]
  | member type name => type.toList ++ [Kind.dot.chars, name]
  | call name args => name :: Kind.leftParen.chars :: (argTokens args ++ [Kind.rightParen.chars])
  | paren inner => Kind.leftParen.chars :: (tokens inner ++ [Kind.rightParen.chars])
  | unary op operand => op.chars :: tokens operand
  | binary op lhs rhs => tokens lhs ++ op.chars :: tokens rhs

/-- The tokens of some arguments, with commas between them. -/
def argTokens : List Term → List Text
  | [] => []
  | a :: as => tokens a ++ moreTokens as

def moreTokens : List Term → List Text
  | [] => []
  | a :: as => Kind.comma.chars :: (tokens a ++ moreTokens as)

end

mutual

/-- The expression that a term stands for. -/
def value : Term → Expr
  | number whole fraction =>
    .number (some ⟨Decimal.digitsValue (whole ++ fraction.getD []), (fraction.getD []).length⟩)
  | string contents => .string (some contents)
  | var name => .var (some name)
  | ident name => .ident (some name)
  | truth b => .bool (some b)
  | null => .null (some "null".toList)
  | member type name => .member type (some name)
  | call name args => .call (some name) (values args)
  | paren inner => .paren (some (value inner))
  | unary op operand => .unary (UnaryOp.ofKind? op) (some (value operand))
  | binary op lhs rhs =>
    .binary (BinaryOp.ofKind? op) (some op.chars) (some (value lhs)) (some (value rhs))

def values : List Term → List Expr
  | [] => []
  | a :: as => value a :: values as

end

lemma tokens_ne_nil (e : Term) : e.tokens ≠ [] := by
  cases e <;> simp [tokens]

end Term

/-! ### Layout -/

/-- A text that starts with something other than a blank. -/
def Text.Solid (w : Text) : Prop := ∃ c cs, w = c :: cs ∧ isBlank c = false

/-- A token as it is written, with the blanks behind it. -/
structure Piece where
  token : Text
  blanks : Text

namespace Piece

def concat (ps : List Piece) : Text := ps.flatMap fun p => p.token ++ p.blanks

/-- Whether two tokens can stand next to each other without a blank: a variable and a member may be
written in one piece. -/
def touch (w v : Text) : Bool :=
  w = Kind.dollar.chars || w = Kind.dot.chars || (v = Kind.dot.chars && isPlainWord w)

/-- Only blanks stand behind the tokens, and at least one between two of them that may not touch. -/
structure Laid (ps : List Piece) : Prop where
  blanks : ∀ p ∈ ps, p.blanks.all isBlank = true
  parted : ps.IsChain fun p q => p.blanks ≠ [] ∨ touch p.token q.token = true

/-- Tokens with a blank behind each. -/
def spread (ws : List Text) : List Piece := ws.map (⟨·, [' ']⟩)

lemma map_token_spread (ws : List Text) : (spread ws).map (·.token) = ws := by
  rw [spread, List.map_map]
  exact List.map_id ws

lemma laid_spread (ws : List Text) : Laid (spread ws) := by
  constructor
  · simp [spread, isBlank]
  · rw [spread, List.isChain_map]
    exact (List.pairwise_of_forall fun _ _ => .inl (List.cons_ne_nil _ _)).isChain

@[simp] lemma concat_nil : concat [] = [] := rfl

@[simp] lemma concat_cons (p : Piece) (ps : List Piece) :
    concat (p :: ps) = p.token ++ (p.blanks ++ concat ps) := by
  simp [concat]

@[simp] lemma concat_append (ps qs : List Piece) : concat (ps ++ qs) = concat ps ++ concat qs := by
  simp [concat]

/-- Tokens between two others stand in pieces between two others. -/
lemma eq_cons_concat {ps : List Piece} {first last : Text} {inner : List Text}
    (h : ps.map (·.token) = first :: (inner ++ [last])) :
    ∃ p xs p', ps = p :: (xs ++ [p']) ∧ p.token = first ∧ xs.map (·.token) = inner ∧
      p'.token = last := by
  obtain ⟨p, _, rfl, hp, hps⟩ := List.map_eq_cons_iff.1 h
  obtain ⟨xs, ys, rfl, hxs, hys⟩ := List.map_eq_append_iff.1 hps
  obtain ⟨p', _, rfl, hp', hnil⟩ := List.map_eq_cons_iff.1 hys
  obtain rfl := List.map_eq_nil_iff.1 hnil
  exact ⟨p, xs, p', rfl, hp, hxs, hp'⟩

/-- The text in front of the blanks of the first piece is its token. -/
lemma concat_cons_append (p : Piece) (ps : List Piece) (r : Text) :
    concat (p :: ps) ++ r = p.token ++ p.blanks ++ (concat ps ++ r) := by
  simp

/-- Where the text `t` starts, the token `w` before it ends. -/
structure Parted (w t : Text) : Prop where
  word : isWord w = true → Text.EndsWord t
  number : w.head?.any Char.isDigit = true → Text.EndsNumber t
  operator : ∀ k ∈ Lexeme.operatorSymbols, w = k.chars → Text.Breaks t

/-- Every token ends where its blanks start, or where the text behind it does. -/
def Spaced : List Piece → Text → Prop
  | [], _ => True
  | p :: ps, r => p.blanks.all isBlank = true ∧ Text.Unspaced (concat ps ++ r) ∧
      Parted p.token (p.blanks ++ (concat ps ++ r)) ∧ Spaced ps r

lemma spaced_append {ps qs : List Piece} {r : Text} :
    Spaced (ps ++ qs) r ↔ Spaced ps (concat qs ++ r) ∧ Spaced qs r := by
  induction ps with
  | nil => simp [Spaced]
  | cons p ps ih => simp [Spaced, ih, and_assoc]

lemma parted_of_breaks {t : Text} (h : Text.Breaks t) (w : Text) : Parted w t :=
  ⟨fun _ => h.endsNumber.1, fun _ => h.endsNumber, fun _ _ _ => h⟩

lemma breaks_of_blanks {b : Text} (hb : b.all isBlank = true) (h : b ≠ []) (r : Text) :
    Text.Breaks (b ++ r) := by
  rcases b with _ | ⟨c, cs⟩
  · exact absurd rfl h
  · have hc : isBlank c = true := List.all_eq_true.1 hb c (by simp)
    simp only [isBlank, Bool.or_eq_true, decide_eq_true_eq] at hc
    rcases hc with rfl | rfl
    · exact ⟨_, _, rfl, .inl rfl⟩
    · exact ⟨_, _, rfl, .inr (.inl rfl)⟩

/-- Operators that are symbols start with no letter, digit or other symbol. -/
lemma head_operatorSymbol {k : Kind} (hk : k ∈ Lexeme.operatorSymbols) :
    k.chars ≠ Kind.dollar.chars ∧ k.chars ≠ Kind.dot.chars ∧
      k.chars.head?.all (fun c => !isWordPart c) = true := by
  have hall : Lexeme.operatorSymbols.all (fun k => k.chars ≠ Kind.dollar.chars ∧
      k.chars ≠ Kind.dot.chars ∧ k.chars.head?.all (fun c => !isWordPart c) = true) =
        true := by decide
  simpa using List.all_eq_true.1 hall k hk

/-- Nothing has to stand behind a symbol that is no operator. -/
lemma parted_of_symbol {w : Text} (hw : w = Kind.dollar.chars ∨ w = Kind.dot.chars) (t : Text) :
    Parted w t := by
  have hplain : isWord w = false ∧ w.head?.any Char.isDigit = false := by
    rcases hw with rfl | rfl <;> decide
  refine ⟨by simp [hplain.1], by simp [hplain.2], ?_⟩
  rintro k hk rfl
  obtain ⟨h1, h2, -⟩ := head_operatorSymbol hk
  rcases hw with hw | hw
  · exact absurd hw h1
  · exact absurd hw h2

/-- A word ends in front of whatever belongs to no word. -/
lemma parted_of_word {w t : Text} (hw : isWord w = true) (ht : Text.EndsWord t) : Parted w t := by
  rcases w with _ | ⟨c, cs⟩
  · simp [isWord] at hw
  · simp only [isWord, Bool.and_eq_true] at hw
    have hdigit := Lexeme.not_isDigit_of_isWordStart hw.1
    refine ⟨fun _ => ht, by simp [hdigit], fun k hk heq => ?_⟩
    have := (head_operatorSymbol hk).2.2
    simp [← heq, Lexeme.isWordPart_of_isWordStart hw.1] at this

/-- A number ends in front of whatever belongs to no number. -/
lemma parted_of_digits {w t : Text} (hw : isDigits w = true) (ht : Text.EndsNumber t) :
    Parted w t := by
  obtain ⟨c, cs, rfl, hdigit⟩ := Lexeme.head_digits hw
  refine ⟨fun _ => ht.1, fun _ => ht, fun k hk heq => ?_⟩
  have := (head_operatorSymbol hk).2.2
  simp [← heq, Lexeme.isWordPart_of_isDigit hdigit] at this

lemma parted_of_touch {w v t : Text} (h : touch w v = true) : Parted w (v ++ t) := by
  simp only [touch, Bool.or_eq_true, decide_eq_true_eq, Bool.and_eq_true] at h
  rcases h with h | ⟨rfl, hw⟩
  · exact parted_of_symbol h _
  · simp only [isPlainWord, Bool.and_eq_true] at hw
    refine parted_of_word hw.1 ?_
    rintro _ ⟨⟩
    decide

lemma Laid.spaced {ps : List Piece} (h : Laid ps) (hs : ∀ p ∈ ps, p.token.Solid) {r : Text}
    (hr : Text.Breaks r) (hu : Text.Unspaced r) : Spaced ps r := by
  induction ps with
  | nil => trivial
  | cons p ps ih =>
    have hps : Laid ps := ⟨fun q hq => h.blanks q (by simp [hq]), h.parted.tail⟩
    have hb := h.blanks p (by simp)
    refine ⟨hb, ?_, ?_, ih hps fun q hq => hs q (by simp [hq])⟩
    · rcases ps with _ | ⟨q, qs⟩
      · simpa using hu
      · obtain ⟨c, cs, hq, hc⟩ := hs q (by simp)
        rw [concat_cons, hq]
        rintro _ ⟨⟩
        exact hc
    · by_cases hblanks : p.blanks = []
      · rw [hblanks, List.nil_append]
        rcases ps with _ | ⟨q, qs⟩
        · exact parted_of_breaks hr _
        · have htouch := (List.isChain_cons_cons.1 h.parted).1.resolve_left (by simp [hblanks])
          rw [concat_cons, List.append_assoc]
          exact parted_of_touch htouch
      · exact parted_of_breaks (breaks_of_blanks hb hblanks _) _

end Piece

end DialogueScript

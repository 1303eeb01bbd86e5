import DialogueScript.Proofs.Expression.Double
import DialogueScript.Proofs.Expression.Interpolation
import DialogueScript.Proofs.Statement.RoundTrip

/-!
# Numbers that are read back

A number stands in the tree as it is written, and its value has double precision. What is read back
is the nearest such value of each number that was written.
-/

namespace DialogueScript

open DialogueScript.Parser

/-! ### In expressions -/

namespace Expr

mutual

/-- The values of the numbers in an expression, in order. -/
def doubles : Expr → List UInt64
  | paren inner => doublesIn inner
  | unary _ operand => doublesIn operand
  | binary _ _ lhs rhs => doublesIn lhs ++ doublesIn rhs
  | call _ args => doublesAmong args
  | number value => (value.map Decimal.bits).toList
  | _ => []

def doublesIn : Option Expr → List UInt64
  | none => []
  | some e => doubles e

def doublesAmong : List Expr → List UInt64
  | [] => []
  | e :: es => doubles e ++ doublesAmong es

end

end Expr

namespace Term

mutual

/-- The numbers in a term as they are written, in order. -/
def decimals : Term → List Decimal
  | number whole fraction =>
    [⟨Decimal.digitsValue (whole ++ fraction.getD []), (fraction.getD []).length⟩]
  | call _ args => decimalsAmong args
  | paren inner => decimals inner
  | unary _ operand => decimals operand
  | binary _ lhs rhs => decimals lhs ++ decimals rhs
  | _ => []

def decimalsAmong : List Term → List Decimal
  | [] => []
  | e :: es => decimals e ++ decimalsAmong es

end

mutual

lemma doubles_value : ∀ e : Term, e.value.doubles = e.decimals.map Decimal.bits
  | number _ _ => rfl
  | string _ => rfl
  | var _ => rfl
  | ident _ => rfl
  | truth _ => rfl
  | null => rfl
  | member _ _ => rfl
  | call _ args => doublesAmong_values args
  | paren inner => doubles_value inner
  | unary _ operand => doubles_value operand
  | binary _ lhs rhs => by
    rw [decimals, List.map_append, ← doubles_value lhs, ← doubles_value rhs]
    rfl

lemma doublesAmong_values : ∀ es : List Term,
    Expr.doublesAmong (values es) = (decimalsAmong es).map Decimal.bits
  | [] => rfl
  | e :: es => by
    rw [decimalsAmong, List.map_append, ← doubles_value e, ← doublesAmong_values es]
    rfl

end

end Term

/-- **The numbers in an expression are read as the nearest values of double precision**, in their
order. -/
theorem Parse.doubles_of_line (config : Config) {title : Text} (htitle : Title title) {e : Term}
    (hwell : e.wellFormed = true) (hdepth : e.depth ≤ 100) {ps : List Piece}
    (htokens : ps.map (·.token) = e.tokens) (hlaid : Piece.Laid ps) {b : Text}
    (hb : b.all isBlank = true) : ∃ x : Expr,
      Script.ofTree (ofText config (Term.script title b ps)).tree =
        ⟨[], [.plain title [.line ⟨some [.interpolation (some x)], none, []⟩]]⟩ ∧
      List.Forall₂ Decimal.RoundsTo e.decimals x.doubles := by
  have h := readBack (α := Unit) config (fun _ => htitle)
    (fun _ => Term.readsBody_braced hwell hdepth htokens hlaid hb) (List.cons_ne_nil () [])
  refine ⟨e.value, by simpa [nodesText, Term.script, Term.interpolationLine] using h.2, ?_⟩
  rw [e.doubles_value, List.forall₂_map_right_iff, List.forall₂_same]
  exact fun d _ => Decimal.roundsTo_iff.2 rfl

/-! ### In commands -/

/-- **A number that a variable is set to is read as the nearest value of double precision.** -/
theorem Parse.double_of_set (config : Config) {title name digits : Text} (htitle : Title title)
    (hname : isWord name = true) (hdigits : isDigits digits = true) : ∃ d : Decimal,
      Script.ofTree
        (ofText config (nodeText title (Passage.textAll 0 [.set name digits]) ++ ['\n'])).tree =
        ⟨[], [.plain title [.set (some name) (some .assign) (some (.number (some d)))]]⟩ ∧
      d.RoundsTo d.bits ∧ d.value = Decimal.digitsValue digits := by
  have hwell : Passage.WellFormedAll [.set name digits] := ⟨⟨hname, hdigits⟩, by simp, trivial⟩
  let scene : Scene := ⟨title, [.set name digits], htitle, hwell, Nat.zero_le _⟩
  have h := readBack config Scene.isTitle Scene.readsBody (List.cons_ne_nil scene [])
  refine ⟨⟨Decimal.digitsValue digits, 0⟩, ?_, Decimal.roundsTo_iff.2 rfl, ?_⟩
  · simpa [nodesText, scene, Passage.values, Passage.value] using h.2
  · simp [Decimal.value]

end DialogueScript

import DialogueScript.Tree.Basic
import Mathlib.Tactic.ByContra
import Mathlib.Tactic.Lemma

/-!
Constructs whose end is missing: nodes, chains and enums. Each of them stands in the tree as an
error. Their number in a row of trees is counted without an enum that was left because of a token
that is an error itself.
-/

namespace DialogueScript

namespace Tree

/-- A token of the given kind. -/
def isTokenOf (k : Kind) : Tree → Bool
  | leaf token => token.kind = k
  | node _ _ => false

/-- The parts of a construct that show which one it is: a body without its end, the first clause of
a chain, or the keyword of an enum. -/
def isOpening : Tree → Bool
  | node .body cs => !cs.any (isTokenOf .bodyEnd)
  | node .ifClause _ | node .onceClause _ => true
  | t => t.isTokenOf .enumKw

/-- A node, chain or enum whose end is missing. -/
def lacksEnd : Tree → Bool
  | node .error cs => cs.any isOpening
  | _ => false

/-- An enum whose end is missing. -/
def isOpenEnum : Tree → Bool
  | node .error cs => cs.any (isTokenOf .enumKw)
  | _ => false

/-- A line that starts with a token that is an error. -/
def startsInError : Tree → Bool
  | node .error (leaf token :: _) => token.kind = .errorToken
  | _ => false

/-- A construct whose end is missing, unless it is an enum and such a line comes right behind it. -/
def owesEnd (next : Option Tree) (t : Tree) : Bool :=
  t.lacksEnd && !(t.isOpenEnum && next.any startsInError)

mutual

/-- How many constructs inside a tree owe their end. -/
def openEnds : Tree → Nat
  | leaf _ => 0
  | node _ cs => openEndsAll cs

def openEndsAll : List Tree → Nat
  | [] => 0
  | c :: cs => (c.owesEnd cs.head?).toNat + c.openEnds + openEndsAll cs

end

/-- The enum at the end of some trees whose end is missing. -/
def endsInEnum (ts : List Tree) : Bool := ts.getLast?.any isOpenEnum

lemma lacksEnd_of_isOpenEnum {t : Tree} (h : t.isOpenEnum = true) : t.lacksEnd = true := by
  unfold isOpenEnum at h
  split at h
  · next cs =>
    obtain ⟨c, hc, hkind⟩ := List.any_eq_true.1 h
    refine List.any_eq_true.2 ⟨c, hc, ?_⟩
    cases c with
    | leaf token => exact hkind
    | node k cs => simp [isTokenOf] at hkind
  · simp at h

lemma isOpenEnum_of_lacksEnd {t : Tree} (h : t.lacksEnd = false) : t.isOpenEnum = false := by
  by_contra he
  simp [lacksEnd_of_isOpenEnum (by simpa using he)] at h

lemma lacksEnd_node {k : Kind} (hk : k ≠ .error) (cs : List Tree) :
    (node k cs).lacksEnd = false := by
  unfold lacksEnd
  split
  · next h =>
    cases h
    exact absurd rfl hk
  · rfl

lemma isOpenEnum_node {k : Kind} (hk : k ≠ .error) (cs : List Tree) :
    (node k cs).isOpenEnum = false :=
  isOpenEnum_of_lacksEnd (lacksEnd_node hk cs)

lemma startsInError_node {k : Kind} (hk : k ≠ .error) (cs : List Tree) :
    (node k cs).startsInError = false := by
  unfold startsInError
  split
  · next h =>
    cases h
    exact absurd rfl hk
  · rfl

/-- An enum in front of a line that starts in an error owes nothing. -/
lemma openEndsAll_append (xs ys : List Tree) : openEndsAll (xs ++ ys) +
    (endsInEnum xs && ys.head?.any startsInError).toNat = openEndsAll xs + openEndsAll ys := by
  induction xs with
  | nil => simp [endsInEnum, openEndsAll]
  | cons x xs ih =>
    cases xs with
    | nil =>
      simp only [endsInEnum, List.cons_append, List.nil_append, openEndsAll, owesEnd,
        List.getLast?_singleton, Option.any_some, List.head?_nil, Option.any_none, Bool.and_false,
        Bool.not_false, Bool.and_true]
      by_cases he : x.isOpenEnum = true
      · rw [he, lacksEnd_of_isOpenEnum he]
        cases ys.head?.any startsInError
        · simp
        · simp
          omega
      · simp [he]
    | cons y xs =>
      have hlast : endsInEnum (x :: y :: xs) = endsInEnum (y :: xs) := by
        simp [endsInEnum, List.getLast?_cons_cons]
      have hhead : ((y :: xs) ++ ys).head? = (y :: xs).head? := rfl
      rw [List.cons_append, openEndsAll, hhead, hlast, openEndsAll]
      omega

lemma openEndsAll_append_of {xs ys : List Tree}
    (h : endsInEnum xs = false ∨ ys.head?.any startsInError = false) :
    openEndsAll (xs ++ ys) = openEndsAll xs + openEndsAll ys := by
  have happend := openEndsAll_append xs ys
  rcases h with h | h <;> simpa [h] using happend

lemma endsInEnum_append {xs ys : List Tree} (hx : endsInEnum xs = false)
    (hy : endsInEnum ys = false) :
    endsInEnum (xs ++ ys) = false := by
  unfold endsInEnum at *
  rw [List.getLast?_append]
  cases h : ys.getLast? with
  | none => simpa using hx
  | some y => simpa [h] using hy

/-! ### Settled trees -/

/-- A tree in which no construct lacks its end, and that is no part of one. -/
structure Settled (t : Tree) : Prop where
  inside : t.openEnds = 0
  whole : t.lacksEnd = false
  part : ∀ k cs, t = node k cs → k ≠ .body ∧ k ≠ .ifClause ∧ k ≠ .onceClause

lemma openEndsAll_of_settled {ts : List Tree} (h : ∀ t ∈ ts, t.Settled) : openEndsAll ts = 0 := by
  induction ts with
  | nil => rfl
  | cons t ts ih =>
    obtain ⟨ht, hts⟩ := List.forall_mem_cons.1 h
    simp [openEndsAll, owesEnd, ht.inside, ht.whole, ih hts]

lemma endsInEnum_of_settled {ts : List Tree} (h : ∀ t ∈ ts, t.Settled) : endsInEnum ts = false := by
  unfold endsInEnum
  cases hlast : ts.getLast? with
  | none => rfl
  | some t => simpa using isOpenEnum_of_lacksEnd (h t (List.mem_of_getLast? hlast)).whole

lemma settled_node {k : Kind} {cs : List Tree} (hk : (node k cs).lacksEnd = false)
    (hpart : k ≠ .body ∧ k ≠ .ifClause ∧ k ≠ .onceClause) (h : ∀ c ∈ cs, c.Settled) :
    (node k cs).Settled := by
  refine ⟨openEndsAll_of_settled h, hk, ?_⟩
  rintro _ _ ⟨⟩
  exact hpart

/-- An error around settled trees, of which none is the keyword of an enum. -/
lemma lacksEnd_error {cs : List Tree} (h : ∀ c ∈ cs, c.Settled ∧ c.kind ≠ .enumKw) :
    (node .error cs).lacksEnd = false := by
  refine List.any_eq_false.2 fun c hc => ?_
  obtain ⟨hsettled, hkind⟩ := h c hc
  unfold isOpening
  split
  · exact absurd rfl (hsettled.part _ _ rfl).1
  · exact absurd rfl (hsettled.part _ _ rfl).2.1
  · exact absurd rfl (hsettled.part _ _ rfl).2.2
  · cases c with
    | leaf token => simpa [isTokenOf, Tree.kind] using hkind
    | node k cs => simp [isTokenOf]

end Tree

end DialogueScript

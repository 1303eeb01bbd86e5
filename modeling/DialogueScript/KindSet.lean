import DialogueScript.Kind

/-!
Sets of kinds. A set is one number whose bit `k.id` tells whether `k` is a member.
-/

namespace DialogueScript

structure KindSet where
  bits : Nat
deriving DecidableEq, Repr, Inhabited

namespace KindSet

def empty : KindSet := ⟨0⟩

def insert (s : KindSet) (k : Kind) : KindSet := ⟨s.bits ||| 1 <<< k.id⟩

def union (s t : KindSet) : KindSet := ⟨s.bits ||| t.bits⟩

def contains (s : KindSet) (k : Kind) : Bool := s.bits.testBit k.id

def ofList (ks : List Kind) : KindSet := ks.foldl insert empty

/-- The members in the order of the kinds. -/
def toList (s : KindSet) : List Kind := Kind.all.filter s.contains

/-- The numbers of the members between braces. -/
def display (s : KindSet) : String :=
  "\x7b" ++ ", ".intercalate (s.toList.map fun k => toString k.id) ++ "\x7d"

theorem contains_empty (k : Kind) : empty.contains k = false := by
  simp [contains, empty]

theorem contains_union (s t : KindSet) (k : Kind) :
    (s.union t).contains k = (s.contains k || t.contains k) := by
  simp [contains, union, Nat.testBit_or]

end KindSet

end DialogueScript

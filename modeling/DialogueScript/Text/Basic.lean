/-!
Text is a list of characters, and a position in it counts UTF-8 bytes from the start. A text can be
cut at a position only where a character starts or where the text ends.
-/

namespace DialogueScript

abbrev Text := List Char

/-- The bytes from `start` up to `stop`. -/
structure Range where
  start : Nat
  stop : Nat
deriving DecidableEq, Repr, Inhabited

namespace Range

/-- Refuses bounds in the wrong order. -/
def between? (start stop : Nat) : Option Range :=
  if start ≤ stop then some ⟨start, stop⟩ else none

def ofSize (start size : Nat) : Range := ⟨start, start + size⟩

def empty (position : Nat) : Range := ⟨position, position⟩

def size (r : Range) : Nat := r.stop - r.start

end Range

namespace Text

/-- The length in bytes. -/
def size : Text → Nat
  | [] => 0
  | c :: cs => c.utf8Size + size cs

@[simp] theorem size_append (s t : Text) : size (s ++ t) = size s + size t := by
  induction s with
  | nil => simp [size]
  | cons c s ih => simp [size, ih, Nat.add_assoc]

/-- Cuts a text in two at a position. -/
def cut? : Text → Nat → Option (Text × Text)
  | cs, 0 => some ([], cs)
  | [], _ + 1 => none
  | c :: cs, n + 1 =>
    if c.utf8Size ≤ n + 1 then
      (cut? cs (n + 1 - c.utf8Size)).map fun (before, after) => (c :: before, after)
    else none

theorem cut?_append (s t : Text) : cut? (s ++ t) (size s) = some (s, t) := by
  induction s with
  | nil => simp [size, cut?]
  | cons c s ih =>
    obtain ⟨n, hn⟩ : ∃ n, size (c :: s) = n + 1 :=
      ⟨size (c :: s) - 1, by have := c.utf8Size_pos; simp only [size]; omega⟩
    have hs : size s = n + 1 - c.utf8Size := by simp only [size] at hn; omega
    have hc : c.utf8Size ≤ n + 1 := by simp only [size] at hn; omega
    rw [hn, List.cons_append, cut?, if_pos hc, ← hs, ih]
    rfl

/-- The part of a text that a range covers. -/
def slice? (t : Text) (r : Range) : Option Text := do
  let (_, tail) ← cut? t r.start
  let (part, _) ← cut? tail r.size
  return part

theorem slice?_append (before part after : Text) :
    slice? (before ++ part ++ after) (.ofSize (size before) (size part)) = some part := by
  have h : Range.size (.ofSize (size before) (size part)) = size part := by
    simp [Range.size, Range.ofSize]
  rw [slice?, h, List.append_assoc]
  simp [Range.ofSize, cut?_append]

/-- Puts `insert` in the place of the bytes in `r`. -/
def replace? (t : Text) (r : Range) (insert : Text) : Option Text := do
  let (before, tail) ← cut? t r.start
  let (_, after) ← cut? tail r.size
  return before ++ insert ++ after

/-- Whether a text begins with the characters of `marker`. -/
def startsWith (t : Text) (marker : String) : Bool := marker.toList.isPrefixOf t

end Text

end DialogueScript

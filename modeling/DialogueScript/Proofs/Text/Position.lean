import DialogueScript.Text.Position
import Mathlib.Tactic.Common

/-!
Positions of a text: the byte offsets at which it can be cut. They are the sizes of the texts it
begins with. Ranges of a text that stand in a row cut it up.
-/

namespace DialogueScript

namespace Range

/-- A range of a part of a text that starts at `base`. -/
def moved (base : Nat) (r : Range) : Range := ⟨base + r.start, base + r.stop⟩

lemma ofSize_add (base n size : Nat) : ofSize (base + n) size = (ofSize n size).moved base := by
  simp [ofSize, moved, Nat.add_assoc]

/-- The ranges stand in a row: the first starts where `r` starts, each of the others where the one
before it stops, and the last stops where `r` stops. -/
def Tiles (r : Range) : List Range → Prop
  | [] => r.start = r.stop
  | s :: ss => s.start = r.start ∧ s.start ≤ s.stop ∧ Tiles ⟨s.stop, r.stop⟩ ss

namespace Tiles

variable {r : Range}

lemma append {n : Nat} {ss ts : List Range} (h : Tiles ⟨r.start, n⟩ ss)
    (h' : Tiles ⟨n, r.stop⟩ ts) :
    r.Tiles (ss ++ ts) := by
  induction ss generalizing r with
  | nil =>
    obtain rfl : r.start = n := h
    exact h'
  | cons s ss ih =>
    obtain ⟨h1, h2, h3⟩ := h
    exact ⟨h1, h2, ih (r := ⟨s.stop, r.stop⟩) h3 h'⟩

/-- Ranges in a row may each be cut up further. -/
lemma flatMap {α : Type} {place : α → Range} {parts : α → List Range} {cs : List α}
    (h : r.Tiles (cs.map place)) (hparts : ∀ c ∈ cs, (place c).Tiles (parts c)) :
    r.Tiles (cs.flatMap parts) := by
  induction cs generalizing r with
  | nil => exact h
  | cons c cs ih =>
    obtain ⟨h1, -, h3⟩ := h
    have hfirst := hparts c (by simp)
    have hrest := ih h3 fun d hd => hparts d (by simp [hd])
    exact append (n := (place c).stop) (h1 ▸ hfirst) hrest

/-- Of ranges in a row the first is the last or stops before the last starts. -/
lemma ends {ss : List Range} {first last : Range} (h : r.Tiles ss) (hfirst : ss.head? = some first)
    (hlast : ss.getLast? = some last) :
    r.start = first.start ∧ last.stop = r.stop ∧ (ss = [first] ∨ first.stop ≤ last.start) := by
  induction ss generalizing r first with
  | nil => simp at hfirst
  | cons s ss ih =>
    obtain rfl : s = first := by simpa using hfirst
    obtain ⟨h1, h2, h3⟩ := h
    rcases ss with _ | ⟨u, us⟩
    · obtain rfl : s = last := by simpa using hlast
      exact ⟨h1.symm, h3, .inl rfl⟩
    · obtain ⟨hu, hstop, hcase⟩ := ih h3 rfl (by simpa using hlast)
      refine ⟨h1.symm, hstop, .inr ?_⟩
      have := h3.2.1
      simp only at hu
      rcases hcase with hone | hle
      · obtain rfl : u = last := by simpa [hone] using hlast
        omega
      · omega

end Tiles

end Range

namespace Text

lemma size_pos {t : Text} (h : t ≠ []) : 0 < size t := by
  rcases t with _ | ⟨c, cs⟩
  · simp at h
  · have := c.utf8Size_pos
    simp only [size]
    omega

lemma size_eq_zero {t : Text} : size t = 0 ↔ t = [] := by
  refine ⟨fun h => ?_, fun h => by rw [h]; rfl⟩
  by_contra hne
  have := size_pos hne
  omega

/-- **A cut takes the text apart** at the size of its first part. -/
lemma cut?_eq_some {t before after : Text} {n : Nat} :
    cut? t n = some (before, after) ↔ t = before ++ after ∧ n = size before := by
  refine ⟨fun h => ?_, fun ⟨h1, h2⟩ => by rw [h1, h2, cut?_append]⟩
  induction t generalizing n before with
  | nil =>
    rcases n with _ | n
    · obtain ⟨rfl, rfl⟩ := by simpa [cut?] using h
      exact ⟨rfl, rfl⟩
    · simp [cut?] at h
  | cons c cs ih =>
    rcases n with _ | n
    · obtain ⟨rfl, rfl⟩ := by simpa [cut?] using h
      exact ⟨rfl, rfl⟩
    · rw [cut?] at h
      split_ifs at h with hc
      obtain ⟨⟨b, a⟩, hcut, heq⟩ := Option.map_eq_some_iff.1 h
      obtain ⟨rfl, rfl⟩ := by simpa using heq
      obtain ⟨rfl, hn⟩ := ih hcut
      refine ⟨rfl, ?_⟩
      simp only [size]
      omega

/-- A slice is a part of the text that stands where its range says. -/
lemma slice?_eq_some {t part : Text} {r : Range} :
    slice? t r = some part ↔
      ∃ before after, t = before ++ part ++ after ∧ r.start = size before ∧ r.size = size part := by
  simp only [slice?, Option.bind_eq_bind, Option.bind_eq_some_iff, Prod.exists, cut?_eq_some]
  constructor
  · rintro ⟨before, tail, ⟨rfl, hstart⟩, p, after, ⟨rfl, hsize⟩, hp⟩
    obtain rfl : p = part := by simpa using hp
    exact ⟨before, after, by simp, hstart, hsize⟩
  · rintro ⟨before, after, rfl, hstart, hsize⟩
    exact ⟨before, part ++ after, ⟨by simp, hstart⟩, part, after, ⟨rfl, hsize⟩, rfl⟩

lemma slice?_between (a z b : Text) : slice? (a ++ z ++ b) ⟨size a, size (a ++ z)⟩ = some z :=
  slice?_eq_some.2 ⟨a, b, rfl, rfl, by simp [Range.size]⟩

/-- Two ways to take a text apart at the same position are the same. -/
lemma append_inj_of_size {a b c d : Text} (h : a ++ b = c ++ d) (hs : size a = size c) :
    a = c ∧ b = d := by
  have h1 := cut?_append a b
  rw [h, hs, cut?_append] at h1
  simpa using h1.symm

/-- Where a text is taken apart behind `a`, a part `b` that is no shorter ends at or behind that
place. -/
lemma split_of_size_le {a b c r : Text} (h : b ++ c = a ++ r) (hle : size a ≤ size b) :
    ∃ z, b = a ++ z ∧ r = z ++ c := by
  rcases List.append_eq_append_iff.1 h with ⟨z, h1, h2⟩ | ⟨z, h1, h2⟩
  · obtain rfl : z = [] := by
      rw [h1, size_append] at hle
      exact size_eq_zero.1 (by omega)
    exact ⟨[], by simpa using h1.symm, h2.symm⟩
  · exact ⟨z, h1, h2⟩

/-- The part `b` that is longer reaches over that place. -/
lemma split_of_size_lt {a b c r : Text} (h : b ++ c = a ++ r) (hlt : size a < size b) :
    ∃ z, z ≠ [] ∧ b = a ++ z ∧ r = z ++ c := by
  obtain ⟨z, rfl, hr⟩ := split_of_size_le h (Nat.le_of_lt hlt)
  refine ⟨z, ?_, rfl, hr⟩
  rintro rfl
  simp at hlt

end Text

end DialogueScript

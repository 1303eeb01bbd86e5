import Mathlib.Algebra.Order.Field.Rat
import Mathlib.Tactic.FieldSimp
import Mathlib.Tactic.Linarith
import Mathlib.Tactic.Positivity
import Mathlib.Tactic.Ring
import DialogueScript.Ast.Expr

/-!
# The nearest number of double precision

The order of the bits is the order of the numbers, so the numbers that may be next to a decimal are
the last one that is not above it and its successor.
-/

namespace DialogueScript

namespace Double

/-! ### The order of the bits -/

section
variable {b s k n m : Nat}

lemma units_eq (b : Nat) : units b = if b / 2 ^ 52 = 0 then b % 2 ^ 52
    else (2 ^ 52 + b % 2 ^ 52) * 2 ^ (b / 2 ^ 52 - 1) := rfl

lemma next_eq (n m : Nat) : next n m = min (((n / m).log2 - 52) * 2 ^ 52 +
    divEven n (m * 2 ^ ((n / m).log2 - 52))) infinity := rfl

/-- The numbers between two powers of two lie `2 ^ s` units apart. -/
lemma units_grid (hs : s = 0 ∨ 2 ^ 52 ≤ k) (hk : k ≤ 2 ^ 53) :
    units (s * 2 ^ 52 + k) = k * 2 ^ s := by
  rw [units_eq]
  rcases Nat.lt_or_ge k (2 ^ 52) with hlow | hlow
  · obtain rfl : s = 0 := by omega
    rw [if_pos (by omega)]
    omega
  rcases Nat.lt_or_ge k (2 ^ 53) with hhigh | hhigh
  · have hexponent : (s * 2 ^ 52 + k) / 2 ^ 52 = s + 1 := by omega
    have hfraction : 2 ^ 52 + (s * 2 ^ 52 + k) % 2 ^ 52 = k := by omega
    rw [hexponent, hfraction, if_neg (by omega), Nat.add_sub_cancel]
  · have hexponent : (s * 2 ^ 52 + k) / 2 ^ 52 = s + 2 := by omega
    have hfraction : (s * 2 ^ 52 + k) % 2 ^ 52 = 0 := by omega
    obtain rfl : k = 2 ^ 53 := by omega
    rw [hexponent, hfraction, if_neg (by omega), show s + 2 - 1 = s + 1 from rfl, pow_succ]
    omega

/-- All bits lie on one of these grids, and the next ones too. -/
lemma exists_grid (b : Nat) :
    ∃ s k, b = s * 2 ^ 52 + k ∧ (s = 0 ∨ 2 ^ 52 ≤ k) ∧ k < 2 ^ 53 := by
  rcases Nat.eq_zero_or_pos (b / 2 ^ 52) with h | h
  · exact ⟨0, b, by omega, .inl rfl, by omega⟩
  · exact ⟨b / 2 ^ 52 - 1, 2 ^ 52 + b % 2 ^ 52, by omega, .inr (by omega), by omega⟩

lemma units_strictMono : StrictMono units := by
  refine strictMono_nat_of_lt_succ fun b => ?_
  obtain ⟨s, k, rfl, hs, hk⟩ := exists_grid b
  rw [units_grid hs (by omega), add_assoc, units_grid (by omega) (by omega)]
  exact Nat.mul_lt_mul_of_pos_right (by omega) (by positivity)

end

/-- The number that some bits stand for. -/
def value (b : Nat) : ℚ := units b / 2 ^ bitPlaces

lemma value_strictMono : StrictMono value := fun _ _ h =>
  div_lt_div_of_pos_right (Nat.cast_lt.2 (units_strictMono h)) (by positivity)

/-! ### What is next to a number -/

/-- Finite bits, of which no other ones stand for a number that is nearer to `x`. They are even
where others stand for one that is as near. -/
structure IsNext (x : ℚ) (b : Nat) : Prop where
  finite : b < infinity
  nearest : ∀ c < infinity, |value b - x| ≤ |value c - x|
  even : ∀ c < infinity, c ≠ b → |value c - x| = |value b - x| → b % 2 = 0

/-- **There is only one number next to a given one.** -/
theorem IsNext.unique {x : ℚ} {b c : Nat} (hb : IsNext x b) (hc : IsNext x c) : b = c := by
  -- two bits that are as near are even, and what lies between them is nearer
  have hno : ∀ {b c : Nat}, IsNext x b → IsNext x c → ¬ b < c := by
    intro b c hb hc hlt
    have hsame := le_antisymm (hb.nearest c hc.finite) (hc.nearest b hb.finite)
    have heven := hb.even c hc.finite (by omega) hsame.symm
    have heven' := hc.even b hb.finite (by omega) hsame
    have hleft := value_strictMono (show b < b + 1 by omega)
    have hright := value_strictMono (show b + 1 < c by omega)
    have hnearest := hb.nearest (b + 1) (by have := hc.finite; omega)
    rcases abs_cases (value b - x) with h | h <;> rcases abs_cases (value c - x) with h' | h' <;>
      rcases abs_cases (value (b + 1) - x) with h'' | h'' <;> linarith
  exact Nat.le_antisymm (not_lt.1 (hno hc hb)) (not_lt.1 (hno hb hc))

section
variable {x : ℚ} {b : Nat}

/-- Below a number that is not above `x`, all are farther away. -/
lemma distance_below (hle : value b ≤ x) {c : Nat} (hc : c ≤ b) :
    x - value b ≤ |value c - x| ∧ (|value c - x| = x - value b → c = b) := by
  have hmono := value_strictMono.monotone hc
  rw [abs_sub_comm, abs_of_nonneg (by linarith)]
  exact ⟨by linarith, fun h => value_strictMono.injective (by linarith)⟩

/-- Above a number that is not below `x`, all are farther away. -/
lemma distance_above (hle : x ≤ value b) {c : Nat} (hc : b ≤ c) :
    value b - x ≤ |value c - x| ∧ (|value c - x| = value b - x → c = b) := by
  have hmono := value_strictMono.monotone hc
  rw [abs_of_nonneg (by linarith)]
  exact ⟨by linarith, fun h => value_strictMono.injective (by linarith)⟩

/-- The number below is next if the one above is not nearer. -/
lemma IsNext.of_below (hle : value b ≤ x) (hge : x ≤ value (b + 1))
    (hnear : x - value b ≤ value (b + 1) - x)
    (heven : x - value b = value (b + 1) - x → b % 2 = 0) (hb : b < infinity) : IsNext x b := by
  have hhere : |value b - x| = x - value b := by rw [abs_sub_comm, abs_of_nonneg (by linarith)]
  refine ⟨hb, fun c _ => ?_, fun c _ hne hsame => heven ?_⟩ <;> rw [hhere] at *
  · rcases Nat.lt_or_ge b c with hc | hc
    · exact hnear.trans (distance_above hge hc).1
    · exact (distance_below hle hc).1
  · rcases Nat.lt_or_ge b c with hc | hc
    · exact le_antisymm hnear (hsame ▸ (distance_above hge hc).1)
    · exact absurd ((distance_below hle hc).2 hsame) hne

/-- The number above is next if the one below is not nearer. -/
lemma IsNext.of_above (hle : value b ≤ x) (hge : x ≤ value (b + 1))
    (hnear : value (b + 1) - x ≤ x - value b)
    (heven : value (b + 1) - x = x - value b → (b + 1) % 2 = 0) (hb : b + 1 < infinity) :
    IsNext x (b + 1) := by
  have hhere : |value (b + 1) - x| = value (b + 1) - x := abs_of_nonneg (by linarith)
  refine ⟨hb, fun c _ => ?_, fun c _ hne hsame => heven ?_⟩ <;> rw [hhere] at *
  · rcases Nat.lt_or_ge b c with hc | hc
    · exact (distance_above hge hc).1
    · exact hnear.trans (distance_below hle hc).1
  · rcases Nat.lt_or_ge b c with hc | hc
    · exact absurd ((distance_above hge hc).2 hsame) hne
    · exact le_antisymm hnear (hsame ▸ (distance_below hle hc).1)

end

/-! ### Rounding -/

/-- The quotient, less the bits that do not fit, has its place on the grid. -/
lemma shifted_bounds (a : Nat) :
    (a.log2 - 52 = 0 ∨ 2 ^ 52 ≤ a / 2 ^ (a.log2 - 52)) ∧ a / 2 ^ (a.log2 - 52) < 2 ^ 53 := by
  have hlt : a < 2 ^ (a.log2 + 1) := Nat.lt_log2_self
  rcases Nat.lt_or_ge 52 a.log2 with h | h
  · have hle : 2 ^ a.log2 ≤ a := Nat.log2_self_le (by rintro rfl; simp at h)
    rw [show a.log2 + 1 = 53 + (a.log2 - 52) by omega, pow_add] at hlt
    have hsplit : 2 ^ 52 * 2 ^ (a.log2 - 52) ≤ a := by rwa [← pow_add, Nat.add_sub_cancel' h.le]
    exact ⟨.inr ((Nat.le_div_iff_mul_le (by positivity)).2 hsplit),
      (Nat.div_lt_iff_lt_mul (by positivity)).2 hlt⟩
  · have hshift : a.log2 - 52 = 0 := by omega
    have := Nat.pow_le_pow_right (show 0 < 2 by omega) (show a.log2 + 1 ≤ 53 by omega)
    rw [hshift, pow_zero, Nat.div_one]
    exact ⟨.inl rfl, by omega⟩

/-- Where a quotient stands between two numbers that follow each other, and what it is rounded to:
`r` is left over from the lower one, and `u` is how far apart they are. -/
lemma next_cases (n : Nat) {m : Nat} (hm : 0 < m) : ∃ b, ∃ r u : ℚ, (n / m : ℚ) = units b + r ∧
    (units (b + 1) : ℚ) = units b + u ∧ 0 ≤ r ∧ r < u ∧
    next n m = min (if 2 * r < u ∨ 2 * r = u ∧ b % 2 = 0 then b else b + 1) infinity := by
  obtain ⟨hs, hq⟩ := shifted_bounds (n / m)
  rw [next_eq]
  generalize (n / m).log2 - 52 = s at hs hq ⊢
  rw [Nat.div_div_eq_div_mul] at hs hq
  have hpos : 0 < m * 2 ^ s := by positivity
  have hlt := Nat.mod_lt n hpos
  have hdiv := Nat.div_add_mod' n (m * 2 ^ s)
  have hround : divEven n (m * 2 ^ s) = if 2 * (n % (m * 2 ^ s)) < m * 2 ^ s ∨
      2 * (n % (m * 2 ^ s)) = m * 2 ^ s ∧ n / (m * 2 ^ s) % 2 = 0 then n / (m * 2 ^ s)
        else n / (m * 2 ^ s) + 1 := rfl
  generalize n / (m * 2 ^ s) = q at hs hq hdiv hround
  generalize n % (m * 2 ^ s) = r at hlt hdiv hround
  have hparity : (s * 2 ^ 52 + q) % 2 = q % 2 := by omega
  have hfloor := units_grid hs (by omega)
  have hceil := units_grid (s := s) (k := q + 1) (by omega) (by omega)
  have hmq : (0 : ℚ) < m := Nat.cast_pos.2 hm
  refine ⟨s * 2 ^ 52 + q, r / m, 2 ^ s, ?_, ?_, by positivity, ?_, ?_⟩
  · rw [hfloor, ← hdiv, div_eq_iff hmq.ne']
    push_cast
    field_simp
  · rw [hfloor, add_assoc, hceil]
    push_cast
    ring
  · rw [div_lt_iff₀ hmq, mul_comm]
    exact_mod_cast hlt
  · have hbelow : (2 * (r / m : ℚ) < 2 ^ s) ↔ 2 * r < m * 2 ^ s := by
      rw [mul_div_assoc', div_lt_iff₀ hmq, mul_comm (2 ^ s)]
      norm_cast
    have hmiddle : (2 * (r / m : ℚ) = 2 ^ s) ↔ 2 * r = m * 2 ^ s := by
      rw [mul_div_assoc', div_eq_iff hmq.ne', mul_comm (2 ^ s)]
      norm_cast
    simp only [hround, hparity, hbelow, hmiddle, ← add_ite, add_assoc]

/-- Half way between the last finite number and what infinity would stand for. -/
def limit : ℚ := (2 ^ 54 - 1) * 2 ^ 970

lemma limit_eq : 2 * limit = value (infinity - 1) + value infinity := by
  have hinfinity : infinity = 2045 * 2 ^ 52 + 2 ^ 53 := by decide
  have hlast : infinity - 1 = 2045 * 2 ^ 52 + (2 ^ 53 - 1) := by decide
  have hpow : (2 : ℚ) ^ 2045 = 2 * (2 ^ 970 * 2 ^ bitPlaces) := by
    rw [← pow_add, ← pow_succ', bitPlaces]
  rw [value, value, hlast, hinfinity, units_grid (by omega) (by omega),
    units_grid (by omega) le_rfl,
    limit, ← add_div, eq_div_iff (by positivity), Nat.cast_mul, Nat.cast_mul, Nat.cast_pow,
    Nat.cast_ofNat, hpow]
  generalize (2 : ℚ) ^ 970 = a
  push_cast
  ring

end Double

/-! ### Decimals -/

namespace Decimal

open Double

/-- The number that a decimal is. -/
def value (d : Decimal) : ℚ := d.digits / 10 ^ d.places

/-- Where a decimal stands between two numbers of double precision that follow each other, and what
it is rounded to. -/
lemma bits_cases (d : Decimal) : ∃ b, ∃ r u : ℚ, d.value = Double.value b + r ∧
    Double.value (b + 1) = Double.value b + u ∧ 0 ≤ r ∧ r < u ∧
    d.bits.toNat = min (if 2 * r < u ∨ 2 * r = u ∧ b % 2 = 0 then b else b + 1) infinity := by
  have hscale : (0 : ℚ) < 2 ^ bitPlaces := by positivity
  have hlt : next (d.digits * 2 ^ bitPlaces) (10 ^ d.places) < UInt64.size :=
    lt_of_le_of_lt (min_le_right _ _) (by decide)
  obtain ⟨b, r, u, hn, hu, hr, hru, hnext⟩ :=
    next_cases (d.digits * 2 ^ bitPlaces) (m := 10 ^ d.places) (by positivity)
  have hvalue : d.value = (units b + r) / 2 ^ bitPlaces := by
    rw [← hn, value, Nat.cast_mul, Nat.cast_pow, Nat.cast_pow, Nat.cast_ofNat, Nat.cast_ofNat,
      div_right_comm, mul_div_cancel_right₀ _ hscale.ne']
  refine ⟨b, r / 2 ^ bitPlaces, u / 2 ^ bitPlaces, ?_, ?_, by positivity,
    div_lt_div_of_pos_right hru hscale, ?_⟩
  · rw [hvalue, Double.value, add_div]
  · rw [Double.value, Double.value, hu, add_div]
  · have hbits : d.bits = .ofNat (next (d.digits * 2 ^ bitPlaces) (10 ^ d.places)) := rfl
    rw [hbits, UInt64.toNat_ofNat_of_lt' hlt, hnext]
    simp only [mul_div_assoc', div_lt_div_iff_of_pos_right hscale, div_left_inj' hscale.ne']

/-- **A decimal is read as the nearest number of double precision**, unless it is nearer to
infinity. -/
theorem bits_isNext (d : Decimal) (h : d.value < limit) : IsNext d.value d.bits.toNat := by
  obtain ⟨b, r, u, hvalue, hsucc, hr, hru, hbits⟩ := d.bits_cases
  have hlimit := limit_eq
  have hinfinity := value_strictMono (show infinity - 1 < infinity by decide)
  have hb : b < infinity := by
    refine lt_of_not_ge fun hge => ?_
    have := value_strictMono.monotone hge
    linarith
  by_cases hdown : 2 * r < u ∨ 2 * r = u ∧ b % 2 = 0
  · rw [hbits, if_pos hdown, min_eq_left hb.le]
    refine .of_below ?_ ?_ ?_ (fun heq => ?_) hb
    · linarith
    · linarith
    · rcases hdown with h | h <;> linarith
    · rcases hdown with h | h
      · linarith
      · exact h.2
  · rw [not_or, not_lt] at hdown
    have hb' : b + 1 < infinity := by
      refine lt_of_le_of_ne hb fun hlast => ?_
      rw [← hlast, Nat.add_sub_cancel, hsucc] at hlimit
      linarith
    rw [hbits, if_neg (by simpa using hdown), min_eq_left hb'.le]
    refine .of_above ?_ ?_ ?_ (fun heq => ?_) hb'
    · linarith
    · linarith
    · linarith
    · have : ¬ b % 2 = 0 := fun h => hdown.2 ⟨by linarith, h⟩
      omega

/-- **A decimal that is too large is read as infinity.** -/
theorem bits_infinity (d : Decimal) (h : limit ≤ d.value) : d.bits.toNat = infinity := by
  obtain ⟨b, r, u, hvalue, hsucc, hr, hru, hbits⟩ := d.bits_cases
  have hlimit := limit_eq
  have hinfinity := value_strictMono (show infinity - 1 < infinity by decide)
  rw [hbits]
  refine min_eq_right ?_
  rcases Nat.lt_trichotomy (b + 1) infinity with hlt | heq | hgt
  · have := value_strictMono.monotone (Nat.le_sub_one_of_lt hlt)
    linarith
  · rw [← heq, Nat.add_sub_cancel, hsucc] at hlimit
    have hodd : b % 2 ≠ 0 := by
      have : infinity % 2 = 0 := by decide
      omega
    rw [if_neg]
    · exact heq.ge
    · rintro (hlt | ⟨-, heven⟩)
      · linarith
      · exact hodd heven
  · split <;> omega

/-- `b` are the bits of the number next to a decimal, or those of infinity if it is too large. -/
def RoundsTo (d : Decimal) (b : UInt64) : Prop :=
  if d.value < limit then IsNext d.value b.toNat else b.toNat = infinity

/-- **The bits of a decimal are those that it rounds to**, and no others are. -/
theorem roundsTo_iff {d : Decimal} {b : UInt64} : d.RoundsTo b ↔ d.bits = b := by
  unfold RoundsTo
  split
  · next h =>
    refine ⟨fun hb => UInt64.toNat_inj.1 ((d.bits_isNext h).unique hb), ?_⟩
    rintro rfl
    exact d.bits_isNext h
  · next h =>
    rw [← UInt64.toNat_inj, d.bits_infinity (not_lt.1 h)]
    exact eq_comm

end Decimal

end DialogueScript

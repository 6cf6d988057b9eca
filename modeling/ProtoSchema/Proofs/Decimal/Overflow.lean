import Mathlib
import ProtoSchema.Decimal.Nearest

/-!
# Integers beyond all doubles

The largest finite double is `2 ^ 1024 - 2 ^ 971`, and what lies halfway to the next power of two
is rounded up, since `2 ^ 53` is even. So the integers that are rounded to an infinity are those
from `2 ^ 1024 - 2 ^ 970` on.
-/

namespace ProtoSchema.Decimal

/-- The least natural that no finite double is nearest to. -/
def overflowBound : Nat := twoTo 1024 - twoTo 970

theorem twoTo_pos (k : Nat) : 0 < twoTo k := Nat.two_pow_pos k

theorem twoTo_add (j k : Nat) : twoTo (j + k) = twoTo j * twoTo k := Nat.pow_add 2 j k

theorem twoTo_mono {j k : Nat} (h : j ≤ k) : twoTo j ≤ twoTo k :=
  Nat.pow_le_pow_right (by decide) h

/-- The bound in steps of half the distance between the largest doubles. -/
theorem overflowBound_eq : overflowBound = (twoTo 54 - 1) * twoTo 970 := by
  rw [overflowBound, show 1024 = 54 + 970 from rfl, twoTo_add, Nat.sub_mul, one_mul]

/-! ## Rounding -/

theorem le_roundQuotient (n d : Nat) : n / d ≤ roundQuotient n d := by
  unfold roundQuotient
  simp only
  split_ifs <;> omega

theorem roundQuotient_le (n d : Nat) : roundQuotient n d ≤ n / d + 1 := by
  unfold roundQuotient
  simp only
  split_ifs <;> omega

/-- A rounded quotient is below an even bound just if the quotient is less than half a step below
it. -/
theorem roundQuotient_lt_iff_of_even {n d bound : Nat} (hd : 0 < d) (heven : bound % 2 = 0) :
    roundQuotient n d < bound ↔ 2 * n + d < 2 * bound * d := by
  have hsplit : d * (n / d) + n % d = n := Nat.div_add_mod n d
  have hrest : n % d < d := Nat.mod_lt n hd
  unfold roundQuotient
  simp only
  generalize n / d = q at *
  generalize n % d = r at *
  subst hsplit
  -- the bound is compared with the quotient in steps of the divisor
  have hless (k : Nat) (h : q + k ≤ bound) : (q + k) * d ≤ bound * d := Nat.mul_le_mul_right d h
  have hmore (k : Nat) (h : bound ≤ q + k) : bound * d ≤ (q + k) * d := Nat.mul_le_mul_right d h
  split_ifs with hdown hup
  · constructor
    · intro h
      have := hless 1 h
      nlinarith
    · intro h
      by_contra hge
      have := hmore 0 (Nat.le_of_not_lt hge)
      nlinarith
  · constructor
    · intro h
      have := hless 2 h
      nlinarith
    · intro h
      by_contra hge
      have := hmore 1 (Nat.le_of_not_lt hge)
      nlinarith
  · constructor
    · intro h
      -- the quotient is rounded to an even number, so that it stays two below the bound
      have hlow : q + 2 ≤ bound := by omega
      have := hless 2 hlow
      nlinarith
    · intro h
      by_contra hge
      have hhigh : bound ≤ q + 1 := by omega
      have := hmore 1 hhigh
      nlinarith

/-! ## The double nearest to a natural -/

/-- The bits of a natural between two powers of two. -/
theorem binaryExponent_one {n : Nat} (hn : n ≠ 0) : binaryExponent n 1 = (n.log2 : Int) - 52 := by
  have hlow : twoTo n.log2 ≤ n := Nat.log2_self_le hn
  have hscale : ¬ n * twoTo (-((n.log2 : Int) - 52)).toNat <
      1 * twoTo ((n.log2 : Int) - 52).toNat * twoTo 52 := by
    have hexponent : ((n.log2 : Int) - 52).toNat + 52 =
        n.log2 + (-((n.log2 : Int) - 52)).toNat := by omega
    rw [not_lt, one_mul, ← twoTo_add, hexponent, twoTo_add]
    exact Nat.mul_le_mul_right _ hlow
  have hone : Nat.log2 1 = 0 := by decide
  unfold binaryExponent
  simp only [hone, Nat.cast_zero, sub_zero, if_neg hscale]
  omega

/-- The rounded mantissa of a natural has 53 binary digits, or is the first number with more. -/
theorem roundScaled_one {n : Nat} (hn : n ≠ 0) :
    twoTo 52 ≤ roundScaled n 1 ((n.log2 : Int) - 52) ∧
      roundScaled n 1 ((n.log2 : Int) - 52) ≤ twoTo 53 := by
  have hlow : twoTo n.log2 ≤ n := Nat.log2_self_le hn
  have hhigh : n < twoTo (n.log2 + 1) := Nat.lt_log2_self
  unfold roundScaled
  rw [one_mul]
  generalize hup : (-((n.log2 : Int) - 52)).toNat = up
  generalize hdown : ((n.log2 : Int) - 52).toNat = down
  have hexponent : n.log2 + up = 52 + down := by omega
  have hlow' : twoTo 52 * twoTo down ≤ n * twoTo up := by
    rw [← twoTo_add, ← hexponent, twoTo_add]
    exact Nat.mul_le_mul_right _ hlow
  have hhigh' : n * twoTo up < twoTo 53 * twoTo down := by
    have hexponent' : 53 + down = n.log2 + 1 + up := by omega
    rw [← twoTo_add, hexponent', twoTo_add]
    exact Nat.mul_lt_mul_of_pos_right hhigh (twoTo_pos up)
  have hquotient := (Nat.le_div_iff_mul_le (twoTo_pos down)).mpr hlow'
  have hquotient' := (Nat.div_lt_iff_lt_mul (twoTo_pos down)).mpr hhigh'
  exact ⟨hquotient.trans (le_roundQuotient _ _), (roundQuotient_le _ _).trans hquotient'⟩

/-- The naturals that some finite double is nearest to are those below the bound. -/
theorem nearestBits_lt_infinityBits {n : Nat} :
    nearestBits n 1 < infinityBits ↔ n < overflowBound := by
  have hunit : twoTo 52 = 4503599627370496 := rfl
  have hunit' : twoTo 53 = 9007199254740992 := rfl
  have hunit'' : twoTo 54 = 18014398509481984 := rfl
  have hinfinity : infinityBits = 2047 * twoTo 52 := rfl
  have hhalf := twoTo_pos 970
  by_cases hn : n = 0
  · rw [nearestBits, if_pos hn, hinfinity, overflowBound_eq, hn, hunit'']
    omega
  have hlow : twoTo n.log2 ≤ n := Nat.log2_self_le hn
  have hhigh : n < twoTo (n.log2 + 1) := Nat.lt_log2_self
  obtain ⟨hmantissa, hmantissa'⟩ := roundScaled_one hn
  have hexponent : ((n.log2 : Int) - 52 + 1074).toNat = n.log2 + 1022 := by omega
  rw [nearestBits, if_neg hn, binaryExponent_one hn, min_lt_iff, hexponent, hinfinity,
    overflowBound_eq]
  simp only [lt_irrefl, false_or]
  rcases lt_trichotomy n.log2 1023 with hlog | hlog | hlog
  · -- two steps of the exponent are left, and the mantissa takes one of them at most
    have hsmall : n < twoTo 53 * twoTo 970 := by
      rw [← twoTo_add]
      exact hhigh.trans_le (twoTo_mono (by omega))
    constructor
    · intro _
      rw [hunit'']
      rw [hunit'] at hsmall
      omega
    · intro _
      have := Nat.mul_le_mul_right (twoTo 52) (show n.log2 + 1022 ≤ 2044 by omega)
      omega
  · -- with the largest exponent it depends on the rounding of the mantissa
    have hdouble : twoTo 1 = 2 := rfl
    have hstep : twoTo 971 = 2 * twoTo 970 := by
      rw [← hdouble, ← twoTo_add]
    have hrounded : roundScaled n 1 ((n.log2 : Int) - 52) = roundQuotient n (twoTo 971) := by
      have hdown : ((n.log2 : Int) - 52).toNat = 971 := by omega
      have hup : (-((n.log2 : Int) - 52)).toNat = 0 := by omega
      have hone : twoTo 0 = 1 := rfl
      rw [roundScaled, hdown, hup, hone, one_mul, mul_one]
    rw [hrounded, hlog, show (1023 + 1022) * twoTo 52 + roundQuotient n (twoTo 971) <
      2047 * twoTo 52 ↔ roundQuotient n (twoTo 971) < twoTo 53 by omega,
      roundQuotient_lt_iff_of_even (twoTo_pos 971) (by rw [hunit']), hstep, hunit', hunit'']
    omega
  · -- no step of the exponent is left
    have hlarge : twoTo 54 * twoTo 970 ≤ n := by
      rw [← twoTo_add]
      exact (twoTo_mono (by omega)).trans hlow
    constructor
    · intro h
      have := Nat.mul_le_mul_right (twoTo 52) (show 2046 ≤ n.log2 + 1022 by omega)
      omega
    · intro h
      rw [hunit''] at h hlarge
      omega

/-- An integer has no nearest double just if it is beyond all finite doubles. -/
theorem ofInt?_eq_none {i : Int} : ofInt? i = none ↔ overflowBound ≤ i.natAbs := by
  rw [← not_lt, ← nearestBits_lt_infinityBits]
  unfold ofInt?
  simp

end ProtoSchema.Decimal

import Mathlib.Tactic.Common
import Mathlib.Algebra.Group.Nat.Defs
import Mathlib.Algebra.Group.Int.Defs

/-!
# Fixed-point conversions

A conversion multiplies a natural number by a fraction, or shifts it by a signed number of bits, and
rounds down. Converting back and forth never gives more than there was at the start, and loses at
most what the rounding took away. Numbers are unbounded here.
-/

namespace FixedPoint

/-- The product with the fraction `numerator / denominator`, rounded down. -/
def scale (numerator denominator value : Nat) : Nat :=
  value * numerator / denominator

/-- The value shifted left, or right by a negative count. -/
def shift (count : Int) (value : Nat) : Nat :=
  if count < 0 then value / 2 ^ (-count).toNat else value * 2 ^ count.toNat

variable {numerator denominator : Nat} {count : Int} {value larger : Nat}

theorem scale_mono (numerator denominator : Nat) (h : value ≤ larger) :
    scale numerator denominator value ≤ scale numerator denominator larger :=
  Nat.div_le_div_right (Nat.mul_le_mul_right _ h)

theorem scale_lt_iff (hpos : 0 < denominator) {bound : Nat} :
    scale numerator denominator value < bound ↔ value * numerator < bound * denominator :=
  Nat.div_lt_iff_lt_mul hpos

/-- Converting two values apart loses at most one unit against converting their sum. -/
theorem scale_add_le (hpos : 0 < denominator) (value more : Nat) :
    scale numerator denominator (value + more) ≤
      scale numerator denominator value + (scale numerator denominator more + 1) := by
  rw [scale, Nat.add_mul, Nat.add_div hpos, ← Nat.add_assoc]
  refine Nat.add_le_add_left ?_ _
  split
  · exact Nat.le_refl 1
  · exact Nat.zero_le 1

theorem scale_scale_le (numerator denominator value : Nat) :
    scale denominator numerator (scale numerator denominator value) ≤ value := by
  refine Nat.div_le_of_le_mul ?_
  rw [Nat.mul_comm numerator value]
  exact Nat.div_mul_le_self _ _

/-- Converting back a value that is short of the converted one by less than `error`, by a fraction
that is at most one, loses at most `error`. -/
theorem le_scale_add (hdenominator : 0 < denominator) (hle : denominator ≤ numerator)
    {short error : Nat} (hshort : scale numerator denominator value < short + error) :
    value ≤ scale denominator numerator short + error := by
  have hnumerator : 0 < numerator := Nat.lt_of_lt_of_le hdenominator hle
  have hlow : value * numerator < (short + error) * denominator :=
    (scale_lt_iff hdenominator).mp hshort
  have hback : short * denominator < (scale denominator numerator short + 1) * numerator := by
    rw [Nat.mul_comm (_ + 1)]
    exact Nat.lt_mul_div_succ _ hnumerator
  have herror : error * denominator ≤ error * numerator := Nat.mul_le_mul_left error hle
  have hsum : value * numerator <
      (scale denominator numerator short + 1 + error) * numerator := by
    calc value * numerator
        < short * denominator + error * denominator := by rw [← Nat.add_mul]; exact hlow
      _ ≤ (scale denominator numerator short + 1) * numerator + error * numerator :=
          Nat.add_le_add (Nat.le_of_lt hback) herror
      _ = (scale denominator numerator short + 1 + error) * numerator := (Nat.add_mul _ _ _).symm
  have hlt := Nat.lt_of_mul_lt_mul_right hsum
  omega

theorem shift_mono (count : Int) (h : value ≤ larger) : shift count value ≤ shift count larger := by
  unfold shift
  split
  · exact Nat.div_le_div_right h
  · exact Nat.mul_le_mul_right _ h

@[simp] theorem shift_zero (count : Int) : shift count 0 = 0 := by
  simp [shift]

/-- What a larger value has more is shifted to the left, or counts as it is. -/
theorem shift_add_le (count : Int) (value more : Nat) :
    shift count (value + more) ≤ shift count value + more * 2 ^ count.toNat := by
  unfold shift
  split
  · next hneg =>
    have hnone : count.toNat = 0 := by omega
    rw [hnone, Nat.pow_zero, Nat.mul_one, ← Nat.add_mul_div_right _ _ (Nat.two_pow_pos _)]
    exact Nat.div_le_div_right
      (Nat.add_le_add_left (Nat.le_mul_of_pos_right _ (Nat.two_pow_pos _)) _)
  · exact Nat.le_of_eq (Nat.add_mul _ _ _)

theorem shift_shift_neg_le (count : Int) (value : Nat) : shift count (shift (-count) value) ≤ value := by
  rcases Int.lt_trichotomy count 0 with hneg | rfl | hpos
  · -- to the left and back to the right nothing is lost
    have hleft : ¬ -count < 0 := by omega
    rw [shift, shift, if_pos hneg, if_neg hleft]
    exact Nat.le_of_eq (Nat.mul_div_cancel _ (Nat.two_pow_pos _))
  · simp [shift]
  · have hright : -count < 0 := by omega
    have hleft : ¬ count < 0 := by omega
    rw [shift, shift, if_neg hleft, if_pos hright, Int.neg_neg]
    exact Nat.div_mul_le_self _ _

/-- Shifting to the right and back loses less than the last bit that remains. -/
theorem lt_shift_shift_neg_add (count : Int) (value : Nat) :
    value < shift count (shift (-count) value) + 2 ^ count.toNat := by
  rcases Int.lt_trichotomy count 0 with hneg | rfl | hpos
  · have hleft : ¬ -count < 0 := by omega
    have hnone : count.toNat = 0 := by omega
    rw [shift, shift, if_pos hneg, if_neg hleft, hnone, Nat.mul_div_cancel _ (Nat.two_pow_pos _)]
    exact Nat.lt_succ_self value
  · simp [shift]
  · have hright : -count < 0 := by omega
    have hleft : ¬ count < 0 := by omega
    rw [shift, shift, if_neg hleft, if_pos hright, Int.neg_neg, ← Nat.succ_mul, Nat.mul_comm]
    exact Nat.lt_mul_div_succ _ (Nat.two_pow_pos _)

end FixedPoint

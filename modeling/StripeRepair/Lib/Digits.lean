import Mathlib.Data.Nat.Basic
import Mathlib.Algebra.Order.Ring.Nat
import Mathlib.Tactic.Ring

/-!
# Numbers as vectors of digits

The numbers below `q ^ t` are the vectors of `t` digits in base `q`. A digit is named by its
place, the exponent of its weight.

* `digit_setDigit_self`, `digit_setDigit_of_ne`: replacing a digit.
* `setDigit_back`: the old digit is put back.
-/

namespace Digits

/-- The digit at place `e`. -/
def digit (q e z : Nat) : Nat := z / q ^ e % q

/-- The digit at place `e` replaced by `x`. -/
def setDigit (q e x z : Nat) : Nat := z + x * q ^ e - digit q e z * q ^ e

section
variable {q : Nat}

theorem digit_lt (hq : 0 < q) (e z : Nat) : digit q e z < q := Nat.mod_lt _ hq

/-- What stands above a place, the digit there, and what stands below. -/
theorem eq_split (q e z : Nat) :
    z = z / q ^ (e + 1) * q ^ (e + 1) + digit q e z * q ^ e + z % q ^ e := by
  have h1 := Nat.div_add_mod z (q ^ e)
  have h2 := Nat.div_add_mod (z / q ^ e) q
  have hpow : q ^ (e + 1) = q ^ e * q := Nat.pow_succ q e
  have hdiv : z / q ^ e / q = z / q ^ (e + 1) := by rw [Nat.div_div_eq_div_mul, hpow]
  have hdigit : z / q ^ e % q = digit q e z := rfl
  rw [hdiv, hdigit] at h2
  calc z = q ^ e * (q * (z / q ^ (e + 1)) + digit q e z) + z % q ^ e := by rw [h2, h1]
    _ = z / q ^ (e + 1) * q ^ (e + 1) + digit q e z * q ^ e + z % q ^ e := by
      rw [hpow]
      ring

theorem setDigit_eq (q e x z : Nat) :
    setDigit q e x z = z / q ^ (e + 1) * q ^ (e + 1) + x * q ^ e + z % q ^ e := by
  have h := eq_split q e z
  unfold setDigit
  generalize z % q ^ e = low at h ⊢
  omega

section
variable {e x : Nat} (hx : x < q)
include hx

theorem low_lt (z : Nat) : x * q ^ e + z % q ^ e < q ^ (e + 1) := by
  have hlow := Nat.mod_lt z (Nat.pow_pos (by omega : 0 < q) : 0 < q ^ e)
  have hstep := Nat.mul_le_mul_right (q ^ e) hx
  rw [Nat.succ_mul] at hstep
  rw [Nat.pow_succ, Nat.mul_comm (q ^ e) q]
  omega

/-- What stands above stays. -/
theorem setDigit_div (z : Nat) : setDigit q e x z / q ^ (e + 1) = z / q ^ (e + 1) := by
  have hpos : 0 < q ^ (e + 1) := Nat.pow_pos (by omega)
  rw [setDigit_eq, Nat.add_assoc, Nat.mul_comm (z / q ^ (e + 1)), Nat.mul_add_div hpos,
    Nat.div_eq_of_lt (low_lt hx z), Nat.add_zero]

omit hx in
/-- What stands below stays. -/
theorem setDigit_mod (z : Nat) : setDigit q e x z % q ^ e = z % q ^ e := by
  have hsum : setDigit q e x z = q ^ e * (z / q ^ (e + 1) * q + x) + z % q ^ e := by
    rw [setDigit_eq, Nat.pow_succ]
    ring
  rw [hsum, Nat.mul_add_mod, Nat.mod_mod]

theorem digit_setDigit_self (z : Nat) : digit q e (setDigit q e x z) = x := by
  have hpos : 0 < q ^ e := Nat.pow_pos (by omega)
  have hsum : setDigit q e x z = q ^ e * (q * (z / q ^ (e + 1)) + x) + z % q ^ e := by
    rw [setDigit_eq, Nat.pow_succ]
    ring
  unfold digit
  rw [hsum, Nat.mul_add_div hpos, Nat.div_eq_of_lt (Nat.mod_lt _ hpos), Nat.add_zero,
    Nat.mul_add_mod, Nat.mod_eq_of_lt hx]

theorem digit_setDigit_of_ne {e' : Nat} (h : e' ≠ e) (z : Nat) :
    digit q e' (setDigit q e x z) = digit q e' z := by
  rcases Nat.lt_or_gt_of_ne h with hlt | hgt
  · have hdigit : ∀ v, digit q e' v = v % q ^ e / q ^ e' % q := by
      intro v
      have hpow : q ^ e = q ^ e' * q ^ (e - e') := by
        rw [← Nat.pow_add]
        congr 1
        omega
      have hdvd : q ∣ q ^ (e - e') := dvd_pow_self q (by omega)
      rw [hpow, Nat.mod_mul_right_div_self, Nat.mod_mod_of_dvd _ hdvd]
      rfl
    rw [hdigit, hdigit, setDigit_mod]
  · have hdigit : ∀ v, digit q e' v = v / q ^ (e + 1) / q ^ (e' - (e + 1)) % q := by
      intro v
      rw [Nat.div_div_eq_div_mul, ← Nat.pow_add, show e + 1 + (e' - (e + 1)) = e' by omega]
      rfl
    rw [hdigit, hdigit, setDigit_div hx]

theorem setDigit_lt {t z : Nat} (he : e < t) (hz : z < q ^ t) : setDigit q e x z < q ^ t := by
  have hpow : q ^ t = q ^ (e + 1) * q ^ (t - (e + 1)) := by
    rw [← Nat.pow_add]
    congr 1
    omega
  have hpos : 0 < q ^ (e + 1) := Nat.pow_pos (by omega)
  have hz' : z / q ^ (e + 1) < q ^ (t - (e + 1)) := by
    rw [Nat.div_lt_iff_lt_mul hpos, Nat.mul_comm, ← hpow]
    exact hz
  rw [← setDigit_div hx z, Nat.div_lt_iff_lt_mul hpos, Nat.mul_comm, ← hpow] at hz'
  exact hz'

end

theorem setDigit_digit (q e z : Nat) : setDigit q e (digit q e z) z = z := by
  unfold setDigit
  omega

theorem setDigit_setDigit {e x : Nat} (hx : x < q) (x' z : Nat) :
    setDigit q e x' (setDigit q e x z) = setDigit q e x' z := by
  rw [setDigit_eq, setDigit_div hx, setDigit_mod, ← setDigit_eq]

/-- Putting the digit back. -/
theorem setDigit_back {e x : Nat} (hx : x < q) (z : Nat) :
    setDigit q e (digit q e z) (setDigit q e x z) = z := by
  rw [setDigit_setDigit hx, setDigit_digit]

theorem setDigit_lt_iff {e x : Nat} (hq : 0 < q) (z : Nat) :
    setDigit q e x z < z ↔ x < digit q e z := by
  have hpos : 0 < q ^ e := Nat.pow_pos hq
  have h := eq_split q e z
  have hset := setDigit_eq q e x z
  have hmul : x * q ^ e < digit q e z * q ^ e ↔ x < digit q e z := Nat.mul_lt_mul_right hpos
  generalize z % q ^ e = low at h hset
  omega

end

end Digits

import StripeRepair.Lib.BinaryField
import Mathlib.Algebra.Field.Defs
import Mathlib.Data.Fintype.EquivFin
import Mathlib.GroupTheory.OrderOfElement
import Mathlib.Tactic.NormNum.Prime
import Mathlib.Tactic.Ring

/-!
# The field of `Computation`

`Computation::singleMulti(a, b, 8)` multiplies in GF(2^8) with the polynomial
`x^8 + x^4 + x^3 + x^2 + 1`, the field in which `Computation::Multi` evaluates
the packets.  The element 2 generates it: its order is 255, so its powers are all
the nonzero elements, and `a^254` is the inverse of each.

* `GF256.two_pow_injOn`: the first 255 powers of 2 are distinct.
* `GF256.exists_two_pow`: every nonzero element is one of them.
* `GF256.ofNat_injOn`: the integers below 256 are distinct elements.
-/

namespace StripeRepair

/-- GF(2^8) with the polynomial `0x11d`. -/
abbrev GF256 := Gf 8 0x1d#8

namespace GF256

/-- The element an `int` below 256 stands for. -/
def ofNat (n : Nat) : GF256 := Gf.ofNat 8 0x1d#8 n

theorem ofNat_injOn {a b : Nat} (ha : a < 256) (hb : b < 256) (h : ofNat a = ofNat b) :
    a = b := Gf.ofNat_injOn ha hb h

theorem ofNat_ne_zero {a : Nat} (h0 : 0 < a) (ha : a < 256) : ofNat a ≠ 0 := by
  intro h
  have := ofNat_injOn ha (by omega : 0 < 256) (h.trans rfl)
  omega

@[simp] theorem ofNat_zero : ofNat 0 = 0 := rfl

@[simp] theorem ofNat_one : ofNat 1 = 1 := rfl

/-! ## The generator -/

theorem two_pow_255 : ofNat 2 ^ 255 = 1 := by decide +kernel

theorem orderOf_two : orderOf (ofNat 2) = 255 := by
  apply orderOf_eq_of_pow_and_pow_div_prime (by omega) two_pow_255
  intro p hp hdvd
  have hmem : p ∈ Nat.primeFactors 255 := Nat.mem_primeFactors.2 ⟨hp, hdvd, by omega⟩
  have h3 : Nat.primeFactors 255 = {3, 5, 17} := by decide +kernel
  rw [h3] at hmem
  simp only [Finset.mem_insert, Finset.mem_singleton] at hmem
  rcases hmem with rfl | rfl | rfl
  · decide +kernel
  · decide +kernel
  · decide +kernel

/-- 2 as a unit. -/
def twoUnit : GF256ˣ := Units.ofPowEqOne (ofNat 2) 255 two_pow_255 (by omega)

theorem two_pow_injOn {a b : Nat} (ha : a < 255) (hb : b < 255)
    (h : ofNat 2 ^ a = ofNat 2 ^ b) : a = b := by
  have hu : twoUnit ^ a = twoUnit ^ b := Units.ext (by simpa [twoUnit] using h)
  have horder : orderOf twoUnit = 255 := by
    rw [← orderOf_units]
    exact orderOf_two
  have hinj := pow_injOn_Iio_orderOf (x := twoUnit)
  rw [horder] at hinj
  exact hinj ha hb hu

theorem two_pow_ne_zero (i : Nat) : ofNat 2 ^ i ≠ 0 := by
  have hu : IsUnit (ofNat 2 ^ i) := (twoUnit ^ i).isUnit
  intro h
  rw [h, isUnit_zero_iff] at hu
  exact absurd hu (by decide)

/-- 255 distinct powers fill the 255 nonzero elements. -/
theorem exists_two_pow (a : GF256) (ha : a ≠ 0) : ∃ i, ofNat 2 ^ i = a := by
  let f : Fin 255 → {n : Fin 256 // n ≠ 0} := fun i =>
    ⟨(ofNat 2 ^ i.1).bits.toFin, fun h => two_pow_ne_zero i.1 (Gf.ext' (by
      rw [← BitVec.toFin_inj, h]; rfl))⟩
  have hinj : Function.Injective f := by
    intro i j hij
    have h1 : (ofNat 2 ^ i.1).bits = (ofNat 2 ^ j.1).bits :=
      BitVec.toFin_inj.1 (congrArg Subtype.val hij)
    exact Fin.ext (two_pow_injOn i.2 j.2 (Gf.ext' h1))
  have hcard : Fintype.card (Fin 255) = Fintype.card {n : Fin 256 // n ≠ 0} := by simp
  have hsurj := ((Fintype.bijective_iff_injective_and_card f).2 ⟨hinj, hcard⟩).2
  obtain ⟨i, hi⟩ := hsurj ⟨a.bits.toFin, fun h => ha (Gf.ext' (by
    rw [← BitVec.toFin_inj, h]; rfl))⟩
  exact ⟨i.1, Gf.ext' (BitVec.toFin_inj.1 (congrArg Subtype.val hi))⟩

/-! ## The field -/

/-- The inverse, as `a^254`. -/
def inv (a : GF256) : GF256 :=
  let a2 := a * a
  let a4 := a2 * a2
  let a8 := a4 * a4
  let a16 := a8 * a8
  let a32 := a16 * a16
  let a64 := a32 * a32
  let a128 := a64 * a64
  a2 * a4 * a8 * a16 * a32 * a64 * a128

theorem inv_eq_pow (a : GF256) : inv a = a ^ 254 := by
  simp only [inv, ← pow_two, ← pow_mul, ← pow_add, Nat.reducePow, Nat.reduceMul, Nat.reduceAdd]

theorem mul_inv (a : GF256) (ha : a ≠ 0) : a * inv a = 1 := by
  obtain ⟨i, rfl⟩ := exists_two_pow a ha
  calc ofNat 2 ^ i * inv (ofNat 2 ^ i) = (ofNat 2 ^ 255) ^ i := by rw [inv_eq_pow]; ring
    _ = 1 := by rw [two_pow_255, one_pow]

instance : Field GF256 where
  inv := inv
  exists_pair_ne := ⟨0, 1, by decide⟩
  mul_inv_cancel := mul_inv
  inv_zero := by decide
  nnqsmul := _
  nnqsmul_def := fun _ _ => rfl
  qsmul := _
  qsmul_def := fun _ _ => rfl

instance : CharP GF256 2 :=
  CharTwo.of_one_ne_zero_of_two_eq_zero one_ne_zero
    (by rw [← one_add_one_eq_two]; exact Gf.add_self 1)

end GF256

end StripeRepair

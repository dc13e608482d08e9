import Mathlib.Data.Matrix.Mul
import Mathlib.Algebra.Module.BigOperators

/-!
# Linear codes over a module

The symbols of a linear code are the rows of a generator times the data. The symbols of rows
that have an inverse give the data, and every other symbol.

* `Generates.symbol`: a symbol of the code from the selected ones.
* `Generates.datum`: one of the data.
* `sum_smul_inverse`: the data that have given symbols.
-/

namespace LinearCode

open Matrix

variable {R M ι : Type} [Semiring R] [AddCommMonoid M] [Module R M] {k : Nat}

/-- The symbols of `I` are the rows of `G` times the data. -/
def Generates (G : ι → Fin k → R) (D : Fin k → M) (I : ι → Prop) (S : ι → M) : Prop :=
  ∀ e, I e → S e = ∑ l, G e l • D l

/-- A combination of combinations. -/
theorem sum_smul_sum (r : Fin k → R) (A : Matrix (Fin k) (Fin k) R) (D : Fin k → M) :
    ∑ j, r j • ∑ b, A j b • D b = ∑ b, (r ᵥ* A) b • D b := by
  calc ∑ j, r j • ∑ b, A j b • D b
      = ∑ j, ∑ b, (r j * A j b) • D b := by
        refine Finset.sum_congr rfl fun j _ => ?_
        rw [Finset.smul_sum]
        exact Finset.sum_congr rfl fun b _ => smul_smul _ _ _
    _ = ∑ b, (r ᵥ* A) b • D b := by
        rw [Finset.sum_comm]
        refine Finset.sum_congr rfl fun b _ => ?_
        rw [← Finset.sum_smul]
        rfl

theorem sum_single_smul (t : Fin k) (D : Fin k → M) :
    ∑ l, (Pi.single t 1 : Fin k → R) l • D l = D t := by
  simp [Pi.single_apply]

/-- **The data of given symbols.** -/
theorem sum_smul_inverse {A inv : Matrix (Fin k) (Fin k) R} (hinv : A * inv = 1) (D : Fin k → M)
    (t : Fin k) : ∑ j, A t j • ∑ b, inv j b • D b = D t := by
  have hrow : A.row t ᵥ* inv = Pi.single t 1 := by
    rw [← single_one_vecMul, vecMul_vecMul, hinv, vecMul_one]
  exact (sum_smul_sum (A.row t) inv D).trans (by rw [hrow, sum_single_smul])

section
variable {G : ι → Fin k → R} {D : Fin k → M} {I : ι → Prop} {S : ι → M} {sel : Fin k → ι}
  {inv : Matrix (Fin k) (Fin k) R}

/-- **A combination of the data** from the symbols of rows that are inverted by `inv`. -/
theorem Generates.recover (h : Generates G D I S) (hsel : ∀ j, I (sel j))
    (hinv : inv * of (fun i j => G (sel i) j) = 1) (v : Fin k → R) :
    ∑ j, (v ᵥ* inv) j • S (sel j) = ∑ l, v l • D l := by
  have hsymbols : ∀ j, S (sel j) = ∑ b, of (fun i j => G (sel i) j) j b • D b :=
    fun j => h _ (hsel j)
  simp only [hsymbols]
  rw [sum_smul_sum, vecMul_vecMul, hinv, vecMul_one]

/-- **Every symbol** from the selected ones. -/
theorem Generates.symbol (h : Generates G D I S) (hsel : ∀ j, I (sel j))
    (hinv : inv * of (fun i j => G (sel i) j) = 1) {e : ι} (he : I e) :
    ∑ j, (∑ l, G e l * inv l j) • S (sel j) = S e :=
  (h.recover hsel hinv (G e)).trans (h e he).symm

/-- **Every datum** from the selected symbols. -/
theorem Generates.datum (h : Generates G D I S) (hsel : ∀ j, I (sel j))
    (hinv : inv * of (fun i j => G (sel i) j) = 1) (t : Fin k) :
    ∑ j, inv t j • S (sel j) = D t := by
  have hrow := h.recover hsel hinv (Pi.single t 1)
  rwa [single_one_vecMul, sum_single_smul] at hrow

end

end LinearCode

import StripeRepair.Ec.Computation
import Mathlib.LinearAlgebra.Matrix.NonsingularInverse
import Mathlib.LinearAlgebra.Matrix.ToLin
import Mathlib.Tactic.LinearCombination

/-!
# `generate_matrix`

`RSCONV`, `RSPIPE`, `Clay` and `HHXORPlus` build their `n x k` generator with the
same loop: the identity on top, and below it the rows `1, x, x^2, …` for
`x = 1, 2, …, n - k`.  The rows of a Vandermonde matrix are independent, but not
those of a Vandermonde block under an identity: lost columns leave a generalised
Vandermonde matrix behind, and in characteristic 2 that one can be singular.

A choice of `k` rows is read off a kernel vector: a selected data row makes its
coordinate vanish, so at least as many parity rows are selected as the vector has
nonzero coordinates (`exists_parities`), and each of them is a sparse polynomial
equation at its own point.

    k rows of the matrix are always invertible ↔ m ≤ 2 ∨ k ≤ 3     (mds_iff)
-/

namespace StripeRepair

/-! ## The matrix -/

/-- One parity row: `tmp` runs through the powers of `a`. -/
def powRow (a : GF256) : GF256 → Nat → List GF256
  | _, 0 => []
  | tmp, j + 1 => tmp :: powRow a (tmp * a) j

/-- `generate_matrix(matrix, rows, cols, 8)`, row by row. -/
def generateMatrix (rows cols : Nat) : List (List GF256) :=
  (List.range cols).map (fun i => (List.range cols).map fun j => if j = i then 1 else 0) ++
    (List.range (rows - cols)).map fun i => powRow (GF256.ofNat (i + 1)) 1 cols

/-- `matrix[i * cols + j]`. -/
def entry (matrix : List (List GF256)) (i j : Nat) : GF256 := (matrix.getD i []).getD j 0

theorem getElem?_powRow (a tmp : GF256) (n j : Nat) (hj : j < n) :
    (powRow a tmp n)[j]? = some (tmp * a ^ j) := by
  induction n generalizing tmp j with
  | zero => omega
  | succ n ih =>
    cases j with
    | zero => simp [powRow]
    | succ j =>
      rw [powRow, List.getElem?_cons_succ, ih (tmp * a) j (by omega), pow_succ']
      rw [mul_assoc]

theorem entry_data {n k i j : Nat} (hi : i < k) (hj : j < k) :
    entry (generateMatrix n k) i j = if j = i then 1 else 0 := by
  simp [entry, generateMatrix, List.getD_eq_getElem?_getD, List.getElem?_append, hi, hj]

theorem entry_parity {n k p j : Nat} (hp : k + p < n) (hj : j < k) :
    entry (generateMatrix n k) (k + p) j = GF256.ofNat (p + 1) ^ j := by
  have h1 : p < n - k := by omega
  simp [entry, generateMatrix, List.getD_eq_getElem?_getD, h1, getElem?_powRow, hj]

/-- The `k x k` matrix of the selected rows. -/
def selectMatrix (k m : Nat) (sel : Fin k → Fin (k + m)) : Matrix (Fin k) (Fin k) GF256 :=
  Matrix.of fun a b => entry (generateMatrix (k + m) k) (sel a) b

/-- Every choice of `k` rows is invertible. -/
def Mds (k m : Nat) : Prop :=
  ∀ sel : Fin k → Fin (k + m), Function.Injective sel → IsUnit (selectMatrix k m sel)

/-- `jerasure_invert_matrix(mat, inv, rows, 8)`. -/
abbrev InvertMatrix8 := (k : Nat) → Matrix (Fin k) (Fin k) GF256 → Matrix (Fin k) (Fin k) GF256

/-- It inverts every matrix that is invertible over GF(2^8). -/
def Inverts8 (invert : InvertMatrix8) : Prop :=
  ∀ (k : Nat) (A : Matrix (Fin k) (Fin k) GF256), IsUnit A → invert k A * A = 1

theorem inverts8_inv : Inverts8 fun _ A => A⁻¹ := fun _ A h =>
  Matrix.nonsing_inv_mul A ((Matrix.isUnit_iff_isUnit_det A).1 h)

/-! ## From rows to equations -/

/-- A kernel vector of selected rows has at most as many nonzero coordinates as
there are parity rows among them, and each of these gives an equation. -/
theorem exists_parities {k m : Nat} {sel : Fin k → Fin (k + m)} (hsel : Function.Injective sel)
    {v : Fin k → GF256} (hv : (selectMatrix k m sel).mulVec v = 0) :
    ∃ P : Finset Nat, (Finset.univ.filter fun j => v j ≠ 0).card ≤ P.card ∧
      ∀ p ∈ P, p < m ∧ ∑ j : Fin k, GF256.ofNat (p + 1) ^ j.1 * v j = 0 := by
  have hrow : ∀ a, ∑ j : Fin k, entry (generateMatrix (k + m) k) (sel a) j * v j = 0 := by
    intro a
    exact congrFun hv a
  refine ⟨(Finset.univ.filter fun a => k ≤ (sel a).1).image fun a => (sel a).1 - k, ?_, ?_⟩
  · rw [Finset.card_image_of_injOn]
    · -- the other selected rows are data rows, each at a coordinate that vanishes
      have hzero : (Finset.univ.filter fun a => ¬ k ≤ (sel a).1).card ≤
          (Finset.univ.filter fun j => ¬ v j ≠ 0).card := by
        apply Finset.card_le_card_of_injOn fun a => if h : (sel a).1 < k then ⟨(sel a).1, h⟩ else a
        · intro a ha
          have hlt : (sel a).1 < k := by simpa using ha
          have := hrow a
          simp only [entry_data hlt (Fin.isLt _), ite_mul, one_mul, zero_mul] at this
          rw [Finset.sum_eq_single (⟨(sel a).1, hlt⟩ : Fin k)] at this
          · simpa [hlt] using this
          · intro b _ hb
            rw [if_neg fun h => hb (Fin.ext h)]
          · simp
        · intro a ha b hb hab
          have hla : (sel a).1 < k := by simpa using ha
          have hlb : (sel b).1 < k := by simpa using hb
          simp only [hla, hlb, dif_pos, Fin.mk.injEq] at hab
          exact hsel (Fin.ext hab)
      have h1 := Finset.card_filter_add_card_filter_not (s := (Finset.univ : Finset (Fin k)))
        (fun a => k ≤ (sel a).1)
      have h2 := Finset.card_filter_add_card_filter_not (s := (Finset.univ : Finset (Fin k)))
        (fun j => v j ≠ 0)
      omega
    · intro a ha b hb hab
      have hla : k ≤ (sel a).1 := by simpa using ha
      have hlb : k ≤ (sel b).1 := by simpa using hb
      exact hsel (Fin.ext (by simp only at hab; omega))
  · intro p hp
    simp only [Finset.mem_image, Finset.mem_filter, Finset.mem_univ, true_and] at hp
    obtain ⟨a, hka, rfl⟩ := hp
    have hlt := (sel a).2
    refine ⟨by omega, ?_⟩
    have h1 := hrow a
    have hka' : (sel a).1 = k + ((sel a).1 - k) := by omega
    rw [← h1]
    apply Finset.sum_congr rfl
    intro j _
    rw [hka', entry_parity (by omega) j.2]
    simp

theorem isUnit_of_kernel {k m : Nat} {sel : Fin k → Fin (k + m)}
    (h : ∀ v, (selectMatrix k m sel).mulVec v = 0 → v = 0) : IsUnit (selectMatrix k m sel) := by
  rw [← Matrix.mulVec_injective_iff_isUnit]
  intro a b hab
  have := h (a - b) (by rw [Matrix.mulVec_sub]; exact sub_eq_zero.2 hab)
  exact sub_eq_zero.1 this

/-- Only the nonzero coordinates count. -/
theorem sum_support {k : Nat} (c v : Fin k → GF256) :
    ∑ j : Fin k, c j * v j = ∑ j ∈ Finset.univ.filter fun j => v j ≠ 0, c j * v j := by
  symm
  apply Finset.sum_subset (Finset.subset_univ _)
  intro j _ hj
  have : v j = 0 := by simpa using hj
  rw [this, mul_zero]

/-- The point of a parity row. -/
def node (p : Nat) : GF256 := GF256.ofNat (p + 1)

theorem node_ne_zero {p : Nat} (hp : p < 255) : node p ≠ 0 :=
  GF256.ofNat_ne_zero (by omega) (by omega)

theorem node_injOn {p q : Nat} (hp : p < 255) (hq : q < 255) (h : node p = node q) : p = q := by
  have := GF256.ofNat_injOn (by omega) (by omega) h
  omega

/-- A single nonzero coordinate is refuted by any parity row. -/
theorem support_ne_singleton {k : Nat} {v : Fin k → GF256} {a : Fin k}
    (hD : (Finset.univ.filter fun j => v j ≠ 0) = {a}) {p : Nat} (hp : p < 255)
    (h : ∑ j : Fin k, node p ^ j.1 * v j = 0) : False := by
  have ha : v a ≠ 0 := by
    have : a ∈ Finset.univ.filter fun j => v j ≠ 0 := by rw [hD]; exact Finset.mem_singleton_self a
    simpa using this
  rw [sum_support, hD, Finset.sum_singleton] at h
  rcases mul_eq_zero.1 h with h | h
  · exact pow_ne_zero _ (node_ne_zero hp) h
  · exact ha h

/-- Two nonzero coordinates: the two rows have the same ratio `x^(b-a)`. -/
theorem pow_sub_eq_of_support_pair {k : Nat} {v : Fin k → GF256} {a b : Fin k} (hab : a < b)
    (hD : (Finset.univ.filter fun j => v j ≠ 0) = {a, b}) {p q : Nat} (hp : p < 255)
    (hq : q < 255) (h1 : ∑ j : Fin k, node p ^ j.1 * v j = 0)
    (h2 : ∑ j : Fin k, node q ^ j.1 * v j = 0) :
    node p ^ (b.1 - a.1) = node q ^ (b.1 - a.1) := by
  have hb : v b ≠ 0 := by
    have : b ∈ Finset.univ.filter fun j => v j ≠ 0 := by
      rw [hD]; exact Finset.mem_insert_of_mem (Finset.mem_singleton_self b)
    simpa using this
  -- each row says `v a = - x^(b-a) * v b`
  have hone : ∀ r, r < 255 → ∑ j : Fin k, node r ^ j.1 * v j = 0 →
      v a + node r ^ (b.1 - a.1) * v b = 0 := by
    intro r hr h
    rw [sum_support, hD, Finset.sum_pair hab.ne] at h
    have hsplit : node r ^ b.1 = node r ^ a.1 * node r ^ (b.1 - a.1) := by
      rw [← pow_add, Nat.add_sub_cancel' (Nat.le_of_lt hab)]
    rw [hsplit, mul_assoc, ← mul_add] at h
    exact (mul_eq_zero.1 h).resolve_left (pow_ne_zero _ (node_ne_zero hr))
  have := (hone p hp h1).trans (hone q hq h2).symm
  exact mul_right_cancel₀ hb (add_left_cancel this)

/-! ## At most two parities -/

theorem kernel_of_le_two {k m : Nat} (hm : m ≤ 2) (hkm : k + m ≤ 255)
    {sel : Fin k → Fin (k + m)} (hsel : Function.Injective sel) {v : Fin k → GF256}
    (hv : (selectMatrix k m sel).mulVec v = 0) : v = 0 := by
  obtain ⟨P, hcard, hP⟩ := exists_parities hsel hv
  have hPle : P.card ≤ m := by
    have := Finset.card_le_card (t := Finset.range m) fun p hp => Finset.mem_range.2 (hP p hp).1
    simpa using this
  by_contra hne
  obtain ⟨j, hj⟩ := Function.ne_iff.1 hne
  have hpos : 0 < (Finset.univ.filter fun j => v j ≠ 0).card :=
    Finset.card_pos.2 ⟨j, by simpa using hj⟩
  obtain h1 | h2 : (Finset.univ.filter fun j => v j ≠ 0).card = 1 ∨
      (Finset.univ.filter fun j => v j ≠ 0).card = 2 := by omega
  · obtain ⟨a, hD⟩ := Finset.card_eq_one.1 h1
    obtain ⟨p, hp⟩ := Finset.card_pos.1 (by omega : 0 < P.card)
    have := (hP p hp).1
    exact support_ne_singleton hD (by omega) (hP p hp).2
  · have hlt : ∃ a b : Fin k, a < b ∧ (Finset.univ.filter fun j => v j ≠ 0) = {a, b} := by
      obtain ⟨a, b, hab, hD⟩ := Finset.card_eq_two.1 h2
      rcases lt_or_gt_of_ne hab with h | h
      · exact ⟨a, b, h, hD⟩
      · exact ⟨b, a, h, by rw [hD, Finset.pair_comm]⟩
    obtain ⟨a, b, hab, hD⟩ := hlt
    -- both parities are there: the points 1 and 2
    have hmem : ∀ p < 2, p ∈ P := by
      have hsub : P ⊆ Finset.range 2 := fun p hp => Finset.mem_range.2 (by have := (hP p hp).1; omega)
      have := Finset.eq_of_subset_of_card_le hsub (by simp; omega)
      intro p hp
      rw [this]
      exact Finset.mem_range.2 hp
    have h0 := (hP 0 (hmem 0 (by omega))).2
    have h1 := (hP 1 (hmem 1 (by omega))).2
    have hpow := pow_sub_eq_of_support_pair hab hD (by omega) (by omega) h0 h1
    have hone : node 0 ^ (b.1 - a.1) = GF256.ofNat 2 ^ 0 := by simp [node]
    have := GF256.two_pow_injOn (by omega) (by omega) (hone.symm.trans hpow)
    have : a.1 < b.1 := hab
    omega

/-! ## At most three data blocks -/

theorem kernel_of_le_three {k m : Nat} (hk : k ≤ 3) (hkm : k + m ≤ 255)
    {sel : Fin k → Fin (k + m)} (hsel : Function.Injective sel) {v : Fin k → GF256}
    (hv : (selectMatrix k m sel).mulVec v = 0) : v = 0 := by
  obtain ⟨P, hcard, hP⟩ := exists_parities hsel hv
  have hp255 : ∀ p ∈ P, p < 255 := by
    intro p hp
    have := (hP p hp).1
    omega
  by_contra hne
  obtain ⟨j, hj⟩ := Function.ne_iff.1 hne
  have hpos : 0 < (Finset.univ.filter fun j => v j ≠ 0).card :=
    Finset.card_pos.2 ⟨j, by simpa using hj⟩
  have hle : (Finset.univ.filter fun j => v j ≠ 0).card ≤ k := by
    simpa using Finset.card_le_univ (Finset.univ.filter fun j => v j ≠ 0)
  obtain h1 | h2 | h3 : (Finset.univ.filter fun j => v j ≠ 0).card = 1 ∨
      (Finset.univ.filter fun j => v j ≠ 0).card = 2 ∨
      (Finset.univ.filter fun j => v j ≠ 0).card = 3 := by omega
  · obtain ⟨a, hD⟩ := Finset.card_eq_one.1 h1
    obtain ⟨p, hp⟩ := Finset.card_pos.1 (by omega : 0 < P.card)
    exact support_ne_singleton hD (hp255 p hp) (hP p hp).2
  · have hlt : ∃ a b : Fin k, a < b ∧ (Finset.univ.filter fun j => v j ≠ 0) = {a, b} := by
      obtain ⟨a, b, hab, hD⟩ := Finset.card_eq_two.1 h2
      rcases lt_or_gt_of_ne hab with h | h
      · exact ⟨a, b, h, hD⟩
      · exact ⟨b, a, h, by rw [hD, Finset.pair_comm]⟩
    obtain ⟨a, b, hab, hD⟩ := hlt
    obtain ⟨p, hp, q, hq, hpq⟩ := Finset.one_lt_card.1 (by omega : 1 < P.card)
    have hpow := pow_sub_eq_of_support_pair hab hD (hp255 p hp) (hp255 q hq) (hP p hp).2
      (hP q hq).2
    have hb := b.2
    have : a.1 < b.1 := hab
    -- the exponents differ by 1 or 2, and squaring is injective in characteristic 2
    obtain hd | hd : b.1 - a.1 = 1 ∨ b.1 - a.1 = 2 := by omega
    · rw [hd, pow_one, pow_one] at hpow
      exact hpq (node_injOn (hp255 p hp) (hp255 q hq) hpow)
    · rw [hd] at hpow
      exact hpq (node_injOn (hp255 p hp) (hp255 q hq) (CharTwo.sq_injective hpow))
  · obtain rfl : k = 3 := by omega
    obtain ⟨p, q, r, hp, hq, hr, hpq, hpr, hqr⟩ :=
      Finset.two_lt_card_iff.1 (by omega : 2 < P.card)
    have hv2 : v 2 ≠ 0 := by
      have := Finset.eq_univ_of_card _ (h3.trans (Fintype.card_fin 3).symm)
      have h2 : (2 : Fin 3) ∈ Finset.univ.filter fun j => v j ≠ 0 := by
        rw [this]; exact Finset.mem_univ _
      simpa using h2
    have heq : ∀ s ∈ P, v 0 + node s * v 1 + node s ^ 2 * v 2 = 0 := by
      intro s hs
      have := (hP s hs).2
      rw [Fin.sum_univ_three] at this
      simpa [node] using this
    -- a quadratic with three roots: two divided differences
    have hdiff : ∀ s ∈ P, s ≠ p → v 1 + (node p + node s) * v 2 = 0 := by
      intro s hs hsp
      have hne : node s - node p ≠ 0 := fun h =>
        hsp (node_injOn (hp255 s hs) (hp255 p hp) (sub_eq_zero.1 h))
      have : (node s - node p) * (v 1 + (node p + node s) * v 2) = 0 := by
        linear_combination heq s hs - heq p hp
      exact (mul_eq_zero.1 this).resolve_left hne
    have h0 : (node q - node r) * v 2 = 0 := by
      linear_combination hdiff q hq hpq.symm - hdiff r hr hpr.symm
    rcases mul_eq_zero.1 h0 with h | h
    · exact hqr (node_injOn (hp255 q hq) (hp255 r hr) (sub_eq_zero.1 h))
    · exact hv2 h

/-! ## Three parities and four data blocks -/

/-- The rows that lose the data blocks 0, 1 and 3 and take the parities 0, 1 and 2. -/
def lostRows {k m : Nat} (hm : 3 ≤ m) (a : Fin k) : Fin (k + m) :=
  if a.1 = 0 then ⟨k, by omega⟩
  else if a.1 = 1 then ⟨k + 1, by omega⟩
  else if a.1 = 3 then ⟨k + 2, by omega⟩
  else ⟨a.1, by omega⟩

theorem lostRows_val {k m : Nat} (hm : 3 ≤ m) (a : Fin k) :
    (lostRows hm a).1 =
      if a.1 = 0 then k else if a.1 = 1 then k + 1 else if a.1 = 3 then k + 2 else a.1 := by
  unfold lostRows
  split_ifs <;> rfl

theorem lostRows_injective {k m : Nat} (hm : 3 ≤ m) :
    Function.Injective fun a : Fin k => lostRows hm a := by
  intro a b hab
  have hval : (lostRows hm a).1 = (lostRows hm b).1 := congrArg Fin.val hab
  rw [lostRows_val, lostRows_val] at hval
  have ha := a.2
  have hb := b.2
  apply Fin.ext
  split_ifs at hval <;> omega

/-- `(x + 1)(x + 2)(x + 3) = x^3 + 7x + 6` has no quadratic term. -/
def lostVector (j : Nat) : GF256 :=
  if j = 0 then GF256.ofNat 6
  else if j = 1 then GF256.ofNat 7
  else if j = 3 then 1
  else 0

theorem lostVector_cubic : ∀ p < 3,
    GF256.ofNat 6 + node p * GF256.ofNat 7 + node p ^ 3 = 0 := by
  decide +kernel

theorem sum_lostVector {k : Nat} (hk : 4 ≤ k) (c : Nat → GF256) :
    ∑ j : Fin k, c j.1 * lostVector j.1 =
      c 0 * GF256.ofNat 6 + c 1 * GF256.ofNat 7 + c 3 := by
  rw [Fin.sum_univ_eq_sum_range fun j => c j * lostVector j]
  have htail : ∑ j ∈ Finset.range (k - 4), c (4 + j) * lostVector (4 + j) = 0 := by
    apply Finset.sum_eq_zero
    intro j _
    simp [lostVector, show ¬ 4 + j = 1 by omega, show ¬ 4 + j = 3 by omega]
  have hsplit := Finset.sum_range_add (fun j => c j * lostVector j) 4 (k - 4)
  rw [show 4 + (k - 4) = k by omega, htail, add_zero] at hsplit
  rw [hsplit]
  simp [Finset.sum_range_succ, lostVector]

theorem selectMatrix_lost {k m : Nat} (hk : 4 ≤ k) (hm : 3 ≤ m) :
    (selectMatrix k m (lostRows hm)).mulVec (fun j => lostVector j) = 0 := by
  funext a
  have hpar : ∀ p < 3, ∑ j : Fin k,
      entry (generateMatrix (k + m) k) (k + p) j * lostVector j = 0 := by
    intro p hp
    rw [sum_lostVector hk]
    rw [entry_parity (by omega) (by omega), entry_parity (by omega) (by omega),
      entry_parity (by omega) (by omega)]
    simpa [node] using lostVector_cubic p hp
  show ∑ j : Fin k, entry (generateMatrix (k + m) k) (lostRows hm a) j * lostVector j = 0
  unfold lostRows
  split
  · exact hpar 0 (by omega)
  · split
    · exact hpar 1 (by omega)
    · split
      · exact hpar 2 (by omega)
      · next h0 h1 h3 =>
        apply Finset.sum_eq_zero
        intro j _
        rw [entry_data a.2 j.2]
        by_cases hj : j.1 = a.1
        · simp [lostVector, hj, h0, h1, h3]
        · simp [hj]

/-- **The generator is MDS exactly for `m ≤ 2` or `k ≤ 3`.** -/
theorem mds_iff (k m : Nat) (hkm : k + m ≤ 255) :
    Mds k m ↔ m ≤ 2 ∨ k ≤ 3 := by
  constructor
  · intro h
    by_contra hcon
    have hk4 : 4 ≤ k := by omega
    have hm3 : 3 ≤ m := by omega
    have hunit := h (lostRows hm3) (lostRows_injective hm3)
    have hinj := Matrix.mulVec_injective_iff_isUnit.2 hunit
    have hzero := hinj ((selectMatrix_lost hk4 hm3).trans (Matrix.mulVec_zero _).symm)
    have := congrFun hzero ⟨3, by omega⟩
    simp [lostVector] at this
  · rintro (hm2 | hk3) sel hsel
    · exact isUnit_of_kernel fun v hv => kernel_of_le_two hm2 hkm hsel hv
    · exact isUnit_of_kernel fun v hv => kernel_of_le_three hk3 hkm hsel hv

/-- Four data blocks and three parities. -/
theorem not_mds_four_three : ¬ Mds 4 3 := by
  intro h
  have hunit := h (lostRows (by omega)) (lostRows_injective _)
  have hinj := Matrix.mulVec_injective_iff_isUnit.2 hunit
  have hzero := hinj ((selectMatrix_lost (by omega) (by omega)).trans (Matrix.mulVec_zero _).symm)
  have := congrFun hzero 3
  simp [lostVector] at this

theorem mds_four_two : Mds 4 2 := (mds_iff 4 2 (by omega)).2 (Or.inl (by omega))

end StripeRepair

import StripeRepair.Ec.ECDAG
import StripeRepair.Ec.FailureSet
import StripeRepair.Ec.GenerateMatrix

/-!
# `RSCONV`: Reed-Solomon and the field it inverts in

`Decode` selects the generator rows of the first `k` surviving blocks, inverts
them with `jerasure_invert_matrix(_select_matrix, _invert_matrix, _k, _k)` and
multiplies the rows of the failed blocks with the result over GF(2^8).  The last
argument of the inversion is the width of its field, so it inverts over GF(2^k).

The inversion is a parameter here, with what the code relies on (`Inverts`); `red w`
is the polynomial of its field of width `w`.

    Decode restores every failure set with every such inversion
      ↔ one integer matrix inverts the rows over GF(2^k) and over GF(2^8)   (decode_iff)
    which it does for k = 8                                      (sameInverse_of_eight)
-/

namespace StripeRepair

open Matrix

/-! ## `jerasure_invert_matrix` -/

/-- The matrix of the field elements of width `w`. -/
def toField (red : (w : Nat) → BitVec w) (w : Nat) {k : Nat} (A : Matrix (Fin k) (Fin k) Nat) :
    Matrix (Fin k) (Fin k) (Gf w (red w)) :=
  A.map (Gf.ofNat w (red w))

/-- `invert w mat` for `jerasure_invert_matrix(mat, inv, rows, w)`. -/
abbrev InvertMatrix := (w : Nat) → {k : Nat} → Matrix (Fin k) (Fin k) Nat →
  Matrix (Fin k) (Fin k) Nat

/-- It inverts over GF(2^w) every matrix of elements that is invertible there. -/
def Inverts (red : (w : Nat) → BitVec w) (invert : InvertMatrix) : Prop :=
  ∀ (w k : Nat) (A : Matrix (Fin k) (Fin k) Nat), (∀ i j, A i j < 2 ^ w) →
    IsUnit (toField red w A) →
      (∀ i j, invert w A i j < 2 ^ w) ∧ toField red w (invert w A) * toField red w A = 1

/-! ## The code -/

namespace RSCONV

def RS_N_MAX : Nat := 32

/-- `generate_matrix(_encode_matrix, _n, _k, 8)`, entry by entry. -/
def encodeMatrix (n k i j : Nat) : GF256 := entry (generateMatrix n k) i j

def encodeJoins (n k : Nat) : List Join :=
  (List.range (n - k)).map fun i =>
    ⟨i + k, (List.finRange k).map Fin.val,
      (List.finRange k).map fun j : Fin k => GF256.toInt (encodeMatrix n k (i + k) j)⟩

def encode (n k : Nat) : ECDAG := .build (encodeJoins n k)

/-- `_select_matrix`: the rows of the first `k` blocks of `src`. -/
def selectMatrix (n k : Nat) (src : List Nat) : Matrix (Fin k) (Fin k) Nat :=
  of fun i j => (encodeMatrix n k (src.getD i 0) j).toNat

/-- `_coef_vector`: one row of the generator times the inverse, over GF(2^8). -/
def coefVector (n k : Nat) (inv : Matrix (Fin k) (Fin k) Nat) (ridx : Nat) (j : Fin k) : GF256 :=
  ∑ l : Fin k, encodeMatrix n k ridx l * GF256.ofNat (inv l j)

def decodeJoins (invert : InvertMatrix) (n k : Nat) (src dst : List Nat) : List Join :=
  let inv := invert k (selectMatrix n k src)
  dst.map fun ridx =>
    ⟨ridx, (List.finRange k).map fun i : Fin k => src.getD i 0,
      (List.finRange k).map fun j : Fin k => GF256.toInt (coefVector n k inv ridx j)⟩

/-- `Decode(from, to)`. -/
def decode (invert : InvertMatrix) (n k : Nat) (src dst : List Nat) : ECDAG :=
  .build (decodeJoins invert n k src dst)

/-- The codeword of `Encode`. -/
def codeword (n k : Nat) (data : Nat → GF256) : Nat → GF256 := (encode n k).eval data

/-- `Decode` restores the failed blocks of every codeword. -/
def RestoresAll (invert : InvertMatrix) (n k : Nat) (failed : Finset Nat) : Prop :=
  ∀ data : Nat → GF256,
    (decode invert n k (survivors n failed) (losses n failed)).Restores
      (· ∈ survivors n failed) (losses n failed) (codeword n k data)

/-- The selected rows over GF(2^8). -/
def selected (n k : Nat) (failed : Finset Nat) : Matrix (Fin k) (Fin k) GF256 :=
  of fun i j => encodeMatrix n k ((survivors n failed).getD i 0) j

/-- One integer matrix inverts the selected rows over GF(2^k) and over GF(2^8). -/
def SameInverse (red : (w : Nat) → BitVec w) (n k : Nat) (failed : Finset Nat) : Prop :=
  ∃ B : Matrix (Fin k) (Fin k) Nat,
    (∀ i j, selectMatrix n k (survivors n failed) i j < 2 ^ k) ∧ (∀ i j, B i j < 2 ^ k) ∧
    toField red k B * toField red k (selectMatrix n k (survivors n failed)) = 1 ∧
    B.map GF256.ofNat * selected n k failed = 1

/-! ## The codeword and the decoded blocks -/

section
variable {n k : Nat}

theorem encodeMatrix_data {i : Nat} (hi : i < k) (j : Fin k) :
    encodeMatrix n k i j = if j.1 = i then 1 else 0 := entry_data hi j.2

/-- Block `r` is row `r` of the generator times the data. -/
theorem codeword_eq (hk : 1 ≤ k) (data : Nat → GF256) {r : Nat} (hr : r < n) :
    codeword n k data r = ∑ j : Fin k, encodeMatrix n k r j * data j := by
  have hdata : ∀ i, i < k → ∑ j : Fin k, encodeMatrix n k i j * data j = data i := by
    intro i hi
    rw [Finset.sum_eq_single (⟨i, hi⟩ : Fin k)]
    · rw [encodeMatrix_data hi]; simp
    · intro j _ hj
      rw [encodeMatrix_data hi, if_neg fun h => hj (Fin.ext h), zero_mul]
    · simp
  have hb : BuiltFrom (· < k) (encodeJoins n k) (encode n k) := by
    apply builtFrom_build
    · apply LinearProgram.ordered_of_forall
      simp [encodeJoins]
    · simp only [encodeJoins, List.mem_map]
      rintro _ ⟨i, -, rfl⟩
      simp
      omega
  have hT : ∀ j ∈ encodeJoins n k,
      LinearProgram.combine j.instr.args (fun v => ∑ j : Fin k, encodeMatrix n k v j * data j) =
        ∑ l : Fin k, encodeMatrix n k j.pidx l * data l := by
    simp only [encodeJoins, List.mem_map]
    rintro _ ⟨i, -, rfl⟩
    simp only [Join.instr]
    rw [combine_finRange]
    exact Finset.sum_congr rfl fun j _ => by rw [hdata j j.2, smul_eq_mul]
  refine hb.eval hT (fun v hv => (hdata v hv).symm) r ?_
  by_cases hrk : r < k
  · exact Or.inl hrk
  · refine Or.inr (hb.mem_of_pidx ?_)
    simp only [encodeJoins, List.map_map, List.mem_map, List.mem_range, Function.comp_apply]
    exact ⟨r - k, by omega, by omega⟩

/-! ## `Decode` with any inversion -/

section
variable (invert : InvertMatrix) {failed : Finset Nat}

/-- The inverse as `Decode` uses it, over GF(2^8), times the selected rows. -/
def roundTrip (n k : Nat) (failed : Finset Nat) : Matrix (Fin k) (Fin k) GF256 :=
  (invert k (selectMatrix n k (survivors n failed))).map GF256.ofNat * selected n k failed

theorem builtFrom_decode (hk : 1 ≤ k) (hkn : k ≤ n) (hsub : failed ⊆ Finset.range n)
    (hm : failed.card ≤ n - k) :
    BuiltFrom (· ∈ survivors n failed)
      (decodeJoins invert n k (survivors n failed) (losses n failed))
      (decode invert n k (survivors n failed) (losses n failed)) := by
  apply builtFrom_build
  · apply LinearProgram.ordered_of_forall
    simp only [decodeJoins, List.mem_map]
    rintro _ ⟨v, -, rfl⟩ c hc
    obtain ⟨i, -, rfl⟩ := List.mem_map.1 hc
    exact getD_survivors hsub hm hkn i
  · simp only [decodeJoins, List.mem_map]
    rintro _ ⟨v, -, rfl⟩
    simp
    omega

/-- What `Decode` computes at a lost block, whatever the inversion returned. -/
theorem decode_eval (hk : 1 ≤ k) (hkn : k ≤ n) (hsub : failed ⊆ Finset.range n)
    (hm : failed.card ≤ n - k) {data x : Nat → GF256}
    (hx : ∀ v ∈ survivors n failed, x v = codeword n k data v) {r : Nat}
    (hr : r ∈ losses n failed) :
    (decode invert n k (survivors n failed) (losses n failed)).eval x r =
      (fun l : Fin k => encodeMatrix n k r l) ⬝ᵥ
        (roundTrip invert n k failed *ᵥ fun j => data j) := by
  set inv := invert k (selectMatrix n k (survivors n failed)) with hinv
  have hb := builtFrom_decode invert hk hkn hsub hm
  -- the value of each block: the codeword where it survives, what is joined where it is lost
  let T : Nat → GF256 := fun v =>
    if v ∈ losses n failed then
      ∑ j : Fin k, coefVector n k inv v j * codeword n k data ((survivors n failed).getD j 0)
    else codeword n k data v
  have hsurv : ∀ v ∈ survivors n failed, T v = codeword n k data v := fun v hv =>
    if_neg fun h => (mem_survivors.1 hv).2 (mem_losses.1 h).2
  have hT : ∀ j ∈ decodeJoins invert n k (survivors n failed) (losses n failed),
      LinearProgram.combine j.instr.args T = T j.pidx := by
    simp only [decodeJoins, List.mem_map]
    rintro _ ⟨v, hv, rfl⟩
    simp only [Join.instr]
    rw [combine_finRange]
    have : T v = ∑ j : Fin k, coefVector n k inv v j *
        codeword n k data ((survivors n failed).getD j 0) := if_pos hv
    rw [this]
    exact Finset.sum_congr rfl fun j _ => by
      rw [hsurv _ (getD_survivors hsub hm hkn j), smul_eq_mul]
  have hmem : r ∈ (decode invert n k (survivors n failed) (losses n failed)).nodeIds :=
    hb.mem_of_pidx (by simpa [decodeJoins] using hr)
  rw [hb.eval hT (fun v hv => (hx v hv).trans (hsurv v hv).symm) r (Or.inr hmem)]
  have hTr : T r = ∑ j : Fin k, coefVector n k inv r j *
      codeword n k data ((survivors n failed).getD j 0) := if_pos hr
  have hcode : (fun j : Fin k => codeword n k data ((survivors n failed).getD j 0)) =
      selected n k failed *ᵥ fun j => data j := by
    funext j
    rw [codeword_eq hk data (mem_survivors.1 (getD_survivors hsub hm hkn j)).1]
    rfl
  calc T r = (fun l : Fin k => encodeMatrix n k r l) ᵥ* (inv.map GF256.ofNat) ⬝ᵥ
        (selected n k failed *ᵥ fun j => data j) := by rw [hTr, ← hcode]; rfl
    _ = _ := by rw [← dotProduct_mulVec, mulVec_mulVec]; rfl

/-- `Decode` restores everything when the round trip is the identity. -/
theorem restoresAll_of_roundTrip (hk : 1 ≤ k) (hkn : k ≤ n) (hsub : failed ⊆ Finset.range n)
    (hm : failed.card ≤ n - k) (h : roundTrip invert n k failed = 1) :
    RestoresAll invert n k failed := by
  intro data
  have hb := builtFrom_decode invert hk hkn hsub hm
  have hgone : ∀ v ∈ losses n failed, v ∉ survivors n failed := fun v hv hs =>
    (mem_survivors.1 hs).2 (mem_losses.1 hv).2
  refine ⟨hb.leaves, fun v hv => ⟨hb.mem_of_pidx (by simpa [decodeJoins] using hv),
    fun hl => hgone v hv (hb.leaves v hl)⟩, fun x hx v hv => ?_⟩
  rw [decode_eval invert hk hkn hsub hm hx hv, h, one_mulVec,
    codeword_eq hk data (mem_losses.1 hv).1]
  rfl

/-- Conversely, each lost row of the generator survives the round trip. -/
theorem roundTrip_row (hk : 1 ≤ k) (hkn : k ≤ n) (hsub : failed ⊆ Finset.range n)
    (hm : failed.card ≤ n - k) (h : RestoresAll invert n k failed) {r : Nat}
    (hr : r ∈ losses n failed) (c : Fin k) :
    ((fun l : Fin k => encodeMatrix n k r l) ᵥ* roundTrip invert n k failed) c =
      encodeMatrix n k r c := by
  let data : Nat → GF256 := fun v => if v = c.1 then 1 else 0
  have hsingle : (fun j : Fin k => data j) = Pi.single c 1 := by
    funext j
    simp [data, Pi.single_apply, Fin.ext_iff]
  have hval := (h data).value (codeword n k data) (fun _ _ => rfl) r hr
  rw [decode_eval invert hk hkn hsub hm (fun _ _ => rfl) hr,
    codeword_eq hk data (mem_losses.1 hr).1, dotProduct_mulVec, hsingle,
    dotProduct_single_one] at hval
  rw [hval]
  have := dotProduct_single_one (fun j : Fin k => encodeMatrix n k r j) c
  rw [← hsingle] at this
  exact this

end

/-! ## The two fields -/

section
variable {red : (w : Nat) → BitVec w} {failed : Finset Nat}

theorem toField_apply (w : Nat) (A : Matrix (Fin k) (Fin k) Nat) (i j : Fin k) :
    toField red w A i j = Gf.ofNat w (red w) (A i j) := rfl

/-- The selected row of a surviving data block is a unit row, in either field. -/
theorem selectMatrix_data {b : Nat} (hb : b < k) {p : Fin k}
    (hp : (survivors n failed).getD p 0 = b) (j : Fin k) :
    selectMatrix n k (survivors n failed) p j = if j.1 = b then 1 else 0 := by
  show (encodeMatrix n k ((survivors n failed).getD p 0) j).toNat = _
  rw [hp, encodeMatrix_data hb]
  split <;> rfl

theorem ofNat_selectMatrix :
    (selectMatrix n k (survivors n failed)).map GF256.ofNat = selected n k failed := by
  ext1 i j
  exact Gf.ofNat_toNat _

/-- An inverse over GF(2^k) has the unit rows of the surviving data blocks, as integers. -/
theorem inverse_row_data (hk : 1 ≤ k) {B : Matrix (Fin k) (Fin k) Nat} (hB : ∀ i j, B i j < 2 ^ k)
    (hinv : toField red k B * toField red k (selectMatrix n k (survivors n failed)) = 1)
    {b p : Fin k} (hp : (survivors n failed).getD p 0 = b) (j : Fin k) :
    B b j = if p = j then 1 else 0 := by
  have h1 := Matrix.ext_iff.2 (mul_eq_one_comm.1 hinv) p j
  rw [mul_apply, Finset.sum_eq_single b] at h1
  · rw [toField_apply, toField_apply, selectMatrix_data b.2 hp, if_pos rfl, Gf.ofNat_one, one_mul,
      one_apply] at h1
    have h2 : (1 : Nat) < 2 ^ k := Nat.one_lt_two_pow (by omega)
    apply Gf.ofNat_injOn (hB b j) (by split <;> omega)
    rw [h1]
    split <;> simp
  · intro c _ hc
    rw [toField_apply, selectMatrix_data b.2 hp, if_neg fun h => hc (Fin.ext h)]
    simp
  · simp

/-- The inversion that returns the inverse where there is one, and 0 elsewhere. -/
noncomputable def exactInvert (red : (w : Nat) → BitVec w) : InvertMatrix := fun w {k} A =>
  open Classical in
  if (∀ i j, A i j < 2 ^ w) ∧ IsUnit (toField red w A) then
    (toField red w A)⁻¹.map Gf.toNat
  else (0 : Matrix (Fin k) (Fin k) Nat)

theorem inverts_exactInvert (red : (w : Nat) → BitVec w) : Inverts red (exactInvert red) := by
  intro w k A hA hunit
  have hval : exactInvert red w A = (toField red w A)⁻¹.map Gf.toNat := if_pos ⟨hA, hunit⟩
  rw [hval]
  refine ⟨fun i j => Gf.toNat_lt _, ?_⟩
  have hback : toField red w ((toField red w A)⁻¹.map Gf.toNat) = (toField red w A)⁻¹ := by
    ext1 i j
    exact Gf.ofNat_toNat _
  rw [hback]
  exact nonsing_inv_mul _ ((isUnit_iff_isUnit_det _).1 hunit)

theorem encodeMatrix_row_ne_zero (hk : 1 ≤ k) {r : Nat} (hr : r < n) :
    ∃ c : Fin k, encodeMatrix n k r c ≠ 0 := by
  by_cases hrk : r < k
  · exact ⟨⟨r, hrk⟩, by rw [encodeMatrix_data hrk]; simp⟩
  · refine ⟨⟨0, by omega⟩, ?_⟩
    obtain ⟨p, rfl⟩ : ∃ p, r = k + p := ⟨r - k, by omega⟩
    rw [encodeMatrix, entry_parity hr (by omega)]
    simp

/-- When an inversion restores everything, its GF(2^k) inverse is the GF(2^8) inverse. -/
theorem roundTrip_eq_one (invert : InvertMatrix) (hk : 1 ≤ k) (hkn : k ≤ n)
    (hsub : failed ⊆ Finset.range n) (hm : failed.card ≤ n - k)
    (h : RestoresAll invert n k failed)
    (hB : ∀ i j, invert k (selectMatrix n k (survivors n failed)) i j < 2 ^ k)
    (hinv : toField red k (invert k (selectMatrix n k (survivors n failed))) *
      toField red k (selectMatrix n k (survivors n failed)) = 1) :
    roundTrip invert n k failed = 1 := by
  ext1 b c
  by_cases hbf : b.1 ∈ failed
  · -- a lost data block: its row of the generator is a unit row
    have hrow := roundTrip_row invert hk hkn hsub hm h
      (mem_losses.2 ⟨by have := b.2; omega, hbf⟩) c
    rw [encodeMatrix_data b.2] at hrow
    have hunit : (fun l : Fin k => encodeMatrix n k b l) = Pi.single b 1 := by
      funext l
      rw [encodeMatrix_data b.2]
      simp [Pi.single_apply, Fin.ext_iff]
    rw [hunit, single_one_vecMul] at hrow
    rw [one_apply]
    simpa [Fin.ext_iff, eq_comm] using hrow
  · -- a surviving one: its row of the inverse is a unit row in both fields
    obtain ⟨p, hp⟩ := exists_getD_survivors b.2 hkn hbf
    have hrow := inverse_row_data hk hB hinv hp
    rw [roundTrip, mul_apply, Finset.sum_eq_single p]
    · rw [map_apply, hrow, if_pos rfl, GF256.ofNat_one, one_mul]
      show encodeMatrix n k ((survivors n failed).getD p 0) c = _
      rw [hp, encodeMatrix_data b.2, one_apply]
      simp [Fin.ext_iff, eq_comm]
    · intro j _ hj
      rw [map_apply, hrow, if_neg fun h => hj h.symm, GF256.ofNat_zero, zero_mul]
    · simp

/-- Two inverses over GF(2^k) with entries in range are the same integers. -/
theorem inverse_unique {A B B' : Matrix (Fin k) (Fin k) Nat} (hB : ∀ i j, B i j < 2 ^ k)
    (hB' : ∀ i j, B' i j < 2 ^ k) (h : toField red k B * toField red k A = 1)
    (h' : toField red k B' * toField red k A = 1) : B = B' := by
  have heq : toField red k B = toField red k B' :=
    left_inv_eq_right_inv h (mul_eq_one_comm.1 h')
  ext1 i j
  exact Gf.ofNat_injOn (hB i j) (hB' i j) (Matrix.ext_iff.2 heq i j)

/-- The condition is enough, for every inversion. -/
theorem restoresAll_of_sameInverse (hk : 1 ≤ k) (hkn : k ≤ n) (hsub : failed ⊆ Finset.range n)
    (hm : failed.card ≤ n - k) (h : SameInverse red n k failed) {invert : InvertMatrix}
    (hlib : Inverts red invert) : RestoresAll invert n k failed := by
  obtain ⟨B, hA, hB, hk2, h8⟩ := h
  obtain ⟨hlt, hinv⟩ := hlib k k _ hA (IsUnit.of_mul_eq_one_right _ hk2)
  apply restoresAll_of_roundTrip invert hk hkn hsub hm
  rw [roundTrip, ← inverse_unique hB hlt hk2 hinv]
  exact h8

/-- It is also necessary: an inversion may return 0 for what it need not invert. -/
theorem sameInverse_of_restoresAll (hk : 1 ≤ k) (hkn : k ≤ n) (hsub : failed ⊆ Finset.range n)
    (hne : failed.Nonempty) (hm : failed.card ≤ n - k)
    (h : RestoresAll (exactInvert red) n k failed) : SameInverse red n k failed := by
  by_cases hdom : (∀ i j, selectMatrix n k (survivors n failed) i j < 2 ^ k) ∧
      IsUnit (toField red k (selectMatrix n k (survivors n failed)))
  · obtain ⟨hlt, hinv⟩ := inverts_exactInvert red k k _ hdom.1 hdom.2
    exact ⟨_, hdom.1, hlt, hinv, roundTrip_eq_one _ hk hkn hsub hm h hlt hinv⟩
  · exfalso
    have hzero : roundTrip (exactInvert red) n k failed = 0 := by
      have : exactInvert red k (selectMatrix n k (survivors n failed)) = 0 := if_neg hdom
      rw [roundTrip, this]
      have h0 : (0 : Matrix (Fin k) (Fin k) Nat).map GF256.ofNat = 0 := by
        ext1 i j
        rfl
      rw [h0, Matrix.zero_mul]
    obtain ⟨r, hr⟩ := hne
    have hrn : r < n := Finset.mem_range.1 (hsub hr)
    obtain ⟨c, hc⟩ := encodeMatrix_row_ne_zero (k := k) hk hrn
    have := roundTrip_row _ hk hkn hsub hm h (mem_losses.2 ⟨hrn, hr⟩) c
    rw [hzero, vecMul_zero] at this
    exact hc this.symm

/-- For `k = 8` the two fields are one. -/
theorem sameInverse_of_eight (h8 : red 8 = 0x1d#8) (hunit : IsUnit (selected n 8 failed)) :
    SameInverse red n 8 failed := by
  have hmap : ∀ B A : Matrix (Fin 8) (Fin 8) Nat,
      B.map GF256.ofNat * A.map GF256.ofNat = 1 → toField red 8 B * toField red 8 A = 1 := by
    unfold toField
    rw [h8]
    exact fun _ _ h => h
  have hinv : ((selected n 8 failed)⁻¹.map Gf.toNat).map GF256.ofNat * selected n 8 failed = 1 := by
    have hback : ((selected n 8 failed)⁻¹.map Gf.toNat).map GF256.ofNat =
        (selected n 8 failed)⁻¹ := by
      ext1 i j
      exact Gf.ofNat_toNat _
    rw [hback]
    exact nonsing_inv_mul _ ((isUnit_iff_isUnit_det _).1 hunit)
  refine ⟨_, fun i j => Gf.toNat_lt _, fun i j => Gf.toNat_lt _, hmap _ _ ?_, hinv⟩
  rw [ofNat_selectMatrix]
  exact hinv

/-- **Decode undoes Encode exactly when the two fields agree on the inverse.** -/
theorem decode_iff (red : (w : Nat) → BitVec w) (n k : Nat) (failed : Finset Nat) (hk : 1 ≤ k)
    (hkn : k < n) (hsub : failed ⊆ Finset.range n) (hne : 1 ≤ failed.card)
    (hm : failed.card ≤ n - k) :
    (∀ invert : InvertMatrix, Inverts red invert → RestoresAll invert n k failed) ↔
      SameInverse red n k failed := by
  constructor
  · intro h
    exact sameInverse_of_restoresAll hk hkn.le hsub (Finset.card_pos.1 hne) hm
      (h _ (inverts_exactInvert red))
  · intro h invert hlib
    exact restoresAll_of_sameInverse hk hkn.le hsub hm h hlib

/-- The polynomials of a library whose GF(4) is `x^2 + x + 1`. -/
def smallFields (w : Nat) : BitVec w := BitVec.ofNat w (if w = 2 then 3 else 0x1d)

/-- One lost data block and parity 0, the xor of the data: both fields agree. -/
theorem decode_xor : RestoresAll (exactInvert smallFields) 4 2 {0} := by
  refine (decode_iff smallFields 4 2 {0} (by omega) (by omega) (by decide)
    (by decide) (by decide)).2 ⟨!![1, 1; 1, 0], ?_, ?_, ?_, ?_⟩ _ (inverts_exactInvert _)
  · intro i j
    fin_cases i <;> fin_cases j <;> decide
  · intro i j
    fin_cases i <;> fin_cases j <;> decide
  · decide
  · decide

/-- Both data blocks of the (4, 2) code lost: over GF(4) the inverse of the rows
`1 1` and `1 2` is another one. -/
theorem decode_wrong_field :
    ¬ ∀ red : (w : Nat) → BitVec w, red 8 = 0x1d#8 →
      ∀ invert : InvertMatrix, Inverts red invert →
      ∀ (n k : Nat) (failed : Finset Nat), 1 ≤ k → k < n → n ≤ RS_N_MAX →
        failed ⊆ Finset.range n → 1 ≤ failed.card → failed.card ≤ n - k →
        IsUnit (selected n k failed) → RestoresAll invert n k failed := by
  intro h
  have hunit : IsUnit (selected 4 2 {0, 1}) := by
    rw [isUnit_iff_isUnit_det, det_fin_two, isUnit_iff_ne_zero]
    decide
  have hall := h smallFields rfl _ (inverts_exactInvert smallFields) 4 2 {0, 1} (by omega)
    (by omega) (by decide) (by decide) (by decide) (by decide) hunit
  obtain ⟨B, -, hB, -, hinv⟩ : SameInverse smallFields 4 2 {0, 1} :=
    sameInverse_of_restoresAll (by omega) (by omega) (by decide) ⟨0, by decide⟩ (by decide) hall
  -- the first row of the inverse over GF(2^8) has no entries below 4
  have hnone : ∀ a < 4, ∀ b < 4,
      ¬ (GF256.ofNat a * selected 4 2 {0, 1} 0 0 + GF256.ofNat b * selected 4 2 {0, 1} 1 0 = 1 ∧
        GF256.ofNat a * selected 4 2 {0, 1} 0 1 + GF256.ofNat b * selected 4 2 {0, 1} 1 1 = 0) := by
    decide
  apply hnone (B 0 0) (hB 0 0) (B 0 1) (hB 0 1)
  have h0 := Matrix.ext_iff.2 hinv 0 0
  have h1 := Matrix.ext_iff.2 hinv 0 1
  rw [mul_apply, Fin.sum_univ_two] at h0 h1
  exact ⟨h0, h1⟩

end

end

end RSCONV

end StripeRepair

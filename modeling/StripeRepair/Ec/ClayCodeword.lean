import StripeRepair.Lib.LinearCode
import StripeRepair.Ec.ClayIdSpace

/-!
# `Clay`: the codewords

The four packets of a pair are symbols of the code with two data and two parities. The uncoupled
packets of a plane are symbols of the Reed-Solomon code.

* `Codeword.layered`, `Codeword.planeJoins`: the `Join`s of `Decode` are true of a codeword.
* `exists_codeword`: any data have a codeword.
* `encode_eval`: `Encode` computes it.
-/

namespace StripeRepair

namespace Clay

open Matrix

/-! ## The equations -/

/-- The ids of a pair when the node is 0 and 2. -/
def pairId (c : Clay) (i z : Nat) : Nat → Nat
  | 0 => c.coupledId i z
  | 1 => c.coupledId (c.mate i z) (c.matePlane i z)
  | 2 => c.uncoupledId i z
  | _ => c.uncoupledId (c.mate i z) (c.matePlane i z)

section
variable {M : Type} [AddCommMonoid M] [Module GF256 M]

/-- The pairs and the planes are codewords. -/
structure Codeword (c : Clay) (T : Nat → M) : Prop where
  pair : ∀ i < c.n + c.nu, ∀ z < c.w, c.zVec z (i / c.q) < i % c.q →
    LinearCode.Generates (fun e (j : Fin 2) => pftEncodeMatrix e j)
      (fun j : Fin 2 => T (c.pairId i z j)) (· < 4) fun e => T (c.pairId i z e)
  plane : ∀ z < c.w, LinearCode.Generates (fun i (j : Fin c.mdsK) => c.mdsEncodeMatrix i j)
    (fun l : Fin c.mdsK => T (c.uncoupledId l z)) (· < c.n + c.nu) fun i => T (c.uncoupledId i z)

/-- A `Join` that reads something and is an equation of `T`. -/
def TrueOf (T : Nat → M) (j : Join) : Prop :=
  j.cidx ≠ [] ∧ LinearProgram.combine j.instr.args T = T j.pidx

/-! ## The inverses -/

/-- Any two rows of the code of a pair are independent. -/
theorem isUnit_pftRows {a b : Nat} (ha : a < 4) (hb : b < 4) (hab : a ≠ b) :
    IsUnit (of fun i j : Fin 2 => pftEncodeMatrix ([a, b].getD i 0) j) := by
  have hsel : Function.Injective (![⟨a, ha⟩, ⟨b, hb⟩] : Fin 2 → Fin (2 + 2)) := by
    intro i j h
    fin_cases i <;> fin_cases j <;> simp_all [Fin.ext_iff]
  have hunit := (mds_iff 2 2 (by omega)).2 (Or.inl (Nat.le_refl 2)) _ hsel
  have hrows : (of fun i j : Fin 2 => pftEncodeMatrix ([a, b].getD i 0) j) =
      selectMatrix 2 2 ![⟨a, ha⟩, ⟨b, hb⟩] := by
    ext i j
    fin_cases i <;> rfl
  rwa [hrows]

variable {invert : InvertMatrix8} (hinv : Inverts8 invert)
include hinv

theorem pftInvert_mul {a b : Nat} (ha : a < 4) (hb : b < 4) (hab : a ≠ b) :
    pftInvert invert a b * of (fun i j : Fin 2 => pftEncodeMatrix ([a, b].getD i 0) j) = 1 :=
  hinv 2 _ (isUnit_pftRows ha hb hab)

omit hinv in
/-- The rows that are inverted for a plane. -/
def mdsSelected (c : Clay) (erased : List Nat) : Matrix (Fin c.mdsK) (Fin c.mdsK) GF256 :=
  of fun i j => c.mdsEncodeMatrix ((c.selectLines erased).getD i 0) j

theorem mdsInvert_mul {c : Clay} {erased : List Nat} (h : IsUnit (c.mdsSelected erased)) :
    c.mdsInvert invert erased * c.mdsSelected erased = 1 :=
  hinv c.mdsK _ h

/-! ## The `Join`s of a pair -/

omit hinv in
/-- A combination of two packets. -/
theorem combine_pair (coef : Fin 2 → GF256) (u v : Nat) (T : Nat → M) :
    LinearProgram.combine
      ((((List.finRange 2).map fun j => GF256.toInt (coef j)).map GF256.ofInt).zip [u, v]) T =
        ∑ j : Fin 2, coef j • T ([u, v].getD j 0) :=
  combine_finRange coef (fun j => [u, v].getD j 0) T

section
variable {c : Clay} {T : Nat → M} (h : c.Codeword T) {i z : Nat} (hi : i < c.n + c.nu)
  (hz : z < c.w) (hup : c.zVec z (i / c.q) < i % c.q)
include h hi hz hup

omit hinv h hi hz hup [AddCommMonoid M] [Module GF256 M] in
/-- The packets of the selected rows. -/
theorem getD_pairId (T : Nat → M) (a b : Nat) (j : Fin 2) :
    T ([c.pairId i z a, c.pairId i z b].getD j 0) = T (c.pairId i z ([a, b].getD j 0)) := by
  fin_cases j <;> rfl

omit hinv h hi hz hup in
theorem getD_pair_lt {a b : Nat} (ha : a < 4) (hb : b < 4) (j : Fin 2) :
    [a, b].getD j 0 < 4 := by
  fin_cases j
  · exact ha
  · exact hb

theorem Codeword.pairJoin {a b t : Nat} (ha : a < 4) (hb : b < 4) (hab : a ≠ b) (ht : t < 4) :
    TrueOf T ⟨c.pairId i z t, [c.pairId i z a, c.pairId i z b], coefPair invert a b t⟩ := by
  refine ⟨List.cons_ne_nil _ _, ?_⟩
  refine (combine_pair (fun j => ∑ l : Fin 2, pftEncodeMatrix t l * pftInvert invert a b l j)
    _ _ T).trans ?_
  simp only [getD_pairId]
  exact (h.pair i hi z hz hup).symbol (getD_pair_lt ha hb) (pftInvert_mul hinv ha hb hab) ht

theorem Codeword.coupledJoin (t : Fin 2) :
    TrueOf T ⟨c.pairId i z t, [c.pairId i z 2, c.pairId i z 3], coefCoupled invert t⟩ := by
  refine ⟨List.cons_ne_nil _ _, ?_⟩
  refine (combine_pair (fun j => pftInvert invert 2 3 t j) _ _ T).trans ?_
  simp only [getD_pairId]
  exact (h.pair i hi z hz hup).datum (getD_pair_lt (by omega) (by omega))
    (pftInvert_mul hinv (by omega) (by omega) (by omega)) t

omit hinv in
theorem Codeword.uncoupledOfPair {t : Nat} (ht : t < 4) :
    TrueOf T ⟨c.pairId i z t, [c.pairId i z 0, c.pairId i z 1], coefUncoupled t⟩ := by
  refine ⟨List.cons_ne_nil _ _, ?_⟩
  refine (combine_pair (fun j => pftEncodeMatrix t j) _ _ T).trans ?_
  refine Eq.trans (Finset.sum_congr rfl fun j _ => ?_) (h.pair i hi z hz hup t ht).symm
  fin_cases j <;> rfl

end

section
variable {c : Clay} (hq : 0 < c.q) (hkn : c.k ≤ c.n) {i z : Nat} (hi : i < c.n + c.nu)
include hq hkn hi

omit hinv in
/-- The partner is 0 and 2 when the node is 1 and 3. -/
theorem mate_upper (hn : ¬ c.Named i z) (hlow : ¬ c.zVec z (i / c.q) < i % c.q) :
    c.zVec (c.matePlane i z) (c.mate i z / c.q) < c.mate i z % c.q := by
  have hne : c.zVec z (i / c.q) ≠ i % c.q := hn
  rw [mate_div hq hkn hi, mate_mod hq hkn hi, zVec_matePlane hq hkn hi]
  omega

omit hinv in
/-- The ids of the pair of the partner. -/
theorem pairId_mate :
    c.pairId (c.mate i z) (c.matePlane i z) 1 = c.coupledId i z ∧
      c.pairId (c.mate i z) (c.matePlane i z) 3 = c.uncoupledId i z := by
  obtain ⟨hmm, hpp⟩ := mate_mate hq hkn hi (z := z)
  unfold pairId
  rw [hmm, hpp]
  exact ⟨rfl, rfl⟩

variable {T : Nat → M} (h : c.Codeword T) (hz : z < c.w)
include h hz

omit hinv in
theorem Codeword.helperJoins {y : Nat} {j : Join} (hj : j ∈ c.helperJoins y i z) : TrueOf T j := by
  unfold Clay.helperJoins at hj
  split at hj
  · exact absurd hj List.not_mem_nil
  · next hno =>
    have hn : ¬ c.Named i z := fun hn => hno (Or.inr hn)
    split at hj
    · next hup =>
      obtain rfl := List.mem_singleton.1 hj
      exact h.uncoupledOfPair hi hz hup (t := 2) (by omega)
    · next hlow =>
      obtain rfl := List.mem_singleton.1 hj
      obtain ⟨h1, h3⟩ := pairId_mate hq hkn hi (z := z)
      have hjoin := h.uncoupledOfPair (mate_lt hq hkn hi) (matePlane_lt hq hkn hi hz)
        (mate_upper hq hkn hi hn hlow) (t := 3) (by omega)
      rwa [h1, h3] at hjoin

theorem Codeword.recoverJoins {helper : List Nat} {j : Join}
    (hj : j ∈ c.recoverJoins invert helper i z) : TrueOf T j := by
  have hmate := mate_lt hq hkn hi (z := z)
  have hplane := matePlane_lt hq hkn hi hz
  obtain ⟨h1, h3⟩ := pairId_mate hq hkn hi (z := z)
  unfold Clay.recoverJoins at hj
  split at hj
  · exact absurd hj List.not_mem_nil
  · next hn =>
    split at hj
    · obtain rfl := List.mem_singleton.1 hj
      split
      · next hup =>
        exact h.pairJoin hinv hi hz hup (a := 0) (b := 2) (t := 1) (by omega) (by omega) (by omega)
          (by omega)
      · next hlow =>
        have hjoin := h.pairJoin hinv hmate hplane (mate_upper hq hkn hi hn hlow) (a := 1) (b := 3)
          (t := 0) (by omega) (by omega) (by omega) (by omega)
        rwa [h1, h3] at hjoin
    · split at hj
      · next hlt =>
        have hjoin := h.coupledJoin hinv hmate hplane (mate_upper hq hkn hi hn (by omega))
        rw [h3] at hjoin
        rcases List.mem_pair.1 hj with rfl | rfl
        · exact hjoin 0
        · have hone := hjoin 1
          rwa [show ((1 : Fin 2) : Nat) = 1 from rfl, h1] at hone
      · exact absurd hj List.not_mem_nil

theorem Codeword.erasureJoins {erased : List Nat} {j : Join}
    (hj : j ∈ c.erasureJoins invert erased i z) : TrueOf T j := by
  have hmate := mate_lt hq hkn hi (z := z)
  have hplane := matePlane_lt hq hkn hi hz
  obtain ⟨h1, h3⟩ := pairId_mate hq hkn hi (z := z)
  unfold Clay.erasureJoins at hj
  split at hj
  · exact absurd hj List.not_mem_nil
  · next hno =>
    have hn : ¬ c.Named i z := fun hn => hno (Or.inr hn)
    split at hj
    · next hup =>
      split at hj
      · rcases List.mem_pair.1 hj with rfl | rfl
        · exact h.uncoupledOfPair hi hz hup (t := 2) (by omega)
        · exact h.uncoupledOfPair hi hz hup (t := 3) (by omega)
      · obtain rfl := List.mem_singleton.1 hj
        exact h.pairJoin hinv hi hz hup (a := 0) (b := 3) (t := 2) (by omega) (by omega) (by omega)
          (by omega)
    · next hlow =>
      split at hj
      · obtain rfl := List.mem_singleton.1 hj
        have hjoin := h.pairJoin hinv hmate hplane (mate_upper hq hkn hi hn hlow) (a := 1) (b := 2)
          (t := 3) (by omega) (by omega) (by omega) (by omega)
        rwa [h1, h3] at hjoin
      · exact absurd hj List.not_mem_nil

theorem Codeword.layeredJoins {erased : List Nat} {j : Join}
    (hj : j ∈ c.layeredJoins invert erased i z) : TrueOf T j := by
  have hmate := mate_lt hq hkn hi (z := z)
  have hplane := matePlane_lt hq hkn hi hz
  obtain ⟨h1, h3⟩ := pairId_mate hq hkn hi (z := z)
  unfold Clay.layeredJoins at hj
  split at hj
  · exact absurd hj List.not_mem_nil
  · next hn =>
    split at hj
    · split at hj
      · next hup =>
        obtain rfl := List.mem_singleton.1 hj
        exact h.pairJoin hinv hi hz hup (a := 1) (b := 2) (t := 0) (by omega) (by omega) (by omega)
          (by omega)
      · next hlow =>
        obtain rfl := List.mem_singleton.1 hj
        have hjoin := h.pairJoin hinv hmate hplane (mate_upper hq hkn hi hn hlow) (a := 0) (b := 3)
          (t := 1) (by omega) (by omega) (by omega) (by omega)
        rwa [h1, h3] at hjoin
    · split at hj
      · next hup =>
        rcases List.mem_pair.1 hj with rfl | rfl
        · exact h.coupledJoin hinv hi hz hup 0
        · exact h.coupledJoin hinv hi hz hup 1
      · exact absurd hj List.not_mem_nil

end

/-! ## The `Join`s of a plane -/

section
variable {c : Clay} (hq : 0 < c.q) (hkn : c.k ≤ c.n) {T : Nat → M} (h : c.Codeword T)
  {erased : List Nat}
include hkn h

variable (hnodup : erased.Nodup) (hlen : erased.length = c.m) (hlt : ∀ i ∈ erased, i < c.n + c.nu)
  (hunit : IsUnit (c.mdsSelected erased))
include hnodup hlen hlt hunit

/-- **The `Join`s of an erased node.** -/
theorem Codeword.uncoupledJoin (hk : 0 < c.mdsK) {i z : Nat} (hi : i < c.n + c.nu) (hz : z < c.w) :
    TrueOf T (c.uncoupledJoin invert erased z i) := by
  have hselect := selectLines_eq hkn hnodup hlen hlt
  have hlines : (c.selectLines erased).length = c.mdsK := by
    rw [hselect]
    exact length_filter_erased hkn hnodup hlen hlt
  have hsel : ∀ j : Fin c.mdsK, (c.selectLines erased).getD j 0 < c.n + c.nu := by
    refine fun j => getD_lt (Nat.zero_lt_of_lt hi) (fun v hv => ?_) j
    rw [hselect] at hv
    exact List.mem_range.1 (List.mem_of_mem_filter hv)
  refine ⟨fun hnil => ?_, ?_⟩
  · rw [Clay.uncoupledJoin, List.map_eq_nil_iff] at hnil
    rw [hnil] at hlines
    exact hk.ne hlines
  · have hcidx : (c.uncoupledJoin invert erased z i).cidx = (List.finRange c.mdsK).map
        fun j : Fin c.mdsK => c.uncoupledId ((c.selectLines erased).getD j 0) z :=
      map_eq_finRange_map hlines fun l => c.uncoupledId l z
    unfold Join.instr
    rw [hcidx]
    refine (combine_finRange _ _ T).trans ?_
    exact (h.plane z hz).symbol hsel (mdsInvert_mul hinv hunit) hi

include hq

/-- **The layered code is true of a codeword.** -/
theorem Codeword.layered (hk : 0 < c.mdsK) {j : Join} (hj : j ∈ c.decodeLayered invert erased) :
    TrueOf T j := by
  rw [decodeLayered_eq hq hkn invert hlen hlt] at hj
  obtain ⟨s, -, hj⟩ := List.mem_flatMap.1 hj
  rcases List.mem_append.1 hj with hj | hj
  · obtain ⟨z, hz, hj⟩ := List.mem_flatMap.1 hj
    have hz := (mem_planesOf.1 hz).1
    rcases (mem_decodeErasures hq hkn hz).1 hj with ⟨i, hi, hj⟩ | ⟨i, hi, rfl⟩
    · exact h.erasureJoins hinv hq hkn hi hz hj
    · exact h.uncoupledJoin hinv hkn hnodup hlen hlt hunit hk (hlt i hi) hz
  · obtain ⟨z, hz, hj⟩ := List.mem_flatMap.1 hj
    obtain ⟨i, hi, hj⟩ := List.mem_flatMap.1 hj
    exact h.layeredJoins hinv hq hkn (hlt i hi) (mem_planesOf.1 hz).1 hj

end

/-- **The repair of one column is true of a codeword.** -/
theorem Codeword.planeJoins {c : Clay} (hq : 0 < c.q) (hkn : c.k ≤ c.n) {T : Nat → M}
    (h : c.Codeword T) {y : Nat} (hy : y < c.t) (hm : c.m = c.q) (hk : 0 < c.mdsK)
    (hunit : IsUnit (c.mdsSelected (c.column y))) {helper : List Nat} {z : Nat} (hz : z < c.w)
    {j : Join} (hj : j ∈ c.planeJoins invert y helper z) : TrueOf T j := by
  have hlt : ∀ i ∈ c.column y, i < c.n + c.nu := by
    intro i hi
    rw [← node_eq (c := c) i, (mem_column hq).1 hi]
    exact node_lt hq hkn (Nat.mod_lt _ hq) hy
  have hlen : (c.column y).length = c.m := by
    rw [Clay.column, List.length_map, List.length_range, hm]
  rw [planeJoins_eq hq hkn, List.mem_append, List.mem_append] at hj
  rcases hj with (hj | hj) | hj
  · obtain ⟨i, hi, hj⟩ := List.mem_flatMap.1 hj
    exact h.helperJoins hq hkn (List.mem_range.1 hi) hz hj
  · obtain ⟨i, hi, rfl⟩ := List.mem_map.1 hj
    exact h.uncoupledJoin hinv hkn (nodup_column c y) hlen hlt hunit hk (hlt i hi) hz
  · obtain ⟨i, hi, hj⟩ := List.mem_flatMap.1 hj
    exact h.recoverJoins hinv hq hkn (hlt i hi) hz hj

end

/-! ## Any data have a codeword -/

section
variable {c : Clay} (hc : c.AllHelpers)
include hc

/-- A pair is of data nodes or of parities. -/
theorem AllHelpers.mate_lt_data {i z : Nat} (hi : i < c.n + c.nu) :
    c.mate i z < c.k + c.nu ↔ i < c.k + c.nu := by
  have hq := hc.q_pos
  obtain ⟨a, ha⟩ := hc.dvd_data
  have hdiv : ∀ v, v < c.k + c.nu ↔ v / c.q < a := fun v => by
    rw [ha, Nat.div_lt_iff_lt_mul hq, Nat.mul_comm]
  rw [hdiv, hdiv, mate_div hq hc.k_le hi]

section
variable {M : Type} [Zero M]

/-- Packets by node and plane are packets by id. -/
theorem AllHelpers.exists_packets (C U : Nat → Nat → M)
    (h : ∀ i < c.n + c.nu, ∀ z < c.w, c.Named i z → C i z = U i z) :
    ∃ T : Nat → M, (∀ i < c.n + c.nu, ∀ z < c.w, T (c.coupledId i z) = C i z) ∧
      ∀ i < c.n + c.nu, ∀ z < c.w, T (c.uncoupledId i z) = U i z := by
  classical
  have hq := hc.q_pos
  have hkn := hc.k_le
  let IsC : Nat → Nat × Nat → Prop := fun v p =>
    p.1 < c.n + c.nu ∧ p.2 < c.w ∧ c.coupledId p.1 p.2 = v
  let IsU : Nat → Nat × Nat → Prop := fun v p =>
    p.1 < c.n + c.nu ∧ p.2 < c.w ∧ c.uncoupledId p.1 p.2 = v
  let T : Nat → M := fun v =>
    if hv : ∃ p, IsC v p then C hv.choose.1 hv.choose.2
    else if hv : ∃ p, IsU v p then U hv.choose.1 hv.choose.2 else 0
  have hcoupled : ∀ i < c.n + c.nu, ∀ z < c.w, T (c.coupledId i z) = C i z := by
    intro i hi z hz
    have hv : ∃ p, IsC (c.coupledId i z) p := ⟨(i, z), hi, hz, rfl⟩
    obtain ⟨hi', hz', he⟩ := hv.choose_spec
    obtain ⟨h1, h2⟩ := coupledId_inj hq hkn hi' hi hz' hz he
    exact (dif_pos hv).trans (by rw [h1, h2])
  refine ⟨T, hcoupled, fun i hi z hz => ?_⟩
  by_cases hn : c.Named i z
  · rw [uncoupledId_of_named hq hkn hi hz hn, hcoupled i hi z hz, h i hi z hz hn]
  · have hnot : ¬ ∃ p, IsC (c.uncoupledId i z) p := by
      rintro ⟨p, hi', hz', he⟩
      exact hn (uncoupledId_eq_coupledId hq hkn hi hi' hz hz' he.symm).1
    have hv : ∃ p, IsU (c.uncoupledId i z) p := ⟨(i, z), hi, hz, rfl⟩
    obtain ⟨hi', hz', he⟩ := hv.choose_spec
    obtain ⟨h1, h2⟩ := uncoupledId_inj hq hkn hi' hi hz' hz he
    exact (dif_neg hnot).trans ((dif_pos hv).trans (by rw [h1, h2]))

end

end

section
variable {M : Type} [AddCommMonoid M] [Module GF256 M]

/-- Packet `e` of a pair, from the two coupled ones. -/
def pairRow (e : Nat) (u v : M) : M := ∑ j : Fin 2, pftEncodeMatrix e j • ![u, v] j

/-- Coupled packet `t` of a pair, from the two uncoupled ones. -/
def pairInverse (invert : InvertMatrix8) (t : Fin 2) (u v : M) : M :=
  ∑ j : Fin 2, pftInvert invert 2 3 t j • ![u, v] j

theorem pairRow_zero (u v : M) : pairRow 0 u v = u := by
  have h0 : pftEncodeMatrix 0 0 = 1 := by decide
  have h1 : pftEncodeMatrix 0 1 = 0 := by decide
  rw [pairRow, Fin.sum_univ_two]
  show pftEncodeMatrix 0 0 • u + pftEncodeMatrix 0 1 • v = u
  rw [h0, h1, one_smul, zero_smul, add_zero]

theorem pairRow_one (u v : M) : pairRow 1 u v = v := by
  have h0 : pftEncodeMatrix 1 0 = 0 := by decide
  have h1 : pftEncodeMatrix 1 1 = 1 := by decide
  rw [pairRow, Fin.sum_univ_two]
  show pftEncodeMatrix 1 0 • u + pftEncodeMatrix 1 1 • v = v
  rw [h0, h1, one_smul, zero_smul, zero_add]

/-- The uncoupled packets that pair with given coupled ones are right for the whole pair. -/
theorem generates_pair {P : Nat → M} (h2 : P 2 = pairRow 2 (P 0) (P 1))
    (h3 : P 3 = pairRow 3 (P 0) (P 1)) :
    LinearCode.Generates (fun e (j : Fin 2) => pftEncodeMatrix e j) (fun j : Fin 2 => P j) (· < 4)
      P := by
  have hrow : ∀ e, pairRow e (P 0) (P 1) = ∑ j : Fin 2, pftEncodeMatrix e j • P j := by
    intro e
    rw [pairRow, Fin.sum_univ_two, Fin.sum_univ_two]
    rfl
  intro e he
  rw [← hrow]
  match e with
  | 0 => exact (pairRow_zero _ _).symm
  | 1 => exact (pairRow_one _ _).symm
  | 2 => exact h2
  | 3 => exact h3

variable (c : Clay) (invert : InvertMatrix8) (x : Nat → M) (i z : Nat)

/-- The uncoupled packets of the data nodes. -/
def dataUncoupled : M :=
  if c.Named i z then x (c.coupledId i z)
  else if c.zVec z (i / c.q) < i % c.q then
    pairRow 2 (x (c.coupledId i z)) (x (c.coupledId (c.mate i z) (c.matePlane i z)))
  else pairRow 3 (x (c.coupledId (c.mate i z) (c.matePlane i z))) (x (c.coupledId i z))

/-- The uncoupled packets of all nodes. -/
def planeUncoupled : M := ∑ l : Fin c.mdsK, c.mdsEncodeMatrix i l • c.dataUncoupled x l z

/-- The coupled packets of the parities. -/
def parityCoupled : M :=
  if c.Named i z then c.planeUncoupled x i z
  else if c.zVec z (i / c.q) < i % c.q then
    pairInverse invert ⟨0, Nat.two_pos⟩ (c.planeUncoupled x i z)
      (c.planeUncoupled x (c.mate i z) (c.matePlane i z))
  else
    pairInverse invert ⟨1, Nat.one_lt_two⟩
      (c.planeUncoupled x (c.mate i z) (c.matePlane i z)) (c.planeUncoupled x i z)

variable {c} {i}

theorem planeUncoupled_data (hi : i < c.mdsK) :
    c.planeUncoupled x i z = c.dataUncoupled x i z := by
  have hrow : ∀ l : Fin c.mdsK, c.mdsEncodeMatrix i l = if l = ⟨i, hi⟩ then 1 else 0 := by
    intro l
    refine (entry_data hi l.2).trans ?_
    simp only [Fin.ext_iff]
  unfold planeUncoupled
  simp only [hrow, ite_smul, one_smul, zero_smul, Finset.sum_ite_eq', Finset.mem_univ, if_true]

variable {invert} {z} (hinv : Inverts8 invert)
include hinv

/-- The uncoupled packets of a pair of parities are back from its coupled packets. -/
theorem pairRow_pairInverse (u v : M) :
    pairRow 2 (pairInverse invert ⟨0, Nat.two_pos⟩ u v)
        (pairInverse invert ⟨1, Nat.one_lt_two⟩ u v) = u ∧
      pairRow 3 (pairInverse invert ⟨0, Nat.two_pos⟩ u v)
        (pairInverse invert ⟨1, Nat.one_lt_two⟩ u v) = v := by
  have hmul := mul_eq_one_comm.1 (pftInvert_mul hinv (a := 2) (b := 3) (by omega) (by omega)
    (by omega))
  have hback := fun t => LinearCode.sum_smul_inverse hmul ![u, v] t
  have h0 := hback ⟨0, Nat.two_pos⟩
  have h1 := hback ⟨1, Nat.one_lt_two⟩
  rw [Fin.sum_univ_two] at h0 h1
  exact ⟨(Fin.sum_univ_two _).trans h0, (Fin.sum_univ_two _).trans h1⟩

end

/-- **Any data have a codeword.** -/
theorem AllHelpers.exists_codeword {c : Clay} (hc : c.AllHelpers) {M : Type} [AddCommMonoid M]
    [Module GF256 M] {invert : InvertMatrix8} (hinv : Inverts8 invert) (x : Nat → M) :
    ∃ T : Nat → M, c.Codeword T ∧
      ∀ i < c.k + c.nu, ∀ z < c.w, T (c.coupledId i z) = x (c.coupledId i z) := by
  have hq := hc.q_pos
  have hkn := hc.k_le
  have hlt := hc.k_lt
  have hdata : ∀ {i z}, i < c.k + c.nu → c.planeUncoupled x i z = c.dataUncoupled x i z :=
    fun {i z} hi => planeUncoupled_data x z hi
  obtain ⟨T, hC, hU⟩ := hc.exists_packets
    (fun i z => if i < c.k + c.nu then x (c.coupledId i z) else c.parityCoupled invert x i z)
    (fun i z => c.planeUncoupled x i z) (by
      intro i hi z hz hn
      split
      · next hik => rw [hdata hik, dataUncoupled, if_pos hn]
      · rw [parityCoupled, if_pos hn])
  refine ⟨T, ⟨fun i hi z hz hup => ?_, fun z hz i hi => ?_⟩, fun i hi z hz => ?_⟩
  · have hmate := mate_lt hq hkn hi (z := z)
    have hplane := matePlane_lt hq hkn hi hz
    obtain ⟨hmm, hpp⟩ := mate_mate hq hkn hi (z := z)
    have hn : ¬ c.Named i z := fun hn => hup.ne hn
    have hnm : ¬ c.Named (c.mate i z) (c.matePlane i z) :=
      fun hm => hn ((named_mate hq hkn hi).1 hm)
    have hlow : ¬ c.zVec (c.matePlane i z) (c.mate i z / c.q) < c.mate i z % c.q := by
      rw [mate_div hq hkn hi, mate_mod hq hkn hi, zVec_matePlane hq hkn hi]
      omega
    have h0 := hC i hi z hz
    have h1 := hC _ hmate _ hplane
    have h2 := hU i hi z hz
    have h3 := hU _ hmate _ hplane
    by_cases hik : i < c.k + c.nu
    · have hmk := (hc.mate_lt_data hi (z := z)).2 hik
      rw [if_pos hik] at h0
      rw [if_pos hmk] at h1
      rw [hdata hik, dataUncoupled, if_neg hn, if_pos hup, ← h0, ← h1] at h2
      rw [hdata hmk, dataUncoupled, if_neg hnm, if_neg hlow, hmm, hpp, ← h0, ← h1] at h3
      exact generates_pair h2 h3
    · have hmk : ¬ c.mate i z < c.k + c.nu := fun h => hik ((hc.mate_lt_data hi).1 h)
      rw [if_neg hik, parityCoupled, if_neg hn, if_pos hup, ← h2, ← h3] at h0
      rw [if_neg hmk, parityCoupled, if_neg hnm, if_neg hlow, hmm, hpp, ← h2, ← h3] at h1
      obtain ⟨hback2, hback3⟩ := pairRow_pairInverse hinv (T (c.uncoupledId i z))
        (T (c.uncoupledId (c.mate i z) (c.matePlane i z)))
      rw [← h0, ← h1] at hback2 hback3
      exact generates_pair hback2.symm hback3.symm
  · refine (hU i hi z hz).trans (Finset.sum_congr rfl fun l _ => ?_)
    have hl : l.1 < c.k + c.nu := l.2
    exact congrArg _ ((hdata hl).symm.trans (hU l (by omega) z hz).symm)
  · exact (hC i (by omega) z hz).trans (if_pos hi)

/-! ## `Encode` -/

/-- The rows of the data nodes are the identity. -/
theorem mdsSelected_data {c : Clay} {erased : List Nat}
    (h : c.selectLines erased = List.range c.mdsK) : c.mdsSelected erased = 1 := by
  ext1 i j
  have hrow : (c.selectLines erased).getD i 0 = i.1 := by
    rw [h, List.getD_eq_getElem _ _ (by rw [List.length_range]; exact i.2), List.getElem_range]
  show c.mdsEncodeMatrix ((c.selectLines erased).getD i 0) j = _
  rw [hrow, one_apply]
  refine (entry_data i.2 j.2).trans ?_
  simp only [Fin.ext_iff, eq_comm]

section
variable {c : Clay} (hc : c.AllHelpers)
include hc

/-- What is left when the parities are erased. -/
theorem AllHelpers.selectLines_parities : c.selectLines c.parities = List.range c.mdsK := by
  have hkn := hc.k_le
  have hdata : (List.range c.mdsK).filter (· ∉ c.parities) = List.range c.mdsK := by
    refine List.filter_eq_self.2 fun i hi => decide_eq_true fun hm => ?_
    have h1 := ((mem_parities hkn).1 hm).1
    have h2 : i < c.k + c.nu := List.mem_range.1 hi
    omega
  have hrest : ((List.range c.m).map (c.mdsK + ·)).filter (· ∉ c.parities) = [] := by
    refine List.filter_eq_nil_iff.2 fun i hi hm => of_decide_eq_true hm ?_
    obtain ⟨a, ha, rfl⟩ := List.mem_map.1 hi
    have ha := List.mem_range.1 ha
    have hsum := mdsK_add hkn
    refine (mem_parities hkn).2 ⟨?_, by omega⟩
    unfold mdsK
    omega
  rw [selectLines_eq hkn c.nodup_parities c.length_parities (parities_lt hkn), ← mdsK_add hkn,
    List.range_add, List.filter_append, hdata, hrest, List.append_nil]

/-- `Encode` is the layered code with all parities erased. -/
theorem AllHelpers.encodeJoins_eq (invert : InvertMatrix8) :
    c.encodeJoins invert = c.decodeLayered invert c.parities := by
  have hq := hc.q_pos
  have hkn := hc.k_le
  unfold encodeJoins decodeLayered planesInOrder
  refine List.flatMap_congr fun s _ => congrArg (_ ++ ·) (List.flatMap_congr fun z _ =>
    List.flatMap_congr fun i hi => ?_)
  have hmem : i ∈ c.parities := hi
  have hlt := parities_lt hkn i hmem
  by_cases hn : c.zVec z (i / c.q) = i % c.q
  · exact (if_pos hn).trans (if_pos hn).symm
  · have hmate : c.mate i z ∈ c.parities := by
      refine (mem_parities hkn).2 ⟨Nat.le_of_not_lt fun h => ?_, mate_lt hq hkn hlt⟩
      have hdata := (hc.mate_lt_data hlt).1 h
      have hge := ((mem_parities hkn).1 hmem).1
      omega
    have htype : ¬ c.isErasureType1 c.parities (i % c.q) (i / c.q) z = true := fun h =>
      (isErasureType1_iff hq c.parities c.length_parities (div_lt hq hkn hlt) hn).1 h hmate
    exact (if_neg hn).trans ((if_neg hn).trans (if_neg htype)).symm

variable {M : Type} [AddCommMonoid M] [Module GF256 M]

theorem AllHelpers.mdsK_pos : 0 < c.mdsK := by
  have hk := hc.k_pos
  unfold mdsK
  omega

/-- **`Encode` computes the codeword** of its data. -/
theorem AllHelpers.encode_eval {invert : InvertMatrix8} (hinv : Inverts8 invert) {T x : Nat → M}
    (hT : c.Codeword T)
    (hx : ∀ i < c.k + c.nu, ∀ z < c.w, x (c.coupledId i z) = T (c.coupledId i z)) :
    ∀ i < c.n + c.nu, ∀ z < c.w, (c.encode invert).eval x (c.coupledId i z) =
      T (c.coupledId i z) := by
  have hq := hc.q_pos
  have hkn := hc.k_le
  have hunit : IsUnit (c.mdsSelected c.parities) := by
    rw [mdsSelected_data hc.selectLines_parities]
    exact isUnit_one
  have htrue : ∀ j ∈ c.decodeLayered invert c.parities, TrueOf T j := fun j hj =>
    hT.layered hinv hq hkn c.nodup_parities c.length_parities (parities_lt hkn) hunit hc.mdsK_pos hj
  have hord := ordered_decodeLayered hq hkn invert c.nodup_parities c.length_parities
    (parities_lt hkn)
  have hbuilt := builtFrom_build hord fun j hj => (htrue j hj).1
  have hvalue := hbuilt.eval (T := T) (x := x) (fun j hj => (htrue j hj).2) (by
    rintro v ⟨i, hi, hin, z, hz, rfl⟩
    exact hx i (Nat.lt_of_not_le fun h => hin ((mem_parities hkn).2 ⟨h, hi⟩)) z hz)
  intro i hi z hz
  rw [encode, hc.encodeJoins_eq]
  refine hvalue _ ?_
  by_cases hin : i ∈ c.parities
  · exact Or.inr (hbuilt.mem_of_pidx (pidx_decodeLayered hq hkn invert c.nodup_parities
      c.length_parities (parities_lt hkn) hin hz))
  · exact Or.inl ⟨i, hi, hin, z, hz, rfl⟩

end

end Clay

end StripeRepair

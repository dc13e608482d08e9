import StripeRepair.Ec.HHXORPlus
import Mathlib.Data.List.FinRange

/-!
# `HHXORPlus`: Decode undoes Encode

A codeword is described by the equations between its symbols, the virtual ones
included (`Codeword`).  Each `Join` of `Decode` is then checked against these
equations: the Reed-Solomon steps by the inverse of the selected rows
(`combine_decodeVector`), the group steps by the inverse of the group's matrix
(`combine_groupVector`), and the coupling steps because `a + a = 0`.
-/

namespace StripeRepair

namespace HHXORPlus

open Matrix

section
variable {n k : Nat}

/-! ## The equations of a codeword -/

/-- The sum of a group in sub-stripe 0. -/
def groupSum (n k : Nat) (T : Nat → GF256) (grp : List Nat) : GF256 :=
  (grp.map fun j => rsEncodeMatrix n k (k + coupleParityId) j * T (layout 0 j)).sum

structure Codeword (n k : Nat) (T : Nat → GF256) : Prop where
  uncoupled : ∀ sp < 2, ∀ p < n - k, T (uncoupledCode n k sp p) =
    ∑ j : Fin k, rsEncodeMatrix n k (k + p) j * T (layout sp j)
  group : ∀ i < numGroups n k, T (groupCode n (i + 1)) = groupSum n k T (group n k i)
  couple0 : T (codeLayout k 0 1) =
    T (uncoupledCode n k 0 1) + T (uncoupledCode n k 1 1) + T (groupCode n 1)
  couple1 : ∀ i < numGroups n k, T (codeLayout k 1 (i + 1)) =
    T (uncoupledCode n k 1 (i + 1)) + T (groupCode n (i + 1))

theorem sum_map_range (f : Nat → GF256) (c : Nat) :
    ((List.range c).map f).sum = ∑ j : Fin c, f j := by
  rw [Fin.sum_univ_def, ← List.map_coe_finRange_eq_range, List.map_map]
  rfl

/-- A `Join` whose coefficients and children come from one list. -/
theorem combine_map {ι : Type} (p : Nat) (l : List ι) (c : ι → GF256) (s : ι → Nat)
    (T : Nat → GF256) :
    LinearProgram.combine (Join.instr ⟨p, l.map s, l.map fun i => GF256.toInt (c i)⟩).args T =
      (l.map fun i => c i * T (s i)).sum := by
  simp only [Join.instr, List.map_map]
  rw [LinearProgram.combine_zip_map]
  simp

theorem combine_pair (p a b : Nat) (T : Nat → GF256) :
    LinearProgram.combine (Join.instr ⟨p, [a, b], [1, 1]⟩).args T = T a + T b := by
  simp [Join.instr, LinearProgram.combine]

theorem combine_triple (p a b c : Nat) (T : Nat → GF256) :
    LinearProgram.combine (Join.instr ⟨p, [a, b, c], [1, 1, 1]⟩).args T = T a + T b + T c := by
  simp [Join.instr, LinearProgram.combine, add_assoc]

theorem combine_groupJoin (p : Nat) (grp : List Nat) (T : Nat → GF256) :
    LinearProgram.combine (groupJoin n k p grp).instr.args T = groupSum n k T grp :=
  combine_map _ _ _ _ T

/-! ## Encode -/

theorem mem_encodeJoins {j : Join} : j ∈ encodeJoins n k ↔
    (∃ sp < 2, ∃ i < n - k, j = ⟨uncoupledCode n k sp i, (List.range k).map (layout sp),
      (List.range k).map fun j => GF256.toInt (rsEncodeMatrix n k (i + k) j)⟩) ∨
    (∃ i < numGroups n k, j = groupJoin n k (i + 1) (group n k i)) ∨
    j = coupleJoin0 n k ∨
    (∃ i < numGroups n k, j = coupleJoin1 n k (i + 1)) := by
  simp only [encodeJoins, pidGroupMap, List.mem_append, List.mem_flatMap, List.mem_map,
    List.mem_range, List.mem_singleton, exists_exists_and_eq_and, or_assoc, eq_comm (a := j)]

theorem encodeJoins_nodup (h : Params n k) : ((encodeJoins n k).map Join.pidx).Nodup := by
  have hpar := h.parities
  have hG : numGroups n k + 1 = n - k := by unfold numGroups; omega
  have hpidx : (encodeJoins n k).map Join.pidx =
      ((List.range (n - k)).map (uncoupledCode n k 0) ++
        (List.range (n - k)).map (uncoupledCode n k 1)) ++
      ((List.range (numGroups n k)).map fun i => groupCode n (i + 1)) ++
      [codeLayout k 0 1] ++ ((List.range (numGroups n k)).map fun i => codeLayout k 1 (i + 1)) := by
    have hr : List.range 2 = [0, 1] := rfl
    simp only [encodeJoins, pidGroupMap, List.map_append, List.map_map, hr, List.flatMap_cons,
      List.flatMap_nil, List.append_nil, List.map_cons, List.map_nil]
    rfl
  have hmap : ∀ (f : Nat → Nat) (c : Nat), (∀ x < c, ∀ y < c, f x = f y → x = y) →
      ((List.range c).map f).Nodup := by
    intro f c hf
    exact List.Nodup.map_on (fun x hx y hy => hf x (List.mem_range.1 hx) y (List.mem_range.1 hy))
      List.nodup_range
  rw [hpidx]
  simp only [List.nodup_append, List.mem_append, List.mem_map, List.mem_range, List.mem_singleton]
  refine ⟨⟨⟨⟨hmap _ _ ?_, hmap _ _ ?_, ?_⟩, hmap _ _ ?_, ?_⟩, List.nodup_singleton _, ?_⟩,
    hmap _ _ ?_, ?_⟩
  all_goals
    simp only [uncoupledCode_zero, uncoupledCode_one, codeLayout, groupCode, layout]
  · intro x hx y hy he
    split_ifs at he <;> omega
  · intro x hx y hy he
    split_ifs at he <;> omega
  · rintro _ ⟨x, hx, rfl⟩ _ ⟨y, hy, rfl⟩ he
    split_ifs at he <;> omega
  · intro x hx y hy he
    omega
  · rintro _ (⟨x, hx, rfl⟩ | ⟨x, hx, rfl⟩) _ ⟨y, hy, rfl⟩ he <;> split_ifs at he <;> omega
  · rintro _ ((⟨x, hx, rfl⟩ | ⟨x, hx, rfl⟩) | ⟨x, hx, rfl⟩) _ rfl he
    · split_ifs at he <;> omega
    · split_ifs at he <;> omega
    · omega
  · intro x hx y hy he
    omega
  · rintro _ (((⟨x, hx, rfl⟩ | ⟨x, hx, rfl⟩) | ⟨x, hx, rfl⟩) | rfl) _ ⟨y, hy, rfl⟩ he
    · split_ifs at he <;> omega
    · split_ifs at he <;> omega
    · omega
    · omega

/-- A packet of a data node. -/
def IsData (k v : Nat) : Prop := v < k * 2

theorem isData_layout {sp j : Nat} (hsp : sp < 2) (hj : j < k) : IsData k (layout sp j) := by
  unfold IsData layout
  omega

/-- What is known after the first two parts of `Encode`. -/
def EncodeKnown (n k v : Nat) : Prop :=
  (∃ sp < 2, ∃ p < n - k, v = uncoupledCode n k sp p) ∨ ∃ i < numGroups n k, v = groupCode n (i + 1)

theorem encodeJoins_ordered (h : Params n k) : JoinsOrdered (IsData k) (encodeJoins n k) := by
  have hG := h.two_le_groups
  have hG' := h.groups_succ
  have hknown : ∀ p, 1 ≤ p → p ≤ numGroups n k → ∀ c ∈ [uncoupledCode n k 1 p, groupCode n p],
      EncodeKnown n k c := by
    intro p hp1 hp c hc
    simp only [List.mem_cons, List.not_mem_nil, or_false] at hc
    rcases hc with rfl | rfl
    · exact Or.inl ⟨1, by omega, p, by omega, rfl⟩
    · exact Or.inr ⟨p - 1, by omega, by rw [Nat.sub_add_cancel hp1]⟩
  unfold encodeJoins
  rw [List.append_assoc]
  refine LinearProgram.ordered_append_of (LinearProgram.ordered_of_forall ?_)
    (fun v (hv : EncodeKnown n k v) => ?_) (LinearProgram.ordered_of_forall ?_)
  · intro j hj c hc
    simp only [pidGroupMap, List.mem_append, List.mem_flatMap, List.mem_map, List.mem_range] at hj
    rcases hj with ⟨sp, hsp, i, -, rfl⟩ | ⟨_, ⟨i, hi, rfl⟩, rfl⟩
    · obtain ⟨b, hb, rfl⟩ := List.mem_map.1 hc
      exact isData_layout hsp (List.mem_range.1 hb)
    · obtain ⟨b, hb, rfl⟩ := List.mem_map.1 hc
      have := h.mem_group hi hb
      exact isData_layout (by omega) (by omega)
  · rcases hv with ⟨sp, hsp, p, hp, rfl⟩ | ⟨i, hi, rfl⟩
    · refine Or.inr (List.mem_map.2 ⟨⟨uncoupledCode n k sp p, _, _⟩, List.mem_append_left _
        (List.mem_flatMap.2 ⟨sp, List.mem_range.2 hsp, List.mem_map.2
          ⟨p, List.mem_range.2 hp, rfl⟩⟩), rfl⟩)
    · refine Or.inr (List.mem_map.2 ⟨groupJoin n k (i + 1) (group n k i), List.mem_append_right _
        (List.mem_map.2 ⟨(i + 1, group n k i), List.mem_map.2 ⟨i, List.mem_range.2 hi, rfl⟩, rfl⟩),
        rfl⟩)
  · intro j hj c hc
    simp only [pidGroupMap, List.mem_append, List.mem_singleton, List.mem_map,
      List.mem_range] at hj
    rcases hj with rfl | ⟨_, ⟨i, hi, rfl⟩, rfl⟩
    · rcases List.mem_cons.1 hc with rfl | hc
      · exact Or.inl ⟨0, by omega, 1, by omega, rfl⟩
      · exact hknown 1 (by omega) (by omega) c hc
    · exact hknown (i + 1) (by omega) (by omega) c hc

theorem encodeJoins_cidx (h : Params n k) : ∀ j ∈ encodeJoins n k, j.cidx ≠ [] := by
  have hd := h.data
  have hG := h.two_le_groups
  intro j hj
  rcases mem_encodeJoins.1 hj with ⟨sp, -, i, -, rfl⟩ | ⟨i, -, rfl⟩ | rfl | ⟨i, -, rfl⟩
  · simp
    omega
  · simpa [groupJoin] using h.group_ne_nil i
  · simp [coupleJoin0]
  · simp [coupleJoin1]

theorem encodeJoins_fresh (h : Params n k) : ∀ j ∈ encodeJoins n k, ¬ IsData k j.pidx := by
  have hG' := h.groups_succ
  intro j hj
  unfold IsData
  rcases mem_encodeJoins.1 hj with ⟨sp, hsp, i, -, rfl⟩ | ⟨i, -, rfl⟩ | rfl | ⟨i, -, rfl⟩
  · obtain rfl | rfl : sp = 0 ∨ sp = 1 := by omega
    · simp only [uncoupledCode_zero]
      split_ifs <;> omega
    · simp only [uncoupledCode_one]
      split_ifs <;> omega
  · simp only [groupJoin, groupCode]
    omega
  · simp only [coupleJoin0, codeLayout, layout]
    omega
  · simp only [coupleJoin1, codeLayout, layout]
    omega

/-- **`Encode` produces codewords.** -/
theorem codeword_encode (h : Params n k) (data : Nat → GF256) :
    Codeword n k ((encode n k).eval data) := by
  have heq := eval_build_pidx (encodeJoins_ordered h) (encodeJoins_cidx h) (encodeJoins_nodup h)
    (encodeJoins_fresh h) data
  refine ⟨fun sp hsp p hp => ?_, fun i hi => ?_, ?_, fun i hi => ?_⟩
  · have := heq _ (mem_encodeJoins.2 (Or.inl ⟨sp, hsp, p, hp, rfl⟩))
    rw [combine_map, sum_map_range, Nat.add_comm p k] at this
    exact this
  · have := heq _ (mem_encodeJoins.2 (Or.inr (Or.inl ⟨i, hi, rfl⟩)))
    rw [combine_groupJoin] at this
    exact this
  · have := heq _ (mem_encodeJoins.2 (Or.inr (Or.inr (Or.inl rfl))))
    rw [coupleJoin0, combine_triple] at this
    exact this
  · have := heq _ (mem_encodeJoins.2 (Or.inr (Or.inr (Or.inr ⟨i, hi, rfl⟩))))
    rw [coupleJoin1, combine_pair] at this
    exact this

/-! ## The Reed-Solomon steps -/

theorem rsEncodeMatrix_data {node j : Nat} (hnode : node < k) (hj : j < k) :
    rsEncodeMatrix n k node j = if j = node then 1 else 0 := by
  rw [rsEncodeMatrix, if_neg (by omega), if_neg (by omega)]
  exact entry_data hnode hj

/-- The parity that couples is the sum of the data. -/
theorem rsEncodeMatrix_couple {j : Nat} (hkn : k < n) (hj : j < k) :
    rsEncodeMatrix n k (k + coupleParityId) j = 1 := by
  rw [rsEncodeMatrix, coupleParityId, if_neg (by omega), if_pos rfl]
  have := entry_parity (n := n) (k := k) (p := 0) (by omega) hj
  simpa using this

/-- The symbol of a node before the coupling. -/
def rsSymbol (n k sp node : Nat) : Nat :=
  if node < k then layout sp node else uncoupledCode n k sp (node - k)

theorem Codeword.rsSymbol {T : Nat → GF256} (h : Codeword n k T) {sp node : Nat} (hsp : sp < 2)
    (hnode : node < n) :
    T (rsSymbol n k sp node) = ∑ j : Fin k, rsEncodeMatrix n k node j * T (layout sp j) := by
  unfold HHXORPlus.rsSymbol
  split
  · next hk =>
    rw [Finset.sum_eq_single (⟨node, hk⟩ : Fin k)]
    · rw [rsEncodeMatrix_data hk hk, if_pos rfl, one_mul]
    · intro j _ hj
      rw [rsEncodeMatrix_data hk j.2, if_neg fun he => hj (Fin.ext he), zero_mul]
    · simp
  · next hk =>
    rw [h.uncoupled sp hsp (node - k) (by omega), Nat.add_sub_cancel' (by omega)]

theorem dotProduct_inverse {c : Nat} {inv A : Matrix (Fin c) (Fin c) GF256} (hinv : inv * A = 1)
    (v d : Fin c → GF256) : (v ᵥ* inv) ⬝ᵥ (A *ᵥ d) = v ⬝ᵥ d := by
  rw [dotProduct_mulVec, vecMul_vecMul, hinv, vecMul_one]

theorem getD_of_lt {l : List Nat} {i : Nat} (hi : i < l.length) : l.getD i 0 = l[i] := by
  rw [List.getD_eq_getElem?_getD, List.getElem?_eq_getElem hi]
  rfl

/-- The selected rows, inverted, give the symbol of any node. -/
theorem combine_decodeVector {T : Nat → GF256} (h : Codeword n k T) {rows : List Nat}
    (hlen : rows.length = k) (hrows : ∀ r ∈ rows, r < n) {inv : Matrix (Fin k) (Fin k) GF256}
    (hinv : inv * recoverMatrix n k rows = 1) {sp node : Nat} (hsp : sp < 2) (hnode : node < n)
    (p : Nat) :
    LinearProgram.combine (Join.instr ⟨p, rows.map (rsSymbol n k sp),
      decodeVector n k inv node⟩).args T = T (rsSymbol n k sp node) := by
  rw [map_eq_finRange_map hlen, decodeVector, combine_map, ← Fin.sum_univ_def, h.rsSymbol hsp hnode]
  have hR : (fun i : Fin k => T (rsSymbol n k sp (rows.getD i 0))) =
      recoverMatrix n k rows *ᵥ fun j => T (layout sp j) := by
    funext i
    have hi : i.1 < rows.length := by rw [hlen]; exact i.2
    refine h.rsSymbol hsp (hrows _ ?_)
    rw [getD_of_lt hi]
    exact List.getElem_mem hi
  have := dotProduct_inverse hinv (fun l : Fin k => rsEncodeMatrix n k node l)
    fun j => T (layout sp j)
  rw [← hR] at this
  exact this

/-! ## The group steps -/

section
variable {grp : List Nat} {f : Nat}

theorem length_filter_ne (hnodup : grp.Nodup) (hf : f ∈ grp) :
    (grp.filter (· ≠ f)).length + 1 = grp.length := by
  have h1 : grp.filter (· ≠ f) = grp.erase f := by
    rw [hnodup.erase_eq_filter]
    apply List.filter_congr
    intro x _
    by_cases hx : x = f <;> simp [hx]
  have hpos := List.length_pos_of_mem hf
  rw [h1, List.length_erase_of_mem hf]
  omega

/-- What a row of the group's matrix makes of the group. -/
theorem recoverMatrixGroup_mulVec (hnodup : grp.Nodup) (hf : f ∈ grp) (d : Nat → GF256)
    (r : Fin grp.length) :
    (recoverMatrixGroup n k grp f *ᵥ fun i => d (grp.getD i 0)) r =
      if r.1 + 1 = grp.length then
        (grp.map fun j => rsEncodeMatrix n k (k + coupleParityId) j * d j).sum
      else d ((grp.filter (· ≠ f)).getD r 0) := by
  have hget : ∀ i : Fin grp.length, grp.getD i 0 = grp[i.1] := fun i => getD_of_lt i.2
  show ∑ i : Fin grp.length, recoverMatrixGroup n k grp f r i * d (grp.getD i 0) = _
  split
  · next hr =>
    rw [Fin.sum_univ_def]
    have : grp.map (fun j => rsEncodeMatrix n k (k + coupleParityId) j * d j) =
        (List.finRange grp.length).map fun i : Fin grp.length =>
          rsEncodeMatrix n k (k + coupleParityId) (grp.getD i 0) * d (grp.getD i 0) := by
      apply List.ext_getElem
      · simp
      · intro i h1 h2
        simp [List.getD_eq_getElem?_getD]
    rw [this]
    congr 1
    apply List.map_congr_left
    intro i _
    rw [recoverMatrixGroup, of_apply, if_pos hr]
  · next hr =>
    -- the row is the unit row of another member
    have hlen := length_filter_ne hnodup hf
    have hrlt : r.1 < (grp.filter (· ≠ f)).length := by have := r.2; omega
    have hmem : (grp.filter (· ≠ f)).getD r 0 ∈ grp := by
      rw [getD_of_lt hrlt]
      exact (List.mem_filter.1 (List.getElem_mem hrlt)).1
    obtain ⟨i, hi, hig⟩ := List.getElem_of_mem hmem
    rw [Finset.sum_eq_single (⟨i, hi⟩ : Fin grp.length)]
    · rw [recoverMatrixGroup, of_apply, if_neg hr, hget, if_pos hig.symm, one_mul]
      exact congrArg d hig
    · intro j _ hj
      rw [recoverMatrixGroup, of_apply, if_neg hr, if_neg, zero_mul]
      intro he
      rw [← hig, hget] at he
      exact hj (Fin.ext ((hnodup.getElem_inj_iff).1 he).symm)
    · simp

/-- The group's matrix is invertible: the other members are read off, the lost one
is what is left of the sum. -/
theorem isUnit_recoverMatrixGroup (hkn : k < n) (hnodup : grp.Nodup) (hf : f ∈ grp)
    (hgrp : ∀ j ∈ grp, j < k) : IsUnit (recoverMatrixGroup n k grp f) := by
  rw [← mulVec_injective_iff_isUnit]
  suffices hker : ∀ v, recoverMatrixGroup n k grp f *ᵥ v = 0 → v = 0 by
    intro a b hab
    refine sub_eq_zero.1 (hker (a - b) ?_)
    rw [mulVec_sub]
    exact sub_eq_zero.2 hab
  intro v hv
  let d : Nat → GF256 := fun x => if h : grp.idxOf x < grp.length then v ⟨grp.idxOf x, h⟩ else 0
  have hvd : v = fun i : Fin grp.length => d (grp.getD i 0) := by
    funext i
    have hidx : grp.idxOf (grp.getD i 0) = i.1 := by
      simp [List.getD_eq_getElem?_getD, hnodup.idxOf_getElem]
    simp only [d, hidx]
    simp
  have hrow : ∀ r : Fin grp.length, _ := fun r => recoverMatrixGroup_mulVec (n := n) (k := k)
    hnodup hf d r
  rw [← hvd, hv] at hrow
  have hlen := length_filter_ne hnodup hf
  -- the other members vanish, row by row
  have hother : ∀ j ∈ grp, j ≠ f → d j = 0 := by
    intro j hj hjf
    have hmem : j ∈ grp.filter (· ≠ f) := List.mem_filter.2 ⟨hj, by simpa using hjf⟩
    obtain ⟨r, hr, hrj⟩ := List.getElem_of_mem hmem
    have := hrow ⟨r, by omega⟩
    rw [if_neg (by simp only; omega), getD_of_lt hr, hrj] at this
    exact this.symm
  have hlast : d f = 0 := by
    have := hrow ⟨grp.length - 1, by omega⟩
    rw [if_pos (by simp only; omega)] at this
    have hsum : (grp.map fun j => rsEncodeMatrix n k (k + coupleParityId) j * d j).sum = d f := by
      rw [List.sum_map_eq_nsmul_single f]
      · rw [List.count_eq_one_of_mem hnodup hf, one_smul, rsEncodeMatrix_couple hkn (hgrp f hf),
          one_mul]
      · intro j hjf hj
        rw [hother j hj hjf, mul_zero]
    rw [hsum] at this
    exact this.symm
  rw [hvd]
  funext i
  have hi : grp.getD i 0 ∈ grp := by simp [List.getD_eq_getElem?_getD]
  by_cases hif : grp.getD i 0 = f
  · rw [hif, hlast]
    rfl
  · exact hother _ hi hif

/-- The other members and the group sum give the lost member. -/
theorem combine_groupVector (hkn : k < n) {invert : InvertMatrix8} (hinvert : Inverts8 invert)
    (hnodup : grp.Nodup) (hf : f ∈ grp) (hgrp : ∀ j ∈ grp, j < k) {T : Nat → GF256} {g : Nat}
    (hg : T g = groupSum n k T grp) (p : Nat) :
    LinearProgram.combine (Join.instr ⟨p, (grp.filter (· ≠ f)).map (layout 0) ++ [g],
      groupVector n k invert grp f⟩).args T = T (layout 0 f) := by
  have hlen := length_filter_ne hnodup hf
  have hchild : (grp.filter (· ≠ f)).map (layout 0) ++ [g] =
      (List.finRange grp.length).map fun r : Fin grp.length =>
        if r.1 + 1 = grp.length then g else layout 0 ((grp.filter (· ≠ f)).getD r 0) := by
    apply List.ext_getElem
    · simp only [List.length_append, List.length_map, List.length_singleton, List.length_finRange]
      exact hlen
    · intro i h1 h2
      simp only [List.length_append, List.length_map, List.length_singleton] at h1
      rw [List.getElem_append]
      split
      · next hi =>
        rw [List.length_map] at hi
        have hne : ¬ i + 1 = grp.length := by omega
        simp only [List.getElem_map, List.getElem_finRange, Fin.val_cast, hne, if_false]
        rw [getD_of_lt hi]
      · next hi =>
        rw [List.length_map] at hi
        have he : i + 1 = grp.length := by omega
        simp [he]
  have hidx : grp.idxOf f < grp.length := List.idxOf_lt_length_of_mem hf
  set inv := invert grp.length (recoverMatrixGroup n k grp f) with hinv
  have hone := hinvert _ _ (isUnit_recoverMatrixGroup (n := n) hkn hnodup hf hgrp)
  rw [← hinv] at hone
  have hcoef : groupVector n k invert grp f = (List.finRange grp.length).map fun j =>
      GF256.toInt (inv ⟨grp.idxOf f, hidx⟩ j) := by
    simp only [groupVector, hidx, dif_pos, hinv]
  rw [hchild, hcoef, combine_map, ← Fin.sum_univ_def]
  have hval : (fun r : Fin grp.length => T (if r.1 + 1 = grp.length then g
      else layout 0 ((grp.filter (· ≠ f)).getD r 0))) =
      recoverMatrixGroup n k grp f *ᵥ fun i => T (layout 0 (grp.getD i 0)) := by
    funext r
    rw [recoverMatrixGroup_mulVec hnodup hf (fun j => T (layout 0 j)) r]
    split
    · exact hg
    · rfl
  have := dotProduct_inverse hone (Pi.single ⟨grp.idxOf f, hidx⟩ 1)
    fun i => T (layout 0 (grp.getD i 0))
  rw [← hval, single_one_vecMul, single_one_dotProduct] at this
  refine Eq.trans this ?_
  rw [getD_of_lt hidx, List.getElem_idxOf]

end

/-! ## Several lost nodes -/

theorem two_eq_zero : (2 : GF256) = 0 := by
  rw [← one_add_one_eq_two]
  exact Gf.add_self 1

theorem add_pair_cancel (a b : GF256) : a + b + b = a := by
  rw [add_assoc, Gf.add_self, add_zero]

section
variable {failed : Finset Nat} {invert : InvertMatrix8} {T : Nat → GF256}

/-- The rows `Decode` selects are independent, and the inversion is right on them. -/
structure Recoverable (n k : Nat) (failed : Finset Nat) (invert : InvertMatrix8) : Prop where
  params : Params n k
  sub : failed ⊆ Finset.range n
  card : failed.card ≤ n - k
  inverts : Inverts8 invert
  independent : IsUnit (recoverMatrix n k ((survivors n failed).take k))

theorem Recoverable.lt (h : Recoverable n k failed invert) : k < n := by
  have := h.params.parities
  omega

theorem Recoverable.inverse (h : Recoverable n k failed invert) :
    invert k (recoverMatrix n k ((survivors n failed).take k)) *
      recoverMatrix n k ((survivors n failed).take k) = 1 := h.inverts _ _ h.independent

/-- The parities `DecodeMultiple` uses. -/
def usedParity (n k : Nat) (failed : Finset Nat) : List Nat :=
  ((survivors n failed).filter (k ≤ ·)).take (k - ((survivors n failed).filter (· < k)).length)

theorem mem_usedParity {node : Nat} (h : node ∈ usedParity n k failed) :
    node < n ∧ k ≤ node ∧ node ∉ failed := by
  have h1 := List.mem_filter.1 (List.mem_of_mem_take h)
  have h2 := mem_survivors.1 h1.1
  exact ⟨h2.1, by simpa using h1.2, h2.2⟩

/-- The symbols of the used nodes before the coupling. -/
theorem cidx_eq (hkn : k ≤ n) (sp : Nat) :
    ((survivors n failed).filter (· < k)).map (layout sp) ++
      (usedParity n k failed).map (fun node => uncoupledCode n k sp (node - k)) =
    ((survivors n failed).take k).map (rsSymbol n k sp) := by
  rw [← take_survivors hkn, List.map_append]
  congr 1
  · apply List.map_congr_left
    intro node hnode
    have : node < k := by simpa using (List.mem_filter.1 hnode).2
    exact (if_pos this).symm
  · apply List.map_congr_left
    intro node hnode
    exact (if_neg (by have := (mem_usedParity hnode).2.1; omega)).symm

/-! The six parts of `DecodeMultiple`, with the lists of `from` and `to` filled in. -/

/-- The step from the rows used to the symbol of one node. -/
def rsJoin (n k : Nat) (failed : Finset Nat) (invert : InvertMatrix8) (sp node : Nat) : Join :=
  ⟨rsSymbol n k sp node, ((survivors n failed).take k).map (rsSymbol n k sp),
    decodeVector n k (invert k (recoverMatrix n k ((survivors n failed).take k))) node⟩

def uncouple0 (n k : Nat) (failed : Finset Nat) : List Join :=
  if 1 + k ∈ usedParity n k failed then
    [⟨uncoupledCode n k 0 1, [codeLayout k 0 1, codeLayout k 1 1], [1, 1]⟩] else []

def recoverData0 (n k : Nat) (failed : Finset Nat) (invert : InvertMatrix8) : List Join :=
  (losses k failed).map (rsJoin n k failed invert 0)

def recoverParity0 (n k : Nat) (failed : Finset Nat) (invert : InvertMatrix8) : List Join :=
  ((losses n failed).filter (k ≤ ·)).flatMap fun node => rsJoin n k failed invert 0 node ::
    whenGroup n k (node - k) fun grp => [groupJoin n k (node - k) grp]

def uncouple1 (n k : Nat) (failed : Finset Nat) : List Join :=
  (usedParity n k failed).flatMap fun node => whenGroup n k (node - k) fun grp =>
    [groupJoin n k (node - k) grp,
      ⟨uncoupledCode n k 1 (node - k), [codeLayout k 1 (node - k), groupCode n (node - k)],
        [1, 1]⟩]

def recover1 (n k : Nat) (failed : Finset Nat) (invert : InvertMatrix8) : List Join :=
  (losses n failed).map (rsJoin n k failed invert 1)

def recouple (n k : Nat) (failed : Finset Nat) : List Join :=
  (if 1 + k ∈ (losses n failed).filter (k ≤ ·) then [coupleJoin0 n k] else []) ++
  (((losses n failed).filter (k ≤ ·)).flatMap fun node =>
    whenGroup n k (node - k) fun _ => [coupleJoin1 n k (node - k)])

theorem decodeMultiple_eq (hkn : k ≤ n) :
    decodeMultiple n k invert (packets 2 (survivors n failed)) (packets 2 (losses n failed)) =
      uncouple0 n k failed ++ (recoverData0 n k failed invert ++ (recoverParity0 n k failed invert ++
        (uncouple1 n k failed ++ (recover1 n k failed invert ++ recouple n k failed)))) := by
  have hsrc : nodesOf n (packets 2 (survivors n failed)) = survivors n failed := nodesOf_packets _
  have hdst : nodesOf n (packets 2 (losses n failed)) = losses n failed := nodesOf_packets _
  have hrows : _ = (survivors n failed).take k := take_survivors hkn
  have h0 : _ = ((survivors n failed).take k).map (rsSymbol n k 0) := cidx_eq hkn 0
  have h1 : _ = ((survivors n failed).take k).map (rsSymbol n k 1) := cidx_eq hkn 1
  -- the loop over the lost nodes meets the data nodes first
  have hloop : ∀ f : Nat → List Join, (losses n failed).flatMap (fun node =>
      if node < k then [rsJoin n k failed invert 0 node]
      else rsJoin n k failed invert 0 node :: f node) =
      (losses k failed).map (rsJoin n k failed invert 0) ++
        ((losses n failed).filter (k ≤ ·)).flatMap fun node =>
          rsJoin n k failed invert 0 node :: f node := by
    intro f
    conv_lhs => rw [losses_split hkn, List.flatMap_append]
    congr 1
    · rw [List.map_eq_flatMap]
      apply List.flatMap_congr
      intro node hnode
      rw [if_pos (mem_losses.1 hnode).1]
    · apply List.flatMap_congr
      intro node hnode
      have : k ≤ node := by simpa using (List.mem_filter.1 hnode).2
      rw [if_neg (by omega)]
  have hsym : ∀ sp node, node < k → rsSymbol n k sp node = layout sp node := fun _ _ h => if_pos h
  have hsym' : ∀ sp node, ¬ node < k → rsSymbol n k sp node = uncoupledCode n k sp (node - k) :=
    fun _ _ h => if_neg h
  unfold decodeMultiple
  unfold usedParity at h0 h1
  simp only [hsrc, hdst, hrows, h0, h1, coupleParityId, List.append_assoc]
  refine congrArg₂ _ rfl ?_
  rw [recoverData0, recoverParity0, ← List.append_assoc (List.map _ (losses k failed)), ← hloop]
  refine congrArg₂ _ ?_ (congrArg₂ _ rfl (congrArg₂ _ ?_ rfl))
  · apply List.flatMap_congr
    intro node _
    split
    · next h => rw [rsJoin, hsym 0 node h]
    · next h => rw [rsJoin, hsym' 0 node h]
  · apply List.map_congr_left
    intro node _
    rw [rsJoin]
    split
    · next h => rw [hsym 1 node h]
    · next h => rw [hsym' 1 node h]

/-- A packet of a surviving node. -/
def Avail (n : Nat) (failed : Finset Nat) (v : Nat) : Prop := v ∈ packets 2 (survivors n failed)

theorem avail_layout {sp node : Nat} (hsp : sp < 2) (hn : node < n) (hf : node ∉ failed) :
    Avail n failed (layout sp node) := by
  unfold Avail layout
  rw [mem_packets (by omega), mem_survivors, show (node * 2 + sp) / 2 = node by omega]
  exact ⟨hn, hf⟩

theorem mem_rows {node : Nat} (h : node ∈ (survivors n failed).take k) :
    node < n ∧ node ∉ failed := mem_survivors.1 (List.mem_of_mem_take h)

/-- Reed-Solomon steps from the symbols of the selected rows. -/
theorem rsJoin_sound (hr : Recoverable n k failed invert) (hT : Codeword n k T) {sp node : Nat}
    (hsp : sp < 2) (hnode : node < n) {known : Nat → Prop}
    (hknown : ∀ r ∈ (survivors n failed).take k, known (rsSymbol n k sp r)) :
    JoinsSound known T [rsJoin n k failed invert sp node] := by
  have hlen := length_take_survivors hr.sub hr.card hr.lt.le
  apply JoinsSound.of_forall
  intro j hj
  rw [List.mem_singleton.1 hj]
  refine ⟨?_, ?_, ?_⟩
  · intro c hc
    obtain ⟨r, hrm, rfl⟩ := List.mem_map.1 hc
    exact hknown r hrm
  · have hk2 := hr.params.data
    have hG := hr.params.two_le_groups
    intro hnil
    have := congrArg List.length hnil
    rw [rsJoin, List.length_map, hlen, List.length_nil] at this
    omega
  · exact combine_decodeVector hT hlen (fun r hrm => (mem_rows hrm).1) hr.inverse hsp hnode _

theorem rsJoin_map_sound (hr : Recoverable n k failed invert) (hT : Codeword n k T) {sp : Nat}
    (hsp : sp < 2) {nodes : List Nat} (hnodes : ∀ node ∈ nodes, node < n) {known : Nat → Prop}
    (hknown : ∀ r ∈ (survivors n failed).take k, known (rsSymbol n k sp r)) :
    JoinsSound known T (nodes.map (rsJoin n k failed invert sp)) := by
  rw [List.map_eq_flatMap]
  exact JoinsSound.flatMap fun node hnode => rsJoin_sound hr hT hsp (hnodes node hnode) hknown

theorem groupJoin_sound (hr : Recoverable n k failed invert) (hT : Codeword n k T) {i : Nat}
    (hi : i < numGroups n k) {known : Nat → Prop} (hknown : ∀ j < k, known (layout 0 j)) :
    JoinsSound known T [groupJoin n k (i + 1) (group n k i)] := by
  apply JoinsSound.of_forall
  intro j hj
  rw [List.mem_singleton.1 hj]
  refine ⟨?_, ?_, ?_⟩
  · intro c hc
    obtain ⟨b, hb, rfl⟩ := List.mem_map.1 hc
    have := hr.params.mem_group hi hb
    exact hknown b (by omega)
  · simpa [groupJoin] using hr.params.group_ne_nil i
  · rw [combine_groupJoin]
    exact (hT.group i hi).symm

theorem pairJoin_sound {known : Nat → Prop} {p a b : Nat} (ha : known a) (hb : known b)
    (hT : T a + T b = T p) : JoinsSound known T [⟨p, [a, b], [1, 1]⟩] := by
  apply JoinsSound.of_forall
  intro j hj
  rw [List.mem_singleton.1 hj]
  refine ⟨?_, by simp, by rw [combine_pair]; exact hT⟩
  intro c hc
  simp only [List.mem_cons, List.not_mem_nil, or_false] at hc
  rcases hc with rfl | rfl
  · exact ha
  · exact hb

theorem whenGroup_sound {known : Nat → Prop} {p : Nat} {f : List Nat → List Join}
    (h : ∀ i < numGroups n k, p = i + 1 → JoinsSound known T (f (group n k i))) :
    JoinsSound known T (whenGroup n k p f) := by
  cases p with
  | zero =>
    rw [whenGroup, lookup_pidGroupMap_zero]
    exact ⟨trivial, by simp, by simp⟩
  | succ p =>
    rw [whenGroup, lookup_pidGroupMap]
    by_cases hp : p < numGroups n k
    · rw [if_pos hp]
      exact h p hp rfl
    · rw [if_neg hp]
      exact ⟨trivial, by simp, by simp⟩

/-! What is known after each part. -/

def Known1 (n k : Nat) (failed : Finset Nat) (v : Nat) : Prop :=
  Avail n failed v ∨ ∃ node ∈ (survivors n failed).take k, v = rsSymbol n k 0 node

def Known2 (n k : Nat) (failed : Finset Nat) (v : Nat) : Prop :=
  Known1 n k failed v ∨ ∃ j < k, v = layout 0 j

def Known3 (n k : Nat) (failed : Finset Nat) (v : Nat) : Prop :=
  Known2 n k failed v ∨ ∃ node ∈ losses n failed, k ≤ node ∧
    (v = uncoupledCode n k 0 (node - k) ∨
      ∃ i < numGroups n k, node - k = i + 1 ∧ v = groupCode n (i + 1))

def Known4 (n k : Nat) (failed : Finset Nat) (v : Nat) : Prop :=
  Known3 n k failed v ∨ ∃ node ∈ (survivors n failed).take k, v = rsSymbol n k 1 node

def Known5 (n k : Nat) (failed : Finset Nat) (v : Nat) : Prop :=
  Known4 n k failed v ∨ ∃ node ∈ losses n failed, v = rsSymbol n k 1 node

theorem uncouple0_sound (h : Params n k) (hT : Codeword n k T) :
    JoinsSound (Avail n failed) T (uncouple0 n k failed) := by
  unfold uncouple0
  split
  · next hmem =>
    obtain ⟨hn, -, hf⟩ := mem_usedParity hmem
    have hG := h.two_le_groups
    rw [Nat.add_comm] at hn hf
    refine pairJoin_sound (avail_layout (by omega) hn hf) (avail_layout (by omega) hn hf) ?_
    have h1 := hT.couple1 0 (by omega)
    rw [hT.couple0, h1]
    linear_combination (T (uncoupledCode n k 1 1) + T (groupCode n 1)) * two_eq_zero
  · exact ⟨trivial, by simp, by simp⟩

theorem rsSymbol_zero (node : Nat) :
    rsSymbol n k 0 node = if node = k + 1 then n * 2 else layout 0 node := by
  unfold rsSymbol layout
  rw [uncoupledCode_zero]
  split_ifs <;> omega

theorem rsSymbol_one (node : Nat) :
    rsSymbol n k 1 node =
      if node ≤ k then layout 1 node else n * 2 + numGroups n k + (node - k) := by
  unfold rsSymbol layout
  rw [uncoupledCode_one]
  split_ifs <;> omega

theorem mem_usedParity_of_rows (hkn : k ≤ n) {node : Nat}
    (h : node ∈ (survivors n failed).take k) (hk : k ≤ node) : node ∈ usedParity n k failed := by
  rw [← take_survivors hkn] at h
  rcases List.mem_append.1 h with h | h
  · have : node < k := by simpa using (List.mem_filter.1 h).2
    omega
  · exact h

/-- The symbol of a used node is stored, or was uncoupled. -/
theorem known1_cases (hkn : k ≤ n) {v : Nat} (hv : Known1 n k failed v) :
    Avail n failed v ∨ v ∈ (uncouple0 n k failed).map Join.pidx := by
  rcases hv with hv | ⟨node, hnode, rfl⟩
  · exact Or.inl hv
  · obtain ⟨hn, hf⟩ := mem_rows hnode
    rw [rsSymbol_zero]
    split
    · next he =>
      have hmem := mem_usedParity_of_rows hkn hnode (by omega)
      rw [he, Nat.add_comm] at hmem
      right
      rw [uncouple0, if_pos hmem]
      simp [uncoupledCode_zero]
    · exact Or.inl (avail_layout (by omega) hn hf)

theorem recoverData0_sound (hr : Recoverable n k failed invert) (hT : Codeword n k T) :
    JoinsSound (Known1 n k failed) T (recoverData0 n k failed invert) := by
  refine rsJoin_map_sound hr hT (by omega) (fun node hnode => ?_)
    fun r hrm => Or.inr ⟨r, hrm, rfl⟩
  have := (mem_losses.1 hnode).1
  have := hr.lt
  omega

theorem known2_cases (hkn : k ≤ n) {v : Nat} (hv : Known2 n k failed v) :
    Known1 n k failed v ∨ v ∈ (recoverData0 n k failed invert).map Join.pidx := by
  rcases hv with hv | ⟨j, hj, rfl⟩
  · exact Or.inl hv
  · by_cases hf : j ∈ failed
    · right
      simp only [recoverData0, List.map_map, List.mem_map, Function.comp_apply]
      exact ⟨j, mem_losses.2 ⟨hj, hf⟩, if_pos hj⟩
    · exact Or.inl (Or.inl (avail_layout (by omega) (by omega) hf))

theorem recoverParity0_sound (hr : Recoverable n k failed invert) (hT : Codeword n k T) :
    JoinsSound (Known2 n k failed) T (recoverParity0 n k failed invert) := by
  refine JoinsSound.flatMap fun node hnode => ?_
  have hn := (mem_losses.1 (List.mem_filter.1 hnode).1).1
  refine (rsJoin_sound hr hT (by omega) hn fun r hrm => Or.inl (Or.inr ⟨r, hrm, rfl⟩)).append
    (fun v hv => Or.inl hv) (whenGroup_sound fun i hi hp => ?_)
  rw [hp]
  exact groupJoin_sound hr hT hi fun j hj => Or.inr ⟨j, hj, rfl⟩

theorem known3_cases {v : Nat} (hv : Known3 n k failed v) :
    Known2 n k failed v ∨ v ∈ (recoverParity0 n k failed invert).map Join.pidx := by
  rcases hv with hv | ⟨node, hnode, hk, hv⟩
  · exact Or.inl hv
  · right
    have hmem : node ∈ (losses n failed).filter (k ≤ ·) :=
      List.mem_filter.2 ⟨hnode, by simpa using hk⟩
    simp only [recoverParity0, List.map_flatMap, List.mem_flatMap]
    refine ⟨node, hmem, ?_⟩
    rw [List.map_cons, List.mem_cons]
    rcases hv with rfl | ⟨i, hi, hp, rfl⟩
    · exact Or.inl (if_neg (by omega)).symm
    · right
      exact List.mem_map.2 ⟨groupJoin n k (node - k) (group n k i),
        mem_whenGroup.2 ⟨i, hi, hp, List.mem_singleton_self _⟩, by rw [hp]; rfl⟩

theorem uncouple1_sound (hr : Recoverable n k failed invert) (hT : Codeword n k T) :
    JoinsSound (Known3 n k failed) T (uncouple1 n k failed) := by
  refine JoinsSound.flatMap fun node hnode => whenGroup_sound fun i hi hp => ?_
  obtain ⟨hn, hk, hf⟩ := mem_usedParity hnode
  rw [hp]
  have hpair : JoinsSound (fun v => Known3 n k failed v ∨ v = groupCode n (i + 1)) T
      [⟨uncoupledCode n k 1 (i + 1), [codeLayout k 1 (i + 1), groupCode n (i + 1)], [1, 1]⟩] := by
    refine pairJoin_sound (Or.inl (Or.inl (Or.inl (Or.inl ?_)))) (Or.inr rfl) ?_
    · rw [codeLayout, ← hp, Nat.add_sub_cancel' hk]
      exact avail_layout (by omega) hn hf
    · rw [hT.couple1 i hi, add_pair_cancel]
  refine (groupJoin_sound hr hT hi fun j hj => Or.inl (Or.inr ⟨j, hj, rfl⟩)).append ?_ hpair
  rintro v (hv | rfl)
  · exact Or.inl hv
  · exact Or.inr (by simp [groupJoin])

theorem known4_cases (h : Params n k) {v : Nat} (hv : Known4 n k failed v) :
    Known3 n k failed v ∨ v ∈ (uncouple1 n k failed).map Join.pidx := by
  have hG := h.groups_succ
  rcases hv with hv | ⟨node, hnode, rfl⟩
  · exact Or.inl hv
  · obtain ⟨hn, hf⟩ := mem_rows hnode
    rw [rsSymbol_one]
    split
    · exact Or.inl (Or.inl (Or.inl (Or.inl (avail_layout (by omega) hn hf))))
    · next hk =>
      right
      have hmem := mem_usedParity_of_rows (by omega) hnode (by omega)
      simp only [uncouple1, List.map_flatMap, List.mem_flatMap]
      refine ⟨node, hmem, List.mem_map.2 ⟨⟨uncoupledCode n k 1 (node - k),
        [codeLayout k 1 (node - k), groupCode n (node - k)], [1, 1]⟩, mem_whenGroup.2
          ⟨node - k - 1, by omega, by omega, ?_⟩, ?_⟩⟩
      · exact List.mem_cons_of_mem _ (List.mem_singleton_self _)
      · rw [uncoupledCode_one, if_neg (by omega)]

theorem recover1_sound (hr : Recoverable n k failed invert) (hT : Codeword n k T) :
    JoinsSound (Known4 n k failed) T (recover1 n k failed invert) :=
  rsJoin_map_sound hr hT (by omega) (fun _ hnode => (mem_losses.1 hnode).1)
    fun r hrm => Or.inr ⟨r, hrm, rfl⟩

theorem known5_cases {v : Nat} (hv : Known5 n k failed v) :
    Known4 n k failed v ∨ v ∈ (recover1 n k failed invert).map Join.pidx := by
  rcases hv with hv | ⟨node, hnode, rfl⟩
  · exact Or.inl hv
  · right
    simp only [recover1, List.map_map, List.mem_map, Function.comp_apply]
    exact ⟨node, hnode, rfl⟩

/-- The symbols of a lost parity that its coupling reads. -/
theorem known5_lost {node i : Nat} (hnode : node ∈ losses n failed) (hi : i < numGroups n k)
    (hp : node - k = i + 1) :
    Known5 n k failed (uncoupledCode n k 0 (i + 1)) ∧
      Known5 n k failed (uncoupledCode n k 1 (i + 1)) ∧
      Known5 n k failed (groupCode n (i + 1)) := by
  refine ⟨Or.inl (Or.inl (Or.inr ⟨node, hnode, by omega, Or.inl (by rw [hp])⟩)), ?_,
    Or.inl (Or.inl (Or.inr ⟨node, hnode, by omega, Or.inr ⟨i, hi, hp, rfl⟩⟩))⟩
  refine Or.inr ⟨node, hnode, ?_⟩
  rw [← hp]
  exact (if_neg (by omega)).symm

theorem recouple_sound (h : Params n k) (hT : Codeword n k T) :
    JoinsSound (Known5 n k failed) T (recouple n k failed) := by
  have hG := h.two_le_groups
  refine JoinsSound.append ?_ (fun v hv => Or.inl hv) ?_
  · split
    · next hmem =>
      obtain ⟨h0, h1, h2⟩ := known5_lost (List.mem_filter.1 hmem).1
        (show 0 < numGroups n k by omega) (by omega)
      apply JoinsSound.of_forall
      intro j hj
      rw [List.mem_singleton.1 hj]
      refine ⟨?_, by simp [coupleJoin0], by rw [coupleJoin0, combine_triple]; exact hT.couple0.symm⟩
      intro c hc
      simp only [coupleJoin0, List.mem_cons, List.not_mem_nil, or_false] at hc
      rcases hc with rfl | rfl | rfl
      · exact h0
      · exact h1
      · exact h2
    · exact ⟨trivial, by simp, by simp⟩
  · refine JoinsSound.flatMap fun node hnode => whenGroup_sound fun i hi hp => ?_
    obtain ⟨-, h1, h2⟩ := known5_lost (List.mem_filter.1 hnode).1 hi hp
    rw [hp]
    exact pairJoin_sound h1 h2 (hT.couple1 i hi).symm

theorem decodeMultiple_sound (hr : Recoverable n k failed invert) (hT : Codeword n k T) :
    JoinsSound (Avail n failed) T
      (decodeMultiple n k invert (packets 2 (survivors n failed)) (packets 2 (losses n failed))) := by
  have hkn := hr.lt.le
  rw [decodeMultiple_eq hkn]
  refine (uncouple0_sound hr.params hT).append (fun v => known1_cases hkn) ?_
  refine (recoverData0_sound hr hT).append (fun v => known2_cases hkn) ?_
  refine (recoverParity0_sound hr hT).append (fun v => known3_cases) ?_
  refine (uncouple1_sound hr hT).append (fun v => known4_cases hr.params) ?_
  exact (recover1_sound hr hT).append (fun v => known5_cases) (recouple_sound hr.params hT)

/-- Every lost packet is joined: as it is where the parity is not coupled, and
coupled again where it is. -/
theorem decodeMultiple_covers (hr : Recoverable n k failed invert) {v : Nat}
    (hv : v ∈ packets 2 (losses n failed)) :
    v ∈ (decodeMultiple n k invert (packets 2 (survivors n failed))
      (packets 2 (losses n failed))).map Join.pidx := by
  have hG := hr.params.groups_succ
  have hG2 := hr.params.two_le_groups
  have hpar := hr.params.parities
  rw [decodeMultiple_eq hr.lt.le]
  simp only [List.map_append, List.mem_append]
  rw [mem_packets (by omega)] at hv
  set node := v / 2 with hnode
  have hpart : ∀ hk : k ≤ node, node ∈ (losses n failed).filter (k ≤ ·) := fun hk =>
    List.mem_filter.2 ⟨hv, by simpa using hk⟩
  have hnlt := (mem_losses.1 hv).1
  obtain h0 | h1 : v % 2 = 0 ∨ v % 2 = 1 := by omega
  · have hv0 : v = layout 0 node := by unfold layout; omega
    by_cases hk : node < k
    · refine Or.inr (Or.inl ?_)
      simp only [recoverData0, List.map_map, List.mem_map, Function.comp_apply]
      exact ⟨node, mem_losses.2 ⟨hk, (mem_losses.1 hv).2⟩, by rw [hv0]; exact if_pos hk⟩
    · by_cases hc : node = k + 1
      · refine Or.inr (Or.inr (Or.inr (Or.inr (Or.inr ?_))))
        have hmem : 1 + k ∈ (losses n failed).filter (k ≤ ·) := by
          rw [Nat.add_comm, ← hc]
          exact hpart (by omega)
        rw [recouple, if_pos hmem, List.map_append, List.mem_append]
        left
        rw [List.map_singleton, List.mem_singleton, hv0, hc]
        rfl
      · refine Or.inr (Or.inr (Or.inl ?_))
        simp only [recoverParity0, List.map_flatMap, List.mem_flatMap]
        refine ⟨node, hpart (by omega), List.mem_cons.2 (Or.inl ?_)⟩
        show v = rsSymbol n k 0 node
        rw [rsSymbol_zero, if_neg hc]
        exact hv0
  · have hv1 : v = layout 1 node := by unfold layout; omega
    by_cases hk : node ≤ k
    · refine Or.inr (Or.inr (Or.inr (Or.inr (Or.inl ?_))))
      simp only [recover1, List.map_map, List.mem_map, Function.comp_apply]
      refine ⟨node, hv, ?_⟩
      show rsSymbol n k 1 node = v
      rw [rsSymbol_one, if_pos hk]
      exact hv1.symm
    · refine Or.inr (Or.inr (Or.inr (Or.inr (Or.inr ?_))))
      rw [recouple, List.map_append, List.mem_append]
      right
      simp only [List.map_flatMap, List.mem_flatMap]
      refine ⟨node, hpart (by omega), List.mem_map.2 ⟨coupleJoin1 n k (node - k),
        mem_whenGroup.2 ⟨node - k - 1, by omega, by omega, List.mem_singleton_self _⟩, ?_⟩⟩
      show codeLayout k 1 (node - k) = v
      rw [codeLayout, Nat.add_sub_cancel' (by omega)]
      exact hv1.symm

/-! ## One lost data node -/

theorem getD_rows_single {f : Nat} (hf : f < k) (hkn : k < n) :
    (survivors n {f}).filter (· < k) ++ [k] = (survivors n {f}).take k := by
  have hsub : ({f} : Finset Nat) ⊆ Finset.range k := by simpa using hf
  have hlen : ((survivors n {f}).filter (· < k)).length = k - 1 := by
    rw [filter_lt_survivors hkn.le, length_survivors hsub, Finset.card_singleton]
  have hpar : (survivors n {f}).filter (k ≤ ·) =
      k :: ((List.range (n - k - 1)).map fun i => k + (i + 1)) := by
    have hrange : List.range n = List.range k ++ k ::
        ((List.range (n - k - 1)).map fun i => k + (i + 1)) := by
      conv_lhs => rw [show n = k + (1 + (n - k - 1)) by omega, List.range_add, List.range_add]
      simp [Function.comp_def, Nat.add_comm 1]
    have hall : ∀ v ∈ List.range n, decide (k ≤ v) = true → decide (v ∉ ({f} : Finset Nat)) = true := by
      intro v _ hv
      have : k ≤ v := by simpa using hv
      simp
      omega
    have hlow : (List.range k).filter (k ≤ ·) = [] := by
      rw [List.filter_eq_nil_iff]
      intro v hv
      have := List.mem_range.1 hv
      simpa using this
    rw [survivors, List.filter_filter]
    have hcongr : (List.range n).filter (fun v => decide (k ≤ v) && decide (v ∉ ({f} : Finset Nat))) =
        (List.range n).filter (k ≤ ·) := by
      apply List.filter_congr
      intro v hv
      by_cases hk : k ≤ v
      · rw [hall v hv (by simpa using hk)]
        simp
      · simp [hk]
    rw [hcongr, hrange, List.filter_append, hlow, List.nil_append, List.filter_eq_self]
    intro v hv
    rcases List.mem_cons.1 hv with rfl | hv
    · simp
    · obtain ⟨i, -, rfl⟩ := List.mem_map.1 hv
      simp
  rw [← take_survivors hkn.le, hlen, hpar, show k - (k - 1) = 1 by omega]
  rfl

/-- The unit row of a data node picks its row of the inverse. -/
theorem decodeVector_data {f : Nat} (hf : f < k) (inv : Matrix (Fin k) (Fin k) GF256) :
    ((List.finRange k).map fun j : Fin k =>
      if h : f < k then GF256.toInt (inv ⟨f, h⟩ j) else 0) = decodeVector n k inv f := by
  have hunit : (fun l : Fin k => rsEncodeMatrix n k f l) = Pi.single ⟨f, hf⟩ 1 := by
    funext l
    rw [rsEncodeMatrix_data hf l.2]
    simp [Pi.single_apply, Fin.ext_iff]
  rw [decodeVector, hunit, single_one_vecMul]
  apply List.map_congr_left
  intro j _
  rw [dif_pos hf]
  rfl

/-- The calls of `DecodeSingle` for a group that holds the lost node. -/
def singleGroup (n k f : Nat) (invert : InvertMatrix8) (i : Nat) : List Join :=
  [rsJoin n k {f} invert 1 (k + (i + 1)),
    ⟨groupCode n (i + 1), [uncoupledCode n k 1 (i + 1), codeLayout k 1 (i + 1)], [1, 1]⟩,
    ⟨layout 0 f, ((group n k i).filter (· ≠ f)).map (layout 0) ++ [groupCode n (i + 1)],
      groupVector n k invert (group n k i) f⟩]

/-- The calls of `DecodeSingle` for the last data node. -/
def singleLast (n k f : Nat) (invert : InvertMatrix8) : List Join :=
  ((List.range (numGroups n k)).map fun i => rsJoin n k {f} invert 1 (k + (i + 1))) ++
  [⟨spareSymbol n k,
      (List.range (numGroups n k)).flatMap fun i => [uncoupledCode n k 1 (i + 1),
        if i + 1 ≠ 1 then codeLayout k 1 (i + 1) else codeLayout k 0 (i + 1)],
      (List.range (numGroups n k)).flatMap fun _ => [1, 1]⟩,
    ⟨layout 0 f, [spareSymbol n k],
      [GF256.toInt (rsEncodeMatrix n k (k + coupleParityId) f)⁻¹]⟩]

theorem decodeSingleData_eq {f : Nat} (hf : f < k) (hkn : k < n) :
    decodeSingleData n k invert (packets 2 (survivors n {f})) f =
      [rsJoin n k {f} invert 1 f] ++
        if f < k - 1 then
          ((List.range (numGroups n k)).filter fun i => f ∈ group n k i).flatMap
            (singleGroup n k f invert)
        else singleLast n k f invert := by
  have hsrc : nodesOf n (packets 2 (survivors n {f})) = survivors n {f} := nodesOf_packets _
  have hrows := getD_rows_single hf hkn
  have hcidx : ((survivors n {f}).filter (· < k)).map (layout 1) ++ [layout 1 k] =
      ((survivors n {f}).take k).map (rsSymbol n k 1) := by
    rw [← hrows, List.map_append, List.map_singleton]
    congr 1
    · apply List.map_congr_left
      intro node hnode
      have : node < k := by simpa using (List.mem_filter.1 hnode).2
      rw [rsSymbol_one, if_pos (by omega)]
    · rw [rsSymbol_one, if_pos (le_refl k)]
  have hsym : rsSymbol n k 1 f = layout 1 f := if_pos hf
  have hpar : ∀ i, rsSymbol n k 1 (k + (i + 1)) = uncoupledCode n k 1 (i + 1) := by
    intro i
    rw [rsSymbol, if_neg (by omega), Nat.add_sub_cancel_left]
  unfold decodeSingleData
  simp only [hsrc, hrows, hcidx, decodeVector_data (n := n) hf, List.singleton_append]
  congr 1
  · rw [rsJoin, hsym]
  · split
    · rw [pidGroupMap, List.filter_map, List.flatMap_map]
      apply List.flatMap_congr
      intro i _
      simp only [singleGroup, rsJoin, hpar]
    · simp only [singleLast, pidGroupMap, List.map_map, List.flatMap_map, Function.comp_def, rsJoin,
        hpar, coupleParityId]
      rfl

theorem sum_flatMap {α β : Type} (l : List α) (f : α → List β) (g : β → GF256) :
    ((l.flatMap f).map g).sum = (l.map fun a => ((f a).map g).sum).sum := by
  induction l with
  | nil => rfl
  | cons a l ih => simp [ih]

/-- The sum of pairs a flat list of ones makes. -/
theorem combine_pairs {α : Type} (l : List α) (a b : α → Nat) (p : Nat) (T : Nat → GF256) :
    LinearProgram.combine (Join.instr ⟨p, l.flatMap fun x => [a x, b x],
      l.flatMap fun _ => [1, 1]⟩).args T = (l.map fun x => T (a x) + T (b x)).sum := by
  unfold Join.instr LinearProgram.combine
  induction l with
  | nil => rfl
  | cons x l ih =>
    simp only [List.flatMap_cons, List.map_cons, List.cons_append, List.nil_append,
      List.zip_cons_cons, List.sum_cons, GF256.ofInt_one, one_smul]
    rw [ih, add_assoc]

/-- The group sums add up to all data but the last. -/
theorem sum_groupCode (h : Params n k) (hT : Codeword n k T) :
    ((List.range (numGroups n k)).map fun i => T (groupCode n (i + 1))).sum =
      ((List.range (k - 1)).map fun j =>
        rsEncodeMatrix n k (k + coupleParityId) j * T (layout 0 j)).sum := by
  rw [← h.flatMap_groups, sum_flatMap]
  congr 1
  apply List.map_congr_left
  intro i hi
  exact hT.group i (List.mem_range.1 hi)

/-- Xoring the couples leaves the last data packet of sub-stripe 0. -/
theorem sum_couples (h : Params n k) (hT : Codeword n k T) :
    ((List.range (numGroups n k)).map fun i => T (uncoupledCode n k 1 (i + 1)) +
      T (if i + 1 ≠ 1 then codeLayout k 1 (i + 1) else codeLayout k 0 (i + 1))).sum =
      T (layout 0 (k - 1)) := by
  have hG := h.two_le_groups
  have hGs := h.groups_succ
  have hd := h.data
  -- each couple leaves its group sum, and the first one also the parity 1 of sub-stripe 0
  have hterm : ∀ i ∈ List.range (numGroups n k), T (uncoupledCode n k 1 (i + 1)) +
      T (if i + 1 ≠ 1 then codeLayout k 1 (i + 1) else codeLayout k 0 (i + 1)) =
      T (groupCode n (i + 1)) + if i = 0 then T (uncoupledCode n k 0 1) else 0 := by
    intro i hi
    by_cases hi0 : i = 0
    · subst hi0
      rw [if_neg (by simp), if_pos rfl, hT.couple0]
      linear_combination T (uncoupledCode n k 1 1) * two_eq_zero
    · rw [if_pos (by omega), if_neg hi0, hT.couple1 i (List.mem_range.1 hi)]
      linear_combination T (uncoupledCode n k 1 (i + 1)) * two_eq_zero
  have hone : ((List.range (numGroups n k)).map fun i =>
      if i = 0 then T (uncoupledCode n k 0 1) else 0).sum = T (uncoupledCode n k 0 1) := by
    rw [show numGroups n k = numGroups n k - 1 + 1 by omega, List.range_succ_eq_map]
    simp [Function.comp_def]
  have hlast : T (uncoupledCode n k 0 1) = ((List.range (k - 1)).map fun j =>
      rsEncodeMatrix n k (k + coupleParityId) j * T (layout 0 j)).sum + T (layout 0 (k - 1)) := by
    rw [hT.uncoupled 0 (by omega) 1 (by omega),
      ← sum_map_range fun j => rsEncodeMatrix n k (k + 1) j * T (layout 0 j)]
    have hsplit : ∀ g : Nat → GF256,
        ((List.range k).map g).sum = ((List.range (k - 1)).map g).sum + g (k - 1) := by
      intro g
      obtain ⟨c, hc⟩ : ∃ c, k = c + 1 := ⟨k - 1, by omega⟩
      rw [hc, Nat.add_sub_cancel, List.range_succ]
      simp
    rw [hsplit]
    have := rsEncodeMatrix_couple (n := n) (j := k - 1) (k := k) (by omega) (by omega)
    rw [coupleParityId] at this ⊢
    rw [this, one_mul]
  rw [List.map_congr_left hterm, List.sum_map_add, sum_groupCode h hT, hone, hlast]
  linear_combination ((List.range (k - 1)).map fun j =>
    rsEncodeMatrix n k (k + coupleParityId) j * T (layout 0 j)).sum * two_eq_zero

theorem singleGroup_sound {f : Nat} (hr : Recoverable n k {f} invert) (hT : Codeword n k T)
    {i : Nat} (hi : i < numGroups n k) (hfi : f ∈ group n k i)
    (hused : ∀ r ∈ (survivors n {f}).take k, Avail n {f} (rsSymbol n k 1 r)) :
    JoinsSound (Avail n {f}) T (singleGroup n k f invert i) := by
  have hkn := hr.lt
  have hGs := hr.params.groups_succ
  have hfk := hr.params.mem_group hi hfi
  have hpar : rsSymbol n k 1 (k + (i + 1)) = uncoupledCode n k 1 (i + 1) := by
    rw [rsSymbol, if_neg (by omega), Nat.add_sub_cancel_left]
  have hcode : Avail n {f} (codeLayout k 1 (i + 1)) := by
    refine avail_layout (by omega) (by omega) ?_
    rw [Finset.mem_singleton]
    omega
  have hgroup : JoinsSound (fun v => Avail n {f} v ∨ v = groupCode n (i + 1)) T
      [⟨layout 0 f, ((group n k i).filter (· ≠ f)).map (layout 0) ++ [groupCode n (i + 1)],
        groupVector n k invert (group n k i) f⟩] := by
    apply JoinsSound.of_forall
    intro j hj
    rw [List.mem_singleton.1 hj]
    refine ⟨fun c hc => ?_, by simp, ?_⟩
    · rcases List.mem_append.1 hc with hc | hc
      · obtain ⟨b, hb, rfl⟩ := List.mem_map.1 hc
        have hbg := List.mem_filter.1 hb
        have hbk := hr.params.mem_group hi hbg.1
        refine Or.inl (avail_layout (by omega) (by omega) ?_)
        simpa using hbg.2
      · exact Or.inr (List.mem_singleton.1 hc)
    · refine combine_groupVector hkn hr.inverts (group_nodup i) hfi (fun b hb => ?_)
        (hT.group i hi) _
      have := hr.params.mem_group hi hb
      omega
  have hpair : JoinsSound (fun v => Avail n {f} v ∨ v = uncoupledCode n k 1 (i + 1)) T
      [⟨groupCode n (i + 1), [uncoupledCode n k 1 (i + 1), codeLayout k 1 (i + 1)], [1, 1]⟩] := by
    refine pairJoin_sound (Or.inr rfl) (Or.inl hcode) ?_
    rw [hT.couple1 i hi]
    linear_combination T (uncoupledCode n k 1 (i + 1)) * two_eq_zero
  have hrs := rsJoin_sound hr hT (show 1 < 2 by omega) (show k + (i + 1) < n by omega) hused
  refine hrs.append (fun v hv => ?_) (hpair.append (fun v hv => ?_) hgroup)
  · refine hv.imp_right fun h => ?_
    rw [h, ← hpar]
    exact List.mem_singleton_self _
  · rcases hv with hv | hv
    · exact Or.inl (Or.inl hv)
    · rw [hv]
      exact Or.inr (List.mem_singleton_self _)

theorem singleLast_sound (hr : Recoverable n k {k - 1} invert) (hT : Codeword n k T)
    (hspare : T (spareSymbol n k) = T (layout 0 (k - 1)))
    (hused : ∀ r ∈ (survivors n {k - 1}).take k, Avail n {k - 1} (rsSymbol n k 1 r)) :
    JoinsSound (Avail n {k - 1}) T (singleLast n k (k - 1) invert) := by
  have hkn := hr.lt
  have hGs := hr.params.groups_succ
  have hG := hr.params.two_le_groups
  have hd := hr.params.data
  have hpar : ∀ i, rsSymbol n k 1 (k + (i + 1)) = uncoupledCode n k 1 (i + 1) := by
    intro i
    rw [rsSymbol, if_neg (by omega), Nat.add_sub_cancel_left]
  have hrs : JoinsSound (Avail n {k - 1}) T ((List.range (numGroups n k)).map fun i =>
      rsJoin n k {k - 1} invert 1 (k + (i + 1))) := by
    have hnodes : ∀ node ∈ (List.range (numGroups n k)).map fun i => k + (i + 1), node < n := by
      intro node hnode
      obtain ⟨i, hi, rfl⟩ := List.mem_map.1 hnode
      have := List.mem_range.1 hi
      omega
    have := rsJoin_map_sound hr hT (show 1 < 2 by omega) hnodes hused
    rwa [List.map_map] at this
  have hcode : ∀ sp < 2, ∀ i < numGroups n k, Avail n {k - 1} (codeLayout k sp (i + 1)) := by
    intro sp hsp i hi
    refine avail_layout hsp (by omega) ?_
    rw [Finset.mem_singleton]
    omega
  have hxor : JoinsSound (fun v => Avail n {k - 1} v ∨
      ∃ i < numGroups n k, v = uncoupledCode n k 1 (i + 1)) T
      [⟨spareSymbol n k, (List.range (numGroups n k)).flatMap fun i => [uncoupledCode n k 1 (i + 1),
        if i + 1 ≠ 1 then codeLayout k 1 (i + 1) else codeLayout k 0 (i + 1)],
        (List.range (numGroups n k)).flatMap fun _ => [1, 1]⟩] := by
    apply JoinsSound.of_forall
    intro j hj
    rw [List.mem_singleton.1 hj]
    refine ⟨fun c hc => ?_, ?_, ?_⟩
    · obtain ⟨i, hi, hc⟩ := List.mem_flatMap.1 hc
      have hi := List.mem_range.1 hi
      simp only [List.mem_cons, List.not_mem_nil, or_false] at hc
      rcases hc with rfl | rfl
      · exact Or.inr ⟨i, hi, rfl⟩
      · left
        split
        · exact hcode 1 (by omega) i hi
        · exact hcode 0 (by omega) i hi
    · simp only [ne_eq, List.flatMap_eq_nil_iff, List.mem_range, not_forall]
      exact ⟨0, by omega, by simp⟩
    · rw [combine_pairs, sum_couples hr.params hT, hspare]
  have hdiv : JoinsSound (fun v => v = spareSymbol n k) T [⟨layout 0 (k - 1), [spareSymbol n k],
      [GF256.toInt (rsEncodeMatrix n k (k + coupleParityId) (k - 1))⁻¹]⟩] := by
    apply JoinsSound.of_forall
    intro j hj
    rw [List.mem_singleton.1 hj]
    refine ⟨fun c hc => List.mem_singleton.1 hc, by simp, ?_⟩
    rw [rsEncodeMatrix_couple hkn (by omega), inv_one]
    simp [Join.instr, LinearProgram.combine, hspare]
  refine hrs.append (fun v hv => ?_) (hxor.append (fun v hv => ?_) hdiv)
  · rcases hv with hv | ⟨i, hi, rfl⟩
    · exact Or.inl hv
    · right
      rw [List.map_map]
      exact List.mem_map.2 ⟨i, List.mem_range.2 hi, hpar i⟩
  · rw [hv]
    exact Or.inr (List.mem_singleton_self _)

theorem decodeSingleData_sound {f : Nat} (hf : f < k) (hr : Recoverable n k {f} invert)
    (hT : Codeword n k T) (hspare : T (spareSymbol n k) = T (layout 0 (k - 1))) :
    JoinsSound (Avail n {f}) T
      (decodeSingleData n k invert (packets 2 (survivors n {f})) f) := by
  have hkn := hr.lt
  have hused : ∀ r ∈ (survivors n {f}).take k, Avail n {f} (rsSymbol n k 1 r) := by
    intro r hrm
    obtain ⟨hn, hrf⟩ := mem_rows hrm
    rw [← getD_rows_single hf hkn] at hrm
    have hle : r ≤ k := by
      rcases List.mem_append.1 hrm with h | h
      · have : r < k := by simpa using (List.mem_filter.1 h).2
        omega
      · exact (List.mem_singleton.1 h).le
    rw [rsSymbol_one, if_pos hle]
    exact avail_layout (by omega) hn hrf
  rw [decodeSingleData_eq hf hkn]
  refine (rsJoin_sound hr hT (show 1 < 2 by omega) (show f < n by omega) hused).append
    (fun v hv => Or.inl hv) ?_
  split
  · refine JoinsSound.flatMap fun i hi => ?_
    have hi := List.mem_filter.1 hi
    exact singleGroup_sound hr hT (List.mem_range.1 hi.1) (by simpa using hi.2) hused
  · obtain rfl : f = k - 1 := by omega
    exact singleLast_sound hr hT hspare hused

theorem decodeSingleData_covers {f : Nat} (hf : f < k) (hkn : k < n) (h : Params n k) {v : Nat}
    (hv : v ∈ packets 2 (losses n {f})) :
    v ∈ (decodeSingleData n k invert (packets 2 (survivors n {f})) f).map Join.pidx := by
  rw [mem_packets (by omega), losses_singleton (by omega), List.mem_singleton] at hv
  rw [decodeSingleData_eq hf hkn, List.map_append, List.mem_append]
  obtain h0 | h1 : v % 2 = 0 ∨ v % 2 = 1 := by omega
  · right
    have hv0 : v = layout 0 f := by unfold layout; omega
    rw [hv0]
    split
    · next hlt =>
      obtain ⟨i, hi, hfi⟩ := h.exists_group hlt
      rw [List.map_flatMap]
      refine List.mem_flatMap.2 ⟨i, List.mem_filter.2 ⟨List.mem_range.2 hi, by simpa using hfi⟩, ?_⟩
      simp [singleGroup]
    · simp [singleLast]
  · left
    rw [List.map_singleton, List.mem_singleton]
    show v = rsSymbol n k 1 f
    rw [rsSymbol_one, if_pos hf.le]
    unfold layout
    omega

/-! ## Decode -/

theorem decode_sound (hr : Recoverable n k failed invert) (hne : 1 ≤ failed.card)
    (hT : Codeword n k T) (hspare : T (spareSymbol n k) = T (layout 0 (k - 1))) :
    JoinsSound (Avail n failed) T (decodeJoins n k invert (packets 2 (survivors n failed))
      (packets 2 (losses n failed))) ∧
    ∀ v ∈ packets 2 (losses n failed), v ∈ (decodeJoins n k invert (packets 2 (survivors n failed))
      (packets 2 (losses n failed))).map Join.pidx := by
  have hlen : (packets 2 (losses n failed)).length / 2 = failed.card := by
    rw [length_packets, length_losses hr.sub, Nat.mul_div_cancel _ (by omega)]
  have hmulti := And.intro (decodeMultiple_sound hr hT)
    fun v hv => decodeMultiple_covers hr (v := v) hv
  unfold decodeJoins
  rw [hlen]
  split
  · next hone =>
    obtain ⟨f, rfl⟩ := Finset.card_eq_one.1 hone
    have hfn : f < n := by simpa using hr.sub
    have hnode : (nodeOf n ((packets 2 (losses n {f})).getD 0 0)).getD
        ((packets 2 (losses n {f})).getD 0 0 / 2) = f := by
      have : (packets 2 (losses n {f})).getD 0 0 = f * 2 := by
        rw [losses_singleton hfn]
        rfl
      rw [this, nodeOf_eq, Nat.mul_div_cancel _ (by omega), if_pos hfn]
      rfl
    unfold decodeSingle
    rw [hnode]
    dsimp only
    split
    · exact hmulti
    · next hk =>
      exact ⟨decodeSingleData_sound (by omega) hr hT hspare,
        fun v hv => decodeSingleData_covers (by omega) hr.lt hr.params hv⟩
  · exact hmulti

end

/-- The equations do not mention the spare symbol. -/
theorem Codeword.congr {T T' : Nat → GF256} (h : Codeword n k T) (hp : Params n k)
    (hT : ∀ v < spareSymbol n k, T' v = T v) : Codeword n k T' := by
  have hGs := hp.groups_succ
  have hG := hp.two_le_groups
  have hlay : ∀ sp < 2, ∀ j < n, T' (layout sp j) = T (layout sp j) := by
    intro sp hsp j hj
    apply hT
    unfold layout spareSymbol numSymbols
    omega
  have hcode : ∀ sp < 2, ∀ p < n - k, T' (codeLayout k sp p) = T (codeLayout k sp p) :=
    fun sp hsp p hp => hlay sp hsp (k + p) (by omega)
  have hunc : ∀ sp < 2, ∀ p < n - k, T' (uncoupledCode n k sp p) = T (uncoupledCode n k sp p) := by
    intro sp hsp p hp
    apply hT
    unfold spareSymbol numSymbols
    obtain rfl | rfl : sp = 0 ∨ sp = 1 := by omega
    · rw [uncoupledCode_zero]
      split <;> omega
    · rw [uncoupledCode_one]
      split <;> omega
  have hgrp : ∀ i < numGroups n k, T' (groupCode n (i + 1)) = T (groupCode n (i + 1)) := by
    intro i hi
    apply hT
    unfold groupCode spareSymbol numSymbols
    omega
  refine ⟨fun sp hsp p hp => ?_, fun i hi => ?_, ?_, fun i hi => ?_⟩
  · rw [hunc sp hsp p hp, h.uncoupled sp hsp p hp]
    exact Finset.sum_congr rfl fun j _ => by rw [hlay sp hsp j (by have := j.2; omega)]
  · rw [hgrp i hi, h.group i hi, groupSum, groupSum]
    congr 1
    apply List.map_congr_left
    intro j hj
    have := hp.mem_group hi hj
    rw [hlay 0 (by omega) j (by omega)]
  · rw [hcode 0 (by omega) 1 (by omega), hunc 0 (by omega) 1 (by omega),
      hunc 1 (by omega) 1 (by omega), hgrp 0 (by omega), h.couple0]
  · rw [hcode 1 (by omega) (i + 1) (by omega), hunc 1 (by omega) (i + 1) (by omega), hgrp i hi,
      h.couple1 i hi]

/-- **`Decode` undoes `Encode`.**  The DAG reads only surviving packets, defines both
packets of every lost node, and gives them their value in the codeword. -/
theorem decode_restores (n k : Nat) (failed : Finset Nat) (invert : InvertMatrix8)
    (hpar : 3 ≤ n - k) (hdata : 2 * (n - k - 1) ≤ k) (hsub : failed ⊆ Finset.range n)
    (hne : 1 ≤ failed.card) (hcard : failed.card ≤ n - k) (hinv : Inverts8 invert)
    (hind : IsUnit (recoverMatrix n k ((survivors n failed).take k))) (data : Nat → GF256) :
    (decode n k invert (packets 2 (survivors n failed)) (packets 2 (losses n failed))).Restores
      (· ∈ packets 2 (survivors n failed)) (packets 2 (losses n failed))
      ((encode n k).eval data) := by
  have hp : Params n k := ⟨hpar, by unfold numGroups; omega⟩
  have hr : Recoverable n k failed invert := ⟨hp, hsub, hcard, hinv, hind⟩
  have hG := hp.two_le_groups
  let T := (encode n k).eval data
  let T' := Function.update T (spareSymbol n k) (T (layout 0 (k - 1)))
  have hT : ∀ v < spareSymbol n k, T' v = T v := fun v hv => Function.update_of_ne hv.ne _ _
  have hstored : ∀ v, v / 2 < n → v < spareSymbol n k := by
    intro v hv
    unfold spareSymbol numSymbols
    omega
  have hspare : T' (spareSymbol n k) = T' (layout 0 (k - 1)) := by
    rw [hT (layout 0 (k - 1)) (hstored _ (by unfold layout; omega))]
    exact Function.update_self _ _ _
  obtain ⟨hsound, hcovers⟩ := decode_sound hr hne ((codeword_encode hp data).congr hp hT) hspare
  have hres := hsound.restores hcovers fun v hv ha =>
    (mem_survivors.1 ((mem_packets (by omega)).1 ha)).2
      (mem_losses.1 ((mem_packets (by omega)).1 hv)).2
  refine hres.congr fun v hv => hT v (hstored v ?_)
  rcases hv with hv | hv
  · exact (mem_survivors.1 ((mem_packets (by omega)).1 hv)).1
  · exact (mem_losses.1 ((mem_packets (by omega)).1 hv)).1

/-- Data node 0 of the (7, 4) code lost. -/
theorem decode_restores_data :
    (decode 7 4 (fun _ A => A⁻¹) (packets 2 (survivors 7 {0})) (packets 2 (losses 7 {0}))).Restores
      (· ∈ packets 2 (survivors 7 {0})) (packets 2 (losses 7 {0}))
      ((encode 7 4).eval GF256.ofNat) := by
  have hinv : (!![GF256.ofNat 2, GF256.ofNat 4, GF256.ofNat 8, 1; 1, 0, 0, 0; 0, 1, 0, 0; 0, 0, 1, 0] :
      Matrix (Fin 4) (Fin 4) GF256) * recoverMatrix 7 4 ((survivors 7 {0}).take 4) = 1 := by
    decide +kernel
  exact decode_restores 7 4 {0} _ (by omega) (by omega) (by decide) (by decide) (by decide)
    inverts8_inv (IsUnit.of_mul_eq_one_right _ hinv) _

end

end HHXORPlus

end StripeRepair

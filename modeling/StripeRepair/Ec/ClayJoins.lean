import StripeRepair.Ec.ClayGrid
import StripeRepair.Ec.FailureSet

/-!
# `Clay`: what the `Join`s read and define

The loops over the grid and the functions of a pair, in terms of a node and a plane.

* `helperUncoupled_eq`, `recoverCoupled_eq`: repairing one column.
* `decodeErasures_eq`, `coupledLayered_eq`: a plane in the layered code.
* `mem_repairPlanes`: the intervals are the planes that name the lost node.
-/

namespace StripeRepair

namespace Clay

open Digits (digit setDigit)

variable (c : Clay)

/-! ## One pair -/

section
variable {c} (hq : 0 < c.q) (hkn : c.k ≤ c.n) (invert : InvertMatrix8)
  {i z : Nat} (hi : i < c.n + c.nu) (hz : z < c.w) (h : ¬ c.Named i z)
include hq hkn hi hz h

theorem getUncoupledFromCoupled_eq : c.getUncoupledFromCoupled (i % c.q) (i / c.q) z =
    [⟨c.uncoupledId i z, [c.coupledId i z, c.coupledId (c.mate i z) (c.matePlane i z)],
        coefUncoupled 2⟩,
      ⟨c.uncoupledId (c.mate i z) (c.matePlane i z),
        [c.coupledId i z, c.coupledId (c.mate i z) (c.matePlane i z)], coefUncoupled 3⟩] := by
  obtain ⟨h0, h1, h2, h3⟩ := real_idxsUpper hq hkn hi hz h
  simp only [getUncoupledFromCoupled, pairJoin, h0, h1, h2, h3]

theorem getUncoupled2FromCoupled_eq : c.getUncoupled2FromCoupled (i % c.q) (i / c.q) z =
    [⟨c.uncoupledId i z, [c.coupledId i z, c.coupledId (c.mate i z) (c.matePlane i z)],
      coefUncoupled 2⟩] := by
  obtain ⟨h0, h1, h2, h3⟩ := real_idxsUpper hq hkn hi hz h
  simp only [getUncoupled2FromCoupled, pairJoin, h0, h1, h2]

theorem getUncoupled3FromCoupled_eq : c.getUncoupled3FromCoupled (i % c.q) (i / c.q) z =
    [⟨c.uncoupledId i z, [c.coupledId (c.mate i z) (c.matePlane i z), c.coupledId i z],
      coefUncoupled 3⟩] := by
  obtain ⟨h0, h1, h2, h3⟩ := real_idxsLower hq hkn hi hz h
  simp only [getUncoupled3FromCoupled, pairJoin, h0, h1, h3]

theorem getUncoupled3FromCoupled02_eq :
    c.getUncoupled3FromCoupled02 invert (i % c.q) (i / c.q) z =
    [⟨c.uncoupledId i z, [c.coupledId i z, c.uncoupledId (c.mate i z) (c.matePlane i z)],
      coefPair invert 1 2 3⟩] := by
  obtain ⟨h0, h1, h2, h3⟩ := real_idxsLower hq hkn hi hz h
  simp only [getUncoupled3FromCoupled02, pairJoin, h1, h2, h3]

theorem getUncoupled2FromCoupled03_eq :
    c.getUncoupled2FromCoupled03 invert (i % c.q) (i / c.q) z =
    [⟨c.uncoupledId i z, [c.coupledId i z, c.uncoupledId (c.mate i z) (c.matePlane i z)],
      coefPair invert 0 3 2⟩] := by
  obtain ⟨h0, h1, h2, h3⟩ := real_idxsUpper hq hkn hi hz h
  simp only [getUncoupled2FromCoupled03, pairJoin, h0, h2, h3]

theorem getCoupledFromUncoupled_eq :
    c.getCoupledFromUncoupled invert (i % c.q) (i / c.q) z =
    [⟨c.coupledId i z, [c.uncoupledId i z, c.uncoupledId (c.mate i z) (c.matePlane i z)],
        coefCoupled invert 0⟩,
      ⟨c.coupledId (c.mate i z) (c.matePlane i z),
        [c.uncoupledId i z, c.uncoupledId (c.mate i z) (c.matePlane i z)],
        coefCoupled invert 1⟩] := by
  obtain ⟨h0, h1, h2, h3⟩ := real_idxsUpper hq hkn hi hz h
  simp only [getCoupledFromUncoupled, pairJoin, h0, h1, h2, h3]

theorem getCoupled10FromUncoupled_eq :
    c.getCoupled10FromUncoupled invert (i % c.q) (i / c.q) z =
    [⟨c.coupledId (c.mate i z) (c.matePlane i z),
        [c.uncoupledId (c.mate i z) (c.matePlane i z), c.uncoupledId i z], coefCoupled invert 0⟩,
      ⟨c.coupledId i z, [c.uncoupledId (c.mate i z) (c.matePlane i z), c.uncoupledId i z],
        coefCoupled invert 1⟩] := by
  obtain ⟨h0, h1, h2, h3⟩ := real_idxsLower hq hkn hi hz h
  simp only [getCoupled10FromUncoupled, pairJoin, h0, h1, h2, h3]

theorem getCoupled1FromPair02_eq : c.getCoupled1FromPair02 invert (i % c.q) (i / c.q) z =
    [⟨c.coupledId (c.mate i z) (c.matePlane i z), [c.coupledId i z, c.uncoupledId i z],
      coefPair invert 0 2 1⟩] := by
  obtain ⟨h0, h1, h2, h3⟩ := real_idxsUpper hq hkn hi hz h
  simp only [getCoupled1FromPair02, pairJoin, h0, h1, h2]

theorem getCoupled0FromPair13_eq : c.getCoupled0FromPair13 invert (i % c.q) (i / c.q) z =
    [⟨c.coupledId (c.mate i z) (c.matePlane i z), [c.coupledId i z, c.uncoupledId i z],
      coefPair invert 1 3 0⟩] := by
  obtain ⟨h0, h1, h2, h3⟩ := real_idxsLower hq hkn hi hz h
  simp only [getCoupled0FromPair13, pairJoin, h0, h1, h3]

theorem getCoupled0FromPair12_eq : c.getCoupled0FromPair12 invert (i % c.q) (i / c.q) z =
    [⟨c.coupledId i z, [c.coupledId (c.mate i z) (c.matePlane i z), c.uncoupledId i z],
      coefPair invert 1 2 0⟩] := by
  obtain ⟨h0, h1, h2, h3⟩ := real_idxsUpper hq hkn hi hz h
  simp only [getCoupled0FromPair12, pairJoin, h0, h1, h2]

theorem getCoupled1FromPair03_eq : c.getCoupled1FromPair03 invert (i % c.q) (i / c.q) z =
    [⟨c.coupledId i z, [c.coupledId (c.mate i z) (c.matePlane i z), c.uncoupledId i z],
      coefPair invert 0 3 1⟩] := by
  obtain ⟨h0, h1, h2, h3⟩ := real_idxsLower hq hkn hi hz h
  simp only [getCoupled1FromPair03, pairJoin, h0, h1, h3]

end

/-! ## One plane -/

/-- The coefficients of a row of the Reed-Solomon code. -/
def mdsCoef (invert : InvertMatrix8) (erased : List Nat) (cidx : Nat) : List Int :=
  (List.finRange c.mdsK).map fun j : Fin c.mdsK =>
    GF256.toInt (∑ l : Fin c.mdsK, c.mdsEncodeMatrix cidx l * c.mdsInvert invert erased l j)

/-- The `Join` of one erased node. -/
def uncoupledJoin (invert : InvertMatrix8) (erased : List Nat) (z i : Nat) : Join :=
  ⟨c.uncoupledId i z, (c.selectLines erased).map fun l => c.uncoupledId l z,
    c.mdsCoef invert erased i⟩

theorem decodeUncoupled_eq (invert : InvertMatrix8) (erased : List Nat) (z : Nat) :
    c.decodeUncoupled invert erased z = erased.map (c.uncoupledJoin invert erased z) := by
  unfold decodeUncoupled uncoupledJoin
  refine List.map_congr_left fun i _ => ?_
  rw [List.map_map]
  rfl

section
variable {c}

theorem mdsK_add (hkn : c.k ≤ c.n) : c.mdsK + c.m = c.n + c.nu := by
  unfold mdsK m
  omega

section
variable (hkn : c.k ≤ c.n) {erased : List Nat} (hnodup : erased.Nodup)
  (hlen : erased.length = c.m) (hlt : ∀ i ∈ erased, i < c.n + c.nu)
include hkn hnodup hlen hlt

/-- There are as many nodes that are not erased as data nodes. -/
theorem length_filter_erased :
    ((List.range (c.n + c.nu)).filter (· ∉ erased)).length = c.mdsK := by
  have hsum := mdsK_add hkn
  have hcount := length_filter_not_mem hnodup hlt
  omega

/-- What is read from: all nodes that are not erased. -/
theorem selectLines_eq :
    c.selectLines erased = (List.range (c.n + c.nu)).filter (· ∉ erased) := by
  have hsum : c.mdsK + c.mdsM = c.n + c.nu := mdsK_add hkn
  unfold selectLines
  rw [hsum]
  exact List.take_of_length_le (length_filter_erased hkn hnodup hlen hlt).le

end

variable (hq : 0 < c.q) (hkn : c.k ≤ c.n)
include hq hkn

/-! ## The layered code -/

section
variable (invert : InvertMatrix8) (erased : List Nat)

omit hq hkn in
/-- What `decode_erasures` makes of one node that is not erased. -/
def erasureJoins (c : Clay) (invert : InvertMatrix8) (erased : List Nat) (i z : Nat) : List Join :=
  if i ∈ erased ∨ c.Named i z then []
  else if c.zVec z (i / c.q) < i % c.q then
    if c.mate i z ∉ erased then
      [⟨c.uncoupledId i z, [c.coupledId i z, c.coupledId (c.mate i z) (c.matePlane i z)],
          coefUncoupled 2⟩,
        ⟨c.uncoupledId (c.mate i z) (c.matePlane i z),
          [c.coupledId i z, c.coupledId (c.mate i z) (c.matePlane i z)], coefUncoupled 3⟩]
    else
      [⟨c.uncoupledId i z, [c.coupledId i z, c.uncoupledId (c.mate i z) (c.matePlane i z)],
        coefPair invert 0 3 2⟩]
  else if c.mate i z ∈ erased then
    [⟨c.uncoupledId i z, [c.coupledId i z, c.uncoupledId (c.mate i z) (c.matePlane i z)],
      coefPair invert 1 2 3⟩]
  else []

theorem decodeErasures_eq {z : Nat} (hz : z < c.w) : c.decodeErasures invert erased z =
    ((List.range c.q).flatMap fun x => (List.range c.t).flatMap fun y =>
      c.erasureJoins invert erased (y * c.q + x) z) ++
    erased.map (c.uncoupledJoin invert erased z) := by
  unfold decodeErasures
  rw [decodeUncoupled_eq]
  refine congrArg (· ++ _) (List.flatMap_congr fun x hx => List.flatMap_congr fun y hy => ?_)
  rw [List.mem_range] at hx hy
  have hi := node_lt hq hkn hx hy
  obtain ⟨h1, h2⟩ := node_xy hq y hx
  obtain ⟨hmate, -⟩ := mate_node hq y z hx
  have hnamed := named_node hq y z hx
  rw [Nat.mul_comm c.q y]
  unfold erasureJoins
  by_cases he : y * c.q + x ∈ erased
  · rw [if_pos he, if_pos (Or.inl he)]
  · rw [if_neg he]
    by_cases hn : c.Named (y * c.q + x) z
    · have hv := hnamed.1 hn
      rw [if_pos (Or.inr hn), if_neg (by omega), if_pos hv]
    · have hv : c.zVec z y ≠ x := fun hv => hn (hnamed.2 hv)
      have h02 := getUncoupled3FromCoupled02_eq hq hkn invert hi hz hn
      have h03 := getUncoupled2FromCoupled03_eq hq hkn invert hi hz hn
      have hboth := getUncoupledFromCoupled_eq hq hkn hi hz hn
      rw [h1, h2] at h02 h03 hboth
      rw [if_neg (not_or.2 ⟨he, hn⟩), h1, h2, hmate, if_neg hv, h02, h03, hboth, hmate]

omit hq hkn in
/-- What it reads. -/
theorem of_mem_erasureJoins {invert : InvertMatrix8} {erased : List Nat} {i z : Nat} {j : Join}
    (hj : j ∈ c.erasureJoins invert erased i z) : ¬ c.Named i z ∧ ∀ v ∈ j.cidx,
      v = c.coupledId i z ∨ v = c.coupledId (c.mate i z) (c.matePlane i z) ∨
        v = c.uncoupledId (c.mate i z) (c.matePlane i z) := by
  unfold erasureJoins at hj
  split at hj
  · exact absurd hj List.not_mem_nil
  · next hno =>
    refine ⟨fun h => hno (Or.inr h), fun v hv => ?_⟩
    split at hj
    · split at hj
      · rcases List.mem_pair.1 hj with rfl | rfl
        · exact (List.mem_pair.1 hv).imp_right Or.inl
        · exact (List.mem_pair.1 hv).imp_right Or.inl
      · obtain rfl := List.mem_singleton.1 hj
        exact (List.mem_pair.1 hv).imp_right Or.inr
    · split at hj
      · obtain rfl := List.mem_singleton.1 hj
        exact (List.mem_pair.1 hv).imp_right Or.inr
      · exact absurd hj List.not_mem_nil

/-- What follows for one erased node in `decode_layered`. -/
def layeredJoins (c : Clay) (invert : InvertMatrix8) (erased : List Nat) (i z : Nat) : List Join :=
  if c.Named i z then []
  else if c.mate i z ∉ erased then
    if c.zVec z (i / c.q) < i % c.q then
      [⟨c.coupledId i z, [c.coupledId (c.mate i z) (c.matePlane i z), c.uncoupledId i z],
        coefPair invert 1 2 0⟩]
    else
      [⟨c.coupledId i z, [c.coupledId (c.mate i z) (c.matePlane i z), c.uncoupledId i z],
        coefPair invert 0 3 1⟩]
  else if c.zVec z (i / c.q) < i % c.q then
    [⟨c.coupledId i z, [c.uncoupledId i z, c.uncoupledId (c.mate i z) (c.matePlane i z)],
        coefCoupled invert ⟨0, Nat.two_pos⟩⟩,
      ⟨c.coupledId (c.mate i z) (c.matePlane i z),
        [c.uncoupledId i z, c.uncoupledId (c.mate i z) (c.matePlane i z)],
        coefCoupled invert ⟨1, Nat.one_lt_two⟩⟩]
  else []

omit hq hkn in
/-- What it reads. -/
theorem of_mem_layeredJoins {invert : InvertMatrix8} {erased : List Nat} {i z : Nat} {j : Join}
    (hj : j ∈ c.layeredJoins invert erased i z) : ¬ c.Named i z ∧ ∀ v ∈ j.cidx,
      v = c.coupledId (c.mate i z) (c.matePlane i z) ∨ v = c.uncoupledId i z ∨
        v = c.uncoupledId (c.mate i z) (c.matePlane i z) := by
  unfold layeredJoins at hj
  split at hj
  · exact absurd hj List.not_mem_nil
  · next hno =>
    refine ⟨hno, fun v hv => ?_⟩
    split at hj
    · split at hj <;> obtain rfl := List.mem_singleton.1 hj
      · exact (List.mem_pair.1 hv).imp_right Or.inl
      · exact (List.mem_pair.1 hv).imp_right Or.inl
    · split at hj
      · rcases List.mem_pair.1 hj with rfl | rfl
        · exact Or.inr (List.mem_pair.1 hv)
        · exact Or.inr (List.mem_pair.1 hv)
      · exact absurd hj List.not_mem_nil

omit hkn in
/-- Type 1: the partner is not erased. -/
theorem isErasureType1_iff (hlen : erased.length = c.m) {i z : Nat} (hi : i / c.q < c.t)
    (hn : ¬ c.Named i z) : c.isErasureType1 erased (i % c.q) (i / c.q) z = true ↔
      c.mate i z ∉ erased := by
  have hsw := node_xy hq (i / c.q) (zVec_lt hi hq z)
  unfold isErasureType1
  rw [decide_eq_true_eq]
  constructor
  · rintro ⟨-, h⟩ hm
    obtain ⟨p, hp, hpe⟩ := List.getElem_of_mem hm
    have hget : erased.getD p 0 = c.mate i z := by rw [List.getD_eq_getElem _ _ hp, hpe]
    have hp' := h p (List.mem_range.2 (hlen ▸ hp))
    rw [hget] at hp'
    exact hp' hsw.2 hsw.1
  · intro hm
    refine ⟨fun h => hn h.symm, fun p hp h1 h2 => hm ?_⟩
    rw [List.mem_range, ← hlen] at hp
    have hnode : erased.getD p 0 = c.mate i z := by
      rw [← node_eq (c := c) (erased.getD p 0), h1, h2]
      rfl
    rw [← hnode, List.getD_eq_getElem _ _ hp]
    exact List.getElem_mem hp

theorem coupledLayered_eq (hlen : erased.length = c.m) {i z : Nat} (hi : i < c.n + c.nu)
    (hz : z < c.w) :
    (if c.zVec z (i / c.q) = i % c.q then []
    else if c.isErasureType1 erased (i % c.q) (i / c.q) z then
      if i % c.q > c.zVec z (i / c.q) then
        c.getCoupled0FromPair12 invert (i % c.q) (i / c.q) z
      else c.getCoupled1FromPair03 invert (i % c.q) (i / c.q) z
    else if c.zVec z (i / c.q) < i % c.q then
      c.getCoupledFromUncoupled invert (i % c.q) (i / c.q) z else []) =
    c.layeredJoins invert erased i z := by
  unfold layeredJoins
  by_cases hn : c.Named i z
  · rw [if_pos hn]
    exact if_pos hn
  · have htype := isErasureType1_iff hq erased hlen (div_lt hq hkn hi) hn
    have hn' : ¬ c.zVec z (i / c.q) = i % c.q := hn
    rw [if_neg hn, if_neg hn', getCoupled0FromPair12_eq hq hkn invert hi hz hn,
      getCoupled1FromPair03_eq hq hkn invert hi hz hn,
      getCoupledFromUncoupled_eq hq hkn invert hi hz hn]
    by_cases hm : c.mate i z ∉ erased
    · rw [if_pos (htype.2 hm), if_pos hm]
    · rw [if_neg fun h => hm (htype.1 h), if_neg hm]
      rfl

end

/-! ## Repairing one column -/

/-- The nodes of column `y`. -/
def column (c : Clay) (y : Nat) : List Nat := (List.range c.q).map fun x => y * c.q + x

omit hkn in
theorem mem_column {i y : Nat} : i ∈ c.column y ↔ i / c.q = y := by
  simp only [column, List.mem_map, List.mem_range]
  constructor
  · rintro ⟨x, hx, rfl⟩
    exact (node_xy hq y hx).2
  · rintro rfl
    exact ⟨i % c.q, Nat.mod_lt _ hq, node_eq i⟩

omit hq hkn in
theorem nodup_column (c : Clay) (y : Nat) : (c.column y).Nodup :=
  List.nodup_range.map fun a b h => by simpa using h

omit hq hkn in
theorem repairErasures_eq (c : Clay) (recovered : List Nat) :
    c.repairErasures recovered [] = c.column (lostChunk recovered / c.q) := by
  rw [repairErasures, List.append_nil, ← Nat.div_mul_self_eq_mod_sub_self]
  rfl

section
variable (invert : InvertMatrix8)

omit hq hkn in
/-- What is read of one helper, outside the column of the lost node. -/
def helperJoins (c : Clay) (y i z : Nat) : List Join :=
  if i / c.q = y ∨ c.Named i z then []
  else if c.zVec z (i / c.q) < i % c.q then
    [⟨c.uncoupledId i z, [c.coupledId i z, c.coupledId (c.mate i z) (c.matePlane i z)],
      coefUncoupled 2⟩]
  else
    [⟨c.uncoupledId i z, [c.coupledId (c.mate i z) (c.matePlane i z), c.coupledId i z],
      coefUncoupled 3⟩]

theorem helperUncoupled_eq (recovered : List Nat) {z : Nat} (hz : z < c.w) :
    c.helperUncoupled invert recovered [] z =
      (List.range c.t).flatMap fun y => (List.range c.q).flatMap fun x =>
        c.helperJoins (lostChunk recovered / c.q) (y * c.q + x) z := by
  unfold helperUncoupled
  refine List.flatMap_congr fun y hy => List.flatMap_congr fun x hx => ?_
  rw [List.mem_range] at hx hy
  have hi := node_lt hq hkn hx hy
  obtain ⟨h1, h2⟩ := node_xy hq y hx
  have hnamed := named_node hq y z hx
  unfold helperJoins
  by_cases hcol : y = lostChunk recovered / c.q
  · rw [if_pos ((repairErasures_eq c recovered) ▸ (mem_column hq).2 (h2.trans hcol)),
      if_pos (Or.inl (h2.trans hcol))]
  · have hnot : y * c.q + x ∉ c.repairErasures recovered [] := by
      rw [repairErasures_eq, mem_column hq, h2]
      exact hcol
    rw [if_neg hnot, if_neg List.not_mem_nil]
    by_cases hn : c.Named (y * c.q + x) z
    · rw [if_pos (hnamed.1 hn), if_pos (Or.inr hn)]
    · have hv : c.zVec z y ≠ x := fun hv => hn (hnamed.2 hv)
      have hor : ¬ ((y * c.q + x) / c.q = lostChunk recovered / c.q ∨ c.Named (y * c.q + x) z) := by
        rw [h2]
        exact not_or.2 ⟨hcol, hn⟩
      have hf2 := getUncoupled2FromCoupled_eq hq hkn hi hz hn
      have hf3 := getUncoupled3FromCoupled_eq hq hkn hi hz hn
      rw [h1, h2] at hf2 hf3
      rw [if_neg hv, if_neg hor, h1, h2, hf2, hf3]

omit hq hkn in
/-- What a plane gives of the lost nodes through one node of their column. -/
def recoverJoins (c : Clay) (invert : InvertMatrix8) (helper : List Nat) (i z : Nat) : List Join :=
  if c.Named i z then []
  else if i ∈ helper then
    [⟨c.coupledId (c.mate i z) (c.matePlane i z), [c.coupledId i z, c.uncoupledId i z],
      if c.zVec z (i / c.q) < i % c.q then coefPair invert 0 2 1 else coefPair invert 1 3 0⟩]
  else if i % c.q < c.zVec z (i / c.q) then
    [⟨c.coupledId (c.mate i z) (c.matePlane i z),
        [c.uncoupledId (c.mate i z) (c.matePlane i z), c.uncoupledId i z],
        coefCoupled invert ⟨0, Nat.two_pos⟩⟩,
      ⟨c.coupledId i z, [c.uncoupledId (c.mate i z) (c.matePlane i z), c.uncoupledId i z],
        coefCoupled invert ⟨1, Nat.one_lt_two⟩⟩]
  else []

theorem recoverCoupled_eq (recovered helper : List Nat) {z : Nat} (hz : z < c.w)
    (hcol : lostChunk recovered / c.q < c.t) : c.recoverCoupled invert recovered [] helper z =
      (c.column (lostChunk recovered / c.q)).flatMap fun i => c.recoverJoins invert helper i z := by
  unfold recoverCoupled
  rw [repairErasures_eq]
  refine List.flatMap_congr fun i hi => ?_
  have hi' : i < c.n + c.nu := by
    rw [mem_column hq] at hi
    rw [← grid hq hkn, Nat.mul_comm, ← Nat.div_lt_iff_lt_mul hq, hi]
    exact hcol
  unfold recoverJoins
  by_cases hn : c.Named i z
  · rw [if_pos hn]
    show (if i ∈ [] then [] else if i % c.q = c.zVec z (i / c.q) then [] else _) = _
    rw [if_neg List.not_mem_nil, if_pos hn.symm]
  · have hv : ¬ i % c.q = c.zVec z (i / c.q) := fun hv => hn hv.symm
    rw [if_neg hn]
    show (if i ∈ [] then [] else if i % c.q = c.zVec z (i / c.q) then [] else _) = _
    rw [if_neg List.not_mem_nil, if_neg hv, getCoupled1FromPair02_eq hq hkn invert hi' hz hn,
      getCoupled0FromPair13_eq hq hkn invert hi' hz hn,
      getCoupled10FromUncoupled_eq hq hkn invert hi' hz hn]
    by_cases hh : i ∈ helper
    · rw [if_pos hh, if_pos hh]
      by_cases hlt : c.zVec z (i / c.q) < i % c.q
      · rw [if_pos hlt, if_pos hlt]
      · rw [if_neg hlt, if_neg hlt, if_pos (by omega)]
    · rw [if_neg hh, if_neg hh]
      rfl

end

/-! ## The planes that name a node -/

section
variable {f : Nat} (hf : f < c.n + c.nu)
include hf

/-- **The intervals** hold the planes that name the lost node. -/
theorem mem_repairPlanes {z : Nat} :
    z ∈ repairPlanes (c.getRepairSubchunks f) ↔ z < c.w ∧ c.Named f z := by
  rw [← grid hq hkn] at hf
  rw [getRepairSubchunks_eq, w_eq]
  unfold repairPlanes Named
  rw [List.mem_flatMap, mem_repairSubchunks hf]
  rfl

omit hkn hf in
theorem nodup_repairPlanes : (repairPlanes (c.getRepairSubchunks f)).Nodup := by
  rw [getRepairSubchunks_eq]
  exact nodup_planes hq

theorem length_repairPlanes : (repairPlanes (c.getRepairSubchunks f)).length * c.q = c.w := by
  have ht : 0 < c.t := Nat.lt_of_le_of_lt (Nat.zero_le _) (div_lt hq hkn hf)
  rw [← grid hq hkn] at hf
  rw [getRepairSubchunks_eq, length_planes hf, w_eq, ← Nat.pow_succ, Nat.succ_eq_add_one,
    Nat.sub_add_cancel ht]

end

end

end Clay

end StripeRepair

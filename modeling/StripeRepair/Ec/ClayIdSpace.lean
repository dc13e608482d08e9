import StripeRepair.Ec.ClayRepair
import StripeRepair.Ec.ClayLayered

/-!
# `Clay`: the ids in its DAGs

Whatever is decoded, the DAG has coupled and uncoupled packets of the grid only. An uncoupled
packet without a partner is the coupled one.

* `isId_encode`, `isId_decode`: what is in a DAG.
* `exists_mem_of_isId`: all of it is in the DAG of `Encode` or in one of `Decode`.
* `reservedFree_iff`: when none of it is the id of a concatenation.
-/

namespace StripeRepair

namespace Clay

/-- A coupled or an uncoupled packet of the grid. -/
def IsId (c : Clay) (v : Nat) : Prop :=
  ∃ i < c.n + c.nu, ∃ z < c.w, v = c.coupledId i z ∨ v = c.uncoupledId i z

def JoinIds (c : Clay) (j : Join) : Prop := c.IsId j.pidx ∧ ∀ v ∈ j.cidx, c.IsId v

/-! ## The ids of a pair and of a plane -/

section
variable {c : Clay} (hq : 0 < c.q) (hkn : c.k ≤ c.n) {i z : Nat}

theorem isId_coupled (hi : i < c.n + c.nu) (hz : z < c.w) : c.IsId (c.coupledId i z) :=
  ⟨i, hi, z, hz, Or.inl rfl⟩

theorem isId_uncoupled (hi : i < c.n + c.nu) (hz : z < c.w) : c.IsId (c.uncoupledId i z) :=
  ⟨i, hi, z, hz, Or.inr rfl⟩

theorem joinIds_pairJoin {idx0 idx1 : Nat}
    (h : ∀ e < 4, c.IsId (c.getRealFromShort (c.idxs idx0 idx1 e))) (a b target : Nat)
    (coef : List Int) : c.JoinIds (c.pairJoin (c.idxs idx0 idx1) a b target coef) := by
  have hid : ∀ e, c.IsId (c.getRealFromShort (c.idxs idx0 idx1 e)) := by
    intro e
    by_cases he : e < 4
    · exact h e he
    · obtain ⟨e, rfl⟩ : ∃ e', e = e' + 4 := ⟨e - 4, by omega⟩
      exact h 3 (by omega)
  refine ⟨hid target, fun v hv => ?_⟩
  rcases List.mem_pair.1 hv with rfl | rfl
  · exact hid a
  · exact hid b

include hq hkn

theorem joinIds_upper (hi : i < c.n + c.nu) (hz : z < c.w) (h : ¬ c.Named i z) (a b target : Nat)
    (coef : List Int) :
    c.JoinIds (c.pairJoin (c.idxsUpper (i % c.q) (i / c.q) z) a b target coef) := by
  obtain ⟨h0, h1, h2, h3⟩ := real_idxsUpper hq hkn hi hz h
  have hmate := mate_lt hq hkn hi (z := z)
  have hplane := matePlane_lt hq hkn hi hz
  refine joinIds_pairJoin (fun e he => ?_) a b target coef
  match e with
  | 0 => exact h0 ▸ isId_coupled hi hz
  | 1 => exact h1 ▸ isId_coupled hmate hplane
  | 2 => exact h2 ▸ isId_uncoupled hi hz
  | 3 => exact h3 ▸ isId_uncoupled hmate hplane

theorem joinIds_lower (hi : i < c.n + c.nu) (hz : z < c.w) (h : ¬ c.Named i z) (a b target : Nat)
    (coef : List Int) :
    c.JoinIds (c.pairJoin (c.idxsLower (i % c.q) (i / c.q) z) a b target coef) := by
  obtain ⟨h0, h1, h2, h3⟩ := real_idxsLower hq hkn hi hz h
  have hmate := mate_lt hq hkn hi (z := z)
  have hplane := matePlane_lt hq hkn hi hz
  refine joinIds_pairJoin (fun e he => ?_) a b target coef
  match e with
  | 0 => exact h0 ▸ isId_coupled hmate hplane
  | 1 => exact h1 ▸ isId_coupled hi hz
  | 2 => exact h2 ▸ isId_uncoupled hmate hplane
  | 3 => exact h3 ▸ isId_uncoupled hi hz

omit hq in
theorem joinIds_uncoupledJoin (invert : InvertMatrix8) (erased : List Nat) (hi : i < c.n + c.nu)
    (hz : z < c.w) : c.JoinIds (c.uncoupledJoin invert erased z i) := by
  refine ⟨isId_uncoupled hi hz, fun v hv => ?_⟩
  obtain ⟨l, hl, rfl⟩ := List.mem_map.1 hv
  have hl := List.mem_range.1 (List.mem_of_mem_filter (List.mem_of_mem_take hl))
  refine isId_uncoupled ?_ hz
  unfold mdsK mdsM m at hl
  omega

theorem joinIds_erasureJoins {invert : InvertMatrix8} {erased : List Nat} (hi : i < c.n + c.nu)
    (hz : z < c.w) {j : Join} (hj : j ∈ c.erasureJoins invert erased i z) : c.JoinIds j := by
  have hmate := mate_lt hq hkn hi (z := z)
  have hplane := matePlane_lt hq hkn hi hz
  refine ⟨?_, fun v hv => ?_⟩
  · unfold erasureJoins at hj
    split at hj
    · exact absurd hj List.not_mem_nil
    · split at hj
      · split at hj
        · rcases List.mem_pair.1 hj with rfl | rfl
          · exact isId_uncoupled hi hz
          · exact isId_uncoupled hmate hplane
        · obtain rfl := List.mem_singleton.1 hj
          exact isId_uncoupled hi hz
      · split at hj
        · obtain rfl := List.mem_singleton.1 hj
          exact isId_uncoupled hi hz
        · exact absurd hj List.not_mem_nil
  · rcases (of_mem_erasureJoins hj).2 v hv with rfl | rfl | rfl
    · exact isId_coupled hi hz
    · exact isId_coupled hmate hplane
    · exact isId_uncoupled hmate hplane

theorem joinIds_decodeErasures {invert : InvertMatrix8} {erased : List Nat}
    (hlt : ∀ i ∈ erased, i < c.n + c.nu) (hz : z < c.w) {j : Join}
    (hj : j ∈ c.decodeErasures invert erased z) : c.JoinIds j := by
  rcases (mem_decodeErasures hq hkn hz).1 hj with ⟨i, hi, hj⟩ | ⟨i, hi, rfl⟩
  · exact joinIds_erasureJoins hq hkn hi hz hj
  · exact joinIds_uncoupledJoin hkn invert erased (hlt i hi) hz

/-- All planes, when what follows for an erased node has such ids. -/
theorem joinIds_planesInOrder {invert : InvertMatrix8} {erased : List Nat}
    (hlt : ∀ i ∈ erased, i < c.n + c.nu) {coupled : Nat → Nat → Nat → List Join}
    (h : ∀ i ∈ erased, ∀ z < c.w, ∀ j ∈ coupled (i % c.q) (i / c.q) z, c.JoinIds j) {j : Join}
    (hj : j ∈ c.planesInOrder invert erased coupled) : c.JoinIds j := by
  obtain ⟨s, -, hj⟩ := List.mem_flatMap.1 hj
  rcases List.mem_append.1 hj with hj | hj
  · obtain ⟨z, hz, hj⟩ := List.mem_flatMap.1 hj
    exact joinIds_decodeErasures hq hkn hlt (List.mem_range.1 (List.mem_of_mem_filter hz)) hj
  · obtain ⟨z, hz, hj⟩ := List.mem_flatMap.1 hj
    obtain ⟨i, hi, hj⟩ := List.mem_flatMap.1 hj
    exact h i hi z (List.mem_range.1 (List.mem_of_mem_filter hz)) j hj

theorem joinIds_encode {invert : InvertMatrix8} {j : Join} (hj : j ∈ c.encodeJoins invert) :
    c.JoinIds j := by
  have hlt : ∀ i ∈ List.range' (c.k + c.nu) (c.n - c.k), i < c.n + c.nu := by
    intro i hi
    rw [List.mem_range'_1] at hi
    omega
  refine joinIds_planesInOrder hq hkn hlt (fun i hi z hz j hj => ?_) hj
  split at hj
  · cases hj
  · next hn =>
    split at hj
    · rcases List.mem_pair.1 hj with rfl | rfl
      · exact joinIds_upper hq hkn (hlt i hi) hz hn ..
      · exact joinIds_upper hq hkn (hlt i hi) hz hn ..
    · cases hj

theorem joinIds_decodeLayered {invert : InvertMatrix8} {erased : List Nat}
    (hlt : ∀ i ∈ erased, i < c.n + c.nu) {j : Join} (hj : j ∈ c.decodeLayered invert erased) :
    c.JoinIds j := by
  refine joinIds_planesInOrder hq hkn hlt (fun i hi z hz j hj => ?_) hj
  split at hj
  · cases hj
  · next hn =>
    split at hj
    · split at hj
      · obtain rfl := List.mem_singleton.1 hj
        exact joinIds_upper hq hkn (hlt i hi) hz hn ..
      · obtain rfl := List.mem_singleton.1 hj
        exact joinIds_lower hq hkn (hlt i hi) hz hn ..
    · split at hj
      · rcases List.mem_pair.1 hj with rfl | rfl
        · exact joinIds_upper hq hkn (hlt i hi) hz hn ..
        · exact joinIds_upper hq hkn (hlt i hi) hz hn ..
      · cases hj

/-! ## One lost node -/

section
variable {invert : InvertMatrix8} {recovered aloof : List Nat} (hpos : recovered ≠ [])
  (hrec : ∀ i ∈ recovered, i < c.n + c.nu) (haloof : ∀ i ∈ aloof, i < c.n + c.nu)

include hpos hrec haloof in
theorem repairErasures_lt {i : Nat} (hi : i ∈ c.repairErasures recovered aloof) :
    i < c.n + c.nu := by
  rcases List.mem_append.1 hi with hi | hi
  · have hlost := hrec _ (lostChunk_mem hpos)
    obtain ⟨x, hx, rfl⟩ := List.mem_map.1 hi
    rw [← Nat.div_mul_self_eq_mod_sub_self]
    exact node_lt hq hkn (List.mem_range.1 hx) (div_lt hq hkn hlost)
  · exact haloof i hi

/-- The helpers have uncoupled packets of pairs joined. -/
theorem of_mem_helperUncoupled {j : Join} (hj : j ∈ c.helperUncoupled invert recovered aloof z) :
    ∃ i < c.n + c.nu, ¬ c.Named i z ∧ ∃ a b coef,
      j = c.pairJoin (c.idxsUpper (i % c.q) (i / c.q) z) a b 2 coef ∨
        j = c.pairJoin (c.idxsLower (i % c.q) (i / c.q) z) a b 3 coef := by
  obtain ⟨y, hy, hj⟩ := List.mem_flatMap.1 hj
  obtain ⟨x, hx, hj⟩ := List.mem_flatMap.1 hj
  have hy := List.mem_range.1 hy
  have hx := List.mem_range.1 hx
  obtain ⟨h1, h2⟩ := node_xy hq y hx
  have hnamed := named_node hq y z hx
  refine ⟨y * c.q + x, node_lt hq hkn hx hy, ?_⟩
  rw [h1, h2]
  dsimp only at hj
  split at hj
  · cases hj
  · next herased =>
    split at hj
    · next hsw =>
      -- the partner is aloof, so it is not the node itself
      have hn : ¬ c.Named (y * c.q + x) z := by
        rw [hnamed]
        rintro rfl
        exact herased (List.mem_append_right _ hsw)
      split at hj
      · exact ⟨hn, _, _, _, Or.inr (List.mem_singleton.1 hj)⟩
      · exact ⟨hn, _, _, _, Or.inl (List.mem_singleton.1 hj)⟩
    · split at hj
      · cases hj
      · next hv =>
        have hn : ¬ c.Named (y * c.q + x) z := fun h => hv (hnamed.1 h)
        split at hj
        · exact ⟨hn, _, _, _, Or.inl (List.mem_singleton.1 hj)⟩
        · exact ⟨hn, _, _, _, Or.inr (List.mem_singleton.1 hj)⟩

omit hq hkn in
/-- The coupled packets that are joined are of pairs of a node that is not aloof. -/
theorem of_mem_recoverCoupled {helper : List Nat} {j : Join}
    (hj : j ∈ c.recoverCoupled invert recovered aloof helper z) :
    ∃ i ∈ c.repairErasures recovered aloof, i ∉ aloof ∧ ¬ c.Named i z ∧ ∃ a b coef,
      j = c.pairJoin (c.idxsUpper (i % c.q) (i / c.q) z) a b 1 coef ∨
        j = c.pairJoin (c.idxsLower (i % c.q) (i / c.q) z) a b 0 coef ∨
        j = c.pairJoin (c.idxsLower (i % c.q) (i / c.q) z) a b 1 coef := by
  obtain ⟨i, hi, hj⟩ := List.mem_flatMap.1 hj
  refine ⟨i, hi, ?_⟩
  dsimp only at hj
  split at hj
  · cases hj
  · next hin =>
    split at hj
    · cases hj
    · next hv =>
      refine ⟨hin, fun h => hv h.symm, ?_⟩
      split at hj
      · split at hj
        · exact ⟨_, _, _, Or.inl (List.mem_singleton.1 hj)⟩
        · split at hj
          · exact ⟨_, _, _, Or.inr (Or.inl (List.mem_singleton.1 hj))⟩
          · cases hj
      · split at hj
        · rcases List.mem_pair.1 hj with hj | hj
          · exact ⟨_, _, _, Or.inr (Or.inl hj)⟩
          · exact ⟨_, _, _, Or.inr (Or.inr hj)⟩
        · cases hj

theorem joinIds_helperUncoupled (hz : z < c.w) {j : Join}
    (hj : j ∈ c.helperUncoupled invert recovered aloof z) : c.JoinIds j := by
  obtain ⟨i, hi, hn, a, b, coef, rfl | rfl⟩ := of_mem_helperUncoupled hq hkn hj
  · exact joinIds_upper hq hkn hi hz hn ..
  · exact joinIds_lower hq hkn hi hz hn ..

include hpos hrec haloof in
theorem joinIds_recoverCoupled {helper : List Nat} (hz : z < c.w) {j : Join}
    (hj : j ∈ c.recoverCoupled invert recovered aloof helper z) : c.JoinIds j := by
  obtain ⟨i, hi, -, hn, a, b, coef, hj⟩ := of_mem_recoverCoupled hj
  have hi := repairErasures_lt hq hkn hpos hrec haloof hi
  rcases hj with rfl | rfl | rfl
  · exact joinIds_upper hq hkn hi hz hn ..
  · exact joinIds_lower hq hkn hi hz hn ..
  · exact joinIds_lower hq hkn hi hz hn ..

include hrec haloof in
theorem joinIds_repairOneLostChunk {helper : List Nat} {js : List Join}
    (hjs : c.repairOneLostChunk invert recovered aloof helper
      (recovered.flatMap c.getRepairSubchunks) = some js) {j : Join} (hj : j ∈ js) :
    c.JoinIds j := by
  unfold repairOneLostChunk at hjs
  split at hjs
  · obtain rfl := Option.some.inj hjs
    obtain ⟨s, -, hj⟩ := List.mem_flatMap.1 hj
    obtain ⟨z, hz, hj⟩ := List.mem_flatMap.1 hj
    obtain ⟨f, hf, hz⟩ : ∃ f ∈ recovered, z ∈ repairPlanes (c.getRepairSubchunks f) := by
      rw [← List.mem_flatMap, ← lostPlanes_eq]
      exact List.mem_of_mem_filter hz
    have hpos := List.ne_nil_of_mem hf
    have hz := ((mem_repairPlanes hq hkn (hrec f hf)).1 hz).1
    rcases List.mem_append.1 hj with hj | hj
    · rcases List.mem_append.1 hj with hj | hj
      · exact joinIds_helperUncoupled hq hkn hz hj
      · rw [decodeUncoupled_eq] at hj
        obtain ⟨i, hi, rfl⟩ := List.mem_map.1 hj
        exact joinIds_uncoupledJoin hkn invert _ (repairErasures_lt hq hkn hpos hrec haloof hi) hz
    · exact joinIds_recoverCoupled hq hkn hpos hrec haloof hz hj
  · cases hjs

end

/-! ## Encode and Decode -/

omit hq in
theorem shortNodes_lt {P : Nat → Bool} {i : Nat}
    (hi : i ∈ ((List.range (c.k + c.m)).filter P).map c.shortNode) : i < c.n + c.nu := by
  obtain ⟨a, ha, rfl⟩ := List.mem_map.1 hi
  have ha := List.mem_range.1 (List.mem_of_mem_filter ha)
  refine shortNode_lt ?_
  unfold m at ha
  omega

theorem joinIds_decode {invert : InvertMatrix8} {dst : List Nat} {js : List Join}
    (hjs : c.decodeJoins invert dst = some js) {j : Join} (hj : j ∈ js) : c.JoinIds j := by
  unfold decodeJoins at hjs
  dsimp only at hjs
  split at hjs
  · next hrepair =>
    unfold repairJoins at hjs
    dsimp only at hjs
    split at hjs
    · exact joinIds_repairOneLostChunk hq hkn (fun i hi => shortNodes_lt hkn hi)
        (fun i hi => shortNodes_lt hkn hi) hjs hj
    · cases hjs
  · unfold rsDecode at hjs
    dsimp only at hjs
    split at hjs
    · obtain rfl := Option.some.inj hjs
      cases hj
    · split at hjs
      · obtain rfl := Option.some.inj hjs
        exact joinIds_decodeLayered hq hkn (fun i hi => shortNodes_lt hkn hi) hj
      · cases hjs

omit hq hkn in
theorem isId_build {js : List Join} (h : ∀ j ∈ js, c.JoinIds j) {v : Nat}
    (hv : v ∈ (ECDAG.build js).nodeIds) : c.IsId v := by
  obtain ⟨j, hj, rfl | hv⟩ := (ECDAG.mem_nodeIds_build _ v).1 hv
  · exact (h j hj).1
  · exact (h j hj).2 v hv

/-- **What is in the DAG of `Encode`** -/
theorem isId_encode {invert : InvertMatrix8} {v : Nat} (hv : v ∈ (c.encode invert).nodeIds) :
    c.IsId v :=
  isId_build (fun _ hj => joinIds_encode hq hkn hj) hv

/-- **What is in a DAG of `Decode`** -/
theorem isId_decode {invert : InvertMatrix8} {src dst : List Nat} {d : ECDAG}
    (hd : c.decode invert src dst = some d) {v : Nat} (hv : v ∈ d.nodeIds) : c.IsId v := by
  obtain ⟨js, hjs, rfl⟩ := Option.map_eq_some_iff.1 hd
  exact isId_build (fun _ hj => joinIds_decode hq hkn hjs hj) hv

end

/-! ## All ids are used -/

section
variable {c : Clay} {i z : Nat}

/-- The nodes that `Encode` has as erased: the parities. -/
def parities (c : Clay) : List Nat := List.range' (c.k + c.nu) (c.n - c.k)

theorem nodup_parities (c : Clay) : c.parities.Nodup := List.nodup_range'

theorem length_parities (c : Clay) : c.parities.length = c.m := List.length_range'

variable (hkn : c.k ≤ c.n)
include hkn

theorem mem_parities : i ∈ c.parities ↔ c.k + c.nu ≤ i ∧ i < c.n + c.nu := by
  rw [parities, List.mem_range'_1]
  omega

theorem parities_lt (i : Nat) (hi : i ∈ c.parities) : i < c.n + c.nu := ((mem_parities hkn).1 hi).2

variable (hq : 0 < c.q) (invert : InvertMatrix8) (coupled : Nat → Nat → Nat → List Join)
include hq

theorem mem_planesInOrder (hz : z < c.w) {j : Join}
    (hj : j ∈ c.decodeErasures invert c.parities z) :
    j ∈ c.planesInOrder invert c.parities coupled := by
  have horder := order_le_hammingWeight hq hkn c.nodup_parities c.length_parities
    (parities_lt hkn) z
  refine List.mem_flatMap.2 ⟨_, List.mem_range.2 (Nat.lt_succ_of_le horder), ?_⟩
  refine List.mem_append_left _ (List.mem_flatMap.2 ⟨z, ?_, hj⟩)
  exact List.mem_filter.2 ⟨List.mem_range.2 hz, decide_eq_true rfl⟩

/-- The packets of a plane are what its code reads and what it gives. -/
theorem uncoupled_mem_planes (hk : c.k < c.n) (hi : i < c.n + c.nu) (hz : z < c.w) :
    c.uncoupledId i z ∈ (ECDAG.build (c.planesInOrder invert c.parities coupled)).nodeIds := by
  have hjoin : ∀ e ∈ c.parities, c.uncoupledJoin invert c.parities z e ∈
      c.planesInOrder invert c.parities coupled := fun e he =>
    mem_planesInOrder hkn hq invert coupled hz
      ((mem_decodeErasures hq hkn hz).2 (Or.inr ⟨e, he, rfl⟩))
  refine (ECDAG.mem_nodeIds_build _ _).2 ?_
  by_cases hin : i ∈ c.parities
  · exact ⟨_, hjoin i hin, Or.inl rfl⟩
  · have hfirst : c.k + c.nu ∈ c.parities := (mem_parities hkn).2 ⟨Nat.le_refl _, by omega⟩
    refine ⟨_, hjoin _ hfirst, Or.inr (List.mem_map_of_mem ?_)⟩
    rw [selectLines_eq hkn c.nodup_parities c.length_parities (parities_lt hkn)]
    exact List.mem_filter.2 ⟨List.mem_range.2 hi, decide_eq_true hin⟩

omit invert in
/-- The coupled packet of a node that is not erased is read in its plane, or in the plane of the
partner. -/
theorem exists_reads_coupled (invert : InvertMatrix8) {erased : List Nat} (hi : i < c.n + c.nu)
    (hz : z < c.w) (hin : i ∉ erased) (hn : ¬ c.Named i z) :
    ∃ z' < c.w, ∃ j ∈ c.decodeErasures invert erased z', c.coupledId i z ∈ j.cidx := by
  -- a pair of which no node is erased, with the larger one first
  have hpair : ∀ {i z : Nat}, i < c.n + c.nu → z < c.w → i ∉ erased → c.mate i z ∉ erased →
      c.zVec z (i / c.q) < i % c.q → ∃ j ∈ c.decodeErasures invert erased z,
      j.cidx = [c.coupledId i z, c.coupledId (c.mate i z) (c.matePlane i z)] := by
    intro i z hi hz hin hm hup
    refine ⟨⟨c.uncoupledId i z, _, coefUncoupled 2⟩,
      (mem_decodeErasures hq hkn hz).2 (Or.inl ⟨i, hi, ?_⟩), rfl⟩
    unfold erasureJoins
    have hn : ¬ c.Named i z := fun h => hup.ne h
    rw [if_neg (not_or.2 ⟨hin, hn⟩), if_pos hup, if_pos hm]
    exact List.mem_cons_self
  have hmixed : c.mate i z ∈ erased → ∃ j ∈ c.erasureJoins invert erased i z,
      c.coupledId i z ∈ j.cidx := by
    intro hm
    unfold erasureJoins
    rw [if_neg (not_or.2 ⟨hin, hn⟩), if_neg (not_not.2 hm), if_pos hm]
    split
    · exact ⟨_, List.mem_cons_self, List.mem_cons_self⟩
    · exact ⟨_, List.mem_cons_self, List.mem_cons_self⟩
  by_cases hm : c.mate i z ∈ erased
  · obtain ⟨j, hj, hv⟩ := hmixed hm
    exact ⟨z, hz, j, (mem_decodeErasures hq hkn hz).2 (Or.inl ⟨i, hi, hj⟩), hv⟩
  · rcases Nat.lt_trichotomy (c.zVec z (i / c.q)) (i % c.q) with hlt | heq | hgt
    · obtain ⟨j, hj, hcidx⟩ := hpair hi hz hin hm hlt
      exact ⟨z, hz, j, hj, hcidx ▸ List.mem_cons_self⟩
    · exact absurd heq hn
    · obtain ⟨hmm, hpp⟩ := mate_mate hq hkn hi (z := z)
      obtain ⟨j, hj, hcidx⟩ := hpair (mate_lt hq hkn hi (z := z)) (matePlane_lt hq hkn hi hz) hm
        (by rwa [hmm]) (by
          rw [mate_div hq hkn hi, mate_mod hq hkn hi, zVec_matePlane hq hkn hi]
          exact hgt)
      rw [hmm, hpp] at hcidx
      exact ⟨_, matePlane_lt hq hkn hi hz, j, hj,
        hcidx ▸ List.mem_cons_of_mem _ List.mem_cons_self⟩

end

/-! ### All parities are lost -/

section
variable {c : Clay} (hk : c.k < c.n)
include hk

theorem range_split : List.range c.n = List.range c.k ++ List.range' c.k (c.n - c.k) := by
  rw [List.range'_eq_map_range, ← List.range_add]
  congr 1
  omega

theorem mem_range'_parities {i : Nat} : i ∈ List.range' c.k (c.n - c.k) ↔ c.k ≤ i ∧ i < c.n := by
  rw [List.mem_range'_1]
  omega

theorem losses_parities :
    losses c.n (Finset.Ico c.k c.n) = List.range' c.k (c.n - c.k) := by
  have hdata : (List.range c.k).filter (· ∈ Finset.Ico c.k c.n) = [] := by
    refine List.filter_eq_nil_iff.2 fun i hi h => ?_
    have hi := List.mem_range.1 hi
    have h := (Finset.mem_Ico.1 (of_decide_eq_true h)).1
    omega
  rw [losses, range_split hk, List.filter_append, hdata, List.nil_append]
  exact List.filter_eq_self.2 fun i hi =>
    decide_eq_true (Finset.mem_Ico.2 ((mem_range'_parities hk).1 hi))

/-- They are too many for a repair from parts. -/
theorem isRepair_parities (hq : 1 < c.q) (hd : c.d < c.n) (avail : List Nat) :
    c.isRepair (List.range' c.k (c.n - c.k)) avail = false := by
  have hqd : c.q = c.d + 1 - c.k := rfl
  have hm := k_add_m hk.le
  obtain ⟨l, hl⟩ : ∃ l, c.n - c.k = l + 2 := ⟨c.n - c.k - 2, by omega⟩
  rw [hl, List.range'_succ, List.range'_succ]
  simp only [isRepair, List.length_cons, List.length_range', hm]
  split
  · refine decide_eq_false fun h => ?_
    have h := h.1
    omega
  · refine decide_eq_false fun h => ?_
    have h := h.1
    omega

/-- The first `k` available nodes are the data. -/
theorem unusedNodes_parities : c.unusedNodes (List.range' c.k (c.n - c.k)) = c.parities := by
  have hlt : ∀ i ∈ List.range' c.k (c.n - c.k), i < c.n := fun i hi =>
    ((mem_range'_parities hk).1 hi).2
  have hlen : (List.range' c.k (c.n - c.k)).length ≤ c.n - c.k := List.length_range'.le
  have hdisjoint : ∀ i ∈ List.range c.k, i ∉ List.range' c.k (c.n - c.k) := by
    intro i hi h
    have hi := List.mem_range.1 hi
    have h := ((mem_range'_parities hk).1 h).1
    omega
  have hthere : (List.range c.n).filter (· ∉ List.range' c.k (c.n - c.k)) = List.range c.k := by
    rw [range_split hk, List.filter_append, List.filter_eq_self.2, List.filter_eq_nil_iff.2,
      List.append_nil]
    · exact fun i hi h => absurd hi (of_decide_eq_true h)
    · exact fun i hi => decide_eq_true (hdisjoint i hi)
  have hunused : (List.range c.n).filter (· ∉ List.range c.k) = List.range' c.k (c.n - c.k) := by
    rw [range_split hk, List.filter_append, List.filter_eq_nil_iff.2, List.filter_eq_self.2,
      List.nil_append]
    · exact fun i hi => decide_eq_true fun h => hdisjoint i h hi
    · exact fun i hi h => absurd hi (of_decide_eq_true h)
  rw [unusedNodes, take_availNodes hk.le List.nodup_range' hlt hlen, hthere,
    List.take_of_length_le List.length_range.le, hunused, parities, List.range'_eq_map_range,
    List.range'_eq_map_range, List.map_map]
  refine List.map_congr_left fun i _ => ?_
  show c.shortNode (c.k + i) = c.k + c.nu + i
  rw [shortNode, if_neg (by omega)]
  omega

/-- So they are decoded by layers. -/
theorem decodeJoins_parities (hq : 1 < c.q) (hd : c.d < c.n) (invert : InvertMatrix8) :
    c.decodeJoins invert (packets c.w (losses c.n (Finset.Ico c.k c.n))) =
      some (c.decodeLayered invert c.parities) := by
  have hlt : ∀ i ∈ List.range' c.k (c.n - c.k), i < c.n := fun i hi =>
    ((mem_range'_parities hk).1 hi).2
  have hne := List.ne_nil_of_mem ((mem_range'_parities hk).2 ⟨Nat.le_refl _, hk⟩)
  rw [losses_parities hk, decodeJoins_layered hk.le List.nodup_range' hlt List.length_range'.le
    (by omega) invert hne, unusedNodes_parities hk]
  rw [isRepair_parities hk hq hd]
  exact Bool.false_ne_true

/-- Every uncoupled packet is in the DAG that repairs them. -/
theorem uncoupled_mem_decode (hq : 1 < c.q) (hd : c.d < c.n) (invert : InvertMatrix8)
    (src : List Nat) {i z : Nat} (hi : i < c.n + c.nu) (hz : z < c.w) :
    ∃ d, c.decode invert src (packets c.w (losses c.n (Finset.Ico c.k c.n))) = some d ∧
      c.uncoupledId i z ∈ d.nodeIds :=
  ⟨_, Option.map_eq_some_iff.2 ⟨_, decodeJoins_parities hk hq hd invert, rfl⟩,
    uncoupled_mem_planes hk.le (Nat.lt_trans Nat.one_pos hq) invert _ hk hi hz⟩

end

/-- **All of them are used** by `Encode` or when all parities are lost. -/
theorem exists_mem_of_isId {c : Clay} (hq : 0 < c.q) (hk : c.k < c.n) (hd : c.d < c.n)
    (invert : InvertMatrix8) (src : List Nat) {v : Nat} (hv : c.IsId v) :
    v ∈ (c.encode invert).nodeIds ∨ ∃ d,
      c.decode invert src (packets c.w (losses c.n (Finset.Ico c.k c.n))) = some d ∧
        v ∈ d.nodeIds := by
  have hkn := hk.le
  have huncoupled : ∀ {i z : Nat}, i < c.n + c.nu → z < c.w →
      c.uncoupledId i z ∈ (c.encode invert).nodeIds := fun hi hz =>
    uncoupled_mem_planes hkn hq invert _ hk hi hz
  obtain ⟨i, hi, z, hz, rfl | rfl⟩ := hv
  · by_cases hn : c.Named i z
    · rw [← uncoupledId_of_named hq hkn hi hz hn]
      exact Or.inl (huncoupled hi hz)
    · by_cases hin : i ∈ c.parities
      · -- some node is not named
        have hq2 : 1 < c.q := by
          by_contra hle
          have hone : c.q = 1 := by omega
          have hdigit := zVec_lt (div_lt hq hkn hi) hq z
          have hx := Nat.mod_lt i hq
          refine hn (show c.zVec z (i / c.q) = i % c.q from ?_)
          omega
        obtain ⟨j, hj, hp⟩ := List.mem_map.1 (pidx_decodeLayered hq hkn invert
          c.nodup_parities c.length_parities (parities_lt hkn) hin hz)
        refine Or.inr ⟨_, Option.map_eq_some_iff.2 ⟨_, decodeJoins_parities hk hq2 hd invert, rfl⟩,
          (ECDAG.mem_nodeIds_build _ _).2 ⟨j, hj, Or.inl hp.symm⟩⟩
      · obtain ⟨z', hz', j, hj, hv⟩ := exists_reads_coupled hkn hq invert hi hz hin hn
        exact Or.inl ((ECDAG.mem_nodeIds_build _ _).2
          ⟨j, mem_planesInOrder hkn hq invert _ hz' hj, Or.inr hv⟩)
  · exact Or.inl (huncoupled hi hz)

/-! ## The ids as numbers -/

section
variable {c : Clay} (hq : 0 < c.q) (hkn : c.k ≤ c.n)
include hq hkn

/-- All numbers of coupled packets, and those of the uncoupled packets with a partner. -/
theorem isId_iff {v : Nat} : c.IsId v ↔ v < (c.n + c.nu) * c.w ∨
    ∃ i < c.n + c.nu, ∃ z < c.w, ¬ c.Named i z ∧ v = c.uncoupled (c.realNode i * c.w + z) := by
  constructor
  · rintro ⟨i, hi, z, hz, rfl | rfl⟩
    · exact Or.inl (coupledId_lt hq hkn hi hz)
    · by_cases hn : c.Named i z
      · rw [uncoupledId_of_named hq hkn hi hz hn]
        exact Or.inl (coupledId_lt hq hkn hi hz)
      · exact Or.inr ⟨i, hi, z, hz, hn, uncoupledId_of_not_named hq hkn hi hz hn⟩
  · rintro (hv | ⟨i, hi, z, hz, hn, rfl⟩)
    · have hz := Nat.mod_lt v (w_pos hq)
      obtain ⟨i, hi, hreal⟩ := exists_realNode hkn
        (Nat.div_lt_of_lt_mul (Nat.mul_comm _ c.w ▸ hv) : v / c.w < c.n + c.nu)
      have hid := coupledId_eq hq hkn hi hz
      rw [hreal, Nat.div_add_mod'] at hid
      exact hid ▸ isId_coupled hi hz
    · rw [← uncoupledId_of_not_named hq hkn hi hz hn]
      exact isId_uncoupled hi hz

/-- What the ids have to leave free for the concatenations of the `n` blocks: nothing coupled is
that large, and an uncoupled packet with a reserved number is a coupled one. -/
def ReservedFree (c : Clay) : Prop :=
  (c.n + c.nu) * c.w + c.n ≤ REQUESTOR + 1 ∧
    ∀ b < c.n, ∀ i < c.n + c.nu, ∀ z < c.w,
      c.uncoupled (c.realNode i * c.w + z) = REQUESTOR - b → c.Named i z

instance (c : Clay) : Decidable c.ReservedFree := by
  unfold ReservedFree
  infer_instance

theorem reservedFree_iff (hk : c.k < c.n) :
    (∀ v, c.IsId v → ∀ b < c.n, v ≠ REQUESTOR - b) ↔ c.ReservedFree := by
  have hpos : 0 < (c.n + c.nu) * c.w := Nat.mul_pos (by omega) (w_pos hq)
  constructor
  · intro h
    refine ⟨?_, fun b hb i hi z hz he => ?_⟩
    · by_contra hlt
      refine h (REQUESTOR - (c.n - 1)) ((isId_iff hq hkn).2 (Or.inl ?_)) (c.n - 1) (by omega) rfl
      omega
    · by_contra hn
      exact h _ ((isId_iff hq hkn).2 (Or.inr ⟨i, hi, z, hz, hn, rfl⟩)) b hb he
  · rintro ⟨hfree, hnamed⟩ v hv b hb rfl
    rcases (isId_iff hq hkn).1 hv with hlt | ⟨i, hi, z, hz, hn, he⟩
    · omega
    · exact hn (hnamed b hb i hi z hz he.symm)

end

end Clay

end StripeRepair

import StripeRepair.Ec.ClayJoins
import StripeRepair.Ec.Representation

/-!
# `Clay`: lost nodes of one column

`repair_one_lost_chunk`, when all other nodes are helpers: each plane that names a lost node
gives the uncoupled packets of the column, and from them the packets of the lost nodes.

* `mem_lostPlanes`: the planes that are used.
* `repairOneLostChunk_eq`: the assertions hold, and the `Join`s go plane by plane.
* `joinsOrdered_planes`: no packet is read before it is defined.
* `mem_ecLeaves_planes`: of a helper, the packets of these planes are read.
-/

namespace StripeRepair

namespace Clay

/-- Lost nodes of one column. -/
structure OneColumn (c : Clay) (F : List Nat) (y : Nat) : Prop where
  ne_nil : F ≠ []
  nodup : F.Nodup
  lt : ∀ f ∈ F, f < c.n + c.nu
  column : ∀ f ∈ F, f / c.q = y

/-- The planes that name a lost node. -/
def lostPlanes (c : Clay) (F : List Nat) : List Nat :=
  repairPlanes (F.flatMap c.getRepairSubchunks)

/-- What one plane gives. -/
def planeJoins (c : Clay) (invert : InvertMatrix8) (y : Nat) (helper : List Nat) (z : Nat) :
    List Join :=
  ((List.range c.t).flatMap fun y' => (List.range c.q).flatMap fun x =>
    c.helperJoins y (y' * c.q + x) z) ++
  (c.column y).map (c.uncoupledJoin invert (c.column y) z) ++
  (c.column y).flatMap fun i => c.recoverJoins invert helper i z

theorem lostChunk_mem {F : List Nat} (h : F ≠ []) : lostChunk F ∈ F := by
  unfold lostChunk
  rw [List.getLastD_eq_getLast?, List.getLast?_eq_some_getLast h, Option.getD_some]
  exact List.getLast_mem h

theorem lostPlanes_eq (c : Clay) (F : List Nat) :
    c.lostPlanes F = F.flatMap fun f => repairPlanes (c.getRepairSubchunks f) := by
  unfold lostPlanes repairPlanes
  rw [List.flatMap_assoc]

section
variable {c : Clay} (hq : 0 < c.q) (hkn : c.k ≤ c.n) {F : List Nat} {y : Nat}
  (hF : c.OneColumn F y)
include hF

theorem OneColumn.lostChunk_mem : lostChunk F ∈ F := Clay.lostChunk_mem hF.ne_nil

theorem OneColumn.lostChunk_div : lostChunk F / c.q = y := hF.column _ hF.lostChunk_mem

/-- The node of the column that a plane names. -/
theorem OneColumn.named_iff {f z : Nat} (hf : f ∈ F) : c.Named f z ↔ f = y * c.q + c.zVec z y := by
  have hnode := node_eq (c := c) f
  rw [hF.column f hf] at hnode
  unfold Named
  rw [hF.column f hf]
  omega

include hq hkn

theorem OneColumn.y_lt : y < c.t := by
  have hmem := hF.lostChunk_mem
  rw [← hF.column _ hmem]
  exact div_lt hq hkn (hF.lt _ hmem)

/-- **The planes that are used.** -/
theorem OneColumn.mem_lostPlanes {z : Nat} :
    z ∈ c.lostPlanes F ↔ z < c.w ∧ y * c.q + c.zVec z y ∈ F := by
  rw [lostPlanes_eq, List.mem_flatMap]
  constructor
  · rintro ⟨f, hf, hz⟩
    obtain ⟨hz, hn⟩ := (mem_repairPlanes hq hkn (hF.lt f hf)).1 hz
    exact ⟨hz, (hF.named_iff hf).1 hn ▸ hf⟩
  · rintro ⟨hz, hf⟩
    refine ⟨_, hf, (mem_repairPlanes hq hkn (hF.lt _ hf)).2 ⟨hz, ?_⟩⟩
    exact (hF.named_iff hf).2 rfl

theorem OneColumn.nodup_lostPlanes : (c.lostPlanes F).Nodup := by
  rw [lostPlanes_eq, List.nodup_flatMap]
  refine ⟨fun f _ => nodup_repairPlanes hq, ?_⟩
  refine List.Pairwise.imp_of_mem (fun {f f'} hf hf' hne => ?_) hF.nodup
  rw [Function.onFun, List.disjoint_left]
  intro z hz hz'
  have hn := ((mem_repairPlanes hq hkn (hF.lt f hf)).1 hz).2
  have hn' := ((mem_repairPlanes hq hkn (hF.lt f' hf')).1 hz').2
  exact hne (((hF.named_iff hf).1 hn).trans ((hF.named_iff hf').1 hn').symm)

theorem OneColumn.length_lostPlanes : (c.lostPlanes F).length * c.q = F.length * c.w := by
  rw [lostPlanes_eq]
  have hlt := hF.lt
  clear hF
  induction F with
  | nil => simp
  | cons f F ih =>
    rw [List.flatMap_cons, List.length_append, Nat.add_mul,
      length_repairPlanes hq hkn (hlt f (List.mem_cons_self ..)),
      ih fun g hg => hlt g (List.mem_cons_of_mem _ hg), List.length_cons, Nat.succ_mul, Nat.add_comm]

/-- Each plane names one lost node. -/
theorem OneColumn.repairOrder_eq {z : Nat} (hz : z ∈ c.lostPlanes F) :
    c.repairOrder F [] z = 1 := by
  have hmem := ((hF.mem_lostPlanes hq hkn).1 hz).2
  rw [repairOrder, List.append_nil, ← List.count_eq_one_of_mem hF.nodup hmem, List.count]
  refine List.countP_congr fun f hf => ?_
  rw [decide_eq_true_eq, beq_iff_eq, ← hF.named_iff hf]
  exact eq_comm

theorem OneColumn.orderlist_eq :
    c.orderlist F [] (F.flatMap c.getRepairSubchunks) = [1] := by
  have hone : ∀ o, (∃ z ∈ c.lostPlanes F, c.repairOrder F [] z = o) ↔ o = 1 := by
    intro o
    constructor
    · rintro ⟨z, hz, rfl⟩
      exact hF.repairOrder_eq hq hkn hz
    · rintro rfl
      have hlen := hF.length_lostPlanes hq hkn
      have hpos : 0 < F.length * c.w :=
        Nat.mul_pos (List.length_pos_of_ne_nil hF.ne_nil) (w_pos hq)
      obtain ⟨z, hz⟩ := List.exists_mem_of_ne_nil (c.lostPlanes F) fun h0 => by
        rw [h0, List.length_nil, Nat.zero_mul] at hlen
        omega
      exact ⟨z, hz, hF.repairOrder_eq hq hkn hz⟩
  have hfilter : c.orderlist F [] (F.flatMap c.getRepairSubchunks) =
      (List.range (F.length + 1)).filter (· == 1) := by
    unfold orderlist
    rw [List.append_nil]
    refine List.filter_congr fun o _ => ?_
    rw [Bool.eq_iff_iff, decide_eq_true_eq, beq_iff_eq]
    exact hone o
  have hpos := List.length_pos_of_ne_nil hF.ne_nil
  rw [hfilter, List.filter_beq, List.count_eq_one_of_mem List.nodup_range
    (List.mem_range.2 (by omega))]
  rfl

variable {helper : List Nat} (hhelper : ∀ i < c.n + c.nu, i ∈ helper ↔ i ∉ F)
include hhelper

/-- **The assertions hold.** -/
theorem OneColumn.repairAsserts :
    c.repairAsserts F [] helper (F.flatMap c.getRepairSubchunks) = true := by
  have hlen := hF.length_lostPlanes hq hkn
  have herasures := repairErasures_eq c F
  rw [hF.lostChunk_div] at herasures
  unfold Clay.repairAsserts
  simp only [Bool.and_eq_true, beq_iff_eq, List.all_eq_true, decide_eq_true_eq, List.mem_range]
  refine ⟨?_, fun z hz => ⟨⟨?_, fun y' hy' x hx => ?_⟩, fun i hi => ?_⟩⟩
  · show (c.lostPlanes F).length = F.length * c.w / c.q
    rw [← hlen, Nat.mul_div_cancel _ hq]
  · rw [hF.repairOrder_eq hq hkn hz]
    omega
  · unfold helperAsserts
    rw [decide_eq_true_eq, herasures, mem_column hq, (node_xy hq y' hx).2]
    by_cases hy : y' = y
    · exact Or.inl hy
    · have hnot : ∀ x' < c.q, y' * c.q + x' ∈ helper := by
        intro x' hx'
        refine (hhelper _ (node_lt hq hkn hx' hy')).2 fun hm => hy ?_
        rw [← hF.column _ hm, (node_xy hq y' hx').2]
      refine Or.inr ⟨hnot x hx, Or.inr (hnot _ (zVec_lt hy' hq z)), Or.inr ?_⟩
      obtain ⟨hz, hmem⟩ := (hF.mem_lostPlanes hq hkn).1 hz
      refine (hF.mem_lostPlanes hq hkn).2 ⟨zSw_lt hy' hx hz, ?_⟩
      rwa [zVec_zSw_of_ne hy' hx (hF.y_lt hq hkn) (Ne.symm hy)]
  · unfold erasureAsserts
    rw [herasures, mem_column hq] at hi
    rw [decide_eq_true_eq, hF.lostChunk_div]
    exact Or.inr (Or.inr hi)

/-- **The repair of one column**, plane by plane. -/
theorem OneColumn.repairOneLostChunk_eq (invert : InvertMatrix8) :
    c.repairOneLostChunk invert F [] helper (F.flatMap c.getRepairSubchunks) =
      some ((c.lostPlanes F).flatMap (c.planeJoins invert y helper)) := by
  have hall : (repairPlanes (F.flatMap c.getRepairSubchunks)).filter
      (fun z => c.repairOrder F [] z = 1) = c.lostPlanes F := by
    refine List.filter_eq_self.2 fun z hz => ?_
    rw [decide_eq_true_eq]
    exact hF.repairOrder_eq hq hkn hz
  have herasures := repairErasures_eq c F
  rw [hF.lostChunk_div] at herasures
  have hy := hF.y_lt hq hkn
  unfold repairOneLostChunk
  rw [if_pos (hF.repairAsserts hq hkn hhelper), hF.orderlist_eq hq hkn, List.flatMap_singleton,
    hall]
  refine congrArg some (List.flatMap_congr fun z hz => ?_)
  have hz := ((hF.mem_lostPlanes hq hkn).1 hz).1
  rw [helperUncoupled_eq hq hkn invert F hz, decodeUncoupled_eq, herasures,
    recoverCoupled_eq hq hkn invert F helper hz (hF.lostChunk_div.symm ▸ hy), hF.lostChunk_div]
  rfl

end

/-! ## What the planes read -/

/-- The coupled packets of the nodes that are not lost. -/
def helperPacket (c : Clay) (F : List Nat) (v : Nat) : Prop :=
  ∃ i < c.n + c.nu, i ∉ F ∧ ∃ z < c.w, v = c.coupledId i z

section
variable {c : Clay} (hq : 0 < c.q) (hkn : c.k ≤ c.n)

/-- The loops over the grid are one loop over the nodes. -/
theorem flatMap_grid {α : Type} (g : Nat → List α) (t : Nat) :
    ((List.range t).flatMap fun y => (List.range c.q).flatMap fun x => g (y * c.q + x)) =
      (List.range (t * c.q)).flatMap g := by
  induction t with
  | zero => simp
  | succ t ih =>
    rw [List.range_succ, List.flatMap_append, ih, Nat.succ_mul, List.range_add, List.flatMap_append,
      List.flatMap_singleton, List.flatMap_map]

include hq hkn

theorem planeJoins_eq (invert : InvertMatrix8) (y : Nat) (helper : List Nat) (z : Nat) :
    c.planeJoins invert y helper z =
      ((List.range (c.n + c.nu)).flatMap fun i => c.helperJoins y i z) ++
      (c.column y).map (c.uncoupledJoin invert (c.column y) z) ++
      (c.column y).flatMap fun i => c.recoverJoins invert helper i z := by
  unfold planeJoins
  rw [flatMap_grid (c := c) (fun i => c.helperJoins y i z), Nat.mul_comm, grid hq hkn]

/-! ### One plane -/

omit hq hkn in
theorem of_mem_helperJoins {y i z : Nat} {j : Join} (hj : j ∈ c.helperJoins y i z) :
    i / c.q ≠ y ∧ ¬ c.Named i z ∧ j.pidx = c.uncoupledId i z ∧
      ∀ v, v ∈ j.cidx ↔ v = c.coupledId i z ∨ v = c.coupledId (c.mate i z) (c.matePlane i z) := by
  unfold helperJoins at hj
  split at hj
  · exact absurd hj List.not_mem_nil
  · next hno =>
    rw [not_or] at hno
    refine ⟨hno.1, hno.2, ?_⟩
    split at hj
    · obtain rfl := List.mem_singleton.1 hj
      refine ⟨rfl, fun v => ?_⟩
      simp only [List.mem_cons, List.not_mem_nil, or_false]
    · obtain rfl := List.mem_singleton.1 hj
      refine ⟨rfl, fun v => ?_⟩
      simp only [List.mem_cons, List.not_mem_nil, or_false]
      exact or_comm

omit hq hkn in
theorem map_pidx_helperJoins (y i z : Nat) : (c.helperJoins y i z).map Join.pidx =
    if i / c.q = y ∨ c.Named i z then [] else [c.uncoupledId i z] := by
  unfold helperJoins
  split
  · rfl
  · split <;> rfl

omit hq hkn in
theorem of_mem_recoverJoins {invert : InvertMatrix8} {helper : List Nat} {i z : Nat} {j : Join}
    (hj : j ∈ c.recoverJoins invert helper i z) : ¬ c.Named i z ∧
      (i ∈ helper ∧ j.pidx = c.coupledId (c.mate i z) (c.matePlane i z) ∧
          (∀ v, v ∈ j.cidx ↔ v = c.coupledId i z ∨ v = c.uncoupledId i z) ∨
        i ∉ helper ∧ i % c.q < c.zVec z (i / c.q) ∧
          (j.pidx = c.coupledId (c.mate i z) (c.matePlane i z) ∨ j.pidx = c.coupledId i z) ∧
          ∀ v, v ∈ j.cidx ↔
            v = c.uncoupledId (c.mate i z) (c.matePlane i z) ∨ v = c.uncoupledId i z) := by
  unfold recoverJoins at hj
  split at hj
  · exact absurd hj List.not_mem_nil
  · next hn =>
    refine ⟨hn, ?_⟩
    split at hj
    · next hh =>
      obtain rfl := List.mem_singleton.1 hj
      refine Or.inl ⟨hh, rfl, fun v => ?_⟩
      simp only [List.mem_cons, List.not_mem_nil, or_false]
    · next hh =>
      split at hj
      · next hlt =>
        refine Or.inr ⟨hh, hlt, ?_⟩
        simp only [List.mem_cons, List.not_mem_nil, or_false] at hj
        rcases hj with rfl | rfl
        · refine ⟨Or.inl rfl, fun v => ?_⟩
          simp only [List.mem_cons, List.not_mem_nil, or_false]
        · refine ⟨Or.inr rfl, fun v => ?_⟩
          simp only [List.mem_cons, List.not_mem_nil, or_false]
      · exact absurd hj List.not_mem_nil

section
variable {F : List Nat} {y : Nat} (hF : c.OneColumn F y) (hm : c.m = c.q)
include hF

omit hq hkn in
/-- A node outside the column is not lost. -/
theorem OneColumn.not_mem {i : Nat} (hi : i / c.q ≠ y) : i ∉ F := fun h => hi (hF.column i h)

include hm

/-- What the column's packets are made from: the nodes outside it. -/
theorem OneColumn.mem_selectLines {i : Nat} :
    i ∈ c.selectLines (c.column y) ↔ i < c.n + c.nu ∧ i / c.q ≠ y := by
  have hy := hF.y_lt hq hkn
  have hlt : ∀ i ∈ c.column y, i < c.n + c.nu := by
    intro i hi
    rw [mem_column hq] at hi
    rw [← node_eq (c := c) i, hi]
    exact node_lt hq hkn (Nat.mod_lt _ hq) hy
  have hlen : (c.column y).length = c.m := by
    rw [Clay.column, List.length_map, List.length_range, hm]
  rw [selectLines_eq hkn (nodup_column c y) hlen hlt, List.mem_filter, List.mem_range,
    decide_eq_true_eq, mem_column hq]

variable {helper : List Nat} (hhelper : ∀ i < c.n + c.nu, i ∈ helper ↔ i ∉ F)
include hhelper

/-- **One plane reads what is there**, and of the column what smaller planes define. -/
theorem OneColumn.planeJoins_ordered (invert : InvertMatrix8) {S : Nat → Prop} {z : Nat}
    (hz : z < c.w) (hS : ∀ v, c.helperPacket F v → S v)
    (hprev : ∀ i ∈ F, i % c.q < c.zVec z y → S (c.uncoupledId (c.mate i z) (c.matePlane i z))) :
    JoinsOrdered S (c.planeJoins invert y helper z) := by
  have hy := hF.y_lt hq hkn
  rw [planeJoins_eq hq hkn]
  refine @LinearProgram.ordered_append_of _ _ _ _ _
    (fun v => S v ∨ ∃ l, l / c.q = y ∧ v = c.uncoupledId l z) _ _
    (@LinearProgram.ordered_append_of _ _ _ _ _
      (fun v => ∃ l < c.n + c.nu, l / c.q ≠ y ∧ v = c.uncoupledId l z) _ _ ?_ ?_ ?_) ?_ ?_
  · -- the helpers outside the column
    refine LinearProgram.ordered_of_forall fun j hj v hv => hS v ?_
    obtain ⟨i, hi, hj⟩ := List.mem_flatMap.1 hj
    rw [List.mem_range] at hi
    obtain ⟨hcol, -, -, hread⟩ := of_mem_helperJoins hj
    rcases (hread v).1 hv with rfl | rfl
    · exact ⟨i, hi, hF.not_mem hcol, z, hz, rfl⟩
    · refine ⟨_, mate_lt hq hkn hi, hF.not_mem ?_, _, matePlane_lt hq hkn hi hz, rfl⟩
      rwa [mate_div hq hkn hi]
  · rintro v ⟨l, hl, hcol, rfl⟩
    by_cases hn : c.Named l z
    · rw [uncoupledId_of_named hq hkn hl hz hn]
      exact Or.inl (hS _ ⟨l, hl, hF.not_mem hcol, z, hz, rfl⟩)
    · refine Or.inr ?_
      rw [List.map_flatMap, List.mem_flatMap]
      refine ⟨l, List.mem_range.2 hl, ?_⟩
      rw [map_pidx_helperJoins, if_neg (not_or.2 ⟨hcol, hn⟩)]
      exact List.mem_singleton_self _
  · -- the uncoupled packets of the column
    refine LinearProgram.ordered_of_forall fun j hj v hv => ?_
    obtain ⟨i, -, rfl⟩ := List.mem_map.1 hj
    obtain ⟨l, hl, rfl⟩ := List.mem_map.1 hv
    obtain ⟨hl, hcol⟩ := (hF.mem_selectLines hq hkn hm).1 hl
    exact ⟨l, hl, hcol, rfl⟩
  · rintro v (hv | ⟨l, hl, rfl⟩)
    · exact Or.inl hv
    · refine Or.inr ?_
      rw [List.map_append, List.mem_append, List.map_map]
      exact Or.inr (List.mem_map.2 ⟨l, (mem_column hq).2 hl, rfl⟩)
  · -- the coupled packets of the lost nodes
    refine LinearProgram.ordered_of_forall fun j hj v hv => ?_
    obtain ⟨i, hi, hj⟩ := List.mem_flatMap.1 hj
    rw [mem_column hq] at hi
    have hlt : i < c.n + c.nu := by
      rw [← node_eq (c := c) i, hi]
      exact node_lt hq hkn (Nat.mod_lt _ hq) hy
    obtain ⟨-, ⟨hh, -, hread⟩ | ⟨hh, hless, -, hread⟩⟩ := of_mem_recoverJoins hj
    · rcases (hread v).1 hv with rfl | rfl
      · exact Or.inl (hS _ ⟨i, hlt, (hhelper i hlt).1 hh, z, hz, rfl⟩)
      · exact Or.inr ⟨i, hi, rfl⟩
    · have hlost : i ∈ F := not_not.1 fun h => hh ((hhelper i hlt).2 h)
      rcases (hread v).1 hv with rfl | rfl
      · rw [hi] at hless
        exact Or.inl (hprev i hlost hless)
      · exact Or.inr ⟨i, hi, rfl⟩

/-! ### All planes -/

omit hm hhelper in
/-- The planes of a node that is further up come later. -/
theorem OneColumn.pairwise_lostPlanes (hsorted : F.Pairwise (· < ·)) :
    (c.lostPlanes F).Pairwise fun z z' => c.zVec z y ≤ c.zVec z' y := by
  have hvec : ∀ f ∈ F, ∀ z ∈ repairPlanes (c.getRepairSubchunks f), c.zVec z y = f % c.q := by
    intro f hf z hz
    have hn := ((mem_repairPlanes hq hkn (hF.lt f hf)).1 hz).2
    unfold Named at hn
    rwa [hF.column f hf] at hn
  rw [lostPlanes_eq, List.pairwise_flatMap]
  constructor
  · intro f hf
    refine List.Pairwise.imp_of_mem (fun {z z'} hz hz' _ => ?_)
      (List.pairwise_of_forall fun _ _ => trivial)
    rw [hvec f hf z hz, hvec f hf z' hz']
  · refine List.Pairwise.imp_of_mem (fun {f f'} hf hf' hlt z hz z' hz' => ?_) hsorted
    rw [hvec f hf z hz, hvec f' hf' z' hz']
    have h := node_eq (c := c) f
    have h' := node_eq (c := c) f'
    rw [hF.column f hf] at h
    rw [hF.column f' hf'] at h'
    omega

/-- **No packet is read before it is defined.** -/
theorem OneColumn.joinsOrdered_planes (hsorted : F.Pairwise (· < ·)) (invert : InvertMatrix8) :
    JoinsOrdered (c.helperPacket F) ((c.lostPlanes F).flatMap (c.planeJoins invert y helper)) := by
  have hpair := hF.pairwise_lostPlanes hq hkn hsorted
  refine LinearProgram.ordered_flatMap_of fun l₁ z l₂ hsplit => ?_
  have hz : z ∈ c.lostPlanes F := hsplit ▸ List.mem_append_right _ (List.mem_cons_self ..)
  obtain ⟨hzw, -⟩ := (hF.mem_lostPlanes hq hkn).1 hz
  refine hF.planeJoins_ordered hq hkn hm hhelper invert hzw (fun v hv => Or.inl hv) ?_
  -- the partner's plane names the smaller node, so it came before
  intro i hi hlt
  have hcol := hF.column i hi
  have hilt := hF.lt i hi
  have hvec := zVec_matePlane hq hkn hilt (z := z)
  rw [hcol] at hvec
  have hmem : c.matePlane i z ∈ c.lostPlanes F := by
    refine (hF.mem_lostPlanes hq hkn).2 ⟨matePlane_lt hq hkn hilt hzw, ?_⟩
    rw [hvec, ← hcol, node_eq]
    exact hi
  have hbefore : c.matePlane i z ∈ l₁ := by
    rw [hsplit] at hpair hmem
    rcases List.mem_append.1 hmem with h | h
    · exact h
    · have hle : c.zVec z y ≤ c.zVec (c.matePlane i z) y := by
        rcases List.mem_cons.1 h with h | h
        · rw [h]
        · exact (List.pairwise_cons.1 (List.pairwise_append.1 hpair).2.1).1 _ h
      omega
  refine Or.inr ⟨_, hbefore, ?_⟩
  rw [planeJoins_eq hq hkn, List.map_append, List.map_append, List.map_map]
  refine List.mem_append_left _ (List.mem_append_right _ (List.mem_map.2 ⟨c.mate i z, ?_, rfl⟩))
  rw [mem_column hq, mate_div hq hkn hilt, hcol]

omit hm in
/-- What is defined is no packet of a helper. -/
theorem OneColumn.not_helperPacket (invert : InvertMatrix8) {j : Join}
    (hj : j ∈ (c.lostPlanes F).flatMap (c.planeJoins invert y helper)) :
    ¬ c.helperPacket F j.pidx := by
  have hy := hF.y_lt hq hkn
  rintro ⟨i', hi', hnot, z', hz', he⟩
  obtain ⟨z, hz, hj⟩ := List.mem_flatMap.1 hj
  obtain ⟨hzw, hlost⟩ := (hF.mem_lostPlanes hq hkn).1 hz
  have hlt : ∀ i ∈ c.column y, i < c.n + c.nu := by
    intro i hi
    rw [mem_column hq] at hi
    rw [← node_eq (c := c) i, hi]
    exact node_lt hq hkn (Nat.mod_lt _ hq) hy
  have hunc : ∀ i < c.n + c.nu, (i / c.q = y ∨ ¬ c.Named i z) → j.pidx ≠ c.uncoupledId i z := by
    intro i hi hor hpidx
    obtain ⟨hn, rfl, rfl⟩ := uncoupledId_eq_coupledId hq hkn hi hi' hzw hz' (hpidx ▸ he)
    refine hor.elim (fun hcol => hnot ?_) fun h => h hn
    unfold Named at hn
    rw [hcol] at hn
    rw [hn, ← hcol, node_eq] at hlost
    exact hlost
  rw [planeJoins_eq hq hkn, List.mem_append, List.mem_append] at hj
  rcases hj with (hj | hj) | hj
  · obtain ⟨i, hi, hj⟩ := List.mem_flatMap.1 hj
    obtain ⟨-, hn, hpidx, -⟩ := of_mem_helperJoins hj
    exact hunc i (List.mem_range.1 hi) (Or.inr hn) hpidx
  · obtain ⟨i, hi, rfl⟩ := List.mem_map.1 hj
    exact hunc i (hlt i hi) (Or.inl ((mem_column hq).1 hi)) rfl
  · obtain ⟨i, hi, hj⟩ := List.mem_flatMap.1 hj
    have hilt := hlt i hi
    rw [mem_column hq] at hi
    have hmate : c.mate i z ∈ F := by
      unfold mate
      rwa [hi]
    have hno : j.pidx ≠ c.coupledId (c.mate i z) (c.matePlane i z) := by
      intro hpidx
      obtain ⟨rfl, -⟩ := coupledId_inj hq hkn (mate_lt hq hkn hilt) hi'
        (matePlane_lt hq hkn hilt hzw) hz' (hpidx ▸ he)
      exact hnot hmate
    obtain ⟨-, ⟨-, hpidx, -⟩ | ⟨hh, -, hpidx | hpidx, -⟩⟩ := of_mem_recoverJoins hj
    · exact hno hpidx
    · exact hno hpidx
    · obtain ⟨rfl, -⟩ := coupledId_inj hq hkn hilt hi' hzw hz' (hpidx ▸ he)
      exact hh ((hhelper i hilt).2 hnot)

omit hm in
/-- **All packets of the lost nodes are defined.** -/
theorem OneColumn.mem_targets (invert : InvertMatrix8) {f z : Nat} (hf : f ∈ F) (hz : z < c.w) :
    c.coupledId f z ∈
      ((c.lostPlanes F).flatMap (c.planeJoins invert y helper)).map Join.pidx := by
  have hlt := hF.lt f hf
  have hcol := hF.column f hf
  have hmate := mate_lt hq hkn hlt (z := z)
  have hplane := matePlane_lt hq hkn hlt hz
  have hdiv := mate_div hq hkn hlt (z := z)
  obtain ⟨hmm, hpp⟩ := mate_mate hq hkn hlt (z := z)
  -- what a plane that names a lost node gives through a node of the column
  have hgives : ∀ z' ∈ c.lostPlanes F, ∀ i, i / c.q = y → ∀ v,
      v = c.uncoupledId i z' ∨ v ∈ (c.recoverJoins invert helper i z').map Join.pidx →
      v ∈ ((c.lostPlanes F).flatMap (c.planeJoins invert y helper)).map Join.pidx := by
    intro z' hz' i hi v hv
    rw [List.map_flatMap]
    refine List.mem_flatMap.2 ⟨z', hz', ?_⟩
    rw [planeJoins_eq hq hkn, List.map_append, List.map_append, List.map_map, List.mem_append,
      List.mem_append]
    rcases hv with rfl | hv
    · exact Or.inl (Or.inr (List.mem_map.2 ⟨i, (mem_column hq).2 hi, rfl⟩))
    · refine Or.inr ?_
      rw [List.map_flatMap]
      exact List.mem_flatMap.2 ⟨i, (mem_column hq).2 hi, hv⟩
  have hback : c.matePlane f z ∈ c.lostPlanes F := by
    refine (hF.mem_lostPlanes hq hkn).2 ⟨hplane, ?_⟩
    have hvec := zVec_matePlane hq hkn hlt (z := z)
    rw [hcol] at hvec
    rwa [hvec, ← hcol, node_eq]
  by_cases hn : c.Named f z
  · refine hgives z ((hF.mem_lostPlanes hq hkn).2 ⟨hz, ?_⟩) f hcol _
      (Or.inl (uncoupledId_of_named hq hkn hlt hz hn).symm)
    exact (hF.named_iff hf).1 hn ▸ hf
  · have hnm : ¬ c.Named (c.mate f z) (c.matePlane f z) := fun h => hn ((named_mate hq hkn hlt).1 h)
    have hno : f ∉ helper := fun h => (hhelper f hlt).1 h hf
    by_cases hm : c.mate f z ∈ helper
    · -- from a helper in the plane that names the node
      refine hgives _ hback (c.mate f z) (hdiv.trans hcol) _ (Or.inr ?_)
      rw [recoverJoins, if_neg hnm, if_pos hm, hmm, hpp]
      exact List.mem_singleton_self _
    · -- both are lost
      by_cases hlow : f % c.q < c.zVec z (f / c.q)
      · have hlost : c.mate f z ∈ F := not_not.1 fun h => hm ((hhelper _ hmate).2 h)
        refine hgives z ((hF.mem_lostPlanes hq hkn).2 ⟨hz, ?_⟩) f hcol _ (Or.inr ?_)
        · rw [mate, hcol] at hlost
          exact hlost
        · rw [recoverJoins, if_neg hn, if_neg hno, if_pos hlow]
          exact List.mem_cons_of_mem _ List.mem_cons_self
      · have hne : c.zVec z (f / c.q) ≠ f % c.q := hn
        have hup : c.mate f z % c.q < c.zVec (c.matePlane f z) (c.mate f z / c.q) := by
          rw [hdiv, mate_mod hq hkn hlt, zVec_matePlane hq hkn hlt]
          omega
        refine hgives _ hback (c.mate f z) (hdiv.trans hcol) _ (Or.inr ?_)
        rw [recoverJoins, if_neg hnm, if_neg hm, if_pos hup, hmm, hpp]
        exact List.mem_cons_self

/-- **What is read** of a helper: the packets of the planes that name a lost node. -/
theorem OneColumn.mem_ecLeaves_planes (hsorted : F.Pairwise (· < ·)) (invert : InvertMatrix8)
    (v : Nat) :
    v ∈ (ECDAG.build ((c.lostPlanes F).flatMap (c.planeJoins invert y helper))).ecLeaves ↔
      ∃ i < c.n + c.nu, i ∉ F ∧ ∃ z ∈ c.lostPlanes F, v = c.coupledId i z := by
  have hmemp := fun z => hF.mem_lostPlanes hq hkn (z := z)
  rw [ECDAG.mem_ecLeaves_build_of_ordered
    (hF.joinsOrdered_planes hq hkn hm hhelper hsorted invert)
    fun j hj => hF.not_helperPacket hq hkn hhelper invert hj]
  constructor
  · rintro ⟨⟨i', hi', hnot, z', hz', rfl⟩, j, hj, hv⟩
    refine ⟨i', hi', hnot, z', ?_, rfl⟩
    obtain ⟨z, hz, hj⟩ := List.mem_flatMap.1 hj
    obtain ⟨hzw, hlost⟩ := (hmemp z).1 hz
    rw [planeJoins_eq hq hkn, List.mem_append, List.mem_append] at hj
    rcases hj with (hj | hj) | hj
    · obtain ⟨i, hi, hj⟩ := List.mem_flatMap.1 hj
      rw [List.mem_range] at hi
      obtain ⟨hcol, -, -, hread⟩ := of_mem_helperJoins hj
      rcases (hread _).1 hv with he | he
      · rwa [(coupledId_inj hq hkn hi' hi hz' hzw he).2]
      · -- the partner's plane names the same node of the column
        have hplane := matePlane_lt hq hkn hi hzw
        rw [(coupledId_inj hq hkn hi' (mate_lt hq hkn hi) hz' hplane he).2, hmemp]
        refine ⟨hplane, ?_⟩
        rwa [zVec_matePlane_of_ne hq hkn hi (hF.y_lt hq hkn) (Ne.symm hcol)]
    · obtain ⟨i, -, rfl⟩ := List.mem_map.1 hj
      obtain ⟨l, hl, he⟩ := List.mem_map.1 hv
      have hl := ((hF.mem_selectLines hq hkn hm).1 hl).1
      obtain ⟨-, -, rfl⟩ := uncoupledId_eq_coupledId hq hkn hl hi' hzw hz' he
      exact hz
    · obtain ⟨i, hi, hj⟩ := List.mem_flatMap.1 hj
      rw [mem_column hq] at hi
      have hilt : i < c.n + c.nu := by
        rw [← node_eq (c := c) i, hi]
        exact node_lt hq hkn (Nat.mod_lt _ hq) (hF.y_lt hq hkn)
      have hunc : c.coupledId i' z' = c.uncoupledId i z → z' ∈ c.lostPlanes F := fun he => by
        obtain ⟨-, -, rfl⟩ := uncoupledId_eq_coupledId hq hkn hilt hi' hzw hz' he.symm
        exact hz
      obtain ⟨-, ⟨-, -, hread⟩ | ⟨-, -, -, hread⟩⟩ := of_mem_recoverJoins hj
      · rcases (hread _).1 hv with he | he
        · rwa [(coupledId_inj hq hkn hi' hilt hz' hzw he).2]
        · exact hunc he
      · rcases (hread _).1 hv with he | he
        · obtain ⟨-, rfl, -⟩ := uncoupledId_eq_coupledId hq hkn (mate_lt hq hkn hilt) hi'
            (matePlane_lt hq hkn hilt hzw) hz' he.symm
          refine absurd ?_ hnot
          unfold mate
          rwa [hi]
        · exact hunc he
  · rintro ⟨i, hi, hnot, z, hz, rfl⟩
    obtain ⟨hzw, hlost⟩ := (hmemp z).1 hz
    refine ⟨⟨i, hi, hnot, z, hzw, rfl⟩, ?_⟩
    have hread : ∃ j ∈ c.planeJoins invert y helper z, c.coupledId i z ∈ j.cidx := by
      rw [planeJoins_eq hq hkn]
      by_cases hcol : i / c.q = y
      · -- a helper in the column of the lost nodes
        have hn : ¬ c.Named i z := by
          intro hn
          unfold Named at hn
          rw [hcol] at hn
          rw [hn, ← hcol, node_eq] at hlost
          exact hnot hlost
        obtain ⟨j, hj, hv⟩ : ∃ j ∈ c.recoverJoins invert helper i z, c.coupledId i z ∈ j.cidx := by
          rw [recoverJoins, if_neg hn, if_pos ((hhelper i hi).2 hnot)]
          exact ⟨_, List.mem_singleton_self _, List.mem_cons_self ..⟩
        exact ⟨j, List.mem_append_right _ (List.mem_flatMap.2 ⟨i, (mem_column hq).2 hcol, hj⟩), hv⟩
      · by_cases hn : c.Named i z
        · -- read as the uncoupled packet
          have hy : y * c.q ∈ c.column y := by
            rw [mem_column hq, Nat.mul_div_cancel _ hq]
          refine ⟨_, List.mem_append_left _ (List.mem_append_right _
            (List.mem_map_of_mem hy)), List.mem_map.2 ⟨i, ?_, ?_⟩⟩
          · exact (hF.mem_selectLines hq hkn hm).2 ⟨hi, hcol⟩
          · exact uncoupledId_of_named hq hkn hi hzw hn
        · obtain ⟨j, hj⟩ : ∃ j, j ∈ c.helperJoins y i z := by
            refine List.exists_mem_of_ne_nil _ fun h0 => ?_
            have hmap := map_pidx_helperJoins (c := c) y i z
            rw [h0, if_neg (not_or.2 ⟨hcol, hn⟩)] at hmap
            exact absurd hmap (by simp)
          refine ⟨j, List.mem_append_left _ (List.mem_append_left _
            (List.mem_flatMap.2 ⟨i, List.mem_range.2 hi, hj⟩)), ?_⟩
          exact ((of_mem_helperJoins hj).2.2.2 _).2 (Or.inl rfl)
    obtain ⟨j, hj, hv⟩ := hread
    exact ⟨j, List.mem_flatMap.2 ⟨z, hz, hj⟩, hv⟩

end

end

end Clay

end StripeRepair

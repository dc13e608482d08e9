import StripeRepair.Common.RepairDag

/-!
# DAGs in layers

A packet that is used on several levels of a repair is put into one queue for all of them. In the
DAGs of most codes each packet is used on one level only.

* `OneLevel`: that it is so.
* `Layers`: heights for the `Join`s of a `Decode`, such that each packet is used at one height.
* `Layers.oneLevel`, `Layers.concactsLast`: what they give for the DAG of the repair.
-/

namespace StripeRepair

namespace ECDAG

/-- The vertices that use `u` are on one level; on the last level there is one, which has `u` as a
child once. -/
structure OneLevel (d : ECDAG) : Prop where
  level : ∀ u, ∀ p ∈ d.parentIds u, ∀ q ∈ d.parentIds u, d.height p = d.height q
  last : ∀ u, ∀ p ∈ d.parentIds u, d.height p = d.numLevels - 1 →
    (d.childIndices p).count u = 1 ∧ ∀ q ∈ d.parentIds u, q = p

/-! ## The children of new vertices -/

section
variable {d : ECDAG}

theorem node?_map (l : List ECNode) (f : ECNode → ECNode) (hf : ∀ nd, (f nd).nodeId = nd.nodeId)
    (v : Nat) : (l.map f).find? (fun nd => nd.nodeId = v) =
      (l.find? fun nd => nd.nodeId = v).map f := by
  rw [List.find?_map]
  refine congrArg (Option.map f) (List.find?_congr fun nd _ => ?_)
  rw [Function.comp_apply, hf]

theorem childIndices_addChild (c v : Nat) : (d.addChild c).childIndices v = d.childIndices v := by
  unfold addChild
  split
  · rfl
  · unfold childIndices node?
    rw [List.find?_append]
    cases d.ecNodeMap.find? fun nd => nd.nodeId = v with
    | some nd => rfl
    | none =>
      by_cases h : c = v
      · simp [h]
      · simp [h]

theorem childIndices_foldl_addChild (cs : List Nat) (v : Nat) :
    (cs.foldl addChild d).childIndices v = d.childIndices v := by
  induction cs generalizing d with
  | nil => rfl
  | cons c cs ih => rw [List.foldl_cons, ih, childIndices_addChild]

/-- The children of a `Join` on a new vertex. -/
theorem childIndices_join {p : Nat} {cs : List Nat} (co : List Int) (hp : p ∉ d.nodeIds)
    (hpc : p ∉ cs) (v : Nat) :
    (d.join p cs co).childIndices v = if v = p then cs else d.childIndices v := by
  have hnew : p ∉ (cs.foldl addChild d).nodeIds := by
    rw [mem_nodeIds_foldl_addChild, not_or]
    exact ⟨hp, hpc⟩
  have hold : (cs.foldl addChild d).childIndices v = d.childIndices v :=
    childIndices_foldl_addChild cs v
  unfold join addVertex
  rw [if_neg hnew]
  unfold childIndices node? at hold ⊢
  rw [List.find?_append, node?_map _ (addParents p cs) fun _ => rfl]
  split
  · next h =>
    subst h
    have hnone : (cs.foldl addChild d).ecNodeMap.find? (fun nd => nd.nodeId = v) = none :=
      List.find?_eq_none.2 fun nd hnd he => hnew (of_decide_eq_true he ▸ List.mem_map_of_mem hnd)
    rw [hnone]
    simp
  · next h =>
    rw [← hold]
    cases (cs.foldl addChild d).ecNodeMap.find? fun nd => nd.nodeId = v with
    | some nd => rfl
    | none => simp [Ne.symm h]

end

/-! ## `Join`s on new vertices -/

/-- Each `Join` has children, and is on a vertex that is new. -/
structure Fresh (js : List Join) : Prop where
  nonempty : ∀ j ∈ js, j.cidx ≠ []
  self : ∀ j ∈ js, j.pidx ∉ j.cidx
  new : js.Pairwise fun i j => j.pidx ≠ i.pidx ∧ j.pidx ∉ i.cidx

section
variable {js : List Join}

theorem Fresh.not_mem {j : Join} (h : Fresh (js ++ [j])) : j.pidx ∉ (build js).nodeIds := by
  rw [mem_nodeIds_build]
  rintro ⟨i, hi, hv⟩
  obtain ⟨-, -, hnew⟩ := List.pairwise_append.1 h.new
  obtain ⟨h1, h2⟩ := hnew i hi j (List.mem_singleton_self j)
  rcases hv with hv | hv
  · exact h1 hv
  · exact h2 hv

theorem Fresh.of_append {js ks : List Join} (h : Fresh (js ++ ks)) : Fresh js :=
  ⟨fun j hj => h.nonempty j (List.mem_append_left _ hj),
    fun j hj => h.self j (List.mem_append_left _ hj), (List.pairwise_append.1 h.new).1⟩

/-- **The children are those of the `Join`s.** -/
theorem Fresh.childIndices (h : Fresh js) : (∀ j ∈ js, (build js).childIndices j.pidx = j.cidx) ∧
    ∀ v ∉ js.map Join.pidx, (build js).childIndices v = [] := by
  induction js using List.reverseRecOn with
  | nil => exact ⟨fun j hj => absurd hj List.not_mem_nil, fun v _ => rfl⟩
  | append_singleton js j ih =>
    obtain ⟨h1, h2⟩ := ih h.of_append
    have hj : j ∈ js ++ [j] := List.mem_append_right _ (List.mem_singleton_self j)
    have hch := childIndices_join (d := build js) j.coefs h.not_mem (h.self j hj)
    rw [build_concat]
    refine ⟨fun i hi => ?_, fun v hv => ?_⟩
    · rw [hch]
      rcases List.mem_append.1 hi with hi | hi
      · obtain ⟨-, -, hnew⟩ := List.pairwise_append.1 h.new
        have hne := (hnew i hi j (List.mem_singleton_self j)).1
        rw [if_neg hne.symm, h1 i hi]
      · rw [List.mem_singleton.1 hi, if_pos rfl]
    · rw [List.map_append, List.mem_append, not_or] at hv
      rw [hch, if_neg fun he : v = j.pidx => hv.2 (he ▸ List.mem_singleton_self _), h2 v hv.1]

theorem Fresh.mem_childIndices (h : Fresh js) {v c : Nat} :
    c ∈ (build js).childIndices v ↔ ∃ j ∈ js, j.pidx = v ∧ c ∈ j.cidx := by
  constructor
  · intro hc
    by_cases hv : v ∈ js.map Join.pidx
    · obtain ⟨j, hj, rfl⟩ := List.mem_map.1 hv
      rw [h.childIndices.1 j hj] at hc
      exact ⟨j, hj, rfl, hc⟩
    · rw [h.childIndices.2 v hv] at hc
      cases hc
  · rintro ⟨j, hj, rfl, hc⟩
    rwa [h.childIndices.1 j hj]

/-- **Heights** are the ones that fit the `Join`s. -/
theorem Fresh.height_eq (h : Fresh js) {f : Nat → Nat}
    (hjoin : ∀ j ∈ js, f j.pidx = LinearProgram.above f j.cidx)
    (hleaf : ∀ v ∉ js.map Join.pidx, f v = 0) : (build js).height = f := by
  refine (built_build js).wellFormed.measures.unique fun v => ?_
  by_cases hv : v ∈ js.map Join.pidx
  · obtain ⟨j, hj, rfl⟩ := List.mem_map.1 hv
    rw [h.childIndices.1 j hj, hjoin j hj]
  · rw [h.childIndices.2 v hv, hleaf v hv]
    rfl

end

/-! ## The concatenations as `Join`s -/

theorem foldl_addChild_concacts (l cs : List Nat) (d : ECDAG) :
    cs.foldl addChild { d with ecConcacts := l } = { cs.foldl addChild d with ecConcacts := l } := by
  induction cs generalizing d with
  | nil => rfl
  | cons c cs ih =>
    have hc : addChild { d with ecConcacts := l } c = { d.addChild c with ecConcacts := l } := by
      unfold addChild
      by_cases hmem : c ∈ d.nodeIds
      · rw [if_pos hmem]
        exact if_pos hmem
      · rw [if_neg hmem]
        exact if_neg hmem
    rw [List.foldl_cons, List.foldl_cons, hc, ih]

theorem join_concacts (d : ECDAG) (l : List Nat) (p : Nat) (cs : List Nat) (co : List Int) :
    ({ d with ecConcacts := l } : ECDAG).join p cs co =
      { d.join p cs co with ecConcacts := l } := by
  unfold join
  rw [foldl_addChild_concacts]
  unfold addVertex
  by_cases hmem : p ∈ (cs.foldl addChild d).nodeIds
  · rw [if_pos hmem]
    exact if_pos hmem
  · rw [if_neg hmem]
    exact if_neg hmem

end ECDAG

/-- What `Concact` joins for the lost blocks. -/
def concactJoins (n w : Nat) (failed : Finset Nat) : List Join :=
  (losses n failed).map fun i =>
    ⟨REQUESTOR - i, blockPackets w i, List.replicate (packets w (losses n failed)).length (-1)⟩

/-- **The DAG of a repair** is built by `Join`s only, but for the list of concatenations. -/
theorem genRepairECDAG_eq {decode : List Nat → List Nat → ECDAG} {n w : Nat} {failed : Finset Nat}
    (hw : 0 < w) {js : List Join}
    (hdec : decode (packets w (survivors n failed)) (packets w (losses n failed)) = .build js) :
    genRepairECDAG decode n w failed = { ECDAG.build (js ++ concactJoins n w failed) with
      ecConcacts := (losses n failed).map fun i => REQUESTOR - i } := by
  have hnodup : (losses n failed).Nodup := List.nodup_range.filter _
  have hblk : ∀ i, blockPackets w i ≠ [] := fun i h => by
    have := congrArg List.length h
    simp [blockPackets] at this
    omega
  -- after some rounds the blocks below `m` are joined
  have hrounds : ∀ m ≤ n, (List.range m).foldl
      (ECDAG.concactStep (packets w (losses n failed)) w) (.build js) =
      { ECDAG.build (js ++ ((List.range m).filter (· ∈ failed)).map fun i => (⟨REQUESTOR - i,
          blockPackets w i, List.replicate (packets w (losses n failed)).length (-1)⟩ : Join)) with
        ecConcacts := ((List.range m).filter (· ∈ failed)).map fun i => REQUESTOR - i } := by
    intro m
    induction m with
    | zero =>
      intro _
      show ECDAG.build js = _
      rw [List.range_zero, List.filter_nil, List.map_nil, List.append_nil, List.map_nil,
        ← ECDAG.ecConcacts_build js]
    | succ m ih =>
      intro hm
      rw [List.range_succ, List.foldl_append, ih (by omega), List.foldl_cons, List.foldl_nil,
        List.filter_append]
      unfold ECDAG.concactStep
      rw [concactBlock_packets hnodup]
      by_cases hf : m ∈ failed
      · have hmem : m ∈ losses n failed := mem_losses.2 ⟨by omega, hf⟩
        rw [if_pos hmem, if_neg (hblk m), ECDAG.join_concacts]
        simp only [hf, List.filter_cons, List.filter_nil, decide_true, if_true, List.map_append,
          List.map_cons, List.map_nil, ← List.append_assoc]
        rw [ECDAG.build_concat]
      · have hmem : m ∉ losses n failed := fun h => hf (mem_losses.1 h).2
        rw [if_neg hmem, if_pos rfl]
        simp [hf]
  rw [genRepairECDAG, hdec]
  exact hrounds n (Nat.le_refl n)

/-! ## Layers -/

/-- Heights for the vertices that `Decode` joins, such that each packet is used at one height. The
lost packets are not used; each block of them is concatenated at height `top`, and nothing else
that is joined is left unused. -/
structure Layers (js : List Join) (n w : Nat) (failed : Finset Nat) (height : Nat → Nat)
    (top : Nat) : Prop where
  nonempty : ∀ j ∈ js, j.cidx ≠ []
  new : js.Pairwise fun i j => j.pidx ≠ i.pidx ∧ j.pidx ∉ i.cidx
  join : ∀ j ∈ js, height j.pidx = LinearProgram.above height j.cidx
  leaf : ∀ v ∉ js.map Join.pidx, height v = 0
  level : ∀ i ∈ js, ∀ j ∈ js, ∀ c ∈ i.cidx, c ∈ j.cidx → height i.pidx = height j.pidx
  surviving : ∀ j ∈ js, ∀ c ∈ j.cidx, c ∈ js.map Join.pidx ∨ c / w ∉ failed
  joined : ∀ v ∈ packets w (losses n failed), v ∈ js.map Join.pidx
  unread : ∀ v ∈ packets w (losses n failed), ∀ j ∈ js, v ∉ j.cidx
  used : ∀ j ∈ js, j.pidx ∈ packets w (losses n failed) ∨ ∃ i ∈ js, j.pidx ∈ i.cidx
  free : ∀ j ∈ js, ∀ i < n, j.pidx ≠ REQUESTOR - i ∧ REQUESTOR - i ∉ j.cidx
  top : ∀ i ∈ losses n failed, LinearProgram.above height (blockPackets w i) = top

theorem mem_packets_of_block {w i v : Nat} {blks : List Nat} (hi : i ∈ blks)
    (hv : v ∈ blockPackets w i) : v ∈ packets w blks := List.mem_flatMap.2 ⟨i, hi, hv⟩

theorem div_of_mem_blockPackets {w i v : Nat} (hv : v ∈ blockPackets w i) : v / w = i := by
  obtain ⟨o, ho, rfl⟩ := List.mem_map.1 hv
  have ho := List.mem_range.1 ho
  rw [Nat.mul_comm, Nat.mul_add_div (by omega), Nat.div_eq_of_lt ho, Nat.add_zero]

theorem nodup_blockPackets (w i : Nat) : (blockPackets w i).Nodup :=
  List.nodup_range.map fun _ _ h => Nat.add_left_cancel h

namespace Layers

section
variable {js : List Join} {n w : Nat} {failed : Finset Nat} {height : Nat → Nat} {top : Nat}
  (hw : 0 < w) (h : Layers js n w failed height top)
include h

theorem self {j : Join} (hj : j ∈ js) : j.pidx ∉ j.cidx := by
  intro hm
  have hlt := LinearProgram.lt_above (h := height) hm
  rw [← h.join j hj] at hlt
  exact Nat.lt_irrefl _ hlt

theorem fresh_joins : ECDAG.Fresh js := ⟨h.nonempty, fun _ => h.self, h.new⟩

include hw

/-- The highest vertex is not used, so it is a lost packet. -/
theorem lt_top (hne : losses n failed ≠ []) (v : Nat) : height v < top := by
  obtain ⟨i0, hi0⟩ := List.exists_mem_of_ne_nil _ hne
  have hlost : ∀ u ∈ packets w (losses n failed), height u < top := by
    intro u hu
    obtain ⟨i, hi, hu⟩ := List.mem_flatMap.1 hu
    exact h.top i hi ▸ LinearProgram.lt_above hu
  have hjoined : ∀ m, ∀ j ∈ js, (js.map fun i => height i.pidx).foldr max 0 = height j.pidx + m →
      height j.pidx < top := by
    intro m
    induction m using Nat.strong_induction_on with
    | _ m ih =>
      intro j hj hm
      rcases h.used j hj with hl | ⟨i, hi, hc⟩
      · exact hlost _ hl
      · have hlt := LinearProgram.lt_above (h := height) hc
        rw [← h.join i hi] at hlt
        have hle : height i.pidx ≤ (js.map fun i => height i.pidx).foldr max 0 :=
          List.le_max_of_le' 0 (List.mem_map_of_mem hi) (Nat.le_refl _)
        exact hlt.trans (ih (m - (height i.pidx - height j.pidx)) (by omega) i hi (by omega))
  by_cases hv : v ∈ js.map Join.pidx
  · obtain ⟨j, hj, rfl⟩ := List.mem_map.1 hv
    have hle : height j.pidx ≤ (js.map fun i => height i.pidx).foldr max 0 :=
      List.le_max_of_le' 0 (List.mem_map_of_mem hj) (Nat.le_refl _)
    obtain ⟨m, hm⟩ := Nat.exists_eq_add_of_le hle
    exact hjoined m j hj hm
  · rw [h.leaf v hv]
    have hfirst : i0 * w + 0 ∈ blockPackets w i0 := List.mem_map_of_mem (List.mem_range.2 hw)
    exact (Nat.zero_le _).trans_lt (hlost _ (mem_packets_of_block hi0 hfirst))

/-! ## The DAG of the repair -/

variable (hR : n ≤ REQUESTOR)
include hR

/-- The concatenations are `Join`s on new vertices too. -/
theorem fresh : ECDAG.Fresh (js ++ concactJoins n w failed) := by
  have hconcact : ∀ j ∈ concactJoins n w failed, ∃ i ∈ losses n failed, j.pidx = REQUESTOR - i ∧
      j.cidx = blockPackets w i := by
    intro j hj
    obtain ⟨i, hi, rfl⟩ := List.mem_map.1 hj
    exact ⟨i, hi, rfl, rfl⟩
  have hpackets : ∀ i ∈ losses n failed, ∀ i' ∈ losses n failed,
      REQUESTOR - i ∉ blockPackets w i' := by
    intro i hi i' hi' hm
    obtain ⟨j, hj, he⟩ := List.mem_map.1 (h.joined _ (mem_packets_of_block hi' hm))
    exact (h.free j hj i (mem_losses.1 hi).1).1 he
  refine ⟨fun j hj => ?_, fun j hj => ?_, List.pairwise_append.2 ⟨h.new, ?_, fun j hj j' hj' => ?_⟩⟩
  · rcases List.mem_append.1 hj with hj | hj
    · exact h.nonempty j hj
    · obtain ⟨i, -, -, hc⟩ := hconcact j hj
      rw [hc]
      exact List.ne_nil_of_mem (List.mem_map_of_mem (List.mem_range.2 hw))
  · rcases List.mem_append.1 hj with hj | hj
    · exact h.self hj
    · obtain ⟨i, hi, hp, hc⟩ := hconcact j hj
      rw [hp, hc]
      exact hpackets i hi i hi
  · have hnd := nodup_concacts hR failed
    rw [concactJoins, List.pairwise_map]
    refine (List.pairwise_map.1 hnd).imp_of_mem fun {i i'} hi hi' hne => ⟨Ne.symm hne, ?_⟩
    exact hpackets i' hi' i hi
  · obtain ⟨i, hi, hp, -⟩ := hconcact j' hj'
    rw [hp]
    exact ⟨(h.free j hj i (mem_losses.1 hi).1).1.symm, (h.free j hj i (mem_losses.1 hi).1).2⟩

/-- The height of a concatenation is `top`, other vertices keep theirs. -/
theorem height_build : (ECDAG.build (js ++ concactJoins n w failed)).height = fun v =>
    if v ∈ (losses n failed).map fun i => REQUESTOR - i then top else height v := by
  have hids : (concactJoins n w failed).map Join.pidx =
      (losses n failed).map fun i => REQUESTOR - i := by
    rw [concactJoins, List.map_map]
    rfl
  have hkeep : ∀ v, (∀ i ∈ losses n failed, v ≠ REQUESTOR - i) →
      (if v ∈ (losses n failed).map fun i => REQUESTOR - i then top else height v) = height v := by
    intro v hv
    refine if_neg fun hm => ?_
    obtain ⟨i, hi, he⟩ := List.mem_map.1 hm
    exact hv i hi he.symm
  refine (h.fresh hw hR).height_eq (fun j hj => ?_) fun v hv => ?_
  · rcases List.mem_append.1 hj with hj | hj
    · rw [hkeep _ fun i hi => (h.free j hj i (mem_losses.1 hi).1).1, h.join j hj]
      exact LinearProgram.above_congr fun c hc => (hkeep c fun i hi he =>
        (h.free j hj i (mem_losses.1 hi).1).2 (he ▸ hc)).symm
    · rw [if_pos (hids ▸ List.mem_map_of_mem hj)]
      obtain ⟨i, hi, rfl⟩ := List.mem_map.1 hj
      refine (h.top i hi).symm.trans (LinearProgram.above_congr fun c hc =>
        (hkeep c fun i' hi' he => ?_).symm)
      obtain ⟨j', hj', he'⟩ := List.mem_map.1 (h.joined c (mem_packets_of_block hi hc))
      exact (h.free j' hj' i' (mem_losses.1 hi').1).1 (he'.trans he)
  · rw [List.map_append, hids, List.mem_append, not_or] at hv
    rw [if_neg hv.2, h.leaf v hv.1]

variable {decode : List Nat → List Nat → ECDAG}
  (hdec : decode (packets w (survivors n failed)) (packets w (losses n failed)) = .build js)
include hdec

/-- **The children**: of a `Join`, or of a concatenation. -/
theorem mem_childIndices {v c : Nat} : c ∈ (genRepairECDAG decode n w failed).childIndices v ↔
    (∃ j ∈ js, j.pidx = v ∧ c ∈ j.cidx) ∨
      ∃ i ∈ losses n failed, REQUESTOR - i = v ∧ c ∈ blockPackets w i := by
  rw [genRepairECDAG_eq hw hdec]
  refine (h.fresh hw hR).mem_childIndices.trans ?_
  simp only [List.mem_append, or_and_right, exists_or]
  refine or_congr_right ⟨?_, ?_⟩
  · rintro ⟨j, hj, rfl, hc⟩
    obtain ⟨i, hi, rfl⟩ := List.mem_map.1 hj
    exact ⟨i, hi, rfl, hc⟩
  · rintro ⟨i, hi, rfl, hc⟩
    exact ⟨_, List.mem_map_of_mem hi, rfl, hc⟩

theorem childIndices_concact {i : Nat} (hi : i ∈ losses n failed) :
    (genRepairECDAG decode n w failed).childIndices (REQUESTOR - i) = blockPackets w i := by
  rw [genRepairECDAG_eq hw hdec]
  exact (h.fresh hw hR).childIndices.1 _ (List.mem_append_right _ (List.mem_map_of_mem hi))

theorem height_eq (v : Nat) : (genRepairECDAG decode n w failed).height v =
    if v ∈ (losses n failed).map fun i => REQUESTOR - i then top else height v := by
  rw [genRepairECDAG_eq hw hdec]
  exact congrFun (h.height_build hw hR) v

variable (hne : losses n failed ≠ [])
include hne

theorem numLevels_eq : (genRepairECDAG decode n w failed).numLevels = top + 1 := by
  obtain ⟨i, hi⟩ := List.exists_mem_of_ne_nil _ hne
  have hmem : REQUESTOR - i ∈ (genRepairECDAG decode n w failed).nodeIds := by
    have hfirst : i * w + 0 ∈ blockPackets w i := List.mem_map_of_mem (List.mem_range.2 hw)
    have hwf : (genRepairECDAG decode n w failed).WellFormed :=
      (genRepairECDAG_spec hw hdec (Or.inl rfl)).1.wellFormed
    rw [← h.childIndices_concact hw hR hdec hi] at hfirst
    exact (hwf.childIndices_nodeIds hfirst).2
  refine Nat.le_antisymm (LinearProgram.above_le_iff.2 fun v _ => ?_) ?_
  · rw [h.height_eq hw hR hdec]
    split
    · exact Nat.lt_succ_self top
    · exact (h.lt_top hw hne v).trans (Nat.lt_succ_self top)
  · have hlt := ECDAG.height_lt_numLevels hmem
    rwa [h.height_eq hw hR hdec, if_pos (List.mem_map_of_mem hi)] at hlt

/-- **In layers each packet is used on one level.** -/
theorem oneLevel : (genRepairECDAG decode n w failed).OneLevel := by
  have hwf : (genRepairECDAG decode n w failed).WellFormed :=
    (genRepairECDAG_spec hw hdec (Or.inl rfl)).1.wellFormed
  have hjoin : ∀ j ∈ js, (genRepairECDAG decode n w failed).height j.pidx = height j.pidx := by
    intro j hj
    rw [h.height_eq hw hR hdec, if_neg]
    intro hm
    obtain ⟨i, hi, he⟩ := List.mem_map.1 hm
    exact (h.free j hj i (mem_losses.1 hi).1).1 he.symm
  have hconcact : ∀ i ∈ losses n failed,
      (genRepairECDAG decode n w failed).height (REQUESTOR - i) = top := by
    intro i hi
    rw [h.height_eq hw hR hdec, if_pos (List.mem_map_of_mem hi)]
  -- a packet is used by `Join`s or by the concatenation of its block
  have hparent : ∀ u p, p ∈ (genRepairECDAG decode n w failed).parentIds u →
      (∃ j ∈ js, j.pidx = p ∧ u ∈ j.cidx) ∨
        ∃ i ∈ losses n failed, REQUESTOR - i = p ∧ u ∈ blockPackets w i :=
    fun u p hp => (h.mem_childIndices hw hR hdec).1 (hwf.mem_parentIds.1 hp)
  have hapart : ∀ {u}, ∀ i ∈ losses n failed, u ∈ blockPackets w i → ∀ j ∈ js, u ∉ j.cidx :=
    fun i hi hu => h.unread _ (mem_packets_of_block hi hu)
  constructor
  · intro u p hp q hq
    rcases hparent u p hp with ⟨j, hj, rfl, hu⟩ | ⟨i, hi, rfl, hu⟩
    · rcases hparent u q hq with ⟨j', hj', rfl, hu'⟩ | ⟨i, hi, rfl, hu'⟩
      · rw [hjoin j hj, hjoin j' hj', h.level j hj j' hj' u hu hu']
      · exact absurd hu (hapart i hi hu' j hj)
    · rcases hparent u q hq with ⟨j', hj', rfl, hu'⟩ | ⟨i', hi', rfl, hu'⟩
      · exact absurd hu' (hapart i hi hu j' hj')
      · rw [hconcact i hi, hconcact i' hi']
  · intro u p hp hlast
    rw [h.numLevels_eq hw hR hdec hne, Nat.add_sub_cancel] at hlast
    rcases hparent u p hp with ⟨j, hj, rfl, -⟩ | ⟨i, hi, rfl, hu⟩
    · rw [hjoin j hj] at hlast
      exact absurd hlast (h.lt_top hw hne j.pidx).ne
    · rw [h.childIndices_concact hw hR hdec hi]
      refine ⟨List.count_eq_one_of_mem (nodup_blockPackets w i) hu, fun q hq => ?_⟩
      rcases hparent u q hq with ⟨j', hj', rfl, hu'⟩ | ⟨i', hi', rfl, hu'⟩
      · exact absurd hu' (hapart i hi hu j' hj')
      · rw [← div_of_mem_blockPackets hu, ← div_of_mem_blockPackets hu']

/-- **The concatenations are the last level.** -/
theorem concactsLast (hsub : failed ⊆ Finset.range n) :
    Stripe.ConcactsLast (genRepairECDAG decode n w failed) w failed := by
  have hmem : ∀ i ∈ failed, i ∈ losses n failed := fun i hi =>
    mem_losses.2 ⟨Finset.mem_range.1 (hsub hi), hi⟩
  refine ⟨fun i hi => h.childIndices_concact hw hR hdec (hmem i hi), fun i hi => ?_, fun v _ hv => ?_⟩
  · rw [h.height_eq hw hR hdec, if_pos (List.mem_map_of_mem (hmem i hi)),
      h.numLevels_eq hw hR hdec hne, Nat.add_sub_cancel]
  · rw [h.height_eq hw hR hdec, h.numLevels_eq hw hR hdec hne, Nat.add_sub_cancel] at hv
    rw [ecConcacts_genRepairECDAG hw hdec]
    by_contra hno
    rw [if_neg hno] at hv
    exact (h.lt_top hw hne v).ne hv

omit hw hR hdec hne in
/-- **What the planner relies on.** -/
theorem decodes : Decodes js n w failed := by
  refine ⟨h.nonempty, fun v hv => ?_, fun v hv => ?_, fun i hi hm => ?_⟩
  · obtain ⟨j, hj, hvj⟩ := ECDAG.mem_cidx_of_mem_ecLeaves hv
    refine (h.surviving j hj v hvj).resolve_left fun hp => ?_
    obtain ⟨j', hj', rfl⟩ := List.mem_map.1 hp
    have hleaf := ((ECDAG.leavesRight_build h.nonempty).leaves j'.pidx).1 hv
    rw [h.fresh_joins.childIndices.1 j' hj'] at hleaf
    exact h.nonempty j' hj' hleaf.2
  · obtain ⟨j, hj, rfl⟩ := List.mem_map.1 (h.joined v hv)
    exact (ECDAG.mem_nodeIds_build js _).2 ⟨j, hj, Or.inl rfl⟩
  · obtain ⟨j, hj, he⟩ := (ECDAG.mem_nodeIds_build js _).1 hm
    rcases he with he | he
    · exact (h.free j hj i (mem_losses.1 hi).1).1 he.symm
    · exact (h.free j hj i (mem_losses.1 hi).1).2 he

omit hne in
theorem requestor_not_mem (hn : 0 < n) (v : Nat) :
    REQUESTOR ∉ (genRepairECDAG decode n w failed).childIndices v := by
  intro hm
  rcases (h.mem_childIndices hw hR hdec).1 hm with ⟨j, hj, -, hc⟩ | ⟨i, hi, -, hc⟩
  · exact (h.free j hj 0 hn).2 hc
  · obtain ⟨j, hj, he⟩ := List.mem_map.1 (h.joined _ (mem_packets_of_block hi hc))
    exact (h.free j hj 0 hn).1 he

omit hne in
/-- Nothing is left for `refreshECDAG` to drop. -/
theorem refreshECDAG_eq : (genRepairECDAG decode n w failed).refreshECDAG =
    genRepairECDAG decode n w failed := by
  obtain ⟨hwf, hright, -, hsub⟩ := genRepairECDAG_of_decodes hR hw hdec h.decodes
  refine if_neg (not_not.2 (List.Perm.length_eq ?_))
  have hconcacts := ecConcacts_genRepairECDAG hw hdec
  refine (List.perm_ext_iff_of_nodup hwf.headersNodup ?_).2 fun v => ⟨fun hv => ?_, hsub v⟩
  · rw [hconcacts]
    exact nodup_concacts hR failed
  · have hunused : ∀ p, v ∉ (genRepairECDAG decode n w failed).childIndices p := by
      intro p hp
      obtain ⟨nd, hnd, -, hc⟩ := hwf.mem_childIndices.1 hp
      exact hwf.headers v hv nd hnd hc
    obtain ⟨c, hc⟩ := List.exists_mem_of_ne_nil _ (hright.headers v hv)
    rcases (h.mem_childIndices hw hR hdec).1 hc with ⟨j, hj, rfl, -⟩ | ⟨i, hi, rfl, -⟩
    · rcases h.used j hj with hl | ⟨i, hi, hu⟩
      · obtain ⟨b, hb, hl⟩ := List.mem_flatMap.1 hl
        exact absurd ((h.mem_childIndices hw hR hdec).2 (Or.inr ⟨b, hb, rfl, hl⟩)) (hunused _)
      · exact absurd ((h.mem_childIndices hw hR hdec).2 (Or.inl ⟨i, hi, rfl, hu⟩)) (hunused _)
    · rw [hconcacts]
      exact List.mem_map_of_mem hi

end

end Layers

end StripeRepair

import Mathlib
import StripeRepair.Common.TradeoffPoints
import StripeRepair.Sol.Prepare

/-!
# Offline colouring

`OfflineSolution` colours the intermediate vertices of a stripe by a table that was computed
beforehand, with block indices as colours. For several failed nodes the table is looked up by
the sum of the powers of the failed node ids, and the colours are taken as node ids.

* `keysRight_iff`: when the key tells the failed blocks.
* `followsPoint_iff`: when the colouring is the one that was looked up.
* `singleFailure_follows`: with one failed node the colours are read as blocks.
* `offlineColoring_iff`: the key and the colouring of several failed nodes.
-/

namespace StripeRepair

open PRSolution (colorAt)

namespace OfflineSolution

section
variable (p : ParallelSolution) (placement : List Int) (failNodeIds : List Int)

/-- A block has an entry for each failed node that it is on. -/
def failBlockIdx : List Nat :=
  (List.range placement.length).flatMap fun i =>
    (failNodeIds.filter fun failNodeId => placement.getD i 0 = failNodeId).map fun _ => i

/-- `fail_block_idx_int`; a sum that is no `int` has no value. -/
def failBlockIdxInt : Option Nat :=
  (failBlockIdx placement failNodeIds).foldlM (fun key i =>
    let sum := key + 2 ^ (placement.getD i 0).toNat
    if sum < 2 ^ 31 then some sum else none) 0

variable (d : ECDAG) (numAgents : Nat)

/-- The agents that are not to be avoided. -/
def free (avoid : List Int) : List Int :=
  ((List.range numAgents).map fun i : Nat => (i : Int)).filter fun i => i ∉ avoid

/-- One concatenation; `draws` is what `rand` returns. Without candidates there is a division
by zero. -/
def colorConcact (draws : Nat → Nat) (st : Coloring × List Int) (item : Nat × Nat) :
    Option (Coloring × List Int) :=
  let candidates := free numAgents st.2
  if candidates = [] then none
  else
    let repairNode := candidates.getD (draws item.2 % candidates.length) 0
    some (st.1.insertNew item.1 repairNode, st.2 ++ [repairNode])

/-- The intermediate vertices in ascending order. -/
def itmIdx : List Nat :=
  (d.nodeIds.filter fun v => v ∉ d.ecHeaders ∧ v ∉ d.ecLeaves).insertionSort (· ≤ ·)

/-- `exit` for standby. A colour past the end of the point has no value. -/
def genOfflineColoringForMultipleFailure (tp : TradeoffPoints) (scenario : Scenario)
    (draws : Nat → Nat) : Option Coloring :=
  match scenario with
  | .standby => none
  | .scatter => do
    let st := d.ecLeaves.foldl (p.colorLeaf placement) (∅, failNodeIds)
    let st ← d.ecConcacts.zipIdx.foldlM (colorConcact numAgents draws) st
    let key ← failBlockIdxInt placement failNodeIds
    let itmOfflineColoring ← tp.getColoringByIdx key
    if (itmIdx d).length ≤ itmOfflineColoring.length then
      some (((itmIdx d).zip itmOfflineColoring).foldl
        (fun res e => Coloring.insertNew res e.1 e.2) st.1)
    else none

/-! ## One failed node -/

/-- `fail_block_idx`: the last block on the node. -/
def failBlock (failNodeId : Int) : Option Nat :=
  (List.range placement.length).foldl
    (fun blk i => if placement.getD i 0 = failNodeId then some i else blk) none

/-- The node of a colour. -/
def pointNode (failBlock : Nat) (repairNode : Int) (blkidx : Int) : Int :=
  if blkidx = failBlock then repairNode else placement.getD blkidx.toNat 0

/-- `repair_node_id` -/
def chooseNode (avoid : List Int) (failNodeId : Int) (scenario : Scenario) (draw : Nat) :
    Option Int :=
  match scenario with
  | .standby => some failNodeId
  | .scatter =>
    let candidates := free numAgents (avoid ++ [failNodeId])
    if candidates = [] then none
    else some (candidates.getD (draw % candidates.length) 0)

/-- `res` and `stripe->_new_node`. A colour that is no block has no value. -/
def genOfflineColoringForSingleFailure (tp : TradeoffPoints) (failNodeId : Int)
    (scenario : Scenario) (draw : Nat) : Option (Coloring × Int) := do
  let blk ← failBlock placement failNodeId
  let st := d.ecLeaves.foldl (p.colorLeaf placement) (∅, [])
  let repairNode ← chooseNode numAgents st.2 failNodeId scenario draw
  let header ← d.ecHeaders.head?
  let itmOfflineColoring ← tp.getColoringByIdx blk
  let colors := itmOfflineColoring.take (itmIdx d).length
  if colors.length = (itmIdx d).length ∧ ∀ b ∈ colors, 0 ≤ b ∧ b < placement.length then
    some (((itmIdx d).zip (colors.map (pointNode placement blk repairNode))).foldl
      (fun res e => Coloring.insertNew res e.1 e.2) (st.1.insertNew header repairNode), repairNode)
  else none

/-! ## What is wanted -/

/-- The node of a colour: the one that stores the block, or the one on which the block is
repaired. -/
def colorNode (res : Coloring) : Int → Option Int
  | .ofNat blkidx =>
    if blkidx ∈ p.failBlocks placement failNodeIds then some (colorAt res (REQUESTOR - blkidx))
    else placement[blkidx]?
  | .negSucc _ => none

structure Follows (res : Coloring) (point : List Int) : Prop where
  color : ∀ i (hi : i < (itmIdx d).length), ∃ b, point[i]? = some b ∧
    colorNode p placement failNodeIds res b = some (colorAt res ((itmIdx d).get ⟨i, hi⟩))
  alive : ∀ v ∈ itmIdx d, colorAt res v ∉ failNodeIds
  total : ∀ v ∈ d.nodeIds, v ∈ res

/-- There is a point, and it is followed whatever is drawn. -/
def FollowsPoint (tp : TradeoffPoints) (scenario : Scenario) : Prop :=
  ∃ key point, failBlockIdxInt placement failNodeIds = some key ∧
    tp.getColoringByIdx key = some point ∧
    ∀ draws, ∃ res, genOfflineColoringForMultipleFailure p placement failNodeIds d numAgents tp
      scenario draws = some res ∧ Follows p placement failNodeIds d res point

/-- The keys of two calls are `int`s, and equal exactly when the failed blocks are the same. -/
structure KeysRight (placement' failNodeIds' : List Int) : Prop where
  isSome : (failBlockIdxInt placement failNodeIds).isSome
  isSome' : (failBlockIdxInt placement' failNodeIds').isSome
  eq_iff : failBlockIdxInt placement failNodeIds = failBlockIdxInt placement' failNodeIds' ↔
    p.failBlocks placement failNodeIds = p.failBlocks placement' failNodeIds'

/-! ## When it is so -/

/-- The failed nodes that store a block. -/
def failedNodes : Finset Nat :=
  (p.failBlocks placement failNodeIds).image fun i => (placement.getD i 0).toNat

/-- The candidates for the first failed block. -/
def candidates : List Int :=
  free numAgents (d.ecLeaves.foldl (p.colorLeaf placement) (∅, failNodeIds)).2

/-- A colour of the point is right when it is the node that stores the block, or the block is
the only one that failed and the only candidate has its number. -/
def ColorRight (b : Nat) : Prop :=
  (b ∉ p.failBlocks placement failNodeIds ∧ placement[b]? = some (b : Int)) ∨
    (p.failBlocks placement failNodeIds = {b} ∧
      candidates p placement failNodeIds d numAgents = [(b : Int)])

structure PointFits (point : List Int) : Prop where
  length : (itmIdx d).length ≤ point.length
  colors : ∀ b ∈ point.take (itmIdx d).length,
    0 ≤ b ∧ ColorRight p placement failNodeIds d numAgents b.toNat

/-- What a call needs: failed nodes below 31, a point that fits, enough candidates and no
header besides the concatenations. -/
structure CallFits (tp : TradeoffPoints) : Prop where
  small : ∀ x ∈ failedNodes p placement failNodeIds, x < 31
  point : ∃ point, tp.getColoringByIdx (∑ x ∈ failedNodes p placement failNodeIds, 2 ^ x) =
    some point ∧ PointFits p placement failNodeIds d numAgents point
  enough : (p.failBlocks placement failNodeIds).card ≤
    (candidates p placement failNodeIds d numAgents).length
  headers : ∀ v ∈ d.ecHeaders, v ∈ d.ecConcacts

end

/-! ## The key -/

section
variable {p : ParallelSolution} {placement failNodeIds : List Int}

/-- A stripe and a set of failed nodes. -/
structure Stored (p : ParallelSolution) (placement failNodeIds : List Int) : Prop where
  length : placement.length = p.ecn
  nodup : placement.Nodup
  nodes : ∀ x ∈ placement, 0 ≤ x
  failNodup : failNodeIds.Nodup

variable (h : Stored p placement failNodeIds)
include h

theorem Stored.failBlockIdx_eq :
    failBlockIdx placement failNodeIds = losses p.ecn (p.failBlocks placement failNodeIds) := by
  have hfilter : ∀ l : List Nat, (∀ i ∈ l, i < p.ecn) →
      (l.flatMap fun i => (failNodeIds.filter fun f => placement.getD i 0 = f).map fun _ => i) =
        l.filter (· ∈ p.failBlocks placement failNodeIds) := by
    intro l hl
    induction l with
    | nil => rfl
    | cons i l ih =>
      have hi : i ∈ p.failBlocks placement failNodeIds ↔ placement.getD i 0 ∈ failNodeIds := by
        rw [ParallelSolution.failBlocks, Finset.mem_filter, Finset.mem_range]
        exact and_iff_right (hl i List.mem_cons_self)
      have hnodes : (failNodeIds.filter fun f => placement.getD i 0 = f) =
          List.replicate (failNodeIds.count (placement.getD i 0)) (placement.getD i 0) := by
        rw [← List.filter_eq]
        exact List.filter_congr fun f _ => decide_eq_decide.2 eq_comm
      rw [List.flatMap_cons, ih fun j hj => hl j (List.mem_cons_of_mem _ hj), List.filter_cons,
        hnodes, List.map_replicate, h.failNodup.count]
      by_cases hmem : placement.getD i 0 ∈ failNodeIds
      · rw [if_pos hmem, if_pos (decide_eq_true (hi.2 hmem))]
        rfl
      · rw [if_neg hmem, if_neg fun hf => hmem (hi.1 (of_decide_eq_true hf))]
        rfl
  rw [failBlockIdx, h.length]
  exact hfilter _ fun i hi => List.mem_range.1 hi

/-- Blocks on the same node are the same. -/
theorem Stored.node_inj {i j : Nat} (hi : i < p.ecn) (hj : j < p.ecn)
    (heq : (placement.getD i 0).toNat = (placement.getD j 0).toNat) : i = j := by
  rw [← h.length] at hi hj
  rw [List.getD_eq_getElem _ _ hi, List.getD_eq_getElem _ _ hj] at heq
  have h1 := h.nodes _ (List.getElem_mem hi)
  have h2 := h.nodes _ (List.getElem_mem hj)
  exact (h.nodup.getElem_inj_iff).1 (by omega)

theorem Stored.sum_failBlockIdx :
    ((failBlockIdx placement failNodeIds).map fun i => 2 ^ (placement.getD i 0).toNat).sum =
      ∑ x ∈ failedNodes p placement failNodeIds, 2 ^ x := by
  have hset : (losses p.ecn (p.failBlocks placement failNodeIds)).toFinset =
      p.failBlocks placement failNodeIds := by
    ext i
    rw [List.mem_toFinset, mem_losses]
    exact ⟨fun hi => hi.2, fun hi => ⟨Finset.mem_range.1 (Finset.mem_filter.1 hi).1, hi⟩⟩
  have hnodup : (losses p.ecn (p.failBlocks placement failNodeIds)).Nodup :=
    List.nodup_range.filter _
  rw [h.failBlockIdx_eq, ← List.sum_toFinset _ hnodup, hset, failedNodes,
    Finset.sum_image]
  intro i hi j hj heq
  exact h.node_inj (Finset.mem_range.1 (Finset.mem_filter.1 hi).1)
    (Finset.mem_range.1 (Finset.mem_filter.1 hj).1) heq

omit h in
theorem foldlM_sum {l : List Nat} (f : Nat → Nat) {k : Nat} (hk : k < 2 ^ 31) :
    l.foldlM (fun key i => let sum := key + f i; if sum < 2 ^ 31 then some sum else none) k =
      if k + (l.map f).sum < 2 ^ 31 then some (k + (l.map f).sum) else none := by
  induction l generalizing k with
  | nil => exact (if_pos hk).symm
  | cons i l ih =>
    rw [List.foldlM_cons, List.map_cons, List.sum_cons, ← Nat.add_assoc]
    by_cases hi : k + f i < 2 ^ 31
    · simp only [if_pos hi]
      exact ih hi
    · simp only [if_neg hi]
      rw [if_neg (by omega)]
      rfl

theorem Stored.failBlockIdxInt_eq : failBlockIdxInt placement failNodeIds =
    if ∀ x ∈ failedNodes p placement failNodeIds, x < 31 then
      some (∑ x ∈ failedNodes p placement failNodeIds, 2 ^ x) else none := by
  have hfold := foldlM_sum (l := failBlockIdx placement failNodeIds)
    (fun i => 2 ^ (placement.getD i 0).toNat) (show 0 < 2 ^ 31 by decide)
  rw [Nat.zero_add, h.sum_failBlockIdx] at hfold
  refine hfold.trans (if_congr ⟨fun hlt x hx => ?_, fun hsmall => ?_⟩ rfl rfl)
  · have hle : 2 ^ x ≤ ∑ x ∈ failedNodes p placement failNodeIds, 2 ^ x :=
      Finset.single_le_sum (fun _ _ => Nat.zero_le _) hx
    exact (Nat.pow_lt_pow_iff_right Nat.one_lt_two).1 (hle.trans_lt hlt)
  · exact Nat.geomSum_lt (Nat.le_refl 2) hsmall

theorem Stored.isSome_iff : (failBlockIdxInt placement failNodeIds).isSome ↔
    ∀ x ∈ failedNodes p placement failNodeIds, x < 31 := by
  rw [h.failBlockIdxInt_eq]
  split
  next hsmall => exact iff_of_true rfl hsmall
  next hsmall => exact iff_of_false (by simp) hsmall

/-- **The key** tells the failed nodes, when their ids are below 31. -/
theorem keysRight_iff {placement' failNodeIds' : List Int}
    (h' : Stored p placement' failNodeIds') :
    KeysRight p placement failNodeIds placement' failNodeIds' ↔
      (∀ x ∈ failedNodes p placement failNodeIds, x < 31) ∧
      (∀ x ∈ failedNodes p placement' failNodeIds', x < 31) ∧
      (failedNodes p placement failNodeIds = failedNodes p placement' failNodeIds' ↔
        p.failBlocks placement failNodeIds = p.failBlocks placement' failNodeIds') := by
  have heq : (∀ x ∈ failedNodes p placement failNodeIds, x < 31) →
      (∀ x ∈ failedNodes p placement' failNodeIds', x < 31) →
      (failBlockIdxInt placement failNodeIds = failBlockIdxInt placement' failNodeIds' ↔
        failedNodes p placement failNodeIds = failedNodes p placement' failNodeIds') := by
    intro hsmall hsmall'
    rw [h.failBlockIdxInt_eq, h'.failBlockIdxInt_eq, if_pos hsmall, if_pos hsmall', Option.some_inj]
    exact (Finset.geomSum_injective (Nat.le_refl 2)).eq_iff
  constructor
  · rintro ⟨h1, h2, h3⟩
    have hsmall := h.isSome_iff.1 h1
    have hsmall' := h'.isSome_iff.1 h2
    exact ⟨hsmall, hsmall', (heq hsmall hsmall').symm.trans h3⟩
  · rintro ⟨hsmall, hsmall', h3⟩
    exact ⟨h.isSome_iff.2 hsmall, h'.isSome_iff.2 hsmall', (heq hsmall hsmall').trans h3⟩

end

/-! ## The draws -/

section
variable {numAgents : Nat}

theorem free_eq_spare (avoid : List Int) :
    free numAgents avoid = ParallelSolution.spare ⟨0, 0, 0, numAgents⟩ [] avoid := by
  unfold free ParallelSolution.spare ParallelSolution.clusterSize
  simp

theorem notMem_of_mem_free {avoid : List Int} {x : Int} (hx : x ∈ free numAgents avoid) :
    x ∉ avoid := by
  rw [free, List.mem_filter, decide_eq_true_eq] at hx
  exact hx.2

theorem shrinks_free : Draws.Shrinks (free numAgents) := by
  rw [show free numAgents = _ from funext free_eq_spare]
  exact ParallelSolution.shrinks_spare

/-- With enough candidates the concatenations get the draws. -/
theorem foldlM_colorConcact (draws : Nat → Nat) (vs : List Nat) (i : Nat)
    (st : Coloring × List Int) (h : vs.length ≤ (free numAgents st.2).length) :
    ∃ avoid, (vs.zipIdx i).foldlM (colorConcact numAgents draws) st =
      some ((vs.zip (Draws.draw (free numAgents) 0 draws i st.2 vs.length)).foldl
        (fun r e => Coloring.insertNew r e.1 e.2) st.1, avoid) := by
  induction vs generalizing i st with
  | nil => exact ⟨st.2, rfl⟩
  | cons v vs ih =>
    rw [List.length_cons] at h
    have hne : free numAgents st.2 ≠ [] := List.length_pos_iff.1 (by omega)
    have hpick : Draws.pick (free numAgents) 0 draws i st.2 ∈ free numAgents st.2 :=
      Draws.pick_mem hne
    obtain ⟨avoid, hrun⟩ := ih (i + 1)
      (st.1.insertNew v (Draws.pick (free numAgents) 0 draws i st.2),
        st.2 ++ [Draws.pick (free numAgents) 0 draws i st.2])
      (show vs.length ≤ (free numAgents (st.2 ++ [_])).length by
        rw [shrinks_free.length_snoc hpick]
        omega)
    refine ⟨avoid, ?_⟩
    rw [List.zipIdx_cons, List.foldlM_cons, colorConcact, if_neg hne]
    exact hrun

/-- Without enough candidates the draws fail. -/
theorem foldlM_colorConcact_none (draws : Nat → Nat) (vs : List Nat) (i : Nat)
    (st : Coloring × List Int) (h : (free numAgents st.2).length < vs.length) :
    (vs.zipIdx i).foldlM (colorConcact numAgents draws) st = none := by
  induction vs generalizing i st with
  | nil => exact absurd h (Nat.not_lt_zero _)
  | cons v vs ih =>
    rw [List.zipIdx_cons, List.foldlM_cons, colorConcact]
    by_cases hnil : free numAgents st.2 = []
    · simp only [if_pos hnil]
      rfl
    · simp only [if_neg hnil]
      refine ih (i + 1) _ ?_
      show (free numAgents (st.2 ++ [Draws.pick (free numAgents) 0 draws i st.2])).length < vs.length
      rw [shrinks_free.length_snoc (Draws.pick_mem hnil)]
      rw [List.length_cons] at h
      have := List.length_pos_iff.2 hnil
      omega

end

/-! ## The colouring -/

theorem mem_losses_failBlocks {p : ParallelSolution} {placement failNodeIds : List Int} {b : Nat}
    (hb : b ∈ p.failBlocks placement failNodeIds) :
    b ∈ losses p.ecn (p.failBlocks placement failNodeIds) :=
  mem_losses.2 ⟨Finset.mem_range.1 (Finset.mem_filter.1 hb).1, hb⟩

/-- The DAG the stripe builds: its concatenations are headers, and headers are no leaves. -/
structure Concatenated (d : ECDAG) (n : Nat) (failed : Finset Nat) : Prop where
  wellFormed : d.WellFormed
  leavesRight : d.LeavesRight
  concacts : d.ecConcacts = (losses n failed).map fun i => REQUESTOR - i
  headers : ∀ v ∈ d.ecConcacts, v ∈ d.ecHeaders

theorem mem_itmIdx {d : ECDAG} {v : Nat} :
    v ∈ itmIdx d ↔ v ∈ d.nodeIds ∧ v ∉ d.ecHeaders ∧ v ∉ d.ecLeaves := by
  rw [itmIdx, List.mem_insertionSort, List.mem_filter, decide_eq_true_eq]

/-- A loop of `insert`s that stops with the shorter list. -/
theorem foldl_insertNew_take (vs : List Nat) (cs : List Int) (res : Coloring) :
    (vs.zip cs).foldl (fun r e => Coloring.insertNew r e.1 e.2) res =
      (vs.zip (cs.take vs.length)).foldl (fun r e => Coloring.insertNew r e.1 e.2) res := by
  induction vs generalizing cs res with
  | nil => rfl
  | cons v vs ih =>
    cases cs with
    | nil => rfl
    | cons c cs => exact ih cs _

theorem colorAt_get_of_map {vs : List Nat} {res : Coloring} {cs : List Int} {c : Int}
    (h : vs.map (colorAt res) = cs) {i : Nat} (hi : i < vs.length) (hc : cs[i]? = some c) :
    colorAt res (vs.get ⟨i, hi⟩) = c := by
  rw [← h, List.getElem?_map, List.getElem?_eq_getElem hi, Option.map_some, Option.some_inj] at hc
  exact hc

/-- The nodes that are drawn for the concatenations. -/
def repairNodes (p : ParallelSolution) (placement failNodeIds : List Int) (d : ECDAG)
    (numAgents : Nat) (draws : Nat → Nat) : List Int :=
  Draws.draw (free numAgents) 0 draws 0
    (d.ecLeaves.foldl (p.colorLeaf placement) (∅, failNodeIds)).2 d.ecConcacts.length

/-- The colouring that is returned. -/
structure Colored (d : ECDAG) (point : List Int) (rs : List Int) (res : Coloring) : Prop where
  keys : ∀ v, v ∈ res ↔ v ∈ itmIdx d ∨ v ∈ d.ecConcacts ∨ v ∈ d.ecLeaves
  concacts : d.ecConcacts.map (colorAt res) = rs
  inner : (itmIdx d).map (colorAt res) = point.take (itmIdx d).length

section
variable {p : ParallelSolution} {placement failNodeIds : List Int} {d : ECDAG} {numAgents : Nat}
  {tp : TradeoffPoints} {key : Nat} {point : List Int}
  (h : Stored p placement failNodeIds) (hR : p.ecn ≤ REQUESTOR)
  (hd : Concatenated d p.ecn (p.failBlocks placement failNodeIds))
include h hR hd

omit h hR in
theorem Concatenated.length_concacts :
    d.ecConcacts.length = (p.failBlocks placement failNodeIds).card := by
  rw [hd.concacts, List.length_map]
  exact length_losses (Finset.filter_subset _ _)

/-- **A run** with a point that is long enough and with enough candidates. -/
theorem gen_eq_some (hkey : failBlockIdxInt placement failNodeIds = some key)
    (hpoint : tp.getColoringByIdx key = some point) (hlen : (itmIdx d).length ≤ point.length)
    (henough : (p.failBlocks placement failNodeIds).card ≤
      (candidates p placement failNodeIds d numAgents).length) (draws : Nat → Nat) :
    ∃ res, genOfflineColoringForMultipleFailure p placement failNodeIds d numAgents tp .scatter
        draws = some res ∧
      Colored d point (repairNodes p placement failNodeIds d numAgents draws) res := by
  rw [← hd.length_concacts] at henough
  obtain ⟨avoid, hrun⟩ := foldlM_colorConcact draws d.ecConcacts 0
    (d.ecLeaves.foldl (p.colorLeaf placement) (∅, failNodeIds)) henough
  have hleaves := (ParallelSolution.foldl_colorLeaf h.length d.ecLeaves (∅, failNodeIds)
    fun u hu => absurd hu (AList.notMem_empty u)).1
  have hleaf : ∀ v, v ∈ (d.ecLeaves.foldl (p.colorLeaf placement) (∅, failNodeIds)).1 ↔
      v ∈ d.ecLeaves := fun v => (hleaves v).trans (or_iff_left (AList.notMem_empty v))
  have hnoleaf : ∀ v ∈ d.ecHeaders, v ∉ d.ecLeaves := fun v hv hl =>
    hd.leavesRight.headers v hv ((hd.leavesRight.leaves v).1 hl).2
  obtain ⟨h1, h2, h3⟩ := Coloring.foldl_insertNew_zip d.ecConcacts
    (repairNodes p placement failNodeIds d numAgents draws)
    (d.ecLeaves.foldl (p.colorLeaf placement) (∅, failNodeIds)).1 (Draws.length_draw ..).symm
    (hd.concacts ▸ nodup_concacts hR _)
    fun v hv hm => hnoleaf v (hd.headers v hv) ((hleaf v).1 hm)
  obtain ⟨h4, h5, h6⟩ := Coloring.foldl_insertNew_zip (itmIdx d)
    (point.take (itmIdx d).length)
    ((d.ecConcacts.zip (repairNodes p placement failNodeIds d numAgents draws)).foldl
      (fun r e => Coloring.insertNew r e.1 e.2)
      (d.ecLeaves.foldl (p.colorLeaf placement) (∅, failNodeIds)).1)
    (by rw [List.length_take]; omega)
    ((List.perm_insertionSort _ _).nodup_iff.2 (hd.wellFormed.nodup.filter _))
    (fun v hv hm => by
      obtain ⟨-, hheader, hl⟩ := mem_itmIdx.1 hv
      rcases (h1 v).1 hm with hm | hm
      · exact hheader (hd.headers v hm)
      · exact hl ((hleaf v).1 hm))
  refine ⟨_, ?_, fun v => ?_, ?_, h6⟩
  · unfold genOfflineColoringForMultipleFailure
    show Option.bind _ _ = _
    rw [hrun, Option.bind_some]
    show Option.bind _ _ = _
    rw [hkey, Option.bind_some]
    show Option.bind _ _ = _
    rw [hpoint, Option.bind_some, if_pos hlen, foldl_insertNew_take]
    rfl
  · rw [h4, h1, hleaf]
  · refine Eq.trans ?_ h3
    exact List.map_congr_left fun v hv => h5 v fun hm => (mem_itmIdx.1 hm).2.1 (hd.headers v hv)

omit h hR in
/-- A run that returns had them. -/
theorem of_gen_eq_some (hkey : failBlockIdxInt placement failNodeIds = some key)
    (hpoint : tp.getColoringByIdx key = some point) {draws : Nat → Nat} {res : Coloring}
    (hgen : genOfflineColoringForMultipleFailure p placement failNodeIds d numAgents tp .scatter
      draws = some res) :
    (itmIdx d).length ≤ point.length ∧ (p.failBlocks placement failNodeIds).card ≤
      (candidates p placement failNodeIds d numAgents).length := by
  unfold genOfflineColoringForMultipleFailure at hgen
  obtain ⟨st, hst, hgen⟩ := Option.bind_eq_some_iff.1 hgen
  obtain ⟨key', hkey', hgen⟩ := Option.bind_eq_some_iff.1 hgen
  obtain ⟨point', hpoint', hgen⟩ := Option.bind_eq_some_iff.1 hgen
  rw [hkey, Option.some_inj] at hkey'
  subst hkey'
  rw [hpoint, Option.some_inj] at hpoint'
  subst hpoint'
  refine ⟨?_, ?_⟩
  · by_contra hlt
    rw [if_neg hlt] at hgen
    cases hgen
  · by_contra hlt
    rw [← hd.length_concacts] at hlt
    rw [foldlM_colorConcact_none draws d.ecConcacts 0 _ (Nat.not_le.1 hlt)] at hst
    cases hst

omit h hR in
theorem Colored.repairNode {rs : List Int} {res : Coloring} (hc : Colored d point rs res)
    {j b : Nat} (hj : (losses p.ecn (p.failBlocks placement failNodeIds))[j]? = some b) :
    rs[j]? = some (colorAt res (REQUESTOR - b)) := by
  rw [← hc.concacts, hd.concacts, List.map_map, List.getElem?_map, hj]
  rfl

omit h hR hd in
/-- The intermediate vertices get the numbers of the point. -/
theorem Colored.color {rs : List Int} {res : Coloring} (hc : Colored d point rs res) {i : Nat}
    (hi : i < (itmIdx d).length) (hlt : i < point.length) :
    colorAt res ((itmIdx d).get ⟨i, hi⟩) = point.get ⟨i, hlt⟩ := by
  refine colorAt_get_of_map hc.inner hi ?_
  rw [List.getElem?_take, if_pos hi, List.getElem?_eq_getElem hlt]
  rfl

omit h hR in
/-- **Following the point**: its numbers are the nodes that they stand for. -/
theorem Colored.follows_iff {rs : List Int} {res : Coloring} (hc : Colored d point rs res)
    (hlen : (itmIdx d).length ≤ point.length) :
    Follows p placement failNodeIds d res point ↔
      (∀ b ∈ point.take (itmIdx d).length,
        colorNode p placement failNodeIds res b = some b ∧ b ∉ failNodeIds) ∧
      ∀ v ∈ d.ecHeaders, v ∈ d.ecConcacts := by
  have hnoleaf : ∀ v ∈ d.ecHeaders, v ∉ d.ecLeaves := fun v hv hl =>
    hd.leavesRight.headers v hv ((hd.leavesRight.leaves v).1 hl).2
  constructor
  · intro hf
    refine ⟨fun b hb => ?_, fun v hv => ?_⟩
    · obtain ⟨i, hi, rfl⟩ := List.getElem_of_mem hb
      rw [List.length_take] at hi
      have hitm : i < (itmIdx d).length := by omega
      have hlt : i < point.length := by omega
      obtain ⟨b, hb, hcolor⟩ := hf.color i hitm
      rw [hc.color hitm hlt] at hcolor
      rw [List.getElem?_eq_getElem hlt, Option.some_inj] at hb
      subst hb
      rw [List.getElem_take]
      refine ⟨hcolor, ?_⟩
      have halive := hf.alive _ (List.get_mem (itmIdx d) ⟨i, hitm⟩)
      rwa [hc.color hitm hlt] at halive
    · rcases (hc.keys v).1 (hf.total v (hd.wellFormed.headersMem v hv)) with hm | hm | hm
      · exact absurd hv (mem_itmIdx.1 hm).2.1
      · exact hm
      · exact absurd hm (hnoleaf v hv)
  · rintro ⟨hpoint, hheaders⟩
    have htake : ∀ {i : Nat} (hi : i < (itmIdx d).length),
        point.get ⟨i, hi.trans_le hlen⟩ ∈ point.take (itmIdx d).length := by
      intro i hi
      refine List.mem_of_getElem? (i := i) ?_
      rw [List.getElem?_take, if_pos hi]
      exact List.getElem?_eq_getElem (hi.trans_le hlen)
    refine ⟨fun i hi => ⟨_, List.getElem?_eq_getElem (hi.trans_le hlen), ?_⟩, fun v hv => ?_,
      fun v hv => (hc.keys v).2 ?_⟩
    · rw [hc.color hi (hi.trans_le hlen)]
      exact (hpoint _ (htake hi)).1
    · obtain ⟨i, hi, rfl⟩ := List.getElem_of_mem hv
      have hcolor := hc.color hi (hi.trans_le hlen)
      rw [List.get_eq_getElem] at hcolor
      rw [hcolor]
      exact (hpoint _ (htake hi)).2
    · by_cases hl : v ∈ d.ecLeaves
      · exact Or.inr (Or.inr hl)
      · by_cases hh : v ∈ d.ecHeaders
        · exact Or.inr (Or.inl (hheaders v hh))
        · exact Or.inl (mem_itmIdx.2 ⟨hv, hh, hl⟩)

omit h hR hd in
theorem colorNode_natCast (res : Coloring) (b : Nat) : colorNode p placement failNodeIds res b =
    if b ∈ p.failBlocks placement failNodeIds then some (colorAt res (REQUESTOR - b))
    else placement[b]? := rfl

omit hR hd in
/-- A number that is right is the node, whatever was drawn. -/
theorem ColorRight.colorNode {b : Nat} (hb : ColorRight p placement failNodeIds d numAgents b)
    (hd : Concatenated d p.ecn (p.failBlocks placement failNodeIds))
    (henough : (p.failBlocks placement failNodeIds).card ≤
      (candidates p placement failNodeIds d numAgents).length) {draws : Nat → Nat} {res : Coloring}
    (hc : Colored d point (repairNodes p placement failNodeIds d numAgents draws) res) :
    colorNode p placement failNodeIds res b = some (b : Int) ∧ (b : Int) ∉ failNodeIds := by
  rw [colorNode_natCast]
  rcases hb with ⟨hb, hnode⟩ | ⟨hfail, hcand⟩
  · rw [if_neg hb]
    refine ⟨hnode, fun hm => hb (Finset.mem_filter.2 ⟨Finset.mem_range.2 ?_, ?_⟩)⟩
    · rw [← h.length]
      exact (List.getElem?_eq_some_iff.1 hnode).1
    · rwa [List.getD_eq_getElem?_getD, hnode]
  · have hb : b ∈ p.failBlocks placement failNodeIds := hfail ▸ Finset.mem_singleton_self b
    obtain ⟨j, hj⟩ := List.getElem?_of_mem (mem_losses_failBlocks hb)
    rw [← hd.length_concacts] at henough
    have hdrawn := Draws.mem_of_mem_draw shrinks_free henough
      (List.mem_of_getElem? (hc.repairNode hd hj))
    have hfree : colorAt res (REQUESTOR - b) = (b : Int) := by
      rw [show free numAgents _ = [(b : Int)] from hcand] at hdrawn
      exact List.mem_singleton.1 hdrawn
    rw [if_pos hb, hfree]
    refine ⟨rfl, fun hm => ?_⟩
    have havoid := (ParallelSolution.foldl_colorLeaf h.length d.ecLeaves (∅, failNodeIds)
      fun u hu => absurd hu (AList.notMem_empty u)).2.2.1
    exact notMem_of_mem_free (hfree ▸ hdrawn) (havoid _ hm)

/-- **When the point is followed**, whatever is drawn. -/
theorem followsPoint_iff : FollowsPoint p placement failNodeIds d numAgents tp .scatter ↔
    CallFits p placement failNodeIds d numAgents tp := by
  constructor
  · rintro ⟨key, point, hkey, hpoint, hrun⟩
    have hsmall := h.isSome_iff.1 (hkey ▸ rfl)
    obtain ⟨res, hgen, hf⟩ := hrun fun _ => 0
    obtain ⟨hlen, henough⟩ := of_gen_eq_some hd hkey hpoint hgen
    have hfollows : ∀ draws, ∃ res,
        Colored d point (repairNodes p placement failNodeIds d numAgents draws) res ∧
        Follows p placement failNodeIds d res point := by
      intro draws
      obtain ⟨res, hgen, hc⟩ := gen_eq_some h hR hd hkey hpoint hlen henough draws
      obtain ⟨res', hgen', hf⟩ := hrun draws
      rw [hgen, Option.some_inj] at hgen'
      exact ⟨res, hc, hgen' ▸ hf⟩
    refine ⟨hsmall, ⟨point, ?_, hlen, fun b hb => ?_⟩, henough, ?_⟩
    · rw [h.failBlockIdxInt_eq, if_pos hsmall, Option.some_inj] at hkey
      rwa [hkey]
    · obtain ⟨b, rfl⟩ : ∃ i : Nat, b = i := by
        obtain ⟨res, hc, hf⟩ := hfollows fun _ => 0
        have hcolor := (((hc.follows_iff hd hlen).1 hf).1 b hb).1
        cases b with
        | ofNat i => exact ⟨i, rfl⟩
        | negSucc i => cases hcolor
      refine ⟨Int.natCast_nonneg b, ?_⟩
      rw [Int.toNat_natCast]
      by_cases hfail : b ∈ p.failBlocks placement failNodeIds
      · obtain ⟨j, hj⟩ := List.getElem?_of_mem (mem_losses_failBlocks hfail)
        have hlt : j < d.ecConcacts.length := by
          rw [hd.concacts, List.length_map]
          exact (List.getElem?_eq_some_iff.1 hj).1
        have hnode : ∀ draws,
            (repairNodes p placement failNodeIds d numAgents draws)[j]? = some (b : Int) := by
          intro draws
          obtain ⟨res, hc, hf⟩ := hfollows draws
          have hcolor := (((hc.follows_iff hd hlen).1 hf).1 b hb).1
          rw [colorNode_natCast, if_pos hfail, Option.some_inj] at hcolor
          exact hcolor ▸ hc.repairNode hd hj
        obtain ⟨hone, hcand⟩ := Draws.only_candidate shrinks_free hlt
          (hd.length_concacts.trans_le henough) hnode
        rw [hd.length_concacts, Finset.card_eq_one] at hone
        obtain ⟨a, ha⟩ := hone
        refine Or.inr ⟨?_, hcand⟩
        rw [ha] at hfail ⊢
        rw [Finset.mem_singleton.1 hfail]
      · obtain ⟨res, hc, hf⟩ := hfollows fun _ => 0
        have hcolor := (((hc.follows_iff hd hlen).1 hf).1 b hb).1
        rw [colorNode_natCast, if_neg hfail] at hcolor
        exact Or.inl ⟨hfail, hcolor⟩
    · obtain ⟨res, hc, hf⟩ := hfollows fun _ => 0
      exact ((hc.follows_iff hd hlen).1 hf).2
  · rintro ⟨hsmall, ⟨point, hpoint, hlen, hcolors⟩, henough, hheaders⟩
    have hkey := h.failBlockIdxInt_eq.trans (if_pos hsmall)
    refine ⟨_, point, hkey, hpoint, fun draws => ?_⟩
    obtain ⟨res, hgen, hc⟩ := gen_eq_some h hR hd hkey hpoint hlen henough draws
    refine ⟨res, hgen, (hc.follows_iff hd hlen).2 ⟨fun b hb => ?_, hheaders⟩⟩
    obtain ⟨hpos, hright⟩ := hcolors b hb
    obtain ⟨i, rfl⟩ := Int.eq_ofNat_of_zero_le hpos
    rw [Int.toNat_natCast] at hright
    exact hright.colorNode h hd henough hc

end

/-! ## One failed node -/

/-- **With one failed node** the colours of the point are read as blocks. -/
theorem singleFailure_follows {p : ParallelSolution} {placement : List Int} {d : ECDAG}
    {numAgents : Nat} {tp : TradeoffPoints} {failNodeId : Int} {scenario : Scenario} {draw : Nat}
    {res : Coloring} {repairNode : Int} (hlen : placement.length = p.ecn) (hd : d.WellFormed)
    (hgen : genOfflineColoringForSingleFailure p placement d numAgents tp failNodeId scenario
      draw = some (res, repairNode)) :
    ∃ blk point, failBlock placement failNodeId = some blk ∧
      tp.getColoringByIdx blk = some point ∧ ∀ i (hi : i < (itmIdx d).length),
        ∃ b < placement.length, point[i]? = some (b : Int) ∧
          colorAt res ((itmIdx d).get ⟨i, hi⟩) = pointNode placement blk repairNode b := by
  unfold genOfflineColoringForSingleFailure at hgen
  obtain ⟨blk, hblk, hgen⟩ := Option.bind_eq_some_iff.1 hgen
  obtain ⟨node, -, hgen⟩ := Option.bind_eq_some_iff.1 hgen
  obtain ⟨header, hheader, hgen⟩ := Option.bind_eq_some_iff.1 hgen
  obtain ⟨point, hpoint, hgen⟩ := Option.bind_eq_some_iff.1 hgen
  refine ⟨blk, point, hblk, hpoint, fun i hi => ?_⟩
  dsimp only at hgen
  split at hgen
  next hfits =>
    cases hgen
    obtain ⟨hcount, hblocks⟩ := hfits
    have hleaves := (ParallelSolution.foldl_colorLeaf hlen d.ecLeaves (∅, [])
      fun u hu => absurd hu (AList.notMem_empty u)).1
    have hinner := (Coloring.foldl_insertNew_zip (itmIdx d)
      ((point.take (itmIdx d).length).map (pointNode placement blk repairNode))
      ((d.ecLeaves.foldl (p.colorLeaf placement) (∅, [])).1.insertNew header repairNode)
      (by rw [List.length_map, hcount])
      ((List.perm_insertionSort _ _).nodup_iff.2 (hd.nodup.filter _))
      fun v hv hm => by
        obtain ⟨-, hnoheader, hnoleaf⟩ := mem_itmIdx.1 hv
        rcases (Coloring.mem_insertNew _ _ _ _).1 hm with rfl | hm
        · exact hnoheader (List.mem_of_head? hheader)
        · exact ((hleaves v).1 hm).elim hnoleaf (AList.notMem_empty v)).2.2
    rw [List.length_take] at hcount
    have hlt : i < point.length := by omega
    have hget : (point.take (itmIdx d).length)[i]? = some (point.get ⟨i, hlt⟩) := by
      rw [List.getElem?_take, if_pos hi]
      exact List.getElem?_eq_getElem hlt
    obtain ⟨hpos, hblock⟩ := hblocks _ (List.mem_of_getElem? hget)
    obtain ⟨b, hb⟩ := Int.eq_ofNat_of_zero_le hpos
    rw [hb] at hget hblock
    refine ⟨b, Int.ofNat_lt.1 hblock, (List.getElem?_eq_getElem hlt).trans (congrArg some hb), ?_⟩
    exact colorAt_get_of_map hinner hi (by rw [List.getElem?_map, hget]; rfl)
  next => cases hgen

/-! ## Stripes -/

/-- **Offline colouring**, for two calls on one code, every placement, every set of failed
nodes and every table. -/
theorem offlineColoring_iff (p : ParallelSolution) (placement failNodeIds : List Int)
    (h : Stored p placement failNodeIds) (placement' failNodeIds' : List Int)
    (h' : Stored p placement' failNodeIds') (numAgents : Nat) (tp : TradeoffPoints)
    (scenario : Scenario) (hR : p.ecn ≤ REQUESTOR) (hw : 0 < p.ecw)
    (decode : List Nat → List Nat → ECDAG) (js : List Join)
    (hdec : decode (packets p.ecw (survivors p.ecn (p.failBlocks placement failNodeIds)))
      (packets p.ecw (losses p.ecn (p.failBlocks placement failNodeIds))) = .build js)
    (hjs : Decodes js p.ecn p.ecw (p.failBlocks placement failNodeIds)) (d : ECDAG)
    (hdag : d = genRepairECDAG decode p.ecn p.ecw (p.failBlocks placement failNodeIds)) :
    KeysRight p placement failNodeIds placement' failNodeIds' ∧
        FollowsPoint p placement failNodeIds d numAgents tp scenario ↔
      (∀ x ∈ failedNodes p placement' failNodeIds', x < 31) ∧
      (failedNodes p placement failNodeIds = failedNodes p placement' failNodeIds' ↔
        p.failBlocks placement failNodeIds = p.failBlocks placement' failNodeIds') ∧
      scenario = .scatter ∧ CallFits p placement failNodeIds d numAgents tp := by
  rw [keysRight_iff h h']
  cases scenario with
  | standby =>
    -- the program exits
    refine iff_of_false ?_ fun hr => nomatch hr.2.2.1
    rintro ⟨-, key, point, -, -, hrun⟩
    obtain ⟨res, hgen, -⟩ := hrun fun _ => 0
    cases hgen
  | scatter =>
    obtain ⟨hwf, hleaves, -, hheaders⟩ := genRepairECDAG_of_decodes hR hw hdec hjs
    have hd : Concatenated d p.ecn (p.failBlocks placement failNodeIds) := by
      rw [hdag]
      exact ⟨hwf, hleaves, ecConcacts_genRepairECDAG hw hdec, hheaders⟩
    rw [followsPoint_iff h hR hd]
    constructor
    · rintro ⟨⟨-, hsmall', heq⟩, hfits⟩
      exact ⟨hsmall', heq, rfl, hfits⟩
    · rintro ⟨hsmall', heq, -, hfits⟩
      exact ⟨⟨hfits.small, hsmall', heq⟩, hfits⟩

instance (p : ParallelSolution) (placement failNodeIds : List Int) (d : ECDAG) (numAgents b : Nat) :
    Decidable (ColorRight p placement failNodeIds d numAgents b) :=
  inferInstanceAs (Decidable (_ ∨ _))

/-- The table of a (4, 2) code: the lost packets 2 and 3 are computed on the blocks 0 and 1. -/
def parityPoints : TradeoffPoints := ⟨1, fun idx => if idx = 12 then ['0', '1'] else []⟩

/-- The two parities. -/
def parityJoins : List Join := [⟨2, [0, 1], [1, 1]⟩, ⟨3, [0, 1], [1, 2]⟩]

/-- A stripe on the nodes 0 to 3. -/
theorem offlineColoring_iff_identity :
    KeysRight ⟨4, 1, 0, 6⟩ [0, 1, 2, 3] [2, 3] [0, 1, 2, 3] [1] ∧
      FollowsPoint ⟨4, 1, 0, 6⟩ [0, 1, 2, 3] [2, 3]
        (genRepairECDAG (fun _ _ => .build parityJoins) 4 1 {2, 3}) 6 parityPoints .scatter :=
  (offlineColoring_iff ⟨4, 1, 0, 6⟩ [0, 1, 2, 3] [2, 3]
    ⟨by decide, by decide, by decide, by decide⟩ [0, 1, 2, 3] [1]
    ⟨by decide, by decide, by decide, by decide⟩ 6 parityPoints .scatter (by decide) (by decide)
    (fun _ _ => .build parityJoins) parityJoins rfl
    ⟨by decide, by decide, by decide, by decide⟩ _ (by decide)).2
    ⟨by decide, by decide, rfl, by decide, ⟨[0, 1], by decide, by decide, by decide⟩, by decide,
      by decide⟩

/-- Blocks 0 and 1 on each other's nodes, with the same lost blocks: packet 2 is computed on node
0, which stores block 1. On the nodes 0, 1, 3 and 4 the same lost blocks have another key. -/
theorem offlineColoring_swapped :
    ¬ FollowsPoint ⟨4, 1, 0, 6⟩ [1, 0, 2, 3] [2, 3]
        (genRepairECDAG (fun _ _ => .build parityJoins) 4 1 {2, 3}) 6 parityPoints .scatter ∧
      ¬ KeysRight ⟨4, 1, 0, 6⟩ [1, 0, 2, 3] [2, 3] [0, 1, 3, 4] [3, 4] := by
  refine ⟨?_, fun h => ?_⟩
  · rintro ⟨key, point, hkey, hpoint, hrun⟩
    obtain ⟨res, hgen, hf⟩ := hrun fun _ => 0
    have hkey12 : failBlockIdxInt [1, 0, 2, 3] [2, 3] = some 12 := by decide
    obtain ⟨b, hb, hcolor⟩ := hf.color 0 (by decide)
    rw [hkey12, Option.some_inj] at hkey
    subst hkey
    obtain rfl : [0, 1] = point := Option.some.inj hpoint
    cases hgen
    obtain rfl : 0 = b := Option.some.inj hb
    exact absurd hcolor (by decide)
  · exact absurd (h.eq_iff.2 (by decide)) (by decide)

end OfflineSolution

end StripeRepair

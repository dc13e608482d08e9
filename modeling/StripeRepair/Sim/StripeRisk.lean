import StripeRepair.Sim.RepairScheduler
import Mathlib

/-!
# `greedySelectNodes`: a cover of the risky stripes

The scheduler gives each failed node a score, the number of risky stripes it is in, and goes
through the nodes from the highest score on. A node is selected as long as one of its stripes
still needs a node.

* `greedySelectNodes_eq`: the nodes that are selected are the first ones of each risky stripe.
* `length_left_le`: so many failed nodes of a risky stripe are left.
-/

namespace StripeRepair

/-- `StripeRisk`; the score is a function of the two counts, and only compared. -/
structure StripeRisk where
  stripeId : Int
  failCount : Nat
  tolerance : Int
  critical : Bool
  failedNodes : List Int
  deriving DecidableEq, Repr

structure NodeRepairPriority where
  nodeId : Int
  priorityScore : Nat
  criticalStripes : Nat
  highRiskStripes : Nat
  deriving DecidableEq, Repr

/-- `std::sort` by the score, which leaves the order of equal scores open. -/
structure PrioritySort where
  sort : List NodeRepairPriority → List NodeRepairPriority
  perm : ∀ l, (sort l).Perm l
  sorted : ∀ l, (sort l).Pairwise fun a b => b.priorityScore ≤ a.priorityScore

/-- A stable sort is one of them. -/
def PrioritySort.stable : PrioritySort where
  sort l := l.insertionSort fun a b => b.priorityScore ≤ a.priorityScore
  perm l := List.perm_insertionSort _ l
  sorted l := by
    have : Std.Total fun a b : NodeRepairPriority => b.priorityScore ≤ a.priorityScore :=
      ⟨fun a b => Nat.le_total b.priorityScore a.priorityScore⟩
    have : IsTrans NodeRepairPriority fun a b => b.priorityScore ≤ a.priorityScore :=
      ⟨fun a b c hab hbc => hbc.trans hab⟩
    exact List.pairwise_insertionSort _ l

namespace RepairSchedulerNew

/-- The risk of a stripe with failed nodes. -/
def riskOf (s : RepairSchedulerNew) (st : PlacedStripe) : StripeRisk :=
  let failedInStripe := s.currentFailed.filter fun nid => nid ∈ st.placement
  { stripeId := st.stripeId
    failCount := failedInStripe.length
    tolerance := s.tolerance
    critical := s.tolerance < failedInStripe.length
    failedNodes := failedInStripe }

def computeStripeRisks (s : RepairSchedulerNew) (stripeList : List PlacedStripe) :
    List StripeRisk :=
  (stripeList.map s.riskOf).filter fun sr => sr.failCount ≠ 0

/-- `count` in a map with the stripes of `risks` -/
def hasRisk (risks : List StripeRisk) (sid : Int) : Bool := risks.any fun sr => sr.stripeId = sid

/-- The body of the loop of `computeNodePriorities`. -/
def nodePriority (stripeList : List PlacedStripe) (critical highRisk : List StripeRisk)
    (nid : Int) : NodeRepairPriority :=
  let count := fun risks : List StripeRisk =>
    stripeList.countP fun st => nid ∈ st.placement ∧ hasRisk risks st.stripeId
  { nodeId := nid
    priorityScore := count critical * 10 + count highRisk
    criticalStripes := count critical
    highRiskStripes := count highRisk }

def computeNodePriorities (sort : PrioritySort) (failedNodes : List Int)
    (stripeList : List PlacedStripe) (critical highRisk : List StripeRisk) :
    List NodeRepairPriority :=
  sort.sort (failedNodes.map (nodePriority stripeList critical highRisk))

/-- `max(sr.fail_count - tolerance + 1, 1)` -/
def demand (tolerance : Int) (sr : StripeRisk) : Int := max (sr.failCount - tolerance + 1) 1

/-- The body of the loop over `uncovered`. -/
def coverOne (stripeMap : AList fun _ : Int => PlacedStripe) (nid : Int)
    (e : Int × Int) : Option (Int × Int) :=
  match stripeMap.lookup e.1 with
  | none => some e
  | some st =>
    if nid ∈ st.placement then (if e.2 - 1 ≤ 0 then none else some (e.1, e.2 - 1)) else some e

/-- Whether the stripe with this id has the node. -/
def hasNode (stripeMap : AList fun _ : Int => PlacedStripe) (sid nid : Int) : Bool :=
  (stripeMap.lookup sid).any fun st => nid ∈ st.placement

/-- The loop over the priorities. -/
def greedyLoop (stripeMap : AList fun _ : Int => PlacedStripe) :
    List NodeRepairPriority → List (Int × Int) → List Int → List Int
  | [], _, selected => selected
  | np :: priorities, uncovered, selected =>
    if uncovered = [] then selected
    else if np.priorityScore = 0 then selected
    else
      let useful := uncovered.any fun e => hasNode stripeMap e.1 np.nodeId
      greedyLoop stripeMap priorities (uncovered.filterMap (coverOne stripeMap np.nodeId))
        (if useful then selected ++ [np.nodeId] else selected)

/-- `uncovered` before the loop. -/
def uncoveredOf (tolerance : Int) (critical : List StripeRisk) : List (Int × Int) :=
  let uncovered : AList fun _ : Int => Int :=
    critical.foldl (fun m sr => m.insert sr.stripeId (demand tolerance sr)) ∅
  uncovered.entries.map fun e => (e.1, e.2)

def greedySelectNodes (s : RepairSchedulerNew) (priorities : List NodeRepairPriority)
    (critical : List StripeRisk) (stripeList : List PlacedStripe) : List Int :=
  greedyLoop (sidMap stripeList) priorities (uncoveredOf s.tolerance critical) []

/-! ## The first nodes of a stripe -/

/-- How many nodes of the stripe come before the node. -/
def rank (order : List Int) (p : Int → Bool) (y : Int) : Nat :=
  (order.takeWhile (· ≠ y)).countP p

theorem rank_append {done : List Int} (rest : List Int) (p : Int → Bool) {y : Int} (hy : y ∉ done) :
    rank (done ++ rest) p y = done.countP p + rank rest p y := by
  have hall : ∀ x ∈ done, decide (x ≠ y) = true := by
    intro x hx
    refine decide_eq_true ?_
    rintro rfl
    exact hy hx
  rw [rank, List.takeWhile_append_of_pos hall, List.countP_append, rank]

theorem rank_self (y : Int) (rest : List Int) (p : Int → Bool) : rank (y :: rest) p y = 0 := by
  simp [rank]

/-- The nodes of a stripe behind its first `d`. -/
theorem filter_rank (p : Int → Bool) (d c : Nat) {l : List Int} (hl : l.Nodup) :
    l.filter (fun y => p y ∧ d ≤ c + rank l p y) = (l.filter p).drop (d - c) := by
  induction l generalizing c with
  | nil => simp
  | cons a l ih =>
    obtain ⟨ha, hl⟩ := List.nodup_cons.1 hl
    have hrest : l.filter (fun y => p y ∧ d ≤ c + rank (a :: l) p y) =
        (l.filter p).drop (d - (c + [a].countP p)) := by
      rw [← ih (c + [a].countP p) hl]
      refine List.filter_congr fun y hy => ?_
      have hya : y ∉ [a] := by
        rw [List.mem_singleton]
        rintro rfl
        exact ha hy
      have := rank_append l p hya
      rw [List.singleton_append] at this
      rw [this, Nat.add_assoc]
    rw [List.filter_cons, hrest, rank_self]
    by_cases hp : p a = true
    · rw [List.filter_cons_of_pos hp]
      by_cases hd : d ≤ c
      · simp [hp, hd, show d - c = 0 by omega, show d - (c + 1) = 0 by omega]
      · obtain ⟨k, hk⟩ : ∃ k, d - c = k + 1 := ⟨d - c - 1, by omega⟩
        simp [hp, hd, hk, show d - (c + 1) = k by omega]
    · rw [List.filter_cons_of_neg hp]
      simp [hp]

/-! ## The greedy selection -/

section
variable {stripeMap : AList fun _ : Int => PlacedStripe} {base : List (Int × Int)}

/-- A node is selected when it is one of the first nodes of a stripe, as many as it needs. -/
def wanted (stripeMap : AList fun _ : Int => PlacedStripe) (base : List (Int × Int))
    (order : List Int) (y : Int) : Bool :=
  base.any fun e => hasNode stripeMap e.1 y ∧ (rank order (hasNode stripeMap e.1) y : Int) < e.2

/-- What the stripes need after some nodes. -/
def uncoveredAfter (stripeMap : AList fun _ : Int => PlacedStripe) (base : List (Int × Int))
    (done : List Int) : List (Int × Int) :=
  base.filterMap fun e =>
    if (done.countP (hasNode stripeMap e.1) : Int) < e.2 then
      some (e.1, e.2 - (done.countP (hasNode stripeMap e.1) : Nat)) else none

theorem coverOne_eq (nid : Int) (e : Int × Int) : coverOne stripeMap nid e =
    if hasNode stripeMap e.1 nid then
      if e.2 - 1 ≤ 0 then none else some (e.1, e.2 - 1) else some e := by
  unfold coverOne hasNode
  cases stripeMap.lookup e.1 with
  | none => rfl
  | some st => simp

/-- One node more. -/
theorem filterMap_coverOne (done : List Int) (nid : Int) :
    (uncoveredAfter stripeMap base done).filterMap (coverOne stripeMap nid) =
      uncoveredAfter stripeMap base (done ++ [nid]) := by
  unfold uncoveredAfter
  rw [List.filterMap_filterMap]
  refine List.filterMap_congr fun e _ => ?_
  rw [List.countP_append, List.countP_singleton]
  generalize done.countP (hasNode stripeMap e.1) = n
  by_cases hn : (n : Int) < e.2
  · rw [if_pos hn, Option.bind_some, coverOne_eq]
    by_cases hnid : hasNode stripeMap e.1 nid = true
    · simp only [hnid, if_true]
      split
      · rw [if_neg (by omega)]
      · rw [if_pos (by omega)]
        congr 2
        omega
    · simp [hnid, hn]
  · rw [if_neg hn, if_neg (by omega)]
    rfl

theorem wanted_iff {order : List Int} {y : Int} : wanted stripeMap base order y = true ↔
    ∃ e ∈ base, hasNode stripeMap e.1 y = true ∧
      (rank order (hasNode stripeMap e.1) y : Int) < e.2 := by
  simp [wanted, List.any_eq_true]

theorem mem_uncoveredAfter {done : List Int} {e : Int × Int} :
    e ∈ uncoveredAfter stripeMap base done ↔ ∃ b ∈ base,
      (done.countP (hasNode stripeMap b.1) : Int) < b.2 ∧
        e = (b.1, b.2 - (done.countP (hasNode stripeMap b.1) : Nat)) := by
  unfold uncoveredAfter
  rw [List.mem_filterMap]
  refine exists_congr fun b => and_congr_right fun _ => ?_
  split
  · next h => simp [h, eq_comm]
  · next h => simp [h]

/-- The selection, from any node on: the break for a score of zero and the break when nothing is
uncovered leave no node behind that is wanted. -/
theorem greedyLoop_eq {order : List Int} (done : List Int) {priorities : List NodeRepairPriority}
    (horder : order = done ++ priorities.map NodeRepairPriority.nodeId) (hd : order.Nodup)
    (hsorted : priorities.Pairwise fun a b => b.priorityScore ≤ a.priorityScore)
    (hzero : ∀ np ∈ priorities, np.priorityScore = 0 →
      ∀ e ∈ base, hasNode stripeMap e.1 np.nodeId = false) (selected : List Int) :
    greedyLoop stripeMap priorities (uncoveredAfter stripeMap base done) selected =
      selected ++ (priorities.map NodeRepairPriority.nodeId).filter
        (wanted stripeMap base order) := by
  induction priorities generalizing done selected with
  | nil => simp [greedyLoop]
  | cons np priorities ih =>
    obtain ⟨hle, hsorted'⟩ := List.pairwise_cons.1 hsorted
    have hnone : ∀ {l : List NodeRepairPriority}, (∀ x ∈ l, wanted stripeMap base order x.nodeId ≠
        true) → selected ++ (l.map NodeRepairPriority.nodeId).filter
          (wanted stripeMap base order) = selected := by
      intro l hl
      rw [List.filter_eq_nil_iff.2, List.append_nil]
      simpa using hl
    unfold greedyLoop
    split
    · next hnil =>
      refine (hnone fun x hx hw => ?_).symm
      obtain ⟨e, he, -, hlt⟩ := wanted_iff.1 hw
      have hxd : x.nodeId ∉ done := by
        intro hxd
        rw [horder] at hd
        exact (List.nodup_append.1 hd).2.2 _ hxd _ (List.mem_map_of_mem hx) rfl
      rw [horder, rank_append _ _ hxd] at hlt
      have hmem := mem_uncoveredAfter.2 ⟨e, he,
        show ((done.countP (hasNode stripeMap e.1) : Nat) : Int) < e.2 by omega, rfl⟩
      rw [hnil] at hmem
      exact List.not_mem_nil hmem
    · split
      · next hscore =>
        refine (hnone fun x hx hw => ?_).symm
        obtain ⟨e, he, hnode, -⟩ := wanted_iff.1 hw
        have hx0 : x.priorityScore = 0 := by
          rcases List.mem_cons.1 hx with rfl | hx
          · exact hscore
          · have := hle x hx
            omega
        rw [hzero x hx hx0 e he] at hnode
        cases hnode
      · have hnd : np.nodeId ∉ done := by
          intro hnd
          rw [horder] at hd
          exact (List.nodup_append.1 hd).2.2 _ hnd _ (by simp) rfl
        have hrank : ∀ e : Int × Int, rank order (hasNode stripeMap e.1) np.nodeId =
            done.countP (hasNode stripeMap e.1) := by
          intro e
          rw [horder, rank_append _ _ hnd, List.map_cons, rank_self, Nat.add_zero]
        have huseful : ((uncoveredAfter stripeMap base done).any fun e =>
            hasNode stripeMap e.1 np.nodeId) = wanted stripeMap base order np.nodeId := by
          rw [Bool.eq_iff_iff, List.any_eq_true, wanted_iff]
          simp only [mem_uncoveredAfter, hrank]
          constructor
          · rintro ⟨-, ⟨b, hb, hlt, rfl⟩, hnode⟩
            exact ⟨b, hb, hnode, hlt⟩
          · rintro ⟨b, hb, hnode, hlt⟩
            exact ⟨_, ⟨b, hb, hlt, rfl⟩, hnode⟩
        rw [huseful, filterMap_coverOne, ih (done ++ [np.nodeId]) (by rw [horder]; simp) hsorted'
          fun x hx => hzero x (List.mem_cons_of_mem _ hx)]
        rw [List.map_cons, List.filter_cons]
        split
        · rw [List.append_assoc, List.singleton_append]
        · rfl

end

/-! ## What is selected and what is left -/

theorem one_le_demand (tolerance : Int) (sr : StripeRisk) : 1 ≤ demand tolerance sr :=
  le_max_right ..

theorem entries_foldl_insert (tolerance : Int) (critical : List StripeRisk)
    (m : AList fun _ : Int => Int) (hd : (critical.map StripeRisk.stripeId).Nodup)
    (hm : ∀ sr ∈ critical, sr.stripeId ∉ m) :
    (critical.foldl (fun m sr => m.insert sr.stripeId (demand tolerance sr)) m).entries =
      (critical.map fun sr => ⟨sr.stripeId, demand tolerance sr⟩).reverse ++ m.entries := by
  induction critical generalizing m with
  | nil => rfl
  | cons sr critical ih =>
    obtain ⟨hsr, hd⟩ := List.nodup_cons.1 hd
    have hm' : ∀ x ∈ critical, x.stripeId ∉ m.insert sr.stripeId (demand tolerance sr) := by
      intro x hx
      rw [AList.mem_insert, not_or]
      refine ⟨fun heq => hsr (heq ▸ List.mem_map_of_mem hx), hm x (List.mem_cons_of_mem _ hx)⟩
    rw [List.foldl_cons, ih _ hd hm', AList.insert_of_notMem (hm sr (List.mem_cons_self ..))]
    simp

/-- With distinct ids each stripe has its own demand. -/
theorem mem_uncoveredOf {tolerance : Int} {critical : List StripeRisk}
    (hd : (critical.map StripeRisk.stripeId).Nodup) {e : Int × Int} :
    e ∈ uncoveredOf tolerance critical ↔
      ∃ sr ∈ critical, e = (sr.stripeId, demand tolerance sr) := by
  unfold uncoveredOf
  simp only
  rw [entries_foldl_insert tolerance critical ∅ hd fun sr _ => AList.notMem_empty _]
  simp [eq_comm]

/-- The stripes whose risk is in the list. -/
def riskyStripes (s : RepairSchedulerNew) (stripeList : List PlacedStripe)
    (critical : List StripeRisk) : List PlacedStripe :=
  stripeList.filter fun st => s.riskOf st ∈ critical

/-- The node is one of the first failed nodes of the stripe, as many as it needs. -/
def AmongFirst (s : RepairSchedulerNew) (order : List Int) (st : PlacedStripe) (y : Int) : Prop :=
  y ∈ st.placement ∧
    (rank order (fun nid => nid ∈ st.placement) y : Int) < demand s.tolerance (s.riskOf st)

instance (s : RepairSchedulerNew) (order : List Int) (st : PlacedStripe) (y : Int) :
    Decidable (s.AmongFirst order st y) := by
  unfold AmongFirst
  infer_instance

/-- The failed nodes of a stripe that are not among the first of any risky stripe. -/
def left (s : RepairSchedulerNew) (order : List Int) (riskyStripes : List PlacedStripe)
    (st : PlacedStripe) : List Int :=
  order.filter fun y => y ∈ st.placement ∧ ∀ t ∈ riskyStripes, ¬ s.AmongFirst order t y

section
variable (s : RepairSchedulerNew) {stripeList : List PlacedStripe}
  (hid : (stripeList.map PlacedStripe.stripeId).Nodup) {critical : List StripeRisk}
  (hc : critical.Sublist (s.computeStripeRisks stripeList))
include hid hc

theorem nodup_risks : (critical.map StripeRisk.stripeId).Nodup := by
  have hmap : (stripeList.map s.riskOf).map StripeRisk.stripeId =
      stripeList.map PlacedStripe.stripeId := by
    rw [List.map_map]
    rfl
  have hsub : (critical.map StripeRisk.stripeId).Sublist (stripeList.map PlacedStripe.stripeId) := by
    rw [← hmap]
    exact (hc.trans List.filter_sublist).map _
  exact hid.sublist hsub

omit hid in
theorem exists_of_mem_risks {sr : StripeRisk} (h : sr ∈ critical) :
    ∃ st ∈ stripeList, sr = s.riskOf st ∧ sr.failCount ≠ 0 := by
  have hr := hc.subset h
  unfold computeStripeRisks at hr
  obtain ⟨hr, hne⟩ := List.mem_filter.1 hr
  obtain ⟨st, hst, rfl⟩ := List.mem_map.1 hr
  exact ⟨st, hst, rfl, by simpa using hne⟩

/-- The nodes that are wanted, by stripes. -/
theorem wanted_eq (order : List Int) (y : Int) :
    wanted (sidMap stripeList) (uncoveredOf s.tolerance critical) order y = true ↔
      ∃ t ∈ s.riskyStripes stripeList critical, s.AmongFirst order t y := by
  have hnode : ∀ st ∈ stripeList, ∀ y, hasNode (sidMap stripeList) st.stripeId y =
      decide (y ∈ st.placement) := by
    intro st hst y
    rw [hasNode, lookup_sidMap hid hst, Option.any_some]
  rw [wanted_iff]
  constructor
  · rintro ⟨e, he, hmem, hlt⟩
    obtain ⟨sr, hsr, rfl⟩ := (mem_uncoveredOf (s.nodup_risks hid hc)).1 he
    obtain ⟨st, hst, rfl, -⟩ := s.exists_of_mem_risks hc hsr
    have hsid : (s.riskOf st).stripeId = st.stripeId := rfl
    simp only [hsid, hnode st hst, decide_eq_true_eq, funext (hnode st hst)] at hmem hlt
    exact ⟨st, List.mem_filter.2 ⟨hst, decide_eq_true hsr⟩, hmem, hlt⟩
  · rintro ⟨st, ht, hmem, hlt⟩
    obtain ⟨hst, hsr⟩ := List.mem_filter.1 ht
    refine ⟨_, (mem_uncoveredOf (s.nodup_risks hid hc)).2 ⟨_, of_decide_eq_true hsr, rfl⟩, ?_, ?_⟩
    · exact (hnode st hst y).trans (decide_eq_true hmem)
    · have hfun : hasNode (sidMap stripeList) (s.riskOf st).stripeId =
          fun nid => decide (nid ∈ st.placement) := funext (hnode st hst)
      rw [hfun]
      exact hlt

/-- The failed nodes in the order of the priorities. -/
def repairOrder (s : RepairSchedulerNew) (sort : PrioritySort) (stripeList : List PlacedStripe)
    (critical highRisk : List StripeRisk) : List Int :=
  (computeNodePriorities sort s.currentFailed stripeList critical highRisk).map
    NodeRepairPriority.nodeId

omit hid hc in
theorem repairOrder_perm (sort : PrioritySort) (stripeList : List PlacedStripe)
    (critical highRisk : List StripeRisk) :
    (s.repairOrder sort stripeList critical highRisk).Perm s.currentFailed := by
  have h := (sort.perm (s.currentFailed.map (nodePriority stripeList critical highRisk))).map
    NodeRepairPriority.nodeId
  rw [List.map_map] at h
  refine h.trans (List.Perm.of_eq ?_)
  exact List.map_id'' (fun _ => rfl) _

/-- What is selected, as a part of the order. -/
theorem greedySelectNodes_eq (sort : PrioritySort) (highRisk : List StripeRisk) :
    s.greedySelectNodes (computeNodePriorities sort s.currentFailed stripeList critical highRisk)
        critical stripeList =
      (s.repairOrder sort stripeList critical highRisk).filter (wanted (sidMap stripeList)
        (uncoveredOf s.tolerance critical)
        (s.repairOrder sort stripeList critical highRisk)) := by
  have hbase : uncoveredAfter (sidMap stripeList) (uncoveredOf s.tolerance critical) [] =
      uncoveredOf s.tolerance critical := by
    unfold uncoveredAfter
    refine (List.filterMap_congr fun e he => ?_).trans List.filterMap_some
    obtain ⟨sr, -, rfl⟩ := (mem_uncoveredOf (s.nodup_risks hid hc)).1 he
    have := one_le_demand s.tolerance sr
    rw [List.countP_nil, if_pos (by simp; omega)]
    simp
  have hzero : ∀ np ∈ computeNodePriorities sort s.currentFailed stripeList critical highRisk,
      np.priorityScore = 0 → ∀ e ∈ uncoveredOf s.tolerance critical,
        hasNode (sidMap stripeList) e.1 np.nodeId = false := by
    intro np hnp h0 e he
    obtain ⟨nid, -, rfl⟩ := List.mem_map.1 ((sort.perm _).mem_iff.1 hnp)
    obtain ⟨sr, hsr, rfl⟩ := (mem_uncoveredOf (s.nodup_risks hid hc)).1 he
    obtain ⟨st, hst, rfl, -⟩ := s.exists_of_mem_risks hc hsr
    have hcount : stripeList.countP (fun st => nid ∈ st.placement ∧
        hasRisk critical st.stripeId) = 0 := by
      simp only [nodePriority] at h0
      omega
    have hno := List.countP_eq_zero.1 hcount st hst
    have hrisk : hasRisk critical st.stripeId = true :=
      List.any_eq_true.2 ⟨_, hsr, decide_eq_true rfl⟩
    have hsid : (s.riskOf st).stripeId = st.stripeId := rfl
    rw [hsid, hasNode, lookup_sidMap hid hst, Option.any_some]
    simpa [hrisk, nodePriority] using hno
  have hd := ((s.repairOrder_perm sort stripeList critical highRisk).nodup_iff).2 s.nodup
  have h := greedyLoop_eq [] (List.nil_append _).symm hd (sort.sorted _) hzero []
  rw [hbase] at h
  exact h

/-- **The selected nodes** are the first failed nodes of each risky stripe, as many as it needs,
in the order of the priorities. -/
theorem mem_greedySelectNodes (sort : PrioritySort) (highRisk : List StripeRisk) (y : Int) :
    y ∈ s.greedySelectNodes (computeNodePriorities sort s.currentFailed stripeList critical
        highRisk) critical stripeList ↔
      y ∈ s.currentFailed ∧ ∃ t ∈ s.riskyStripes stripeList critical,
        s.AmongFirst (s.repairOrder sort stripeList critical highRisk) t y := by
  rw [s.greedySelectNodes_eq hid hc, List.mem_filter, s.wanted_eq hid hc,
    (s.repairOrder_perm sort stripeList critical highRisk).mem_iff]

/-- The failed nodes of the stripe that are not selected. -/
theorem length_left (sort : PrioritySort) (highRisk : List StripeRisk) (st : PlacedStripe) :
    failsInStripe (s.executePartialRepair (s.greedySelectNodes (computeNodePriorities sort
        s.currentFailed stripeList critical highRisk) critical stripeList)).2.currentFailed st =
      (s.left (s.repairOrder sort stripeList critical highRisk)
        (s.riskyStripes stripeList critical) st).length := by
  have hperm := s.repairOrder_perm sort stripeList critical highRisk
  rw [failsInStripe, List.countP_eq_length_filter]
  refine List.Perm.length_eq ?_
  refine (List.perm_ext_iff_of_nodup ((RepairSchedulerNew.nodup _).filter _)
    ((hperm.nodup_iff.2 s.nodup).filter _)).2 fun y => ?_
  rw [List.mem_filter, List.mem_filter, (s.executePartialRepair_spec _ y).2,
    s.mem_greedySelectNodes hid hc, hperm.mem_iff]
  simp only [decide_eq_true_eq]
  constructor
  · rintro ⟨⟨hf, hno⟩, hy⟩
    exact ⟨hf, hy, fun t ht ha => hno ⟨hf, t, ht, ha⟩⟩
  · rintro ⟨hf, hy, hno⟩
    refine ⟨⟨hf, ?_⟩, hy⟩
    rintro ⟨-, t, ht, ha⟩
    exact hno t ht ha

omit hid hc in
/-- **What is left of a risky stripe**: the demand is covered, or nothing is left. -/
theorem length_left_le (sort : PrioritySort) (highRisk : List StripeRisk) {st : PlacedStripe}
    (hst : st ∈ s.riskyStripes stripeList critical) :
    ((s.left (s.repairOrder sort stripeList critical highRisk)
      (s.riskyStripes stripeList critical) st).length : Int) ≤
        max ((s.riskOf st).failCount - demand s.tolerance (s.riskOf st)) 0 := by
  have hperm := s.repairOrder_perm sort stripeList critical highRisk
  generalize s.repairOrder sort stripeList critical highRisk = order at hperm ⊢
  have hone := one_le_demand s.tolerance (s.riskOf st)
  obtain ⟨d, hd⟩ := Int.eq_ofNat_of_zero_le (show 0 ≤ demand s.tolerance (s.riskOf st) by omega)
  have hcount : (order.filter fun nid => nid ∈ st.placement).length = (s.riskOf st).failCount :=
    (hperm.filter _).length_eq
  have hsub : (s.left order (s.riskyStripes stripeList critical) st).length ≤
      (order.filter fun y => decide (y ∈ st.placement) = true ∧
        d ≤ 0 + rank order (fun nid => nid ∈ st.placement) y).length := by
    unfold left
    rw [← List.countP_eq_length_filter, ← List.countP_eq_length_filter]
    refine List.countP_mono_left fun y _ hy => ?_
    obtain ⟨hy, hno⟩ := of_decide_eq_true hy
    refine decide_eq_true ⟨decide_eq_true hy, ?_⟩
    have hnot := hno st hst
    rw [AmongFirst, hd] at hnot
    by_contra hlt
    exact hnot ⟨hy, by omega⟩
  rw [filter_rank _ d 0 (hperm.nodup_iff.2 s.nodup), List.length_drop, hcount] at hsub
  omega

/-- When as many nodes are selected as have failed, none is left. -/
theorem left_eq_nil (sort : PrioritySort) (highRisk : List StripeRisk)
    (hall : (s.greedySelectNodes (computeNodePriorities sort s.currentFailed stripeList critical
      highRisk) critical stripeList).length = s.currentFailed.length) (st : PlacedStripe) :
    s.left (s.repairOrder sort stripeList critical highRisk) (s.riskyStripes stripeList critical)
      st = [] := by
  have hperm := s.repairOrder_perm sort stripeList critical highRisk
  have hd : (s.greedySelectNodes (computeNodePriorities sort s.currentFailed stripeList critical
      highRisk) critical stripeList).Nodup := by
    rw [s.greedySelectNodes_eq hid hc]
    exact (hperm.nodup_iff.2 s.nodup).filter _
  have hsub := List.subperm_of_subset hd fun y hy =>
    ((s.mem_greedySelectNodes hid hc sort highRisk y).1 hy).1
  refine List.filter_eq_nil_iff.2 fun y hy hleft => ?_
  obtain ⟨-, hno⟩ := of_decide_eq_true hleft
  have hsel := (hsub.perm_of_length_le hall.ge).mem_iff.2 (hperm.mem_iff.1 hy)
  obtain ⟨-, t, ht, ha⟩ := (s.mem_greedySelectNodes hid hc sort highRisk y).1 hsel
  exact hno t ht ha

/-- For a risky stripe some node is selected. -/
theorem greedySelectNodes_ne_nil (sort : PrioritySort) (highRisk : List StripeRisk)
    (hne : critical ≠ []) : s.greedySelectNodes (computeNodePriorities sort s.currentFailed
      stripeList critical highRisk) critical stripeList ≠ [] := by
  intro hnil
  obtain ⟨sr, hsr⟩ := List.exists_mem_of_ne_nil _ hne
  obtain ⟨st, hst, rfl, hfail⟩ := s.exists_of_mem_risks hc hsr
  have hle := s.length_left_le sort highRisk (List.mem_filter.2 ⟨hst, decide_eq_true hsr⟩)
  have heq := s.length_left hid hc sort highRisk st
  have hone := one_le_demand s.tolerance (s.riskOf st)
  have hcount : failsInStripe s.currentFailed st = (s.riskOf st).failCount :=
    List.countP_eq_length_filter
  rw [hnil] at heq
  have hsame : (s.executePartialRepair []).2.currentFailed = s.currentFailed := rfl
  rw [hsame, hcount] at heq
  omega

end

end RepairSchedulerNew

end StripeRepair

import StripeRepair.Sim.Strategies
import StripeRepair.Sol.Legality
import StripeRepair.Ec.RSCONV

/-!
# `applyRepairCost`: the plans that are costed

For each stripe with a repaired node, and with no more of them than the tolerance, the stripe
is planned as if the repaired nodes were the only failed ones. The nodes that stay failed are
not named to the planner.

* `plans_live`: a plan uses live nodes only when no node that stays failed can get into it,
  and Immediate has only such plans.
* `traceDriven_reads_failed`: a partial repair that reads from a failed node.
-/

namespace StripeRepair

open PRSolution (colorAt)
open ParallelSolution (genColoringForMultipleFailureLevelNew)

/-- The arguments of a run that the plans depend on. -/
structure Simulator where
  ecn : Nat
  eck : Nat
  ecw : Nat
  agentsNum : Nat
  scenario : Scenario
  decode : List Nat → List Nat → ECDAG

namespace Simulator

section
variable (sim : Simulator)

/-- As many standby nodes as nodes are repaired. -/
def solution (repaired : List Int) : ParallelSolution :=
  ⟨sim.ecn, sim.ecw, repaired.length, sim.agentsNum⟩

/-- `affected_stripes` -/
def affected (repaired : List Int) (stripeList : List PlacedStripe) : List PlacedStripe :=
  stripeList.filter fun st =>
    0 < failsInStripe repaired st ∧ (failsInStripe repaired st : Int) ≤ sim.ecn - sim.eck

def decodeDag (failed : Finset Nat) : ECDAG :=
  (genRepairECDAG sim.decode sim.ecn sim.ecw failed).refreshECDAG

/-- `genRepairECDAG` and `refreshECDAG` of the stripe. -/
def repairDag (repaired : List Int) (st : PlacedStripe) : ECDAG :=
  sim.decodeDag ((sim.solution repaired).failBlocks st.placement repaired)

section
variable (ord : HashOrder Walk) (ord' : HashOrder EvalWalk) (draws : Nat → Nat → Nat)
  (repaired : List Int) (st : PlacedStripe)

/-- The colouring of a method, from an empty load table; `none` when an assertion fails. -/
def coloringOf (method : Nat) : Option Coloring :=
  (genColoringForMultipleFailureLevelNew (sim.repairDag repaired st)
    (List.replicate (sim.solution repaired).clusterSize [0, 0]) ord ord' (sim.solution repaired)
    st.placement repaired sim.scenario (draws method) method).map Prod.fst

/-- `_load` after `evaluateColoring` -/
def loadOf (coloring : Coloring) : Nat :=
  (((ord'.order .coloring coloring.keys).foldl ((sim.repairDag repaired st).evalVertex
    (colorAt coloring) Stripe.counted Traffic.move) .empty).stat ord' (0, 0)).2

/-- The colouring that is costed: method 0 when method 1 has the greater load. -/
def plan : Option Coloring := do
  let coloringHyper ← sim.coloringOf ord ord' draws repaired st 0
  let coloringMulti ← sim.coloringOf ord ord' draws repaired st 1
  if sim.loadOf ord' repaired st coloringMulti > sim.loadOf ord' repaired st coloringHyper then
    return coloringHyper
  else return coloringMulti

end

/-! ## Live plans -/

/-- No node that stays failed stores a block of the stripe or can be drawn as its repair node. -/
def Clear (call : RepairCall) (st : PlacedStripe) : Prop :=
  (∀ x ∈ call.left, x ∉ st.placement) ∧ (sim.scenario = .scatter → call.left = [])

/-- The plan uses live nodes only: of all failed nodes, repaired now or not, none is read from
and none gets a vertex; only zero vertices have no node. -/
structure Live (call : RepairCall) (st : PlacedStripe) (coloring : Coloring) : Prop where
  tolerated : (failsInStripe (call.repaired ++ call.left) st : Int) ≤ sim.ecn - sim.eck
  reads : ∀ v ∈ (sim.repairDag call.repaired st).ecLeaves, v / sim.ecw < sim.ecn →
    st.placement[v / sim.ecw]? = some (colorAt coloring v) ∧
      colorAt coloring v ∉ call.repaired ++ call.left
  placed : ∀ v ∈ (sim.repairDag call.repaired st).nodeIds,
    v ∈ (sim.repairDag call.repaired st).zeros sim.ecn sim.ecw ∨ 0 ≤ colorAt coloring v
  live : ∀ v ∈ (sim.repairDag call.repaired st).nodeIds,
    colorAt coloring v ∉ call.repaired ++ call.left
  blocks : ∀ v ∈ (sim.repairDag call.repaired st).ecConcacts,
    0 ≤ colorAt coloring v ∧ colorAt coloring v ∉ call.repaired ++ call.left

/-- What the code promises about `Decode`, whichever blocks within the tolerance failed; the
counters of the planner do not overflow. -/
def Repairs : Prop :=
  ∀ failed ⊆ Finset.range sim.ecn, 0 < failed.card → failed.card ≤ sim.ecn - sim.eck →
    (∃ js, sim.decode (packets sim.ecw (survivors sim.ecn failed))
        (packets sim.ecw (losses sim.ecn failed)) = .build js ∧
      Decodes js sim.ecn sim.ecw failed) ∧
    (ParallelSolution.moveBound (sim.decodeDag failed) : Int) < INT_MAX

/-- A stripe with a block on each of `n` nodes of the cluster. -/
def Places (st : PlacedStripe) : Prop :=
  st.placement.length = sim.ecn ∧ ∀ x ∈ st.placement, 0 ≤ x ∧ x < sim.agentsNum

end

/-! ## The call as the planner sees it -/

section
variable {sim : Simulator} {call : RepairCall} {st : PlacedStripe}

/-- The filter of `applyRepairCost` counts the blocks that the planner takes as failed. -/
theorem card_failBlocks (hst : sim.Places st) (hnd : call.repaired.Nodup) :
    ((sim.solution call.repaired).failBlocks st.placement call.repaired).card =
      failsInStripe call.repaired st := by
  have hlosses : losses sim.ecn ((sim.solution call.repaired).failBlocks st.placement call.repaired) =
      (List.range sim.ecn).filter fun i => st.placement.getD i 0 ∈ call.repaired := by
    refine List.filter_congr fun i hi => ?_
    rw [decide_eq_decide]
    simp only [ParallelSolution.failBlocks, solution, Finset.mem_filter, Finset.mem_range]
    exact and_iff_right (List.mem_range.1 hi)
  have hrange : (List.range sim.ecn).map (fun i => st.placement.getD i 0) = st.placement := by
    rw [← hst.1]
    refine List.ext_getElem (by simp) fun i h1 h2 => ?_
    rw [List.getElem_map, List.getElem_range, List.getD_eq_getElem _ _ h2]
  have hsub : (sim.solution call.repaired).failBlocks st.placement call.repaired ⊆
      Finset.range sim.ecn := Finset.filter_subset _ _
  rw [← length_losses hsub, hlosses,
    RepairSchedulerNew.failsInStripe_eq hnd,
    RepairSchedulerNew.inStripe]
  conv_rhs => rw [← hrange, List.filter_map, List.length_map]
  rfl

theorem admissible (hst : sim.Places st) (hcall : call.Valid sim.agentsNum) :
    (sim.solution call.repaired).Admissible st.placement call.repaired sim.scenario := by
  have hrep : ∀ x ∈ call.repaired, 0 ≤ x ∧ x < sim.agentsNum :=
    fun x hx => hcall.nodes x (List.mem_append_left _ hx)
  refine ⟨hst.1, st.distinct, fun x hx => (hst.2 x hx).1, fun _ x hx => ?_, fun _ => ?_⟩
  · exact (List.mem_append.1 hx).elim (fun hx => (hst.2 x hx).2) fun hx => (hrep x hx).2
  · -- the standby nodes are spare
    rw [card_failBlocks hst (List.Nodup.of_append_left hcall.nodup)]
    have hle : failsInStripe call.repaired st ≤ call.repaired.length := List.countP_le_length
    have hsub : ((List.range call.repaired.length).map fun j => ((sim.agentsNum + j : Nat) : Int)) ⊆
        (sim.solution call.repaired).spare st.placement call.repaired := by
      intro x hx
      obtain ⟨j, hj, rfl⟩ := List.mem_map.1 hx
      rw [List.mem_range] at hj
      refine List.mem_filter.2 ⟨List.mem_map.2 ⟨_, List.mem_range.2 ?_, rfl⟩, ?_⟩
      · show sim.agentsNum + j < call.repaired.length + sim.agentsNum
        omega
      · rw [decide_eq_true_eq]
        refine ⟨fun hm => ?_, fun hm => ?_⟩
        · have := (hst.2 _ hm).2
          omega
        · have := (hrep _ hm).2
          omega
    have hnd : ((List.range call.repaired.length).map
        fun j => ((sim.agentsNum + j : Nat) : Int)).Nodup :=
      List.nodup_range.map fun a b h => by omega
    have hlen := (hnd.subperm hsub).length_le
    rw [List.length_map, List.length_range] at hlen
    exact hle.trans hlen

/-! ## What a plan uses -/

/-- **No failed node is usable** in a call that is clear. -/
theorem usable_not_failed (hst : sim.Places st) (hcall : call.Valid sim.agentsNum)
    (hclear : sim.Clear call st) {prepared : Coloring}
    (horigin : ∀ v ∈ (sim.repairDag call.repaired st).ecConcacts,
      (sim.solution call.repaired).RepairNode st.placement call.repaired sim.scenario
        (colorAt prepared v)) {c : Int}
    (hc : ParallelSolution.Usable (sim.repairDag call.repaired st) st.placement call.repaired
      prepared c) : 0 ≤ c ∧ c ∉ call.repaired ++ call.left := by
  rcases hc with ⟨hpl, hnot⟩ | ⟨v, hv, rfl⟩
  · refine ⟨(hst.2 c hpl).1, fun hm => ?_⟩
    exact (List.mem_append.1 hm).elim hnot fun hm => hclear.1 c hm hpl
  · have hr := horigin v hv
    obtain ⟨h0, hrep, -⟩ := hr.fresh (admissible hst hcall)
    refine ⟨h0, fun hm => ?_⟩
    cases hsc : sim.scenario with
    | standby =>
      rw [hsc] at hr
      have hge : (sim.agentsNum : Int) ≤ colorAt prepared v := hr
      have := (hcall.nodes _ hm).2
      omega
    | scatter =>
      rw [hclear.2 hsc, List.append_nil] at hm
      exact hrep hm

theorem room_replicate {d : ECDAG} (h : (ParallelSolution.moveBound d : Int) < INT_MAX) (m : Nat) :
    ParallelSolution.Room d (List.replicate m [0, 0]) := by
  intro row hrow
  rw [List.eq_of_mem_replicate hrow]
  have hget : ([0, 0] : List Int).getD 0 0 = 0 ∧ ([0, 0] : List Int).getD 1 0 = 0 := ⟨rfl, rfl⟩
  omega

/-- **The colouring of each method** is live when the call is clear for the stripe. -/
theorem coloringOf_live (hcode : sim.Repairs) (hk : 0 < sim.eck) (hkn : sim.eck ≤ sim.ecn)
    (hR : sim.ecn ≤ REQUESTOR) (hw : 0 < sim.ecw) (hst : sim.Places st)
    (hcall : call.Valid sim.agentsNum)
    (hfail : 0 < failsInStripe call.repaired st ∧
      (failsInStripe call.repaired st : Int) ≤ sim.ecn - sim.eck)
    (hclear : sim.Clear call st) (ord : HashOrder Walk) (ord' : HashOrder EvalWalk)
    (draws : Nat → Nat → Nat) (method : Nat) {coloring : Coloring}
    (hcoloring : sim.coloringOf ord ord' draws call.repaired st method = some coloring) :
    sim.Live call st coloring := by
  have hcard := card_failBlocks hst (List.Nodup.of_append_left hcall.nodup)
  have hn : 0 < sim.ecn := by omega
  have hpos : 0 < ((sim.solution call.repaired).failBlocks st.placement call.repaired).card :=
    hcard ▸ hfail.1
  have htol : ((sim.solution call.repaired).failBlocks st.placement call.repaired).card ≤
      sim.ecn - sim.eck := by omega
  obtain ⟨⟨js, hdec, hjs⟩, hmove⟩ := hcode _ (Finset.filter_subset _ _) hpos htol
  have hd : RepairDag (sim.repairDag call.repaired st) sim.ecn sim.ecw
      ((sim.solution call.repaired).failBlocks st.placement call.repaired) :=
    RepairDag.of_decodes hR hw hdec hjs
  have ha := admissible hst hcall
  obtain ⟨res, hres, rfl⟩ := Option.map_eq_some_iff.1 hcoloring
  obtain ⟨hleaf, hplaced, hconcact⟩ := ParallelSolution.coloring_usable hd ha hn hR (draws method)
    (room_replicate hmove (sim.solution call.repaired).clusterSize) ord ord' method hres
  have horigin := (ParallelSolution.prepare_spec ha (draws method) hR hd).2
  have husable := fun c hc => usable_not_failed hst hcall hclear horigin (c := c) hc
  have hneg : (-1 : Int) ∉ call.repaired ++ call.left := fun hm => by
    have := (hcall.nodes _ hm).1
    omega
  refine ⟨?_, fun v hv hreal => ?_, fun v hv => ?_, fun v hv => ?_, fun v hv => ?_⟩
  · have hleft : failsInStripe call.left st = 0 := by
      refine List.countP_eq_zero.2 fun x hx => ?_
      rw [decide_eq_true_eq]
      exact hclear.1 x hx
    rw [failsInStripe, List.countP_append]
    unfold failsInStripe at hleft hfail
    omega
  · obtain ⟨h1, h2⟩ := hleaf v hv hreal
    exact ⟨h1, (husable _ h2).2⟩
  · exact (hplaced v hv).imp (fun h => h.2) fun h => (husable _ h).1
  · rcases hplaced v hv with ⟨h, -⟩ | h
    · exact fun hm => hneg (h ▸ hm)
    · exact (husable _ h).2
  · exact husable _ (hconcact v hv)

/-- One of the two colourings is kept. -/
theorem plan_live (hcode : sim.Repairs) (hk : 0 < sim.eck) (hkn : sim.eck ≤ sim.ecn)
    (hR : sim.ecn ≤ REQUESTOR) (hw : 0 < sim.ecw) (hst : sim.Places st)
    (hcall : call.Valid sim.agentsNum) {stripeList : List PlacedStripe}
    (hmem : st ∈ sim.affected call.repaired stripeList) (hclear : sim.Clear call st)
    (ord : HashOrder Walk) (ord' : HashOrder EvalWalk) (draws : Nat → Nat → Nat)
    {coloring : Coloring} (hplan : sim.plan ord ord' draws call.repaired st = some coloring) :
    sim.Live call st coloring := by
  have hfail := (List.mem_filter.1 hmem).2
  rw [decide_eq_true_eq] at hfail
  have hlive := fun method coloring => @coloringOf_live sim call st hcode hk hkn hR hw hst hcall hfail
    hclear ord ord' draws method coloring
  obtain ⟨hyper, hhyper, hplan⟩ := Option.bind_eq_some_iff.1 hplan
  obtain ⟨multi, hmulti, hplan⟩ := Option.bind_eq_some_iff.1 hplan
  split at hplan
  · exact Option.some.inj hplan ▸ hlive 0 hyper hhyper
  · exact Option.some.inj hplan ▸ hlive 1 multi hmulti

end

/-- **Repair plans use live nodes**, for every strategy, trace, placement, draw and order of the
unordered maps: at every call of a run, if no node that stays failed can get into the plan of an
affected stripe. Immediate has no such node at any call. A plan for which an assertion fails is
not costed. -/
theorem plans_live (sim : Simulator) (hcode : sim.Repairs) (hk : 0 < sim.eck)
    (hkn : sim.eck ≤ sim.ecn) (hR : sim.ecn ≤ REQUESTOR) (hw : 0 < sim.ecw)
    (stripeList : List PlacedStripe) (hst : ∀ st ∈ stripeList, sim.Places st)
    (trace : List (List Int)) (htrace : ∀ event ∈ trace, ∀ x ∈ event, 0 ≤ x ∧ x < sim.agentsNum) :
    (∀ (σ : Type) (strategy : Strategy σ) (init : σ),
      ∀ call ∈ simulate strategy stripeList init (.new sim.ecn sim.eck) trace,
      ∀ st ∈ sim.affected call.repaired stripeList, sim.Clear call st →
      ∀ ord ord' draws coloring, sim.plan ord ord' draws call.repaired st = some coloring →
        sim.Live call st coloring) ∧
    ∀ call ∈ simulate Strategy.immediate stripeList () (.new sim.ecn sim.eck) trace,
      ∀ st ∈ sim.affected call.repaired stripeList,
      ∀ ord ord' draws coloring, sim.plan ord ord' draws call.repaired st = some coloring →
        sim.Live call st coloring := by
  have hvalid := fun (σ : Type) (strategy : Strategy σ) init => mem_simulate strategy stripeList
    sim.agentsNum trace init (.new sim.ecn sim.eck) (fun x hx => absurd hx List.not_mem_nil) htrace
  constructor
  · intro σ strategy init call hcall st hmem hclear ord ord' draws coloring hplan
    exact plan_live hcode hk hkn hR hw (hst st (List.mem_filter.1 hmem).1)
      (hvalid σ strategy init call hcall) hmem hclear ord ord' draws hplan
  · intro call hcall st hmem ord ord' draws coloring hplan
    have hleft := left_immediate stripeList trace _ call hcall
    exact plan_live hcode hk hkn hR hw (hst st (List.mem_filter.1 hmem).1)
      (hvalid Unit _ () call hcall) hmem ⟨by simp [hleft], fun _ => hleft⟩ ord ord' draws hplan

/-! ## Two stripes of a (4, 2) code -/

/-- Standby nodes for the Reed-Solomon code on seven agents. -/
noncomputable def smallSimulator : Simulator :=
  ⟨4, 2, 1, 7, .standby, RSCONV.decode (RSCONV.exactInvert RSCONV.smallFields) 4 2⟩

def firstStripe : PlacedStripe := ⟨0, [0, 1, 2, 3], by decide⟩

def secondStripe : PlacedStripe := ⟨1, [0, 4, 5, 6], by decide⟩

theorem smallSimulator_repairs : smallSimulator.Repairs := by
  have hall : ∀ failed ∈ (Finset.range 4).powerset, 0 < failed.card → failed.card ≤ 2 →
      let js := RSCONV.decodeJoins (RSCONV.exactInvert RSCONV.smallFields) 4 2
        (packets 1 (survivors 4 failed)) (packets 1 (losses 4 failed))
      (∀ j ∈ js, j.cidx ≠ []) ∧ (∀ v ∈ (ECDAG.build js).ecLeaves, v / 1 ∉ failed) ∧
        (∀ v ∈ packets 1 (losses 4 failed), v ∈ (ECDAG.build js).nodeIds) ∧
        (∀ i ∈ losses 4 failed, REQUESTOR - i ∉ (ECDAG.build js).nodeIds) ∧
        (ParallelSolution.moveBound (smallSimulator.decodeDag failed) : Int) < INT_MAX := by
    decide +kernel
  intro failed hsub hpos hle
  obtain ⟨h1, h2, h3, h4, h5⟩ := hall failed (Finset.mem_powerset.2 hsub) hpos hle
  exact ⟨⟨_, rfl, h1, h2, h3, h4⟩, h5⟩

/-- Nodes 0 and 4 fail, and nodes 1 and 2 will: node 0 is repaired and node 4, which stores
nothing of the first stripe, stays failed. -/
theorem plans_live_partial : ∃ coloring, smallSimulator.plan (HashOrder.insertion Walk)
      (HashOrder.insertion EvalWalk) (fun _ _ => 0) [0] firstStripe = some coloring ∧
    smallSimulator.Live ⟨[0], [4]⟩ firstStripe coloring := by
  obtain ⟨coloring, hplan⟩ : ∃ coloring, smallSimulator.plan (HashOrder.insertion Walk)
      (HashOrder.insertion EvalWalk) (fun _ _ => 0) [0] firstStripe = some coloring :=
    Option.isSome_iff_exists.1 (by decide +kernel)
  exact ⟨coloring, hplan, (plans_live smallSimulator smallSimulator_repairs (by decide) (by decide)
    (by decide) (by decide) [firstStripe, secondStripe] (by unfold Places; decide) [[0, 4], [1, 2]]
    (by decide)).1 Unit (Strategy.traceDriven [firstStripe, secondStripe]) () ⟨[0], [4]⟩
    (by decide +kernel) firstStripe (by decide) ⟨by decide, fun h => absurd h (by decide)⟩ _ _ _
    coloring hplan⟩

/-- **A plan that reads from a failed node.** Nodes 0 and 4 fail, and nodes 1 and 2 will: the
first stripe is in danger, so node 0 is repaired. The second stripe is planned with it, reading
block 1 from node 4, which stays failed. -/
theorem traceDriven_reads_failed :
    ¬ ∀ call ∈ simulate (Strategy.traceDriven [firstStripe, secondStripe])
        [firstStripe, secondStripe] () (.new 4 2) [[0, 4], [1, 2]],
      ∀ st ∈ smallSimulator.affected call.repaired [firstStripe, secondStripe],
      ∀ ord ord' draws coloring, smallSimulator.plan ord ord' draws call.repaired st = some coloring →
        smallSimulator.Live call st coloring := by
  intro h
  obtain ⟨coloring, hplan⟩ : ∃ coloring, smallSimulator.plan (HashOrder.insertion Walk)
      (HashOrder.insertion EvalWalk) (fun _ _ => 0) [0] secondStripe = some coloring :=
    Option.isSome_iff_exists.1 (by decide +kernel)
  have hlive := h ⟨[0], [4]⟩ (by decide +kernel) secondStripe (by decide)
    (HashOrder.insertion Walk) (HashOrder.insertion EvalWalk) (fun _ _ => 0) coloring hplan
  obtain ⟨hnode, hfailed⟩ := hlive.reads 1 (by decide +kernel) (by decide)
  have hfour : secondStripe.placement[1 / smallSimulator.ecw]? = some 4 := rfl
  rw [hfour, Option.some.injEq] at hnode
  rw [← hnode] at hfailed
  exact hfailed (by decide)

end Simulator

end StripeRepair

import StripeRepair.Sim.TraceDriven
import Mathlib.Algebra.Order.Ring.Rat
import Mathlib.Tactic.NormNum

/-!
# `MLPredictor` and the ML-driven strategy

`runMLDriven` makes the decision of the trace-driven strategy; only the prediction of the
next event comes from a predictor with false alarms (rate `fpr`) and misses (rate `fnr`).
The predictor leaves out the nodes that are failed already.

* `predict_perfect`: with both rates 0 it predicts the other nodes of the next event.
* `ml_eq_traceDriven_iff`: the two strategies then do the same exactly when no decision
  rests on a node that fails again while it is failed.
* `ml_ne_traceDriven`: a trace on which they differ.
-/

namespace StripeRepair

/-- A value of `uniform_real_distribution(0, 1)`. -/
structure Draw where
  value : Rat
  nonneg : 0 ≤ value
  lt_one : value < 1

structure PredictorStats where
  truePositives : Nat
  falsePositives : Nat
  falseNegatives : Nat
  trueNegatives : Nat
  deriving DecidableEq, Repr

/-- `rng` is the number of values drawn so far. -/
structure MLPredictor where
  allNodeIds : List Int
  fpr : Rat
  fnr : Rat
  stats : PredictorStats
  rng : Nat

namespace MLPredictor

/-- The node ids are `0 … total_nodes - 1`. -/
def new (totalNodes : Nat) (fpr fnr : Rat) : MLPredictor :=
  ⟨(List.range totalNodes).map fun i : Nat => (i : Int), fpr, fnr, ⟨0, 0, 0, 0⟩, 0⟩

/-- The body of the loop over the nodes. -/
def predictOne (draws : Nat → Draw) (realFail alreadyFailed : List Int)
    (acc : List Int × MLPredictor) (nid : Int) : List Int × MLPredictor :=
  let (predicted, p) := acc
  if nid ∈ alreadyFailed then acc
  else if nid ∈ realFail then
    if (draws p.rng).value ≥ p.fnr then
      (predicted ++ [nid], { p with
        stats := { p.stats with truePositives := p.stats.truePositives + 1 }, rng := p.rng + 1 })
    else
      (predicted, { p with
        stats := { p.stats with falseNegatives := p.stats.falseNegatives + 1 }, rng := p.rng + 1 })
  else if (draws p.rng).value < p.fpr then
    (predicted ++ [nid], { p with
      stats := { p.stats with falsePositives := p.stats.falsePositives + 1 }, rng := p.rng + 1 })
  else
    (predicted, { p with
      stats := { p.stats with trueNegatives := p.stats.trueNegatives + 1 }, rng := p.rng + 1 })

def predictNextFailures (p : MLPredictor) (draws : Nat → Draw)
    (realNextEvent currentFailed : List Int) : List Int × MLPredictor :=
  p.allNodeIds.foldl (predictOne draws realNextEvent currentFailed) ([], p)

/-- Both rates are 0, and the nodes are those of the cluster. -/
structure Perfect (p : MLPredictor) (totalNodes : Nat) : Prop where
  nodes : ∀ x, x ∈ p.allNodeIds ↔ 0 ≤ x ∧ x < totalNodes
  fpr : p.fpr = 0
  fnr : p.fnr = 0

theorem perfect_new (totalNodes : Nat) : (new totalNodes 0 0).Perfect totalNodes := by
  refine ⟨fun x => ?_, rfl, rfl⟩
  simp only [new, List.mem_map, List.mem_range]
  constructor
  · rintro ⟨i, hi, rfl⟩
    omega
  · rintro ⟨h0, hlt⟩
    exact ⟨x.toNat, by omega, by omega⟩

/-- **A perfect prediction**: the nodes of the next event that are not failed already. -/
theorem predict_perfect {p : MLPredictor} {totalNodes : Nat} (hp : p.Perfect totalNodes)
    (draws : Nat → Draw) (real cur : List Int) :
    (∀ x, x ∈ (p.predictNextFailures draws real cur).1 ↔
      x ∈ p.allNodeIds ∧ x ∉ cur ∧ x ∈ real) ∧
    (p.predictNextFailures draws real cur).2.Perfect totalNodes := by
  have hstep : ∀ (acc : List Int × MLPredictor) (nid : Int), acc.2.Perfect totalNodes →
      (predictOne draws real cur acc nid).2.Perfect totalNodes ∧
      (predictOne draws real cur acc nid).1 =
        if nid ∉ cur ∧ nid ∈ real then acc.1 ++ [nid] else acc.1 := by
    rintro ⟨predicted, p⟩ nid ⟨h1, h2, h3⟩
    have hge : (draws p.rng).value ≥ p.fnr := h3 ▸ (draws p.rng).nonneg
    have hlt : ¬ (draws p.rng).value < p.fpr := not_lt.2 (h2 ▸ (draws p.rng).nonneg)
    unfold predictOne
    by_cases hc : nid ∈ cur
    · simp only [hc, if_true, not_true_eq_false, false_and, if_false]
      exact ⟨⟨h1, h2, h3⟩, trivial⟩
    · by_cases hr : nid ∈ real
      · simp only [hc, hr, hge, if_true, if_false, not_false_eq_true, and_self]
        exact ⟨⟨h1, h2, h3⟩, trivial⟩
      · simp only [hc, hr, hlt, if_false, and_false]
        exact ⟨⟨h1, h2, h3⟩, trivial⟩
  have hfold : ∀ (nids : List Int) (acc : List Int × MLPredictor), acc.2.Perfect totalNodes →
      (nids.foldl (predictOne draws real cur) acc).2.Perfect totalNodes ∧
      ∀ x, x ∈ (nids.foldl (predictOne draws real cur) acc).1 ↔
        x ∈ acc.1 ∨ (x ∈ nids ∧ x ∉ cur ∧ x ∈ real) := by
    intro nids
    induction nids with
    | nil => exact fun acc h => ⟨h, by simp⟩
    | cons nid nids ih =>
      intro acc h
      obtain ⟨h1, h2⟩ := hstep acc nid h
      obtain ⟨h3, h4⟩ := ih _ h1
      refine ⟨h3, fun x => ?_⟩
      rw [List.foldl_cons, h4, h2, List.mem_cons]
      by_cases hx : x = nid
      · subst hx
        split
        · next hc => simp [hc]
        · next hc => simp [hc]
      · split <;> simp [hx]
  obtain ⟨h1, h2⟩ := hfold p.allNodeIds ([], p) hp
  exact ⟨fun x => (h2 x).trans (by simp), h1⟩

end MLPredictor

namespace RepairSchedulerNew

/-! ## The two strategies -/

/-- The loop of `runOriginalStrategy` with strategy 2. -/
def runTraceDriven (stripeList : List PlacedStripe) :
    RepairSchedulerNew → List (List Int) → List EventOutcome
  | _, [] => []
  | s, event :: rest =>
    let o := s.repairStep stripeList event (rest.headD [])
    o :: runTraceDriven stripeList o.scheduler rest

/-- The loop of `runMLDriven`. -/
def runMLDriven (draws : Nat → Draw) (stripeList : List PlacedStripe) :
    MLPredictor → RepairSchedulerNew → List (List Int) → List EventOutcome
  | _, _, [] => []
  | p, s, event :: rest =>
    let (predIds, p) := p.predictNextFailures draws (rest.headD [])
      (s.observe stripeList event).currentFailed
    let o := s.repairStep stripeList event predIds
    o :: runMLDriven draws stripeList p o.scheduler rest

/-- The decision and the repaired nodes of an event. -/
def report (o : EventOutcome) : RepairDecision × List Int := (o.decision, o.repaired)

/-! ## One event -/

/-- The nodes that fail next and are not failed. -/
def freshFails (s : RepairSchedulerNew) (nextIds : List Int) : List Int :=
  nextIds.filter fun x => x ∉ s.currentFailed

/-- A stripe that is in danger only when nodes are counted twice has its failed nodes in
stripes that are in danger anyway. -/
def RepeatsHarmless (s : RepairSchedulerNew) (stripeList : List PlacedStripe)
    (nextIds : List Int) : Prop :=
  ∀ st ∈ stripesOf stripeList, s.InDanger nextIds st → ∀ x ∈ inStripe st s.currentFailed,
    ∃ st' ∈ stripesOf stripeList, s.InDanger (s.freshFails nextIds) st' ∧
      x ∈ inStripe st' s.currentFailed

/-- The same along the trace-driven run. -/
def HarmlessRun (stripeList : List PlacedStripe) : RepairSchedulerNew → List (List Int) → Prop
  | _, [] => True
  | s, event :: rest =>
    (s.observe stripeList event).RepeatsHarmless stripeList (rest.headD []) ∧
      HarmlessRun stripeList (s.repairStep stripeList event (rest.headD [])).scheduler rest

section
variable {s : RepairSchedulerNew} {stripeList : List PlacedStripe}

/-- Only the nodes of a stripe count. -/
theorem nodesToRepairSet_congr {ids ids' : List Int}
    (h : ∀ st ∈ stripeList, ∀ x ∈ st.placement, x ∈ ids ↔ x ∈ ids') :
    s.nodesToRepairSet stripeList ids = s.nodesToRepairSet stripeList ids' := by
  ext x
  rw [mem_nodesToRepairSet, mem_nodesToRepairSet]
  refine exists_congr fun st => and_congr_right fun hst => and_congr_left fun _ => ?_
  have hin : inStripe st ids = inStripe st ids' :=
    List.filter_congr fun y hy => by simp [h st (mem_of_mem_stripesOf hst) y hy]
  rw [InDanger, InDanger, hin]

theorem decide_congr {ids ids' : List Int}
    (h : s.nodesToRepairSet stripeList ids = s.nodesToRepairSet stripeList ids') :
    s.decideTraceDrivenStripe stripeList ids = s.decideTraceDrivenStripe stripeList ids' := by
  rw [decideTraceDrivenStripe, decideTraceDrivenStripe, h]

theorem nodesToRepairSet_fresh_subset (nextIds : List Int) :
    s.nodesToRepairSet stripeList (s.freshFails nextIds) ⊆ s.nodesToRepairSet stripeList nextIds := by
  intro x hx
  obtain ⟨st, hst, ⟨hne, hlt⟩, hx⟩ := (mem_nodesToRepairSet _ _ _).1 hx
  have hle : (inStripe st (s.freshFails nextIds)).length ≤ (inStripe st nextIds).length :=
    length_inStripe_le fun y _ hy => List.mem_of_mem_filter hy
  exact (mem_nodesToRepairSet _ _ _).2 ⟨st, hst, ⟨hne, by omega⟩, hx⟩

theorem repeatsHarmless_iff {nextIds : List Int} : s.RepeatsHarmless stripeList nextIds ↔
    s.nodesToRepairSet stripeList (s.freshFails nextIds) = s.nodesToRepairSet stripeList nextIds := by
  constructor
  · intro h
    refine Finset.Subset.antisymm (nodesToRepairSet_fresh_subset nextIds) fun x hx => ?_
    obtain ⟨st, hst, hd, hx⟩ := (mem_nodesToRepairSet _ _ _).1 hx
    exact (mem_nodesToRepairSet _ _ _).2 (h st hst hd x hx)
  · intro h st hst hd x hx
    rw [← mem_nodesToRepairSet, h, mem_nodesToRepairSet]
    exact ⟨st, hst, hd, hx⟩

/-- There are no repeats. -/
theorem repeatsHarmless_of_fresh {nextIds : List Int} (h : ∀ x ∈ nextIds, x ∉ s.currentFailed) :
    s.RepeatsHarmless stripeList nextIds := by
  have hfresh : s.freshFails nextIds = nextIds :=
    List.filter_eq_self.2 fun x hx => decide_eq_true (h x hx)
  rw [repeatsHarmless_iff, hfresh]

/-- **One event**: the two predictions lead to the same report exactly when repeats are
harmless, and then to the same scheduler. -/
theorem report_eq_iff {event nextIds predIds : List Int}
    (hpred : (s.observe stripeList event).nodesToRepairSet stripeList predIds =
      (s.observe stripeList event).nodesToRepairSet stripeList
        ((s.observe stripeList event).freshFails nextIds)) :
    (report (s.repairStep stripeList event predIds) =
        report (s.repairStep stripeList event nextIds) ↔
      (s.observe stripeList event).RepeatsHarmless stripeList nextIds) ∧
    ((s.observe stripeList event).RepeatsHarmless stripeList nextIds →
      s.repairStep stripeList event predIds = s.repairStep stripeList event nextIds) := by
  have heq : (s.observe stripeList event).RepeatsHarmless stripeList nextIds →
      s.repairStep stripeList event predIds = s.repairStep stripeList event nextIds := by
    intro h
    rw [repeatsHarmless_iff, ← hpred] at h
    rw [repairStep, decide_congr h, repairStep]
  refine ⟨⟨fun h => ?_, fun h => by rw [heq h]⟩, heq⟩
  rw [repeatsHarmless_iff, ← hpred]
  ext x
  rw [← ((s.repairStep_spec stripeList event predIds).2 x).1,
    ← ((s.repairStep_spec stripeList event nextIds).2 x).1, (Prod.mk.inj h).2]

/-- What a perfect predictor predicts has the effect of the fresh failures. -/
theorem nodesToRepairSet_perfect {p : MLPredictor} {totalNodes : Nat} (hp : p.Perfect totalNodes)
    (draws : Nat → Draw) {nextIds : List Int}
    (hids : ∀ x ∈ nextIds, 0 ≤ x ∧ x < (totalNodes : Int)) :
    s.nodesToRepairSet stripeList (p.predictNextFailures draws nextIds s.currentFailed).1 =
      s.nodesToRepairSet stripeList (s.freshFails nextIds) := by
  refine nodesToRepairSet_congr fun st _ x _ => ?_
  rw [(MLPredictor.predict_perfect hp draws nextIds s.currentFailed).1 x, freshFails,
    List.mem_filter, decide_eq_true_iff, hp.nodes, and_comm (a := x ∈ nextIds)]
  exact and_iff_right_of_imp fun h => hids x h.2

end

/-! ## The whole trace -/

theorem reports_eq_iff (draws : Nat → Draw) (stripeList : List PlacedStripe) {totalNodes : Nat}
    (events : List (List Int)) (hids : ∀ event ∈ events, ∀ x ∈ event, 0 ≤ x ∧ x < (totalNodes : Int))
    {p : MLPredictor} (hp : p.Perfect totalNodes) (s : RepairSchedulerNew) :
    (runMLDriven draws stripeList p s events).map report =
        (runTraceDriven stripeList s events).map report ↔ HarmlessRun stripeList s events := by
  induction events generalizing p s with
  | nil => exact iff_of_true rfl trivial
  | cons event rest ih =>
    have hnext : ∀ x ∈ rest.headD [], 0 ≤ x ∧ x < (totalNodes : Int) := by
      intro x hx
      cases rest with
      | nil => cases hx
      | cons e rest => exact hids e (by simp) x hx
    have hpred : (s.observe stripeList event).nodesToRepairSet stripeList _ =
        (s.observe stripeList event).nodesToRepairSet stripeList _ :=
      nodesToRepairSet_perfect hp draws hnext
    obtain ⟨hiff, heq⟩ := report_eq_iff hpred
    have hp' := (MLPredictor.predict_perfect hp draws (rest.headD [])
      (s.observe stripeList event).currentFailed).2
    simp only [runMLDriven, runTraceDriven, HarmlessRun, List.map_cons, List.cons.injEq]
    rw [hiff]
    refine and_congr_right fun h => ?_
    rw [heq h]
    exact ih (fun e he => hids e (List.mem_cons_of_mem _ he)) hp' _

/-- **No node fails twice** in the trace. -/
theorem harmlessRun_of_disjoint (stripeList : List PlacedStripe) {events : List (List Int)}
    (h : events.Pairwise List.Disjoint) (s : RepairSchedulerNew)
    (hs : ∀ event ∈ events.tail, ∀ x ∈ event, x ∉ s.currentFailed) :
    HarmlessRun stripeList s events := by
  induction events generalizing s with
  | nil => trivial
  | cons event rest ih =>
    obtain ⟨hevent, hrest⟩ := List.pairwise_cons.1 h
    have hlater : ∀ e ∈ rest, ∀ x ∈ e, x ∉ s.currentFailed ∧ x ∉ event := fun e he x hx =>
      ⟨hs e he x hx, fun hm => hevent e he hm hx⟩
    refine ⟨repeatsHarmless_of_fresh fun x hx hm => ?_, ih hrest _ fun e he x hx hm => ?_⟩
    · rw [currentFailed_observe, mem_addFailures] at hm
      cases rest with
      | nil => cases hx
      | cons e rest =>
        obtain ⟨hold, hnew⟩ := hlater e List.mem_cons_self x hx
        exact hm.elim hold hnew
    · obtain ⟨hold, hnew⟩ := hlater e (List.mem_of_mem_tail he) x hx
      exact (((s.repairStep_spec stripeList event _).2 x).2.1 hm).1.elim hold hnew

/-- **A perfect predictor against the trace.** With both rates 0, every event has the same
decision and the same repaired nodes exactly when no decision of the run rests on a node that
fails again while it is failed. -/
theorem ml_eq_traceDriven_iff (draws : Nat → Draw) (stripeList : List PlacedStripe) (n k : Int)
    (numAgents : Nat) (events : List (List Int))
    (hids : ∀ event ∈ events, ∀ x ∈ event, 0 ≤ x ∧ x < (numAgents : Int)) :
    (runMLDriven draws stripeList (.new numAgents 0 0) (new n k) events).map report =
        (runTraceDriven stripeList (new n k) events).map report ↔
      HarmlessRun stripeList (new n k) events :=
  reports_eq_iff draws stripeList events hids (MLPredictor.perfect_new numAgents) _

/-- Every draw is one half. -/
def halfDraws (_ : Nat) : Draw := ⟨1 / 2, by norm_num, by norm_num⟩

/-- One stripe of a (3, 2) code; node 1 fails twice. The second failure is counted as one
more, so the trace-driven strategy repairs the node, and the ML-driven one waits. -/
theorem ml_ne_traceDriven :
    (runTraceDriven [⟨0, [1, 2, 3], by decide⟩] (new 3 2) [[1], [1]]).map report =
      [(.repairImmediate, [1]), (.repairLazy, [])] ∧
    (runMLDriven halfDraws [⟨0, [1, 2, 3], by decide⟩] (.new 4 0 0) (new 3 2) [[1], [1]]).map report =
      [(.repairLazy, []), (.repairLazy, [])] := by
  decide +kernel

/-- When node 2 fails next instead, both repair node 1. -/
theorem ml_eq_traceDriven_fresh :
    (runMLDriven halfDraws [⟨0, [1, 2, 3], by decide⟩] (.new 4 0 0) (new 3 2) [[1], [2]]).map report =
      (runTraceDriven [⟨0, [1, 2, 3], by decide⟩] (new 3 2) [[1], [2]]).map report :=
  (ml_eq_traceDriven_iff halfDraws _ 3 2 4 [[1], [2]] (by decide)).2
    (harmlessRun_of_disjoint _ (by simp) _ (by decide))

end RepairSchedulerNew

end StripeRepair

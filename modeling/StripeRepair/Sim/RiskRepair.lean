import StripeRepair.Sim.StripeRisk
import Mathlib

/-!
# `decideStripeDifferentiated` and `decideCombined`

Both judge stripes by their failed nodes and their predicted hits, and repair the nodes that
`greedySelectNodes` takes for the risky stripes.

* `covers_iff`: when a partial repair makes the risky stripes safe.
* `covers_of_demand`: it does when the demand counts the predicted hits.
-/

namespace StripeRepair

/-- The comparisons of floating-point numbers: the score of a stripe with some failed nodes
against `stripe_risk_threshold`, and the global risk against its two thresholds. -/
structure RiskTests where
  atRisk : Nat → Bool
  belowPartial : Bool
  aboveFull : Bool

/-- `adaptiveLookahead`; the quotient is compared with 0.75, 0.5 and 0.25. -/
def adaptiveLookahead (currentFailures : Nat) (tolerance : Int) : Nat :=
  if tolerance ≤ 0 then 1
  else if 3 * tolerance ≤ 4 * currentFailures then 5
  else if 2 * tolerance ≤ 4 * currentFailures then 3
  else if tolerance ≤ 4 * currentFailures then 2
  else 1

namespace RepairSchedulerNew

/-- `future_hits` -/
def futureHits (ids : List Int) (st : PlacedStripe) : Nat := ids.countP fun nid => nid ∈ st.placement

/-- What a decision counts: `skipped_repair_count`, or `_risk_sum_at_repair` and
`_repair_trigger_count`. -/
inductive Counted
  | nothing
  | skipped
  | triggered
  deriving DecidableEq, Repr

section
variable (s : RepairSchedulerNew) (sort : PrioritySort) (tests : RiskTests)
  (stripeList : List PlacedStripe)

/-- The body of the loop over the risks: `critical_stripes`, `high_risk_stripes` or none. -/
def classify (nextFailIds : List Int) (sr : StripeRisk) : Option Bool :=
  if sr.critical then some true
  else if tests.atRisk sr.failCount then
    match (sidMap stripeList).lookup sr.stripeId with
    | none => none
    | some st => some (s.tolerance < (sr.failCount + futureHits nextFailIds st : Nat))
  else none

def criticalStripes (nextFailIds : List Int) : List StripeRisk :=
  (s.computeStripeRisks stripeList).filter fun sr =>
    s.classify tests stripeList nextFailIds sr = some true

def highRiskStripes (nextFailIds : List Int) : List StripeRisk :=
  (s.computeStripeRisks stripeList).filter fun sr =>
    s.classify tests stripeList nextFailIds sr = some false

def decideRiskAwarePartial : RepairDecision :=
  if s.currentFailed = [] then .repairLazy
  else if tests.aboveFull then .repairImmediate
  else if tests.belowPartial then .repairLazy
  else .repairPartial

def decideStripeDifferentiated (nextFailIds : List Int) : RepairDecision × List Int × Counted :=
  if s.currentFailed = [] then (.repairLazy, [], .nothing)
  else
    let critical := s.criticalStripes tests stripeList nextFailIds
    let highRisk := s.highRiskStripes tests stripeList nextFailIds
    if critical = [] ∧ highRisk = [] then (.repairLazy, [], .skipped)
    else
      let priorities := computeNodePriorities sort s.currentFailed stripeList critical highRisk
      let nodesToRepair := s.greedySelectNodes priorities critical stripeList
      if nodesToRepair = [] then (.repairLazy, [], .skipped)
      else if nodesToRepair.length = s.currentFailed.length then
        (.repairImmediate, nodesToRepair, .nothing)
      else (.repairPartial, nodesToRepair, .nothing)

/-- The hits of the windows that are looked at. -/
def windowHits (futureFailWindows : List (List Int)) (st : PlacedStripe) : Nat :=
  ((futureFailWindows.take (adaptiveLookahead s.currentFailed.length s.tolerance)).map fun ids =>
    futureHits ids st).sum

/-- The body of the loop over the risks of `decideCombined`. -/
def mustRepair (futureFailWindows : List (List Int)) (sr : StripeRisk) : Bool :=
  if sr.critical then true
  else
    match (sidMap stripeList).lookup sr.stripeId with
    | none => false
    | some st => s.tolerance < (sr.failCount + s.windowHits futureFailWindows st : Nat)

def mustRepairStripes (futureFailWindows : List (List Int)) : List StripeRisk :=
  (s.computeStripeRisks stripeList).filter (s.mustRepair stripeList futureFailWindows)

def allHighRisk : List StripeRisk :=
  (s.computeStripeRisks stripeList).filter fun sr => tests.atRisk sr.failCount

def decideCombined (futureFailWindows : List (List Int)) : RepairDecision × List Int × Counted :=
  if s.currentFailed = [] then (.repairLazy, [], .nothing)
  else if tests.belowPartial then (.repairLazy, [], .skipped)
  else
    let mustRepairStripes := s.mustRepairStripes stripeList futureFailWindows
    if mustRepairStripes = [] then
      if tests.aboveFull then (.repairImmediate, s.currentFailed, .triggered)
      else (.repairLazy, [], .skipped)
    else
      let priorities := computeNodePriorities sort s.currentFailed stripeList mustRepairStripes
        (s.allHighRisk tests stripeList)
      let nodesToRepair := s.greedySelectNodes priorities mustRepairStripes stripeList
      if nodesToRepair = [] ∨ nodesToRepair.length = s.currentFailed.length then
        (.repairImmediate, s.currentFailed, .triggered)
      else (.repairPartial, nodesToRepair, .triggered)

end

/-- What the simulator does with a decision. -/
def repair (s : RepairSchedulerNew) (d : RepairDecision × List Int × Counted) :
    RepairSchedulerNew :=
  match d.1 with
  | .repairImmediate => s.executeFullRepair.2
  | .repairPartial => (s.executePartialRepair d.2.1).2
  | .repairLazy => s

/-- The failed nodes of a stripe are within the tolerance with the predicted hits, or there are
none. -/
def Within (s : RepairSchedulerNew) (failed hits : Nat) : Prop :=
  failed = 0 ∨ ((failed + hits : Nat) : Int) ≤ s.tolerance

/-- After the repair each risky stripe is safe, with the hits that its judgement counts. -/
def Covers (s : RepairSchedulerNew) (stripeList : List PlacedStripe) (risky : List StripeRisk)
    (hits : PlacedStripe → Nat) (d : RepairDecision × List Int × Counted) : Prop :=
  d.1 ≠ .repairLazy → ∀ st ∈ s.riskyStripes stripeList risky,
    s.Within (failsInStripe (s.repair d).currentFailed st)
      (if (s.riskOf st).critical then 0 else hits st)

instance (s : RepairSchedulerNew) (failed hits : Nat) : Decidable (s.Within failed hits) := by
  unfold Within
  infer_instance

instance (s : RepairSchedulerNew) (stripeList : List PlacedStripe) (risky : List StripeRisk)
    (hits : PlacedStripe → Nat) (d : RepairDecision × List Int × Counted) :
    Decidable (s.Covers stripeList risky hits d) := by
  unfold Covers
  infer_instance

/-- The stripes that are risky for their predicted hits are safe with the failed nodes that are
not among the first of any risky stripe. -/
def LeftWithin (s : RepairSchedulerNew) (order : List Int) (stripeList : List PlacedStripe)
    (risky : List StripeRisk) (hits : PlacedStripe → Nat) : Prop :=
  ∀ st ∈ s.riskyStripes stripeList risky, (s.riskOf st).critical = false →
    s.Within (s.left order (s.riskyStripes stripeList risky) st).length (hits st)

section
variable (s : RepairSchedulerNew) (sort : PrioritySort) {stripeList : List PlacedStripe}
  (hid : (stripeList.map PlacedStripe.stripeId).Nodup) {risky : List StripeRisk}
  (hr : risky.Sublist (s.computeStripeRisks stripeList)) (highRisk : List StripeRisk)
  (hits : PlacedStripe → Nat)

/-- A stripe that is over the tolerance already is safe with what is left. -/
theorem within_critical {st : PlacedStripe} (hst : st ∈ s.riskyStripes stripeList risky)
    (hcrit : (s.riskOf st).critical = true) :
    s.Within (s.left (s.repairOrder sort stripeList risky highRisk)
      (s.riskyStripes stripeList risky) st).length 0 := by
  have hle := s.length_left_le sort highRisk hst
  have hfail : s.tolerance < ((s.riskOf st).failCount : Int) := of_decide_eq_true hcrit
  have hdemand : (s.riskOf st).failCount - s.tolerance + 1 ≤ demand s.tolerance (s.riskOf st) :=
    le_max_left ..
  unfold Within
  omega

/-- **When the demand is enough.** -/
theorem leftWithin_of_demand (h : ∀ st ∈ s.riskyStripes stripeList risky,
    (s.riskOf st).critical = false → (s.riskOf st).failCount ≤ 1 ∨
      (((s.riskOf st).failCount + hits st : Nat) : Int) ≤ s.tolerance + 1) :
    s.LeftWithin (s.repairOrder sort stripeList risky highRisk) stripeList risky hits := by
  intro st hst hcrit
  have hle := s.length_left_le sort highRisk hst
  have hone := one_le_demand s.tolerance (s.riskOf st)
  have := h st hst hcrit
  unfold Within
  omega

/-- A decision that leaves exactly the nodes that are not selected. -/
theorem covers_iff_leftWithin {d : RepairDecision × List Int × Counted} (hne : d.1 ≠ .repairLazy)
    (hd : ∀ st, failsInStripe (s.repair d).currentFailed st =
      (s.left (s.repairOrder sort stripeList risky highRisk) (s.riskyStripes stripeList risky)
        st).length) :
    s.Covers stripeList risky hits d ↔
      s.LeftWithin (s.repairOrder sort stripeList risky highRisk) stripeList risky hits := by
  constructor
  · intro h st hst hcrit
    have := h hne st hst
    rwa [hd, if_neg (by simp [hcrit])] at this
  · intro h _ st hst
    rw [hd]
    split
    · next hcrit => exact s.within_critical sort highRisk hst hcrit
    · next hcrit => exact h st hst (by simpa using hcrit)

/-- Without risky stripes there is nothing to cover. -/
theorem covers_nil (order : List Int) (d : RepairDecision × List Int × Counted)
    (h : risky = []) :
    s.Covers stripeList risky hits d ↔ s.LeftWithin order stripeList risky hits := by
  have hnone : s.riskyStripes stripeList risky = [] := by
    rw [h]
    exact List.filter_eq_nil_iff.2 fun st _ => by simp
  unfold Covers LeftWithin
  rw [hnone]
  simp

include hr

/-- A risky stripe has a failed node. -/
theorem currentFailed_ne_nil (hne : risky ≠ []) : s.currentFailed ≠ [] := by
  intro hnil
  obtain ⟨sr, hsr⟩ := List.exists_mem_of_ne_nil _ hne
  obtain ⟨st, -, rfl, hfail⟩ := s.exists_of_mem_risks hr hsr
  simp [riskOf, hnil] at hfail

include hid

/-- The nodes that are selected for the risky stripes. -/
theorem covers_iff {d : RepairDecision × List Int × Counted}
    (hd : d.1 = .repairPartial ∧ d.2.1 = s.greedySelectNodes (computeNodePriorities sort
        s.currentFailed stripeList risky highRisk) risky stripeList ∨
      d.1 = .repairImmediate ∧ (s.greedySelectNodes (computeNodePriorities sort
        s.currentFailed stripeList risky highRisk) risky stripeList).length =
          s.currentFailed.length) :
    s.Covers stripeList risky hits d ↔
      s.LeftWithin (s.repairOrder sort stripeList risky highRisk) stripeList risky hits := by
  refine s.covers_iff_leftWithin sort highRisk hits ?_ fun st => ?_
  · rcases hd with ⟨h, -⟩ | ⟨h, -⟩ <;> rw [h] <;> decide
  · rcases hd with ⟨h, hn⟩ | ⟨h, hall⟩
    · rw [repair, h, hn]
      exact s.length_left hid hr sort highRisk st
    · rw [repair, h, s.left_eq_nil hid hr sort highRisk hall]
      rfl

end

section
variable (s : RepairSchedulerNew) (sort : PrioritySort) (tests : RiskTests)
  {stripeList : List PlacedStripe} (hid : (stripeList.map PlacedStripe.stripeId).Nodup)
include hid

theorem decideStripeDifferentiated_covers (nextFailIds : List Int) :
    s.Covers stripeList (s.criticalStripes tests stripeList nextFailIds) (futureHits nextFailIds)
        (s.decideStripeDifferentiated sort tests stripeList nextFailIds) ↔
      s.LeftWithin (s.repairOrder sort stripeList (s.criticalStripes tests stripeList nextFailIds)
          (s.highRiskStripes tests stripeList nextFailIds)) stripeList
        (s.criticalStripes tests stripeList nextFailIds) (futureHits nextFailIds) := by
  have hr : (s.criticalStripes tests stripeList nextFailIds).Sublist
      (s.computeStripeRisks stripeList) := List.filter_sublist
  by_cases hrisky : s.criticalStripes tests stripeList nextFailIds = []
  · exact s.covers_nil _ _ _ hrisky
  · have hfailed := s.currentFailed_ne_nil hr hrisky
    refine s.covers_iff sort hid hr _ _ ?_
    unfold decideStripeDifferentiated
    simp only [if_neg hfailed, hrisky, false_and, if_false,
      if_neg (s.greedySelectNodes_ne_nil hid hr sort _ hrisky)]
    split
    · next hall => exact Or.inr ⟨rfl, hall⟩
    · exact Or.inl ⟨rfl, rfl⟩

theorem decideCombined_covers (futureFailWindows : List (List Int)) :
    s.Covers stripeList (s.mustRepairStripes stripeList futureFailWindows)
        (s.windowHits futureFailWindows)
        (s.decideCombined sort tests stripeList futureFailWindows) ↔
      (tests.belowPartial = false →
        s.LeftWithin (s.repairOrder sort stripeList
            (s.mustRepairStripes stripeList futureFailWindows) (s.allHighRisk tests stripeList))
          stripeList (s.mustRepairStripes stripeList futureFailWindows)
          (s.windowHits futureFailWindows)) := by
  have hr : (s.mustRepairStripes stripeList futureFailWindows).Sublist
      (s.computeStripeRisks stripeList) := List.filter_sublist
  cases hbelow : tests.belowPartial with
  | true =>
    refine iff_of_true (fun hne => absurd ?_ hne) fun h => absurd h (by decide)
    unfold decideCombined
    rw [hbelow]
    split <;> rfl
  | false =>
    rw [forall_prop_of_true rfl]
    by_cases hrisky : s.mustRepairStripes stripeList futureFailWindows = []
    · exact s.covers_nil _ _ _ hrisky
    · have hfailed := s.currentFailed_ne_nil hr hrisky
      refine s.covers_iff sort hid hr _ _ ?_
      unfold decideCombined
      simp only [if_neg hfailed, hbelow, Bool.false_eq_true, if_false, if_neg hrisky,
        s.greedySelectNodes_ne_nil hid hr sort _ hrisky, false_or]
      split
      · next hall => exact Or.inr ⟨rfl, hall⟩
      · exact Or.inl ⟨rfl, rfl⟩

end

/-- **When a partial repair makes the risky stripes safe**: exactly when those that are risky for
their predicted hits are safe with the failed nodes that are not among the first of any risky
stripe, as many as its demand, which leaves the hits out. They are if each of them has one failed
node or exceeds the tolerance by one at most. -/
theorem decisions_cover (s : RepairSchedulerNew) (sort : PrioritySort) (tests : RiskTests)
    {stripeList : List PlacedStripe} (hid : (stripeList.map PlacedStripe.stripeId).Nodup)
    (nextFailIds : List Int) (futureFailWindows : List (List Int)) :
    (s.Covers stripeList (s.criticalStripes tests stripeList nextFailIds)
        (futureHits nextFailIds)
        (s.decideStripeDifferentiated sort tests stripeList nextFailIds) ↔
      s.LeftWithin (s.repairOrder sort stripeList (s.criticalStripes tests stripeList nextFailIds)
          (s.highRiskStripes tests stripeList nextFailIds)) stripeList
        (s.criticalStripes tests stripeList nextFailIds) (futureHits nextFailIds)) ∧
      (s.Covers stripeList (s.mustRepairStripes stripeList futureFailWindows)
          (s.windowHits futureFailWindows)
          (s.decideCombined sort tests stripeList futureFailWindows) ↔
        (tests.belowPartial = false →
          s.LeftWithin (s.repairOrder sort stripeList
              (s.mustRepairStripes stripeList futureFailWindows) (s.allHighRisk tests stripeList))
            stripeList (s.mustRepairStripes stripeList futureFailWindows)
            (s.windowHits futureFailWindows))) ∧
      ∀ (risky highRisk : List StripeRisk) (hits : PlacedStripe → Nat),
        (∀ st ∈ s.riskyStripes stripeList risky, (s.riskOf st).critical = false →
          (s.riskOf st).failCount ≤ 1 ∨
            (((s.riskOf st).failCount + hits st : Nat) : Int) ≤ s.tolerance + 1) →
        s.LeftWithin (s.repairOrder sort stripeList risky highRisk) stripeList risky hits :=
  ⟨s.decideStripeDifferentiated_covers sort tests hid nextFailIds,
    s.decideCombined_covers sort tests hid futureFailWindows,
    fun _ highRisk hits => s.leftWithin_of_demand sort highRisk hits⟩

/-- Two failed nodes of a stripe that tolerates two. -/
def twoFailed : RepairSchedulerNew := (RepairSchedulerNew.new 6 4).addFailures [1, 2]

def sixNodes : PlacedStripe := ⟨0, [1, 2, 3, 4, 5, 6], by decide⟩

/-- The default thresholds. -/
def twoFailedTests : RiskTests := ⟨fun failCount => 3 * 2 ≤ 4 * failCount, false, false⟩

/-- One predicted hit is covered by the node that is repaired. -/
theorem decisions_cover_single : twoFailed.Covers [sixNodes]
    (twoFailed.criticalStripes twoFailedTests [sixNodes] [3]) (futureHits [3])
    (twoFailed.decideStripeDifferentiated .stable twoFailedTests [sixNodes] [3]) := by
  obtain ⟨h, -, hdemand⟩ := twoFailed.decisions_cover .stable twoFailedTests
    (show ([sixNodes].map PlacedStripe.stripeId).Nodup by decide) [3] [[3]]
  exact h.2 (hdemand _ _ _ (by decide +kernel))

/-- One node is repaired, and the two predicted hits exceed the tolerance with the other. -/
theorem two_hits_not_covered :
    (twoFailed.decideStripeDifferentiated .stable twoFailedTests [sixNodes] [3, 4]).1 =
        .repairPartial ∧
      ¬ twoFailed.Covers [sixNodes]
        (twoFailed.criticalStripes twoFailedTests [sixNodes] [3, 4]) (futureHits [3, 4])
        (twoFailed.decideStripeDifferentiated .stable twoFailedTests [sixNodes] [3, 4]) ∧
      ¬ twoFailed.Covers [sixNodes] (twoFailed.mustRepairStripes [sixNodes] [[3, 4]])
        (twoFailed.windowHits [[3, 4]])
        (twoFailed.decideCombined .stable twoFailedTests [sixNodes] [[3, 4]]) := by
  decide +kernel

end RepairSchedulerNew

end StripeRepair

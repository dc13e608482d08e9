import StripeRepair.Sim.RepairScheduler
import Mathlib.Data.List.Chain

/-!
# The trace-driven strategies

`runOriginalStrategy` with strategy 2 and `runMLDriven` perform one step for each event
of the trace: the failures are added, the decision is made for a prediction of the next
event, and the nodes it names are repaired.

* `no_avoidable_loss`: when each prediction contains the next event, a stripe exceeds the
  tolerance only through a single event.
-/

namespace StripeRepair

/-- What an event leads to: the decision, the nodes that are repaired, and the scheduler. -/
structure EventOutcome where
  decision : RepairDecision
  repaired : List Int
  scheduler : RepairSchedulerNew

namespace RepairSchedulerNew

/-- The event is added and losses are recorded; the nodes stay failed. -/
def observe (s : RepairSchedulerNew) (stripeList : List PlacedStripe) (event : List Int) :
    RepairSchedulerNew :=
  let s := s.addFailures event
  let lossStripes := checkStripeDataLoss s.currentFailed stripeList s.tolerance
  if lossStripes > 0 then s.recordDataLoss lossStripes else s

/-- One round of the loop over the trace, with `nextIds` as the prediction. -/
def repairStep (s : RepairSchedulerNew) (stripeList : List PlacedStripe)
    (event nextIds : List Int) : EventOutcome :=
  let s := s.observe stripeList event
  let (decision, nodesToRepair) := s.decideTraceDrivenStripe stripeList nextIds
  if decision = .repairImmediate ∨ decision = .repairPartial then
    let (repaired, s) := s.executePartialRepair nodesToRepair
    ⟨decision, repaired, s⟩
  else ⟨decision, [], s⟩

/-- The scheduler after the events, each with its prediction. -/
def afterSteps (s : RepairSchedulerNew) (stripeList : List PlacedStripe)
    (steps : List (List Int × List Int)) : RepairSchedulerNew :=
  steps.foldl (fun s e => (s.repairStep stripeList e.1 e.2).scheduler) s

/-! ## One step -/

@[simp] theorem tolerance_observe (s : RepairSchedulerNew) (stripeList : List PlacedStripe)
    (event : List Int) : (s.observe stripeList event).tolerance = s.tolerance := by
  unfold observe
  simp only
  split <;> rfl

@[simp] theorem currentFailed_observe (s : RepairSchedulerNew) (stripeList : List PlacedStripe)
    (event : List Int) :
    (s.observe stripeList event).currentFailed = (s.addFailures event).currentFailed := by
  unfold observe
  simp only
  split <;> rfl

section
variable (s : RepairSchedulerNew) (stripeList : List PlacedStripe) (event nextIds : List Int)

/-- **What a step does**: the nodes to repair are repaired, whatever the decision is called. -/
theorem repairStep_spec :
    (s.repairStep stripeList event nextIds).scheduler.tolerance = s.tolerance ∧
    ∀ x, (x ∈ (s.repairStep stripeList event nextIds).repaired ↔
        x ∈ (s.observe stripeList event).nodesToRepairSet stripeList nextIds) ∧
      (x ∈ (s.repairStep stripeList event nextIds).scheduler.currentFailed ↔
        (x ∈ s.currentFailed ∨ x ∈ event) ∧
          x ∉ (s.observe stripeList event).nodesToRepairSet stripeList nextIds) := by
  have hmem := fun x : Int => mem_decide (s.observe stripeList event) stripeList nextIds (x := x)
  have hlazy := (s.observe stripeList event).decide_lazy stripeList nextIds
  unfold repairStep
  simp only
  split
  · next hd =>
    refine ⟨by simp, fun x => ⟨?_, ?_⟩⟩
    · rw [(executePartialRepair_spec _ _ x).1, hmem]
      exact and_iff_right_of_imp (nodesToRepairSet_subset _)
    · rw [(executePartialRepair_spec _ _ x).2, hmem, currentFailed_observe, mem_addFailures]
  · next hd =>
    have hnil : ((s.observe stripeList event).decideTraceDrivenStripe stripeList nextIds).2 = [] := by
      refine hlazy.1 ?_
      cases hdec : ((s.observe stripeList event).decideTraceDrivenStripe stripeList nextIds).1 with
      | repairImmediate => exact absurd (Or.inl hdec) hd
      | repairLazy => rfl
      | repairPartial => exact absurd (Or.inr hdec) hd
    refine ⟨by simp, fun x => ⟨?_, ?_⟩⟩
    · rw [← hmem, hnil]
    · rw [currentFailed_observe, mem_addFailures, ← hmem, hnil]
      simp

end

/-- Every stripe has no failed node, or its failed nodes and the ones predicted to fail next
are at most the tolerance. -/
def Safe (s : RepairSchedulerNew) (stripeList : List PlacedStripe) (nextIds : List Int) : Prop :=
  ∀ st ∈ stripeList, inStripe st s.currentFailed = [] ∨
    ((inStripe st s.currentFailed).length + (inStripe st nextIds).length : Nat) ≤ s.tolerance

/-- **A step ends in a safe state**, whatever state it starts in. -/
theorem safe_repairStep (s : RepairSchedulerNew) {stripeList : List PlacedStripe}
    (hid : (stripeList.map PlacedStripe.stripeId).Nodup) (event nextIds : List Int) :
    (s.repairStep stripeList event nextIds).scheduler.Safe stripeList nextIds := by
  obtain ⟨htol, hmem⟩ := s.repairStep_spec stripeList event nextIds
  intro st hst
  rw [htol]
  by_cases hd : (s.observe stripeList event).InDanger nextIds st
  · -- all failed nodes of a stripe in danger are repaired
    refine Or.inl (List.eq_nil_iff_forall_not_mem.2 fun x hx => ?_)
    obtain ⟨hpl, hx⟩ := mem_inStripe.1 hx
    obtain ⟨hfail, hnot⟩ := (hmem x).2.1 hx
    refine hnot ((mem_nodesToRepairSet _ _ _).2 ⟨st, (mem_stripesOf hid).2 hst, hd, ?_⟩)
    rw [mem_inStripe, currentFailed_observe, mem_addFailures]
    exact ⟨hpl, hfail⟩
  · have hle : (inStripe st (s.repairStep stripeList event nextIds).scheduler.currentFailed).length ≤
        (inStripe st (s.observe stripeList event).currentFailed).length := by
      refine length_inStripe_le fun x _ hx => ?_
      rw [currentFailed_observe, mem_addFailures]
      exact ((hmem x).2.1 hx).1
    rw [InDanger, not_and_or, not_not, not_lt, tolerance_observe] at hd
    rcases hd with hd | hd
    · rw [hd] at hle
      exact Or.inl (List.length_eq_zero_iff.1 (Nat.le_zero.1 hle))
    · right
      omega

/-! ## Whole runs -/

/-- Each prediction contains all nodes of the next event. -/
def Predicts (steps : List (List Int × List Int)) : Prop :=
  steps.IsChain fun a b => ∀ x ∈ b.1, x ∈ a.2

theorem afterSteps_concat (s : RepairSchedulerNew) (stripeList : List PlacedStripe)
    (steps : List (List Int × List Int)) (e : List Int × List Int) :
    s.afterSteps stripeList (steps ++ [e]) =
      ((s.afterSteps stripeList steps).repairStep stripeList e.1 e.2).scheduler := by
  rw [afterSteps, List.foldl_concat]
  rfl

theorem tolerance_afterSteps (s : RepairSchedulerNew) (stripeList : List PlacedStripe)
    (steps : List (List Int × List Int)) : (s.afterSteps stripeList steps).tolerance = s.tolerance := by
  induction steps generalizing s with
  | nil => rfl
  | cons e steps ih =>
    rw [afterSteps, List.foldl_cons]
    exact (ih _).trans (s.repairStep_spec stripeList e.1 e.2).1

/-- The failed nodes of a stripe that a step finds: a safe state and a predicted event leave
the stripe in its tolerance unless it had no failed node. -/
theorem loss_of_safe {s : RepairSchedulerNew} {stripeList : List PlacedStripe} {pred : List Int}
    (hs : s.Safe stripeList pred) {event : List Int} (hp : ∀ x ∈ event, x ∈ pred)
    {st : PlacedStripe} (hst : st ∈ stripeList)
    (hloss : s.tolerance < ((inStripe st (s.addFailures event).currentFailed).length : Nat)) :
    s.tolerance < ((inStripe st event).length : Nat) := by
  have hadd : (inStripe st (s.addFailures event).currentFailed).length ≤
      (inStripe st s.currentFailed).length + (inStripe st event).length := by
    refine le_trans (length_inStripe_le fun x _ hx => ?_) (length_inStripe_append_le st _ _)
    rwa [mem_addFailures, ← List.mem_append] at hx
  have hpred : (inStripe st event).length ≤ (inStripe st pred).length :=
    length_inStripe_le fun x _ hx => hp x hx
  rcases hs st hst with h | h
  · rw [h, List.length_nil, Nat.zero_add] at hadd
    omega
  · omega

/-- **No avoidable loss.** After each step of a run whose predictions contain the next event the
state is safe, and a stripe that exceeds the tolerance at an event has more nodes than that in
the event alone. -/
theorem no_avoidable_loss (n k : Int) (stripeList : List PlacedStripe)
    (hid : (stripeList.map PlacedStripe.stripeId).Nodup) (pre : List (List Int × List Int))
    (event nextIds : List Int) (hp : Predicts (pre ++ [(event, nextIds)])) :
    let s := (new n k).afterSteps stripeList pre
    (s.repairStep stripeList event nextIds).scheduler.Safe stripeList nextIds ∧
    ∀ st ∈ stripeList, n - k < (failsInStripe (s.addFailures event).currentFailed st : Nat) →
      n - k < ((inStripe st event).length : Nat) := by
  intro s
  refine ⟨s.safe_repairStep hid event nextIds, fun st hst hloss => ?_⟩
  rw [failsInStripe_eq (s.addFailures event).nodup] at hloss
  have htol : s.tolerance = n - k := tolerance_afterSteps (new n k) stripeList pre
  rw [← htol] at hloss ⊢
  rcases List.eq_nil_or_concat' pre with rfl | ⟨pre', e, rfl⟩
  · -- no failures before the first event
    have hs : (new n k).Safe stripeList event := by
      intro st _
      left
      show (st.placement.filter fun nid => nid ∈ ([] : List Int)) = []
      simp
    exact loss_of_safe hs (fun x hx => hx) hst hloss
  · have hpe : ∀ x ∈ event, x ∈ e.2 := by
      rw [List.append_assoc] at hp
      exact (List.isChain_append_cons_cons.1 hp).2.1
    have hs : ((new n k).afterSteps stripeList (pre' ++ [e])).Safe stripeList e.2 := by
      rw [afterSteps_concat]
      exact safe_repairStep _ hid e.1 e.2
    exact loss_of_safe hs hpe hst hloss

/-- Two stripes of a (3, 2) code that share node 2. -/
def twoStripes : List PlacedStripe := [⟨0, [1, 2, 3], by decide⟩, ⟨1, [2, 4, 5], by decide⟩]

theorem no_avoidable_loss_two :
    ((new 3 2).afterSteps twoStripes [([1], [2])]).currentFailed = [] ∧
    (((new 3 2).afterSteps twoStripes [([1], [2])]).repairStep twoStripes [2] [4]).scheduler.Safe
      twoStripes [4] :=
  ⟨by decide +kernel, (no_avoidable_loss 3 2 twoStripes (by decide) [([1], [2])] [2] [4]
    (by simp [Predicts])).1⟩

end RepairSchedulerNew

end StripeRepair

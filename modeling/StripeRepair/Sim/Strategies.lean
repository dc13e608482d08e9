import StripeRepair.Sim.MLPredictor
import StripeRepair.Sim.RiskRepair

/-!
# The strategies and what they repair

Every strategy goes through the events of the trace: it adds the failures, may repair all
failed nodes or some of them, and repairs what is left when the trace ends. They differ in
what they repair when.

* `execute_traceDriven`, `execute_scored`: what a decision does to the scheduler.
* `mem_simulate`: the nodes that are repaired at a call and the nodes that stay failed.
* `left_immediate`: Immediate leaves no node failed.
-/

namespace StripeRepair

/-- What is repaired after an event. -/
inductive Repair
  | skip
  | full
  | part (nodesToRepair : List Int)
  deriving DecidableEq, Repr

/-- A call of `applyRepairCost`: the repaired nodes and `_current_failed` at that moment. -/
structure RepairCall where
  repaired : List Int
  left : List Int
  deriving DecidableEq, Repr

/-- From the strategy's own state, the scheduler and the later events. -/
abbrev Strategy (σ : Type) := σ → RepairSchedulerNew → List (List Int) → Repair × σ

namespace Strategy

open RepairSchedulerNew

/-- The nodes of the decision are repaired, whatever it is called. -/
def decided (d : RepairDecision × List Int) : Repair :=
  if d.1 = .repairImmediate ∨ d.1 = .repairPartial then .part d.2 else .skip

/-- `REPAIR_IMMEDIATE` repairs all failed nodes. -/
def scored (decision : RepairDecision) (nodesToRepair : List Int) : Repair :=
  match decision with
  | .repairImmediate => .full
  | .repairPartial => .part nodesToRepair
  | .repairLazy => .skip

section
variable (stripeList : List PlacedStripe)

def immediate : Strategy Unit := fun _ s _ =>
  (if s.decideImmediate = .repairImmediate then .full else .skip, ())

def repairLazily : Strategy Unit := fun _ s _ => (decided (s.decideLazy stripeList), ())

def traceDriven : Strategy Unit := fun _ s future =>
  (decided (s.decideTraceDrivenStripe stripeList (future.headD [])), ())

def mlDriven (draws : Nat → Draw) : Strategy MLPredictor := fun predictor s future =>
  let (predIds, predictor) := predictor.predictNextFailures draws (future.headD []) s.currentFailed
  (decided (s.decideTraceDrivenStripe stripeList predIds), predictor)

/-- The next three compare scores, which are floating-point numbers: `tests` tells the outcomes
from the scheduler and the windows. -/
def riskAwarePartial (tests : RepairSchedulerNew → List (List Int) → RiskTests) :
    Strategy Unit := fun _ s future =>
  let cur := s.currentFailed
  (scored (s.decideRiskAwarePartial (tests s (future.take 5)))
    (cur.take (max 1 (cur.length / 2))), ())

variable (sort : PrioritySort)

def stripeDifferentiated (tests : RepairSchedulerNew → List Int → RiskTests) :
    Strategy Unit := fun _ s future =>
  let nextIds := future.headD []
  let result := s.decideStripeDifferentiated sort (tests s nextIds) stripeList nextIds
  (scored result.1 result.2.1, ())

def combined (tests : RepairSchedulerNew → List (List Int) → RiskTests) :
    Strategy Unit := fun _ s future =>
  let futureWindows := future.take 5
  let result := s.decideCombined sort (tests s futureWindows) stripeList futureWindows
  (scored result.1 result.2.1, ())

end

end Strategy

/-! ## Runs -/

def Repair.execute (s : RepairSchedulerNew) : Repair → List RepairCall × RepairSchedulerNew
  | .skip => ([], s)
  | .full => ([⟨s.executeFullRepair.1, s.executeFullRepair.2.currentFailed⟩],
      s.executeFullRepair.2)
  | .part nodesToRepair =>
      ([⟨(s.executePartialRepair nodesToRepair).1,
          (s.executePartialRepair nodesToRepair).2.currentFailed⟩],
        (s.executePartialRepair nodesToRepair).2)

/-- The calls of `applyRepairCost` in a run over the events; the last one is the closing
repair. -/
def simulate {σ : Type} (strategy : Strategy σ) (stripeList : List PlacedStripe) :
    σ → RepairSchedulerNew → List (List Int) → List RepairCall
  | _, s, [] => if s.currentFailed.length > 0 then (Repair.full.execute s).1 else []
  | st, s, event :: future =>
      let s := s.observe stripeList event
      let (repair, st) := strategy st s future
      (repair.execute s).1 ++ simulate strategy stripeList st (repair.execute s).2 future

/-- Trace-driven, the scheduler does the step that the losses are counted for. -/
theorem execute_traceDriven (stripeList : List PlacedStripe) (s : RepairSchedulerNew)
    (event : List Int) (future : List (List Int)) :
    ((Strategy.traceDriven stripeList () (s.observe stripeList event) future).1.execute
        (s.observe stripeList event)).2 =
      (s.repairStep stripeList event (future.headD [])).scheduler := by
  unfold Strategy.traceDriven Strategy.decided RepairSchedulerNew.repairStep
  simp only
  split <;> rfl

/-- The decisions by scores are carried out as `Covers` has it. -/
theorem execute_scored (s : RepairSchedulerNew)
    (d : RepairDecision × List Int × RepairSchedulerNew.Counted) :
    ((Strategy.scored d.1 d.2.1).execute s).2 = s.repair d := by
  obtain ⟨decision, nodes, counted⟩ := d
  cases decision <;> rfl

theorem execute_stripeDifferentiated (stripeList : List PlacedStripe) (sort : PrioritySort)
    (tests : RepairSchedulerNew → List Int → RiskTests) (s : RepairSchedulerNew)
    (future : List (List Int)) :
    ((Strategy.stripeDifferentiated stripeList sort tests () s future).1.execute s).2 =
      s.repair (s.decideStripeDifferentiated sort (tests s (future.headD [])) stripeList
        (future.headD [])) :=
  execute_scored s _

theorem execute_combined (stripeList : List PlacedStripe) (sort : PrioritySort)
    (tests : RepairSchedulerNew → List (List Int) → RiskTests) (s : RepairSchedulerNew)
    (future : List (List Int)) :
    ((Strategy.combined stripeList sort tests () s future).1.execute s).2 =
      s.repair (s.decideCombined sort (tests s (future.take 5)) stripeList (future.take 5)) :=
  execute_scored s _

/-! ## The nodes of a call -/

/-- The nodes of a call are distinct nodes of the cluster. -/
structure RepairCall.Valid (call : RepairCall) (agentsNum : Nat) : Prop where
  nodup : (call.repaired ++ call.left).Nodup
  nodes : ∀ x ∈ call.repaired ++ call.left, 0 ≤ x ∧ x < agentsNum

theorem foldl_repairOne_perm (nids : List Int) (acc : List Int × List Int) :
    ((nids.foldl repairOne acc).1 ++ (nids.foldl repairOne acc).2).Perm (acc.1 ++ acc.2) := by
  induction nids generalizing acc with
  | nil => exact List.Perm.refl _
  | cons nid nids ih =>
    refine (ih _).trans ?_
    unfold repairOne
    split
    · next hn =>
      rw [List.append_assoc]
      exact List.Perm.append_left _ (List.perm_cons_erase hn).symm
    · exact List.Perm.refl _

/-- **A repair** splits the failed nodes. -/
theorem Repair.execute_spec (s : RepairSchedulerNew) (r : Repair) :
    (∀ call ∈ (r.execute s).1, (call.repaired ++ call.left).Perm s.currentFailed) ∧
      ∀ x ∈ (r.execute s).2.currentFailed, x ∈ s.currentFailed := by
  cases r with
  | skip => exact ⟨fun call h => absurd h List.not_mem_nil, fun x hx => hx⟩
  | full =>
    refine ⟨fun call h => ?_, fun x hx => absurd hx List.not_mem_nil⟩
    rw [List.mem_singleton.1 h]
    exact List.Perm.of_eq (List.append_nil _)
  | part nodesToRepair =>
    refine ⟨fun call h => ?_, fun x hx => ?_⟩
    · rw [List.mem_singleton.1 h]
      exact foldl_repairOne_perm nodesToRepair ([], s.currentFailed)
    · exact ((RepairSchedulerNew.executePartialRepair_spec s nodesToRepair x).2.1 hx).1

/-- **The calls of a run**: when the trace names nodes of the cluster, so do they. -/
theorem mem_simulate {σ : Type} (strategy : Strategy σ) (stripeList : List PlacedStripe)
    (agentsNum : Nat) (trace : List (List Int)) (st : σ) (s : RepairSchedulerNew)
    (hs : ∀ x ∈ s.currentFailed, 0 ≤ x ∧ x < agentsNum)
    (htrace : ∀ event ∈ trace, ∀ x ∈ event, 0 ≤ x ∧ x < agentsNum) :
    ∀ call ∈ simulate strategy stripeList st s trace, call.Valid agentsNum := by
  have hvalid : ∀ (s : RepairSchedulerNew) (r : Repair),
      (∀ x ∈ s.currentFailed, 0 ≤ x ∧ x < agentsNum) →
      ∀ call ∈ (r.execute s).1, call.Valid agentsNum := by
    intro s r hs call hcall
    have hperm := (r.execute_spec s).1 call hcall
    exact ⟨hperm.nodup_iff.2 s.nodup, fun x hx => hs x (hperm.mem_iff.1 hx)⟩
  induction trace generalizing st s with
  | nil =>
    unfold simulate
    split
    · exact hvalid s .full hs
    · exact fun call h => absurd h List.not_mem_nil
  | cons event future ih =>
    have hobs : ∀ x ∈ (s.observe stripeList event).currentFailed, 0 ≤ x ∧ x < agentsNum := by
      intro x hx
      rw [RepairSchedulerNew.currentFailed_observe, RepairSchedulerNew.mem_addFailures] at hx
      exact hx.elim (hs x) (htrace event (List.mem_cons_self ..) x)
    intro call hcall
    rcases List.mem_append.1 hcall with hcall | hcall
    · exact hvalid _ _ hobs call hcall
    · refine ih _ _ (fun x hx => ?_) (fun e he => htrace e (List.mem_cons_of_mem _ he)) call hcall
      exact hobs x ((Repair.execute_spec _ _).2 x hx)

/-- **Immediate** repairs every failed node at once. -/
theorem left_immediate (stripeList : List PlacedStripe) (trace : List (List Int))
    (s : RepairSchedulerNew) :
    ∀ call ∈ simulate Strategy.immediate stripeList () s trace, call.left = [] := by
  have hfull : ∀ (s : RepairSchedulerNew), ∀ call ∈ (Repair.full.execute s).1, call.left = [] := by
    intro s call hcall
    rw [List.mem_singleton.1 hcall]
    rfl
  induction trace generalizing s with
  | nil =>
    unfold simulate
    split
    · exact hfull s
    · exact fun call h => absurd h List.not_mem_nil
  | cons event future ih =>
    intro call hcall
    rcases List.mem_append.1 hcall with hcall | hcall
    · split at hcall
      · exact hfull _ call hcall
      · exact absurd hcall List.not_mem_nil
    · exact ih _ call hcall

end StripeRepair

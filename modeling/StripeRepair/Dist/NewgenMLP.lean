import StripeRepair.Dist.ParetoSearch
import StripeRepair.Dist.PRSolution

/-!
# `genPareto` on a repair DAG

The search evaluates a colouring with `PRSolution::evaluate`.

* `genPareto_optimal`: the search ends, and what its curve is after each round and at the end.
* `genPareto_returns`: it returns whether a solution of the curve is on the target.
-/

namespace StripeRepair

open Linked Pareto

namespace ParetoSearch

section
variable (ecdag : ECDAG) (sid2ip : AList fun _ : Nat => Int) (itmIdx : List Nat)
  (eord : HashOrder EvalWalk)

/-- `_bdwt` and `_load` after `evaluate`. -/
def evaluate (solution : List Nat) : Nat × Nat :=
  let sol := (PRSolution.fresh (solution.map Int.ofNat)).evaluate ecdag sid2ip itmIdx eord
  (sol.bdwt, sol.load)

/-- `genPareto`; `init` is the random solution, `m` is `candidates.size()`. -/
def genPareto (m : Nat) (ord : HashOrder PoolWalk) (fuel : Nat) (init : List Nat) :
    Option (Bool × ParetoSearch) := do
  let σ ← rounds itmIdx.length m (evaluate ecdag sid2ip itmIdx eord) ord fuel
    (start (evaluate ecdag sid2ip itmIdx eord) init)
  let find_better ← σ.findBetter (σ.solId + 1) (-1) false
  some (find_better, σ)

/-- A state of the search, before or after a round. -/
def Searching (m : Nat) (ord : HashOrder PoolWalk) (init : List Nat) (σ : ParetoSearch) : Prop :=
  Between itmIdx.length m (evaluate ecdag sid2ip itmIdx eord) ord init σ

end

section
variable {ecdag : ECDAG} {sid2ip : AList fun _ : Nat => Int} {itmIdx : List Nat}
  {eord : HashOrder EvalWalk} {m : Nat} {ord : HashOrder PoolWalk} {init : List Nat}
  (hinit : Colors itmIdx.length m init)
include hinit

theorem genPareto_returns {fuel : Nat} {σ : ParetoSearch}
    (h : rounds itmIdx.length m (evaluate ecdag sid2ip itmIdx eord) ord fuel
      (start (evaluate ecdag sid2ip itmIdx eord) init) = some σ) :
    ∃ l, Inv itmIdx.length m (evaluate ecdag sid2ip itmIdx eord) σ l ∧
      genPareto ecdag sid2ip itmIdx eord m ord fuel init =
        some (l.any fun i => (σ.obj i).any onTarget, σ) := by
  obtain ⟨l, hl, -⟩ := (inv_start _ hinit).rounds_end ord h
  refine ⟨l, hl, ?_⟩
  rw [genPareto, h, Option.bind_eq_bind, Option.bind_some, hl.findBetter hl.chain.links.path
    (fun i hi => hi) (Nat.lt_succ_of_le (hl.holds.length_le hl.nodup)), Bool.false_or]
  rfl

/-- **The Pareto curve.** The search ends. After each round the two maps are inverse chains from
-1 to -2 over ids that can be found, the load rises and the bandwidth falls along them, and the
unsearched solutions are on them. At the end the curve weakly dominates every colouring that one
of its solutions becomes when one vertex gets a colour. -/
theorem genPareto_optimal :
    (∃ fuel found σ, genPareto ecdag sid2ip itmIdx eord m ord fuel init = some (found, σ)) ∧
      (∀ σ, Searching ecdag sid2ip itmIdx eord m ord init σ →
        ∃ l, Chain (-1) (-2) σ.paretoCurve σ.prevCurve l ∧ (∀ i ∈ l, i ∈ σ.solMap) ∧
          Front σ.obj.point l ∧ ∀ i ∈ σ.unsearched, i ∈ l) ∧
      ∀ fuel found σ, genPareto ecdag sid2ip itmIdx eord m ord fuel init = some (found, σ) →
        ∃ l, Chain (-1) (-2) σ.paretoCurve σ.prevCurve l ∧ ∀ i ∈ l, ∃ sol, σ.obj i = some sol ∧
          sol.point = pointOf (evaluate ecdag sid2ip itmIdx eord) sol.solution ∧
          ∀ v < itmIdx.length, ∀ j < m, Covered σ.obj.point l
            (pointOf (evaluate ecdag sid2ip itmIdx eord) (sol.solution.set v j)) := by
  have hI := inv_start (evaluate ecdag sid2ip itmIdx eord) hinit
  refine ⟨?_, fun σ hσ => ?_, fun fuel found σ h => ?_⟩
  · obtain ⟨fuel, σ, h⟩ := hI.rounds ord
    obtain ⟨l, -, hgen⟩ := genPareto_returns hinit h
    exact ⟨fuel, _, σ, hgen⟩
  · obtain ⟨l, hl⟩ := Between.inv _ ord hinit hσ
    exact ⟨l, hl.chain, fun i hi => (hl.solMap i).2 hi, hl.front,
      fun i hi => ((hl.unsearched i).1 hi).1⟩
  · have hrun : rounds itmIdx.length m (evaluate ecdag sid2ip itmIdx eord) ord fuel
        (start (evaluate ecdag sid2ip itmIdx eord) init) = some σ := by
      rw [genPareto] at h
      obtain ⟨τ, hτ, h⟩ := Option.bind_eq_some_iff.1 h
      obtain ⟨b, -, h⟩ := Option.bind_eq_some_iff.1 h
      obtain ⟨-, rfl⟩ := Prod.mk.inj (Option.some.inj h)
      exact hτ
    obtain ⟨l, hl, hall⟩ := hI.rounds_end ord hrun
    refine ⟨l, hl.chain, fun i hi => ?_⟩
    obtain ⟨s, hs, hcov⟩ := hall i hi
    obtain ⟨-, -, t, ht, hcolors, hpoint⟩ := hl.listed i hi
    obtain rfl := Option.some.inj (hs.symm.trans ht)
    refine ⟨s, hs, hpoint, fun v hv j hj => ?_⟩
    rcases hcolors.set_eq_or_mem hv hj with heq | hc
    · rw [heq, ← hpoint, ← Pool.point_eq hs]
      exact ⟨i, hi, le_refl _⟩
    · exact hcov _ hc

end

/-- The sum of two blocks may be computed on any of three nodes. -/
theorem genPareto_optimal_sum : ∃ fuel found σ,
    genPareto Stripe.sumStripe.ecdag ∅ [2] (HashOrder.insertion _) 3 (HashOrder.insertion _) fuel
      [0] = some (found, σ) :=
  (genPareto_optimal (show Colors [2].length 3 [0] from ⟨rfl, by decide⟩)).1

end ParetoSearch

end StripeRepair

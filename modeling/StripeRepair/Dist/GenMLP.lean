import StripeRepair.Dist.TradeoffSearch
import StripeRepair.Common.SendRecv

/-!
# `genTradeoffCurve` on a stripe

The search evaluates a colouring with `Stripe::evaluateColoring`.

* `genTradeoffCurve_optimal`: the search ends, and what its list is while it runs and at the end.
* `visited_evaluated`: the strings are read back, and no colouring is skipped unevaluated.
-/

namespace StripeRepair

open Pareto

namespace Search

section
variable (s : Stripe) (ord : HashOrder EvalWalk) (coloring : Nat → Int) (itmIdx : List Nat)
  (candidates : List Int)

/-- `coloring_res` -/
def coloringRes (curres : List Nat) : Nat → Int :=
  (itmIdx.zip curres).foldl (fun res e => Function.update res e.1 (e.2 : Int)) coloring

/-- `_bdwt` and `_load` after `setColoring` and `evaluateColoring`. -/
def evaluate (curres : List Nat) : Nat × Nat :=
  (Stripe.evaluateColoring { s with coloring := coloringRes coloring itmIdx curres } ord).stat ord
    (0, 0)

/-- `genTradeoffCurve`; `init` is the random solution, and the head is returned with the
memory. -/
def genTradeoffCurve (fuel : Nat) (init : List Nat) : Option Search :=
  rounds itmIdx.length candidates.length (evaluate s ord coloring itmIdx) fuel
    (start candidates.length (evaluate s ord coloring itmIdx) init)

/-- A state of the run, between two visits. -/
def Visiting (init : List Nat) (σ : Search) : Prop :=
  During itmIdx.length candidates.length (evaluate s ord coloring itmIdx) init σ

end

section
variable {s : Stripe} {ord : HashOrder EvalWalk} {coloring : Nat → Int} {itmIdx : List Nat}
  {candidates : List Int}

/-- **The tradeoff curve.** The search ends. While it runs, the list goes from the head to the
tail with consistent links, the load rises and the bandwidth falls along it, the two maps hold its
points, and its solutions weakly dominate all that were evaluated. At the end they weakly dominate
every colouring that one of them becomes when one vertex gets a colour. -/
theorem genTradeoffCurve_optimal (hm : 1 ≤ candidates.length) {init : List Nat}
    (hinit : Colors itmIdx.length candidates.length init) :
    (∃ fuel σ, genTradeoffCurve s ord coloring itmIdx candidates fuel init = some σ) ∧
      (∀ σ, Visiting s ord coloring itmIdx candidates init σ →
        ∃ l, Curve head tail σ.mem σ.load2bdwt σ.bdwt2load l ∧
          ∀ c ∈ σ.evaluated, Covered σ.mem.point l
            (pointOf (evaluate s ord coloring itmIdx) c)) ∧
      ∀ fuel σ, genTradeoffCurve s ord coloring itmIdx candidates fuel init = some σ →
        ∃ l, Curve head tail σ.mem σ.load2bdwt σ.bdwt2load l ∧
          ∀ p ∈ l, ∃ sol, σ.mem.sol p = some sol ∧
            sol.point = pointOf (evaluate s ord coloring itmIdx) sol.solution ∧
            ∀ i < itmIdx.length, ∀ j < candidates.length, Covered σ.mem.point l
              (pointOf (evaluate s ord coloring itmIdx) (sol.solution.set i j)) := by
  have hI := inv_start (evaluate s ord coloring itmIdx) hinit
  have hS : Searched itmIdx.length candidates.length
      (start candidates.length (evaluate s ord coloring itmIdx) init) [2] head := searched_start _
  refine ⟨hI.rounds hm hS, fun σ hσ => ?_, fun fuel σ h => ?_⟩
  · obtain ⟨l, hl⟩ := During.inv _ hm hinit hσ
    exact ⟨l, hl.curve, hl.covered⟩
  · obtain ⟨l, hl, hall⟩ := hI.rounds_end hm hS h
    refine ⟨l, hl.curve, fun p hp => ?_⟩
    obtain ⟨sol, hsol, -, hmem, hpoint⟩ := hl.listed p hp
    refine ⟨sol, hsol, hpoint, fun i hi j hj => ?_⟩
    rcases (hl.colors _ hmem).set_eq_or_mem hi hj with heq | hc
    · rw [heq]
      exact hl.covered _ hmem
    · exact hl.covered _ (hall p hp sol hsol _ hc)

/-- The sum of two blocks may be computed on any of three nodes. -/
theorem genTradeoffCurve_optimal_sum : ∃ fuel σ,
    genTradeoffCurve Stripe.sumStripe (HashOrder.insertion _) Stripe.sumStripe.coloring [2]
      [0, 1, 2] fuel [0] = some σ :=
  (genTradeoffCurve_optimal (show 1 ≤ [(0 : Int), 1, 2].length by decide)
    (show Colors [2].length [(0 : Int), 1, 2].length [0] from ⟨rfl, by decide⟩)).1

end

/-- **Strings of solutions.** A string is read back as the solution, `m` being an `int`. Two
solutions of one size have two strings, and a colouring whose string was visited in a search was
evaluated there. -/
theorem visited_evaluated {m : Nat} (hm : 1 ≤ m) {v : List Nat} (hv : ∀ a ∈ v, a < m) :
    (m ≤ 2 ^ 31 → ∀ (tp : TradeoffPoints) (idx : Nat), tp.digits = DistUtil.ndigits m →
      tp.points idx = getString m v → tp.getColoringByIdx idx = some (v.map Int.ofNat)) ∧
      (∀ v' : List Nat, v'.length = v.length → (∀ a ∈ v', a < m) →
        getString m v' = getString m v → v' = v) ∧
      ∀ (s : Stripe) (ord : HashOrder EvalWalk) (coloring : Nat → Int) (itmIdx : List Nat)
        (candidates : List Int) (init : List Nat) (σ : Search), candidates.length = m →
        itmIdx.length = v.length → Colors itmIdx.length candidates.length init →
        Visiting s ord coloring itmIdx candidates init σ →
        getString m v ∈ σ.visited → v ∈ σ.evaluated := by
  refine ⟨fun hint _ _ => getColoringByIdx_getString hm hint hv,
    fun v' _ hv' h => getString_inj hm hv' hv h, ?_⟩
  intro s ord coloring itmIdx candidates init σ hc hlen hinit hσ hvis
  subst hc
  obtain ⟨l, hl⟩ := During.inv _ hm hinit hσ
  exact hl.mem_evaluated hm ⟨hlen.symm, hv⟩ hvis

/-- Eleven colours need two digits. -/
theorem visited_evaluated_eleven :
    getString 11 [3, 10, 0] = "031000".toList ∧
      TradeoffPoints.getColoringByIdx ⟨2, fun _ => "031000".toList⟩ 0 = some [3, 10, 0] :=
  ⟨by decide, (visited_evaluated (m := 11) (by decide) (v := [3, 10, 0]) (by decide)).1 (by decide)
    ⟨2, fun _ => "031000".toList⟩ 0 (by decide) (by decide)⟩

end Search

end StripeRepair

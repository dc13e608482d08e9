import StripeRepair.Lib.BestSoFar
import StripeRepair.Sol.Batches
import Mathlib.Data.List.Infix

/-!
# Simulated annealing of the batches

The planner starts from the greedy batches, swaps stripes of two batches and keeps the
assignment with the smallest sum of bottlenecks.

* `anneal_invariant`: at every iteration both assignments hold the stripes they started with,
  both energies are theirs, and the best energy is the least that was current.
-/

namespace StripeRepair

section
variable (energy : List (List Nat) → Nat)

/-- The variables of the loop after the iterations `moves`. -/
def annealRun (batches : List (List Nat)) (moves : List Move) : Annealing :=
  moves.foldl (annealStep energy) ⟨batches, batches, energy batches, energy batches⟩

/-- The solutions that were current, one after each iteration. -/
def heldSolutions (batches : List (List Nat)) (moves : List Move) : List (List (List Nat)) :=
  moves.inits.map fun done => (annealRun energy batches done).current

variable {energy}

theorem annealRun_concat (batches : List (List Nat)) (moves : List Move) (m : Move) :
    annealRun energy batches (moves ++ [m]) = annealStep energy (annealRun energy batches moves) m :=
  List.foldl_concat ..

theorem heldSolutions_concat (batches : List (List Nat)) (moves : List Move) (m : Move) :
    heldSolutions energy batches (moves ++ [m]) = heldSolutions energy batches moves ++
      [(annealStep energy (annealRun energy batches moves) m).current] := by
  unfold heldSolutions
  rw [List.inits_append, List.map_append]
  congr 1
  show [(annealRun energy batches (moves ++ [m])).current] = _
  rw [annealRun_concat]

/-- What the search keeps track of. -/
def Annealing.Tracks (energy : List (List Nat) → Nat) (held : List (List (List Nat)))
    (st : Annealing) : Prop :=
  BestSoFar.Tracks energy held st.current st.best st.currentEnergy st.bestEnergy

/-- **One iteration**: a better neighbour is taken, and another one when chance accepts it. -/
theorem Annealing.Tracks.annealStep {held : List (List (List Nat))} {st : Annealing}
    (h : st.Tracks energy held) (m : Move) :
    (annealStep energy st m).Tracks energy
      (held ++ [(StripeRepair.annealStep energy st m).current]) := by
  have hstay : st.Tracks energy (held ++ [st.current]) := h.stay
  have hbest := h.bestCost_le
  unfold StripeRepair.annealStep
  split
  · exact hstay
  · split
    · exact hstay
    · simp only
      split
      · split
        · next hlt => exact h.improve hlt
        · next hge => exact h.move (not_lt.1 hge)
      · next hge =>
        -- the neighbour is not better than the current solution, let alone than the best
        split
        · exact h.move (hbest.trans (not_lt.1 hge))
        · exact hstay

theorem tracks_annealRun (batches : List (List Nat)) (moves : List Move) :
    (annealRun energy batches moves).Tracks energy (heldSolutions energy batches moves) := by
  induction moves using List.reverseRecOn with
  | nil => exact BestSoFar.Tracks.start batches
  | append_singleton moves m ih =>
    rw [heldSolutions_concat, annealRun_concat]
    exact ih.annealStep m

theorem rearranged_annealRun (batches : List (List Nat)) (moves : List Move) :
    Rearranged batches (annealRun energy batches moves).current ∧
      Rearranged batches (annealRun energy batches moves).best := by
  have hrefl : Rearranged batches batches := ⟨List.Perm.refl _, rfl⟩
  induction moves using List.reverseRecOn with
  | nil => exact ⟨hrefl, hrefl⟩
  | append_singleton moves m ih =>
    rw [annealRun_concat]
    exact rearranged_annealStep energy ih m

end

/-- **Annealing loses neither stripes nor quality**, for every start and every draw: after each
number of iterations both solutions rearrange the start, the energies are those of the
solutions, and the best energy is the least of all that were current. What is left at the end
is no worse than the start. -/
theorem anneal_invariant (clusterSize : Nat) (dummyLoads : Nat → NodeLoad)
    (batches : List (List Nat)) (hb : 2 ≤ batches.length) (moves : List Move) :
    (∀ done, done <+: moves →
      let st := annealRun (totalMakespan clusterSize dummyLoads) batches done
      Rearranged batches st.current ∧ Rearranged batches st.best ∧
      st.currentEnergy = totalMakespan clusterSize dummyLoads st.current ∧
      st.bestEnergy = totalMakespan clusterSize dummyLoads st.best ∧
      IsLeast {e | ∃ before, before <+: done ∧ e = totalMakespan clusterSize dummyLoads
        (annealRun (totalMakespan clusterSize dummyLoads) batches before).current} st.bestEnergy) ∧
    anneal (totalMakespan clusterSize dummyLoads) batches moves =
      (annealRun (totalMakespan clusterSize dummyLoads) batches moves).best ∧
    Rearranged batches (anneal (totalMakespan clusterSize dummyLoads) batches moves) ∧
    totalMakespan clusterSize dummyLoads
        (anneal (totalMakespan clusterSize dummyLoads) batches moves) ≤
      totalMakespan clusterSize dummyLoads batches := by
  have hend : anneal (totalMakespan clusterSize dummyLoads) batches moves =
      (annealRun (totalMakespan clusterSize dummyLoads) batches moves).best := if_pos hb
  refine ⟨fun done _ => ?_, hend, rearranged_anneal _ _ _, ?_⟩
  · obtain ⟨h1, h2⟩ := @rearranged_annealRun (totalMakespan clusterSize dummyLoads) batches done
    have h := @tracks_annealRun (totalMakespan clusterSize dummyLoads) batches done
    refine ⟨h1, h2, h.currentCost_eq, h.bestCost_eq, ?_⟩
    have hset : {e | ∃ before, before <+: done ∧ e = totalMakespan clusterSize dummyLoads
        (annealRun (totalMakespan clusterSize dummyLoads) batches before).current} =
        {e | ∃ x ∈ heldSolutions (totalMakespan clusterSize dummyLoads) batches done,
          e = totalMakespan clusterSize dummyLoads x} := by
      ext e
      simp [heldSolutions, List.mem_inits]
    rw [hset]
    exact h.isLeast
  · have h := @tracks_annealRun (totalMakespan clusterSize dummyLoads) batches moves
    have hstart : batches ∈ heldSolutions (totalMakespan clusterSize dummyLoads) batches moves :=
      List.mem_map.2 ⟨[], (List.mem_inits _ _).2 (List.nil_prefix), rfl⟩
    rw [hend, ← h.bestCost_eq]
    exact h.le batches hstart

/-- Stripes 0 and 1 send from node 0, stripes 2 and 3 from node 1. -/
def pairLoads (s : Nat) : NodeLoad := fun v => if v = s / 2 then (1, 0) else (0, 0)

/-- The first swap mixes the pairs; the second one, accepted by chance, undoes it. -/
theorem anneal_invariant_pairs :
    (annealRun (totalMakespan 2 pairLoads) [[0, 1], [2, 3]]
      [⟨0, 1, 0, 0, false⟩, ⟨0, 1, 0, 0, true⟩]).currentEnergy = 4 ∧
    Rearranged [[0, 1], [2, 3]] (anneal (totalMakespan 2 pairLoads) [[0, 1], [2, 3]]
      [⟨0, 1, 0, 0, false⟩, ⟨0, 1, 0, 0, true⟩]) ∧
    totalMakespan 2 pairLoads (anneal (totalMakespan 2 pairLoads) [[0, 1], [2, 3]]
      [⟨0, 1, 0, 0, false⟩, ⟨0, 1, 0, 0, true⟩]) ≤ 4 := by
  have h := anneal_invariant 2 pairLoads [[0, 1], [2, 3]] (by decide)
    [⟨0, 1, 0, 0, false⟩, ⟨0, 1, 0, 0, true⟩]
  exact ⟨by decide, h.2.2.1, h.2.2.2⟩

end StripeRepair

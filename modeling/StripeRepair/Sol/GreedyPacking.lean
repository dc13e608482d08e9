import StripeRepair.Sol.Batches
import StripeRepair.Lib.Run
import StripeRepair.Lib.BestSoFar

/-!
# The packing loop

`genRepairBatchesForMultipleFailureNewFireNew` puts each stripe into a batch with the least
bottleneck. A full batch has the bottleneck `INT_MAX`, and the candidates are the batches whose
bottleneck is the least one. Loads are `int`s: a sum that is none has no result.

The tables are those of trial colourings that start from zeros, so that all of them together stay
below `INT_MAX`.

* `packStep_of_below`: one iteration.
* `greedy_packing`: the loop finds a batch for every stripe and adds up the loads.
* `packStep_eq_packOne`: below `INT_MAX` this is `packOne`.
* `run_packStep`: the loop is that of `packAll`.
-/

namespace StripeRepair.Packing

def INT_MAX : Nat := 2147483647

section
variable (batchSize clusterSize : Nat) (dummyLoads : Nat → NodeLoad)
  (smaller : List Nat → List Nat → Bool)

/-- The batch is not full. -/
def Room (bin : Bin) : Prop := bin.stripes.length < batchSize

instance (bin : Bin) : Decidable (Room batchSize bin) := inferInstanceAs (Decidable (_ < _))

/-- `batch_node_loads[b]` plus `s_load` -/
def simLoad (bin : Bin) (curS : Nat) : NodeLoad := addLoad bin.load (dummyLoads curS)

def FitsInt (load : NodeLoad) : Prop :=
  ∀ v < clusterSize, (load v).1 ≤ INT_MAX ∧ (load v).2 ≤ INT_MAX

instance (load : NodeLoad) : Decidable (FitsInt clusterSize load) :=
  inferInstanceAs (Decidable (∀ v < clusterSize, _))

/-- `node_peaks` -/
def nodePeaks (load : NodeLoad) : List Nat :=
  (List.range clusterSize).map fun v => max (load v).1 (load v).2

def binAt (bins : List Bin) (b : Nat) : Bin := bins.getD b ⟨[], fun _ => (0, 0)⟩

/-- `sim_bottleneck[b]` -/
def simBottleneck (bins : List Bin) (curS b : Nat) : Nat :=
  if Room batchSize (binAt bins b) then
    bottleneck clusterSize (simLoad dummyLoads (binAt bins b) curS)
  else INT_MAX

def minBottleneck (bins : List Bin) (curS : Nat) : Nat :=
  ((List.range bins.length).map
    (simBottleneck batchSize clusterSize dummyLoads bins curS)).foldl min INT_MAX

/-- Whether the variance of `b` is smaller than that of the best so far. -/
def smallerAt (bins : List Bin) (curS b best : Nat) : Bool :=
  smaller (nodePeaks clusterSize (simLoad dummyLoads (binAt bins b) curS))
    (nodePeaks clusterSize (simLoad dummyLoads (binAt bins best) curS))

/-- `best_batch_idx`, `none` for -1 -/
def bestBatchIdx (bins : List Bin) (curS : Nat) : Option Nat :=
  (List.range bins.length).foldl (fun best b =>
    if ¬ simBottleneck batchSize clusterSize dummyLoads bins curS b =
        minBottleneck batchSize clusterSize dummyLoads bins curS then best
    else match best with
      | none => some b
      | some best =>
        if smallerAt clusterSize dummyLoads smaller bins curS b best then some b else some best) none

/-- The sums that the two phases form are `int`s: those of the batches that are not full, and
those of the candidates. -/
def SumsFit (bins : List Bin) (curS : Nat) : Prop :=
  ∀ b < bins.length, (Room batchSize (binAt bins b) ∨
    simBottleneck batchSize clusterSize dummyLoads bins curS b =
      minBottleneck batchSize clusterSize dummyLoads bins curS) →
    FitsInt clusterSize (simLoad dummyLoads (binAt bins b) curS)

instance (bins : List Bin) (curS : Nat) :
    Decidable (SumsFit batchSize clusterSize dummyLoads bins curS) :=
  inferInstanceAs (Decidable (∀ b < bins.length, _ → _))

def push (bins : List Bin) (curS b : Nat) : List Bin :=
  bins.modify b fun bin => ⟨bin.stripes ++ [curS], addLoad bin.load (dummyLoads curS)⟩

/-- One iteration. There is no batch -1. -/
def packStep (bins : List Bin) (curS : Nat) : Option (List Bin) :=
  if SumsFit batchSize clusterSize dummyLoads bins curS then
    (bestBatchIdx batchSize clusterSize dummyLoads smaller bins curS).map
      (push dummyLoads bins curS)
  else none

/-- The batches before the loop -/
def start (numStripes : Nat) : List Bin :=
  List.replicate (numBatches numStripes batchSize) ⟨[], fun _ => (0, 0)⟩

/-! ## One iteration -/

/-- With the stripe, no batch that is not full reaches `INT_MAX`. -/
def Below (bins : List Bin) (curS : Nat) : Prop :=
  ∀ bin ∈ bins, Room batchSize bin →
    bottleneck clusterSize (simLoad dummyLoads bin curS) < INT_MAX

/-- The stripe goes into a batch that is not full, and whose bottleneck is then the least. -/
def WellPacked (bins : List Bin) (curS : Nat) : Prop :=
  ∃ b bin, bestBatchIdx batchSize clusterSize dummyLoads smaller bins curS = some b ∧
    bins[b]? = some bin ∧ Room batchSize bin ∧
    (∀ bin' ∈ bins, Room batchSize bin' →
      bottleneck clusterSize (simLoad dummyLoads bin curS) ≤
        bottleneck clusterSize (simLoad dummyLoads bin' curS)) ∧
    packStep batchSize clusterSize dummyLoads smaller bins curS =
      some (push dummyLoads bins curS b)

variable {batchSize clusterSize dummyLoads smaller} {bins : List Bin} {curS b : Nat}

theorem binAt_mem (hb : b < bins.length) : binAt bins b ∈ bins := by
  rw [binAt, List.getD_eq_getElem _ _ hb]
  exact List.getElem_mem hb

theorem getElem?_binAt (hb : b < bins.length) : bins[b]? = some (binAt bins b) := by
  rw [binAt, List.getD_eq_getElem _ _ hb, List.getElem?_eq_getElem hb]

theorem exists_binAt {bin : Bin} (h : bin ∈ bins) : ∃ b < bins.length, binAt bins b = bin := by
  obtain ⟨b, hb, rfl⟩ := List.getElem_of_mem h
  exact ⟨b, hb, List.getD_eq_getElem _ _ hb⟩

theorem bottleneck_eq_foldl (load : NodeLoad) :
    bottleneck clusterSize load = (nodePeaks clusterSize load).foldl max 0 := by
  rw [nodePeaks, List.foldl_map]
  rfl

theorem peak_le_bottleneck (load : NodeLoad) {v : Nat} (hv : v < clusterSize) :
    max (load v).1 (load v).2 ≤ bottleneck clusterSize load := by
  rw [bottleneck_eq_foldl]
  exact (BestSoFar.foldl_max _ 0).2.1 _ (List.mem_map.2 ⟨v, List.mem_range.2 hv, rfl⟩)

theorem bottleneck_mono {load load' : NodeLoad} (h : ∀ v, load v ≤ load' v) :
    bottleneck clusterSize load ≤ bottleneck clusterSize load' := by
  rw [bottleneck_eq_foldl load]
  rcases (BestSoFar.foldl_max (nodePeaks clusterSize load) 0).2.2 with h0 | hmem
  · rw [h0]
    exact Nat.zero_le _
  · obtain ⟨v, hv, hpeak⟩ := List.mem_map.1 hmem
    rw [← hpeak]
    exact (max_le_max (h v).1 (h v).2).trans (peak_le_bottleneck load' (List.mem_range.1 hv))

theorem fitsInt_of_lt {load : NodeLoad} (h : bottleneck clusterSize load < INT_MAX) :
    FitsInt clusterSize load := by
  intro v hv
  have hpeak := peak_le_bottleneck load hv
  exact max_le_iff.1 (hpeak.trans h.le)

theorem minBottleneck_le (hb : b < bins.length) :
    minBottleneck batchSize clusterSize dummyLoads bins curS ≤
      simBottleneck batchSize clusterSize dummyLoads bins curS b :=
  (BestSoFar.foldl_min _ _).2.1 _ (List.mem_map_of_mem (List.mem_range.2 hb))

theorem minBottleneck_lt (hroom : ∃ bin ∈ bins, Room batchSize bin)
    (h : Below batchSize clusterSize dummyLoads bins curS) :
    minBottleneck batchSize clusterSize dummyLoads bins curS < INT_MAX := by
  obtain ⟨bin, hbin, hr⟩ := hroom
  have hlt := h bin hbin hr
  obtain ⟨b, hb, rfl⟩ := exists_binAt hbin
  have hle : minBottleneck batchSize clusterSize dummyLoads bins curS ≤ _ := minBottleneck_le hb
  rw [simBottleneck, if_pos hr] at hle
  exact hle.trans_lt hlt

theorem exists_candidate (hroom : ∃ bin ∈ bins, Room batchSize bin)
    (h : Below batchSize clusterSize dummyLoads bins curS) :
    ∃ b < bins.length, simBottleneck batchSize clusterSize dummyLoads bins curS b =
      minBottleneck batchSize clusterSize dummyLoads bins curS := by
  have hlt := minBottleneck_lt hroom h
  rcases (BestSoFar.foldl_min ((List.range bins.length).map
    (simBottleneck batchSize clusterSize dummyLoads bins curS)) INT_MAX).2.2 with hmin | hmin
  · exact absurd hmin hlt.ne
  · obtain ⟨b, hb, hsim⟩ := List.mem_map.1 hmin
    exact ⟨b, List.mem_range.1 hb, hsim⟩

/-- A candidate is not full. -/
theorem room_of_candidate (hroom : ∃ bin ∈ bins, Room batchSize bin)
    (h : Below batchSize clusterSize dummyLoads bins curS)
    (hsim : simBottleneck batchSize clusterSize dummyLoads bins curS b =
      minBottleneck batchSize clusterSize dummyLoads bins curS) :
    Room batchSize (binAt bins b) := by
  have hlt := minBottleneck_lt hroom h
  by_contra hfull
  rw [← hsim, simBottleneck, if_neg hfull] at hlt
  exact Nat.lt_irrefl _ hlt

/-- **One iteration** finds a batch that is not full and has the least bottleneck. -/
theorem packStep_of_below (hroom : ∃ bin ∈ bins, Room batchSize bin)
    (h : Below batchSize clusterSize dummyLoads bins curS) :
    WellPacked batchSize clusterSize dummyLoads smaller bins curS := by
  have hfit : SumsFit batchSize clusterSize dummyLoads bins curS := by
    rintro b hb (hr | hsim)
    · exact fitsInt_of_lt (h _ (binAt_mem hb) hr)
    · exact fitsInt_of_lt (h _ (binAt_mem hb) (room_of_candidate hroom h hsim))
  obtain ⟨h1, h2⟩ := foldl_best
    (fun b => simBottleneck batchSize clusterSize dummyLoads bins curS b =
      minBottleneck batchSize clusterSize dummyLoads bins curS)
    (smallerAt clusterSize dummyLoads smaller bins curS) (List.range bins.length) none
  cases hbest : bestBatchIdx batchSize clusterSize dummyLoads smaller bins curS with
  | none =>
    obtain ⟨c, hc, hsim⟩ := exists_candidate hroom h
    exact absurd hsim ((h2 hbest).2 c (List.mem_range.2 hc))
  | some b =>
    rcases h1 b hbest with hnone | ⟨hmem, hsim⟩
    · cases hnone
    have hb := List.mem_range.1 hmem
    have hr := room_of_candidate hroom h hsim
    refine ⟨b, binAt bins b, hbest, getElem?_binAt hb, hr, fun bin' hbin' hr' => ?_, ?_⟩
    · obtain ⟨c, hc, rfl⟩ := exists_binAt hbin'
      have hle : minBottleneck batchSize clusterSize dummyLoads bins curS ≤ _ :=
        minBottleneck_le hc
      rwa [← hsim, simBottleneck, if_pos hr, simBottleneck, if_pos hr'] at hle
    · rw [packStep, if_pos hfit, hbest]
      rfl

theorem simBottleneck_none (hb : b < bins.length) :
    StripeRepair.simBottleneck batchSize clusterSize dummyLoads bins curS b =
      if Room batchSize (binAt bins b) then
        some (bottleneck clusterSize (simLoad dummyLoads (binAt bins b) curS)) else none := by
  unfold StripeRepair.simBottleneck
  rw [getElem?_binAt hb]
  by_cases hr : Room batchSize (binAt bins b)
  · rw [if_pos hr]
    exact if_neg (Nat.not_le.2 hr)
  · rw [if_neg hr]
    exact if_pos (Nat.not_lt.1 hr)

/-- **Below `INT_MAX`** the iteration is the one that marks a full batch by `none`. -/
theorem packStep_eq_packOne (hroom : ∃ bin ∈ bins, Room batchSize bin)
    (h : Below batchSize clusterSize dummyLoads bins curS) :
    packStep batchSize clusterSize dummyLoads smaller bins curS =
      some (packOne batchSize clusterSize dummyLoads
        (smallerAt clusterSize dummyLoads smaller) bins curS) := by
  obtain ⟨b, -, hbest, -, -, -, hstep⟩ : WellPacked batchSize clusterSize dummyLoads smaller bins
    curS := packStep_of_below hroom h
  -- both minima are that of the batches that are not full
  obtain ⟨c, hc, hmin⟩ := exists_candidate hroom h
  have hrc := room_of_candidate hroom h hmin
  rw [simBottleneck, if_pos hrc] at hmin
  have hlt := h _ (binAt_mem hc) hrc
  have hmin' : ((List.range bins.length).filterMap (StripeRepair.simBottleneck batchSize clusterSize
      dummyLoads bins curS)).min? =
        some (minBottleneck batchSize clusterSize dummyLoads bins curS) := by
    rw [List.min?_eq_some_iff]
    constructor
    · refine List.mem_filterMap.2 ⟨c, List.mem_range.2 hc, ?_⟩
      rw [simBottleneck_none hc, if_pos hrc, hmin]
    · intro x hx
      obtain ⟨i, hi, hsim⟩ := List.mem_filterMap.1 hx
      have hi := List.mem_range.1 hi
      have hle : minBottleneck batchSize clusterSize dummyLoads bins curS ≤ _ :=
        minBottleneck_le hi
      rw [simBottleneck_none hi] at hsim
      split at hsim
      next hri =>
        rw [simBottleneck, if_pos hri] at hle
        exact Option.some.inj hsim ▸ hle
      next => cases hsim
  have hsame : bestBatch batchSize clusterSize dummyLoads
      (smallerAt clusterSize dummyLoads smaller) bins curS =
        bestBatchIdx batchSize clusterSize dummyLoads smaller bins curS := by
    unfold bestBatch bestBatchIdx
    simp only [hmin']
    refine List.foldl_ext _ _ _ fun best i hi => ?_
    have hi := List.mem_range.1 hi
    have hiff : StripeRepair.simBottleneck batchSize clusterSize dummyLoads bins curS i =
        some (minBottleneck batchSize clusterSize dummyLoads bins curS) ↔
          simBottleneck batchSize clusterSize dummyLoads bins curS i =
            minBottleneck batchSize clusterSize dummyLoads bins curS := by
      rw [simBottleneck_none hi, simBottleneck]
      split
      next => exact Option.some_inj
      next => exact iff_of_false (by simp) (by omega)
    exact if_congr (not_congr hiff) rfl rfl
  rw [hstep, packOne, hsame, hbest]
  rfl

/-! ## The loop -/

/-- The entrywise sum of the tables of the stripes. -/
def tableSum (dummyLoads : Nat → NodeLoad) (stripes : List Nat) : NodeLoad := fun v =>
  ((stripes.map fun s => (dummyLoads s v).1).sum, (stripes.map fun s => (dummyLoads s v).2).sum)

def AreSums (dummyLoads : Nat → NodeLoad) (bins : List Bin) : Prop :=
  ∀ bin ∈ bins, bin.load = tableSum dummyLoads bin.stripes

theorem addLoad_tableSum (stripes : List Nat) (s : Nat) :
    addLoad (tableSum dummyLoads stripes) (dummyLoads s) = tableSum dummyLoads (stripes ++ [s]) := by
  funext v
  simp only [addLoad, tableSum, List.map_append, List.map_cons, List.map_nil, List.sum_append,
    List.sum_singleton]

theorem AreSums.push (h : AreSums dummyLoads bins) (curS b : Nat) :
    AreSums dummyLoads (Packing.push dummyLoads bins curS b) := by
  intro x hx
  unfold Packing.push at hx
  obtain ⟨i, hi, rfl⟩ := List.getElem_of_mem hx
  rw [List.length_modify] at hi
  have hold := h _ (List.getElem_mem hi)
  rw [List.getElem_modify]
  split
  · rw [hold, addLoad_tableSum]
  · exact hold

theorem areSums_start (numStripes : Nat) : AreSums dummyLoads (start batchSize numStripes) := by
  intro bin hbin
  rw [(List.mem_replicate.1 hbin).2]
  rfl

theorem tableSum_le {l l' : List Nat} (h : l.Subperm l') (v : Nat) :
    tableSum dummyLoads l v ≤ tableSum dummyLoads l' v := by
  have hsum : ∀ f : Nat → Nat, (l.map f).sum ≤ (l'.map f).sum := by
    intro f
    obtain ⟨m, hm, hsub⟩ := h
    rw [← (hm.map f).sum_eq]
    exact (hsub.map f).sum_le_sum fun _ _ => Nat.zero_le _
  exact ⟨hsum _, hsum _⟩

variable (batchSize clusterSize dummyLoads smaller)

/-- The batches when the stripes `done` of `stripes` are packed. -/
structure Progress (stripes done : List Nat) (bins : List Bin) : Prop where
  packed : Packed batchSize (numBatches stripes.length batchSize) done bins
  sums : AreSums dummyLoads bins
  folded : bins = done.foldl (packOne batchSize clusterSize dummyLoads
    (smallerAt clusterSize dummyLoads smaller)) (start batchSize stripes.length)

variable {batchSize clusterSize dummyLoads smaller} {stripes done rest : List Nat} {s : Nat}

theorem progress_start :
    Progress batchSize clusterSize dummyLoads smaller stripes [] (start batchSize stripes.length) :=
  ⟨packed_start _ _, areSums_start _, rfl⟩

theorem Progress.room (hb : 1 ≤ batchSize) (hs : stripes = done ++ s :: rest)
    (h : Progress batchSize clusterSize dummyLoads smaller stripes done bins) :
    ∃ bin ∈ bins, Room batchSize bin := by
  refine h.packed.room (Nat.lt_of_lt_of_le ?_ (le_numBatches_mul _ hb))
  rw [hs, List.length_append, List.length_cons]
  omega

/-- A batch and the next stripe are part of all stripes. -/
theorem Progress.below (hs : stripes = done ++ s :: rest)
    (hsum : bottleneck clusterSize (tableSum dummyLoads stripes) < INT_MAX)
    (h : Progress batchSize clusterSize dummyLoads smaller stripes done bins) :
    Below batchSize clusterSize dummyLoads bins s := by
  intro bin hbin _
  have hbins : bin.stripes.Subperm done :=
    (List.sublist_flatten_of_mem (List.mem_map_of_mem hbin)).subperm.trans h.packed.once.subperm
  have hall : (bin.stripes ++ [s]).Subperm stripes := by
    rw [hs, List.append_cons done s rest]
    exact ((List.subperm_append_right [s]).2 hbins).trans (List.sublist_append_left _ _).subperm
  have hload : simLoad dummyLoads bin s = tableSum dummyLoads (bin.stripes ++ [s]) := by
    rw [simLoad, h.sums bin hbin, addLoad_tableSum]
  rw [hload]
  exact (bottleneck_mono (tableSum_le hall)).trans_lt hsum

theorem Progress.step (hb : 1 ≤ batchSize) (hs : stripes = done ++ s :: rest)
    (hsum : bottleneck clusterSize (tableSum dummyLoads stripes) < INT_MAX)
    (h : Progress batchSize clusterSize dummyLoads smaller stripes done bins) :
    WellPacked batchSize clusterSize dummyLoads smaller bins s ∧
    ∃ bins', packStep batchSize clusterSize dummyLoads smaller bins s = some bins' ∧
      Progress batchSize clusterSize dummyLoads smaller stripes (done ++ [s]) bins' := by
  have hroom := h.room hb hs
  have hbelow := h.below hs hsum
  have hwell : WellPacked batchSize clusterSize dummyLoads smaller bins s :=
    packStep_of_below hroom hbelow
  have ⟨b, bin, _, hbin, hr, _, hstep⟩ := hwell
  have hone : packStep batchSize clusterSize dummyLoads smaller bins s = some (packOne _ _ _ _ _ _) :=
    packStep_eq_packOne hroom hbelow
  refine ⟨hwell, _, hstep, h.packed.push dummyLoads hbin hr s, h.sums.push s b, ?_⟩
  rw [List.foldl_append, ← h.folded]
  exact Option.some.inj (hstep.symm.trans hone)

variable (smaller) in
/-- The loop, with what holds at its end. -/
theorem packing_run (hb : 1 ≤ batchSize)
    (hsum : bottleneck clusterSize (tableSum dummyLoads stripes) < INT_MAX) :
    ∃ bins, Lts.run (packStep batchSize clusterSize dummyLoads smaller)
        (start batchSize stripes.length) stripes = some bins ∧
      Progress batchSize clusterSize dummyLoads smaller stripes stripes bins :=
  Lts.exists_run_of_meets _ (fun _ _ _ _ hs h _ => (h.step hb hs hsum).2) progress_start
    (Lts.meets_true _ _)

/-- **The packing loop**: every stripe goes into a batch that is not full and has the least
bottleneck, and the loads are the sums of the tables throughout. -/
theorem greedy_packing (hb : 1 ≤ batchSize) (stripes : List Nat)
    (hsum : bottleneck clusterSize (tableSum dummyLoads stripes) < INT_MAX) :
    Lts.Meets (packStep batchSize clusterSize dummyLoads smaller) (fun bins curS =>
        AreSums dummyLoads bins ∧ WellPacked batchSize clusterSize dummyLoads smaller bins curS)
      (start batchSize stripes.length) stripes ∧
    ∃ bins, Lts.run (packStep batchSize clusterSize dummyLoads smaller)
        (start batchSize stripes.length) stripes = some bins ∧ AreSums dummyLoads bins := by
  refine ⟨?_, ?_⟩
  · refine Lts.meets_of_prefix_inv
      (Progress batchSize clusterSize dummyLoads smaller stripes) ?_ ?_ progress_start
    · intro done s rest bins bins' hs h hstep
      obtain ⟨-, next, hnext, hprogress⟩ := h.step hb hs hsum
      exact Option.some.inj (hnext.symm.trans hstep) ▸ hprogress
    · exact fun done s rest bins hs h => ⟨h.sums, (h.step hb hs hsum).1⟩
  · obtain ⟨bins, hrun, h⟩ := packing_run smaller hb hsum
    exact ⟨bins, hrun, h.sums⟩

/-- **The batches** are those of `packAll`. -/
theorem run_packStep (hb : 1 ≤ batchSize)
    (hsum : bottleneck clusterSize (tableSum dummyLoads stripes) < INT_MAX) :
    (Lts.run (packStep batchSize clusterSize dummyLoads smaller)
        (start batchSize stripes.length) stripes).map (List.map Bin.stripes) =
      some (packAll batchSize clusterSize dummyLoads
        (smallerAt clusterSize dummyLoads smaller) stripes) := by
  obtain ⟨bins, hrun, h⟩ := packing_run smaller hb hsum
  rw [hrun, h.folded]
  rfl

end

/-! ## Two stripes -/

/-- The square of the length times the variance. -/
def variance (peaks : List Nat) : Nat :=
  peaks.length * (peaks.map fun x => x * x).sum - peaks.sum * peaks.sum

/-- Stripe `s` loads node `s` of two. -/
def oneNode (load s : Nat) : NodeLoad := fun v => if v = s then (load, 0) else (0, 0)

theorem greedy_packing_two :
    Lts.Meets (packStep 1 2 (oneNode 5) fun a b => variance a < variance b) (fun bins curS =>
        AreSums (oneNode 5) bins ∧
          WellPacked 1 2 (oneNode 5) (fun a b => variance a < variance b) bins curS)
      (start 1 2) [0, 1] ∧
    ∃ bins, Lts.run (packStep 1 2 (oneNode 5) fun a b => variance a < variance b)
        (start 1 2) [0, 1] = some bins ∧ AreSums (oneNode 5) bins :=
  greedy_packing (Nat.le_refl 1) [0, 1] (by decide)

end StripeRepair.Packing

import Mathlib

/-!
# Batches of stripes

`ParallelSolution` filters the stripes with a block on a failed node and cuts them into
batches: in the order of the filter, shuffled, or packed greedily under the batch size and
then improved by random swaps (simulated annealing).

What depends on chance or on floating point is a parameter here: the order that `shuffle`
or `sort` leaves, the comparison of variances, the draws and the acceptance of a swap.

* `BatchesOf`: the batches hold each stripe once, and are neither empty nor too large.
* `batches_partition`: this is so for each of the three functions.
-/

namespace StripeRepair

/-- `filterFailedStripes`: the indices of the stripes, each pushed once. -/
def filterFailedStripes (placements : List (List Int)) (failNodeList : List Int) : List Nat :=
  (List.range placements.length).foldl (fun toRepair stripeid =>
    (placements.getD stripeid []).foldl (fun toRepair curnode =>
      if curnode ∉ failNodeList then toRepair
      else if stripeid ∉ toRepair then toRepair ++ [stripeid] else toRepair) toRepair) []

/-- `_num_batches` -/
def numBatches (numStripes batchSize : Nat) : Nat :=
  if numStripes % batchSize ≠ 0 then numStripes / batchSize + 1 else numStripes / batchSize

/-- The loop over the batch ids and the positions in a batch; past the end it breaks. -/
def cutBatches (batchSize : Nat) (toRepair : List Nat) : List (List Nat) :=
  (List.range (numBatches toRepair.length batchSize)).map fun batchid =>
    (List.range batchSize).filterMap fun i => toRepair[batchid * batchSize + i]?

/-! ## Greedy packing -/

/-- What a node sends and receives. -/
abbrev NodeLoad := Nat → Nat × Nat

/-- A batch with the loads of its stripes added up. -/
structure Bin where
  stripes : List Nat
  load : NodeLoad

def addLoad (a b : NodeLoad) : NodeLoad := fun v => ((a v).1 + (b v).1, (a v).2 + (b v).2)

/-- The largest load of a node. -/
def bottleneck (clusterSize : Nat) (load : NodeLoad) : Nat :=
  (List.range clusterSize).foldl (fun bn v => max bn (max (load v).1 (load v).2)) 0

section
variable (batchSize clusterSize : Nat) (dummyLoads : Nat → NodeLoad)
  (smaller : List Bin → Nat → Nat → Nat → Bool)

/-- `sim_bottleneck[b]`, `none` for `INT_MAX`: a full batch is left out. -/
def simBottleneck (bins : List Bin) (curS b : Nat) : Option Nat :=
  match bins[b]? with
  | none => none
  | some bin =>
    if bin.stripes.length ≥ batchSize then none
    else some (bottleneck clusterSize (addLoad bin.load (dummyLoads curS)))

/-- Among the batches with the least bottleneck, one with the smallest variance: `smaller`
says whether the variance of `b` is smaller than that of the best so far. -/
def bestBatch (bins : List Bin) (curS : Nat) : Option Nat :=
  let sim := simBottleneck batchSize clusterSize dummyLoads bins curS
  let minBottleneck := ((List.range bins.length).filterMap sim).min?
  (List.range bins.length).foldl (fun best b =>
    if sim b ≠ minBottleneck then best
    else match best with
      | none => some b
      | some best => if smaller bins curS b best then some b else some best) none

/-- Put a stripe into its batch. -/
def packOne (bins : List Bin) (curS : Nat) : List Bin :=
  match bestBatch batchSize clusterSize dummyLoads smaller bins curS with
  | none => bins
  | some b => bins.modify b fun bin => ⟨bin.stripes ++ [curS], addLoad bin.load (dummyLoads curS)⟩

def packAll (sorted : List Nat) : List (List Nat) :=
  (sorted.foldl (packOne batchSize clusterSize dummyLoads smaller)
    (List.replicate (numBatches sorted.length batchSize) ⟨[], fun _ => (0, 0)⟩)).map Bin.stripes

end

/-! ## Simulated annealing -/

/-- The draws of one iteration: two batches, a place in each, and whether a swap that is no
improvement is accepted. -/
structure Move where
  b1 : Nat
  b2 : Nat
  s1 : Nat
  s2 : Nat
  accept : Bool

structure Annealing where
  current : List (List Nat)
  best : List (List Nat)
  currentEnergy : Nat
  bestEnergy : Nat

/-- `calculate_total_makespan` -/
def totalMakespan (clusterSize : Nat) (dummyLoads : Nat → NodeLoad)
    (batches : List (List Nat)) : Nat :=
  (batches.map fun batch => bottleneck clusterSize
    (batch.foldl (fun load s => addLoad load (dummyLoads s)) fun _ => (0, 0))).sum

/-- `swap(solution[b1][s1], solution[b2][s2])` -/
def swapStripes (solution : List (List Nat)) (m : Move) : List (List Nat) :=
  match solution[m.b1]?.bind (·[m.s1]?), solution[m.b2]?.bind (·[m.s2]?) with
  | some x, some y => (solution.modify m.b1 (·.set m.s1 y)).modify m.b2 (·.set m.s2 x)
  | _, _ => solution

/-- One iteration. The second batch is drawn until it differs from the first. -/
def annealStep (energy : List (List Nat) → Nat) (st : Annealing) (m : Move) : Annealing :=
  if m.b1 = m.b2 then st
  else if st.current.getD m.b1 [] = [] ∨ st.current.getD m.b2 [] = [] then st
  else
    let neighbor := swapStripes st.current m
    let neighborEnergy := energy neighbor
    if neighborEnergy < st.currentEnergy then
      if neighborEnergy < st.bestEnergy then ⟨neighbor, neighbor, neighborEnergy, neighborEnergy⟩
      else { st with current := neighbor, currentEnergy := neighborEnergy }
    else if m.accept then { st with current := neighbor, currentEnergy := neighborEnergy }
    else st

/-- All temperatures together are one sequence of iterations. -/
def anneal (energy : List (List Nat) → Nat) (batches : List (List Nat)) (moves : List Move) :
    List (List Nat) :=
  if batches.length > 1 then
    (moves.foldl (annealStep energy) ⟨batches, batches, energy batches, energy batches⟩).best
  else batches

/-! ## The three functions -/

section
variable (placements : List (List Int)) (failNodeIds : List Int) (batchSize : Nat)

def genRepairBatchesForMultipleFailureNew : List (List Nat) :=
  cutBatches batchSize (filterFailedStripes placements failNodeIds)

/-- `shuffle` is what the shuffle does to the list. -/
def genRepairBatchesForMultipleFailureRandom (shuffle : List Nat → List Nat) : List (List Nat) :=
  cutBatches batchSize (shuffle (filterFailedStripes placements failNodeIds))

/-- `sort` is what the sort by bottlenecks does to the list. -/
def genRepairBatchesForMultipleFailureNewFireNew (sort : List Nat → List Nat)
    (clusterSize : Nat) (dummyLoads : Nat → NodeLoad)
    (smaller : List Bin → Nat → Nat → Nat → Bool) (moves : List Move) : List (List Nat) :=
  let toRepair := filterFailedStripes placements failNodeIds
  if toRepair = [] then []
  else anneal (totalMakespan clusterSize dummyLoads)
    (packAll batchSize clusterSize dummyLoads smaller (sort toRepair)) moves

end

/-! ## The filter -/

theorem foldl_pushOnce (placement failNodeList : List Int) (toRepair : List Nat) (id : Nat) :
    placement.foldl (fun toRepair curnode =>
      if curnode ∉ failNodeList then toRepair
      else if id ∉ toRepair then toRepair ++ [id] else toRepair) toRepair =
      if (∃ node ∈ placement, node ∈ failNodeList) ∧ id ∉ toRepair then toRepair ++ [id]
      else toRepair := by
  induction placement generalizing toRepair with
  | nil => simp
  | cons node placement ih =>
    rw [List.foldl_cons, ih]
    by_cases hn : node ∈ failNodeList
    · by_cases hid : id ∈ toRepair <;> simp [hn, hid]
    · simp [hn]

/-- **The filter**: each stripe with a block on a failed node, once. -/
theorem filterFailedStripes_eq (placements : List (List Int)) (failNodeList : List Int) :
    filterFailedStripes placements failNodeList = (List.range placements.length).filter fun id =>
      ∃ node ∈ placements.getD id [], node ∈ failNodeList := by
  unfold filterFailedStripes
  simp only [foldl_pushOnce]
  induction placements.length with
  | zero => rfl
  | succ n ih =>
    rw [List.range_succ, List.foldl_concat, ih, List.filter_append]
    have hn : n ∉ (List.range n).filter fun id =>
        ∃ node ∈ placements.getD id [], node ∈ failNodeList := by
      simp
    by_cases h : ∃ node ∈ placements.getD n [], node ∈ failNodeList
    · rw [if_pos ⟨h, hn⟩, List.filter_cons_of_pos (by simpa using h)]
      rfl
    · rw [if_neg fun hc => h hc.1, List.filter_cons_of_neg (by simpa using h)]
      simp

/-! ## The number of batches -/

theorem numBatches_eq (s : Nat) {b : Nat} (hb : 1 ≤ b) : numBatches s b = (s + b - 1) / b := by
  have hdiv := Nat.div_add_mod s b
  have hmod := Nat.mod_lt s hb
  unfold numBatches
  split
  · next h =>
    symm
    rw [Nat.div_eq_of_lt_le]
    · rw [Nat.add_mul, Nat.mul_comm]
      omega
    · rw [Nat.add_mul, Nat.add_mul, Nat.mul_comm]
      omega
  · next h =>
    rw [not_not] at h
    symm
    rw [Nat.div_eq_of_lt_le]
    · rw [Nat.mul_comm]
      omega
    · rw [Nat.add_mul, Nat.mul_comm]
      omega

theorem le_numBatches_mul (s : Nat) {b : Nat} (hb : 1 ≤ b) : s ≤ numBatches s b * b := by
  have hdiv := Nat.div_add_mod s b
  have hmod := Nat.mod_lt s hb
  unfold numBatches
  split
  · rw [Nat.add_mul, Nat.mul_comm (s / b)]
    omega
  · rw [Nat.mul_comm]
    omega

theorem pred_numBatches_mul_lt {s b : Nat} (hb : 1 ≤ b) (hs : 0 < numBatches s b) :
    (numBatches s b - 1) * b < s := by
  have hdiv := Nat.div_add_mod s b
  unfold numBatches at hs ⊢
  split at hs
  · next h =>
    rw [if_pos h, Nat.add_sub_cancel, Nat.mul_comm]
    omega
  · next h =>
    have hle : b ≤ s / b * b := Nat.le_mul_of_pos_left b hs
    rw [Nat.mul_comm] at hdiv
    rw [if_neg h, Nat.sub_mul, Nat.one_mul]
    omega

/-! ## What a list of batches has to be -/

/-- The batches hold each stripe of `toRepair` once and nothing else, there are as many of them
as needed, and each holds between 1 and `batchSize` stripes. -/
structure BatchesOf (toRepair : List Nat) (batchSize : Nat) (batches : List (List Nat)) :
    Prop where
  count : batches.length = (toRepair.length + batchSize - 1) / batchSize
  once : batches.flatten.Perm toRepair
  size : ∀ batch ∈ batches, 1 ≤ batch.length ∧ batch.length ≤ batchSize

theorem sum_le_length_mul {l : List Nat} {b : Nat} (h : ∀ x ∈ l, x ≤ b) : l.sum ≤ l.length * b := by
  induction l with
  | nil => simp
  | cons a l ih =>
    have ha := h a (List.mem_cons_self ..)
    have hl := ih fun x hx => h x (List.mem_cons_of_mem _ hx)
    rw [List.sum_cons, List.length_cons, Nat.add_mul]
    omega

/-- With so few batches none of them can be empty. -/
theorem batchesOf_of_le {toRepair : List Nat} {batchSize : Nat} {batches : List (List Nat)}
    (hb : 1 ≤ batchSize) (hcount : batches.length = numBatches toRepair.length batchSize)
    (honce : batches.flatten.Perm toRepair) (hle : ∀ batch ∈ batches, batch.length ≤ batchSize) :
    BatchesOf toRepair batchSize batches := by
  refine ⟨by rw [hcount, numBatches_eq _ hb], honce, fun batch hbatch => ⟨?_, hle batch hbatch⟩⟩
  have hpos : 0 < numBatches toRepair.length batchSize := by
    rw [← hcount]
    exact List.length_pos_of_mem hbatch
  have hlt := pred_numBatches_mul_lt hb hpos
  obtain ⟨pre, post, rfl⟩ := List.append_of_mem hbatch
  have hsum : ((pre ++ post).map List.length).sum + batch.length = toRepair.length := by
    rw [← honce.length_eq, List.length_flatten]
    simp only [List.map_append, List.map_cons, List.sum_append, List.sum_cons]
    omega
  have hrest : ((pre ++ post).map List.length).sum ≤ ((pre ++ post).map List.length).length * batchSize := by
    refine sum_le_length_mul fun x hx => ?_
    obtain ⟨y, hy, rfl⟩ := List.mem_map.1 hx
    refine hle y ?_
    rcases List.mem_append.1 hy with hy | hy
    · exact List.mem_append_left _ hy
    · exact List.mem_append_right _ (List.mem_cons_of_mem _ hy)
  have hlen : (pre ++ post).length = numBatches toRepair.length batchSize - 1 := by
    rw [← hcount]
    simp only [List.length_append, List.length_cons]
    omega
  rw [List.length_map, hlen] at hrest
  omega

/-! ## Cutting -/

theorem filterMap_range_getElem? (l : List Nat) (c b : Nat) :
    ((List.range b).filterMap fun i => l[c + i]?) = (l.drop c).take b := by
  induction b with
  | zero => simp
  | succ b ih =>
    rw [List.range_succ, List.filterMap_append, ih, List.take_add_one, List.getElem?_drop]
    cases h : l[c + b]? <;> simp [h]

theorem flatten_cut (l : List Nat) (b m : Nat) :
    ((List.range m).map fun id => (l.drop (id * b)).take b).flatten = l.take (m * b) := by
  induction m with
  | zero => simp
  | succ m ih =>
    rw [List.range_succ, List.map_append, List.flatten_append, ih, Nat.add_mul, Nat.one_mul,
      List.take_add]
    simp

theorem batchesOf_cutBatches {toRepair l : List Nat} {batchSize : Nat} (hb : 1 ≤ batchSize)
    (hl : l.Perm toRepair) : BatchesOf toRepair batchSize (cutBatches batchSize l) := by
  have hcut : cutBatches batchSize l = (List.range (numBatches l.length batchSize)).map
      fun id => (l.drop (id * batchSize)).take batchSize := by
    rw [cutBatches]
    simp only [filterMap_range_getElem?]
  refine batchesOf_of_le hb ?_ ?_ ?_
  · rw [hcut, List.length_map, List.length_range, hl.length_eq]
  · rw [hcut, flatten_cut, List.take_of_length_le (le_numBatches_mul _ hb)]
    exact hl
  · intro batch hbatch
    rw [hcut] at hbatch
    obtain ⟨id, -, rfl⟩ := List.mem_map.1 hbatch
    exact List.length_take_le ..

/-! ## Packing -/

section
variable (batchSize clusterSize : Nat) (dummyLoads : Nat → NodeLoad)
  (smaller : List Bin → Nat → Nat → Nat → Bool)

/-- The walk over the batches ends at one of the candidates, if there are any. -/
theorem foldl_best (p : Nat → Prop) [DecidablePred p] (better : Nat → Nat → Bool) (l : List Nat)
    (best : Option Nat) :
    let res := l.foldl (fun best b =>
      if ¬ p b then best
      else match best with
        | none => some b
        | some best => if better b best then some b else some best) best
    (∀ r, res = some r → (best = some r ∨ (r ∈ l ∧ p r))) ∧
      (res = none → best = none ∧ ∀ b ∈ l, ¬ p b) := by
  induction l generalizing best with
  | nil => exact ⟨fun r h => Or.inl h, fun h => ⟨h, by simp⟩⟩
  | cons a l ih =>
    simp only [List.foldl_cons]
    by_cases ha : p a
    · obtain ⟨h1, h2⟩ := ih (match best with
        | none => some a
        | some best => if better a best then some a else some best)
      simp only [ha, not_true_eq_false, if_false]
      refine ⟨fun r hr => ?_, fun hr => ?_⟩
      · rcases h1 r hr with h | h
        · cases best with
          | none =>
            obtain rfl : a = r := Option.some.inj h
            exact Or.inr ⟨List.mem_cons_self .., ha⟩
          | some best =>
            simp only at h
            split at h
            · obtain rfl : a = r := Option.some.inj h
              exact Or.inr ⟨List.mem_cons_self .., ha⟩
            · exact Or.inl h
        · exact Or.inr ⟨List.mem_cons_of_mem _ h.1, h.2⟩
      · obtain ⟨h, -⟩ := h2 hr
        cases best with
        | none => cases h
        | some best =>
          simp only at h
          split at h <;> cases h
    · obtain ⟨h1, h2⟩ := ih best
      simp only [ha, not_false_eq_true, if_true]
      refine ⟨fun r hr => ?_, fun hr => ?_⟩
      · exact (h1 r hr).imp_right fun h => ⟨List.mem_cons_of_mem _ h.1, h.2⟩
      · refine ⟨(h2 hr).1, fun b hb => ?_⟩
        rcases List.mem_cons.1 hb with rfl | hb
        · exact ha
        · exact (h2 hr).2 b hb

/-- While some batch is not full, a batch that is not full is chosen. -/
theorem bestBatch_of_room {bins : List Bin} (curS : Nat)
    (hroom : ∃ bin ∈ bins, bin.stripes.length < batchSize) :
    ∃ b bin, bestBatch batchSize clusterSize dummyLoads smaller bins curS = some b ∧
      bins[b]? = some bin ∧ bin.stripes.length < batchSize := by
  obtain ⟨bin, hbin, hlt⟩ := hroom
  obtain ⟨i, hi, rfl⟩ := List.getElem_of_mem hbin
  let sim := simBottleneck batchSize clusterSize dummyLoads bins curS
  have hsim : ∀ b m, sim b = some m → ∃ bin, bins[b]? = some bin ∧
      bin.stripes.length < batchSize := by
    intro b m h
    simp only [sim, simBottleneck] at h
    split at h
    · cases h
    · next bin hb =>
      split at h
      · cases h
      · next hge => exact ⟨bin, hb, by omega⟩
  have hi' : ∃ m, sim i = some m := by
    simp only [sim, simBottleneck, List.getElem?_eq_getElem hi, ge_iff_le]
    rw [if_neg (Nat.not_le.2 hlt)]
    exact ⟨_, rfl⟩
  -- the minimum is attained, so there is a candidate
  obtain ⟨m, hm⟩ := hi'
  have hmem : m ∈ (List.range bins.length).filterMap sim :=
    List.mem_filterMap.2 ⟨i, List.mem_range.2 hi, hm⟩
  obtain ⟨least, hleast⟩ : ∃ least, ((List.range bins.length).filterMap sim).min? = some least := by
    cases h : ((List.range bins.length).filterMap sim).min? with
    | none => exact absurd hmem (by rw [List.min?_eq_none_iff.1 h]; exact List.not_mem_nil)
    | some least => exact ⟨least, rfl⟩
  obtain ⟨c, hc, hcl⟩ := List.mem_filterMap.1 (List.min?_mem hleast)
  obtain ⟨h1, h2⟩ := foldl_best (fun b => sim b = some least) (smaller bins curS)
    (List.range bins.length) none
  have hdef : bestBatch batchSize clusterSize dummyLoads smaller bins curS =
      (List.range bins.length).foldl (fun best b =>
        if ¬ sim b = some least then best
        else match best with
          | none => some b
          | some best => if smaller bins curS b best then some b else some best) none := by
    rw [bestBatch]
    simp only [ne_eq]
    rw [show ((List.range bins.length).filterMap (simBottleneck batchSize clusterSize dummyLoads
      bins curS)).min? = some least from hleast]
  rw [hdef]
  cases hres : (List.range bins.length).foldl (fun best b =>
      if ¬ sim b = some least then best
      else match best with
        | none => some b
        | some best => if smaller bins curS b best then some b else some best) none with
  | none => exact absurd hcl ((h2 hres).2 c hc)
  | some b =>
    rcases h1 b hres with h | ⟨-, h⟩
    · cases h
    · obtain ⟨bin, hbin, hlt⟩ := hsim b least h
      exact ⟨b, bin, rfl, hbin, hlt⟩

/-- The batches while the stripes `done` are packed. -/
structure Packed (count : Nat) (done : List Nat) (bins : List Bin) : Prop where
  count : bins.length = count
  once : (bins.map Bin.stripes).flatten.Perm done
  size : ∀ bin ∈ bins, bin.stripes.length ≤ batchSize

theorem flatten_modify (bins : List Bin) {b : Nat} {bin : Bin} (hb : bins[b]? = some bin)
    (curS : Nat) (load : NodeLoad) :
    ((bins.modify b fun bin => ⟨bin.stripes ++ [curS], load⟩).map Bin.stripes).flatten.Perm
      ((bins.map Bin.stripes).flatten ++ [curS]) := by
  induction bins generalizing b with
  | nil => cases hb
  | cons a bins ih =>
    cases b with
    | zero =>
      simp only [List.modify_zero_cons, List.map_cons, List.flatten_cons, List.append_assoc]
      exact List.perm_append_comm.append_left a.stripes
    | succ b =>
      simp only [List.modify_succ_cons, List.map_cons, List.flatten_cons, List.append_assoc]
      exact (ih hb).append_left a.stripes

variable {batchSize}

theorem Packed.room {count : Nat} {done : List Nat} {bins : List Bin}
    (h : Packed batchSize count done bins) (hlt : done.length < count * batchSize) :
    ∃ bin ∈ bins, bin.stripes.length < batchSize := by
  by_contra hfull
  have hge : ∀ bin ∈ bins, batchSize ≤ bin.stripes.length := by
    intro bin hbin
    by_contra hlt
    exact hfull ⟨bin, hbin, Nat.not_le.1 hlt⟩
  have hsum : ∀ l : List Bin, (∀ bin ∈ l, batchSize ≤ bin.stripes.length) →
      l.length * batchSize ≤ (l.map Bin.stripes).flatten.length := by
    intro l hl
    induction l with
    | nil => simp
    | cons a l ih =>
      have ha := hl a (List.mem_cons_self ..)
      have ih := ih fun bin hbin => hl bin (List.mem_cons_of_mem _ hbin)
      rw [List.length_cons, Nat.add_mul, List.map_cons, List.flatten_cons, List.length_append]
      omega
  have hle := hsum bins hge
  rw [h.count, h.once.length_eq] at hle
  omega

/-- Another stripe goes into a batch that is not full. -/
theorem Packed.push {count : Nat} {done : List Nat} {bins : List Bin}
    (h : Packed batchSize count done bins) {b : Nat} {bin : Bin} (hbin : bins[b]? = some bin)
    (hroom : bin.stripes.length < batchSize) (curS : Nat) :
    Packed batchSize count (done ++ [curS])
      (bins.modify b fun bin => ⟨bin.stripes ++ [curS], addLoad bin.load (dummyLoads curS)⟩) := by
  have hmod : (bins.modify b fun bin =>
      (⟨bin.stripes ++ [curS], addLoad bin.load (dummyLoads curS)⟩ : Bin)) =
      bins.modify b fun x => ⟨x.stripes ++ [curS], addLoad bin.load (dummyLoads curS)⟩ := by
    apply List.ext_getElem?
    intro i
    rw [List.getElem?_modify, List.getElem?_modify]
    by_cases hi : b = i
    · rw [← hi, hbin]
      simp
    · simp [hi]
  rw [hmod]
  refine ⟨by rw [List.length_modify, h.count], ?_, ?_⟩
  · exact (flatten_modify bins hbin curS _).trans (h.once.append_right [curS])
  · intro x hx
    obtain ⟨i, hi, rfl⟩ := List.getElem_of_mem hx
    rw [List.length_modify] at hi
    rw [List.getElem_modify]
    split
    · next he =>
      subst he
      rw [List.getElem?_eq_getElem hi, Option.some.injEq] at hbin
      rw [hbin]
      simp only [List.length_append, List.length_singleton]
      omega
    · exact h.size _ (List.getElem_mem hi)

theorem Packed.step {count : Nat} {done : List Nat} {bins : List Bin}
    (h : Packed batchSize count done bins) (hlt : done.length < count * batchSize) (curS : Nat) :
    Packed batchSize count (done ++ [curS])
      (packOne batchSize clusterSize dummyLoads smaller bins curS) := by
  obtain ⟨b, bin, hbest, hbin, hroom⟩ :=
    bestBatch_of_room batchSize clusterSize dummyLoads smaller curS (h.room hlt)
  rw [packOne, hbest]
  exact h.push dummyLoads hbin hroom curS

theorem packed_start (batchSize count : Nat) :
    Packed batchSize count [] (List.replicate count ⟨[], fun _ => (0, 0)⟩) := by
  refine ⟨List.length_replicate, ?_, ?_⟩
  · rw [List.map_replicate]
    simp
  · intro bin hbin
    rw [(List.mem_replicate.1 hbin).2]
    exact Nat.zero_le _

/-- **Greedy packing** never runs out of room. -/
theorem batchesOf_packAll {toRepair sorted : List Nat} (hb : 1 ≤ batchSize)
    (hs : sorted.Perm toRepair) : BatchesOf toRepair batchSize
      (packAll batchSize clusterSize dummyLoads smaller sorted) := by
  have hrun : ∀ (rest done : List Nat) (bins : List Bin), done ++ rest = sorted →
      Packed batchSize (numBatches sorted.length batchSize) done bins →
      Packed batchSize (numBatches sorted.length batchSize) sorted
        (rest.foldl (packOne batchSize clusterSize dummyLoads smaller) bins) := by
    intro rest
    induction rest with
    | nil =>
      intro done bins he h
      rw [List.append_nil] at he
      exact he ▸ h
    | cons s rest ih =>
      intro done bins he h
      have hlt : done.length < numBatches sorted.length batchSize * batchSize := by
        refine Nat.lt_of_lt_of_le ?_ (le_numBatches_mul _ hb)
        rw [← he, List.length_append, List.length_cons]
        omega
      exact ih (done ++ [s]) _ (by rw [← he]; simp) (h.step clusterSize dummyLoads smaller hlt s)
  obtain ⟨hcount, honce, hsize⟩ := hrun sorted [] _ rfl (packed_start _ _)
  refine batchesOf_of_le hb ?_ (honce.trans hs) ?_
  · rw [packAll, List.length_map, hcount, hs.length_eq]
  · intro batch hbatch
    obtain ⟨bin, hbin, rfl⟩ := List.mem_map.1 hbatch
    exact hsize bin hbin

end

/-! ## Annealing -/

/-- The same stripes in batches of the same sizes. -/
structure Rearranged (batches batches' : List (List Nat)) : Prop where
  once : batches'.flatten.Perm batches.flatten
  size : batches'.map List.length = batches.map List.length

theorem count_set {l : List Nat} {i x : Nat} (h : l[i]? = some x) (y a : Nat) :
    (l.set i y).count a + (if x = a then 1 else 0) = l.count a + if y = a then 1 else 0 := by
  induction l generalizing i with
  | nil => cases h
  | cons b l ih =>
    cases i with
    | zero =>
      obtain rfl : b = x := by simpa using h
      simp only [List.set_cons_zero, List.count_cons, beq_iff_eq]
      omega
    | succ i =>
      have := ih (by simpa using h)
      simp only [List.set_cons_succ, List.count_cons]
      omega

theorem count_flatten_modify {batches : List (List Nat)} {b : Nat} {l : List Nat}
    (h : batches[b]? = some l) (f : List Nat → List Nat) (a : Nat) :
    (batches.modify b f).flatten.count a + l.count a =
      batches.flatten.count a + (f l).count a := by
  induction batches generalizing b with
  | nil => cases h
  | cons c batches ih =>
    cases b with
    | zero =>
      obtain rfl : c = l := by simpa using h
      simp only [List.modify_zero_cons, List.flatten_cons, List.count_append]
      omega
    | succ b =>
      have := ih (by simpa using h)
      simp only [List.modify_succ_cons, List.flatten_cons, List.count_append]
      omega

theorem map_length_modify (batches : List (List Nat)) (b i y : Nat) :
    (batches.modify b (·.set i y)).map List.length = batches.map List.length := by
  apply List.ext_getElem
  · simp
  · intro j h1 h2
    rw [List.getElem_map, List.getElem_modify, List.getElem_map]
    split <;> simp

/-- **A swap** between two batches rearranges them. -/
theorem rearranged_swapStripes (batches : List (List Nat)) {m : Move} (hne : m.b1 ≠ m.b2) :
    Rearranged batches (swapStripes batches m) := by
  unfold swapStripes
  split
  · next x y hx hy =>
    obtain ⟨l1, h1, hx⟩ := Option.bind_eq_some_iff.1 hx
    obtain ⟨l2, h2, hy⟩ := Option.bind_eq_some_iff.1 hy
    have h2' : (batches.modify m.b1 (·.set m.s1 y))[m.b2]? = some l2 := by
      rw [List.getElem?_modify, h2]
      simp [hne]
    refine ⟨List.perm_iff_count.2 fun a => ?_, ?_⟩
    · have e1 := count_flatten_modify h1 (·.set m.s1 y) a
      have e2 := count_flatten_modify h2' (·.set m.s2 x) a
      have e3 := count_set hx y a
      have e4 := count_set hy x a
      omega
    · rw [map_length_modify, map_length_modify]
  · exact ⟨List.Perm.refl _, rfl⟩

theorem Rearranged.trans {a b c : List (List Nat)} (h : Rearranged a b) (h' : Rearranged b c) :
    Rearranged a c := ⟨h'.once.trans h.once, h'.size.trans h.size⟩

theorem rearranged_annealStep {batches : List (List Nat)} (energy : List (List Nat) → Nat)
    {st : Annealing} (h : Rearranged batches st.current ∧ Rearranged batches st.best) (m : Move) :
    Rearranged batches (annealStep energy st m).current ∧
      Rearranged batches (annealStep energy st m).best := by
  unfold annealStep
  split
  · exact h
  · next hne =>
    have hn := h.1.trans (rearranged_swapStripes st.current hne)
    split
    · exact h
    · simp only
      split
      · split
        · exact ⟨hn, hn⟩
        · exact ⟨hn, h.2⟩
      · split
        · exact ⟨hn, h.2⟩
        · exact h

/-- **Annealing** only rearranges, whatever is drawn. -/
theorem rearranged_anneal (energy : List (List Nat) → Nat) (batches : List (List Nat))
    (moves : List Move) : Rearranged batches (anneal energy batches moves) := by
  have hrefl : Rearranged batches batches := ⟨List.Perm.refl _, rfl⟩
  have hrun : ∀ (moves : List Move) (st : Annealing),
      Rearranged batches st.current ∧ Rearranged batches st.best →
      Rearranged batches (moves.foldl (annealStep energy) st).best := by
    intro moves
    induction moves with
    | nil => exact fun st h => h.2
    | cons m moves ih => exact fun st h => ih _ (rearranged_annealStep energy h m)
  unfold anneal
  split
  · exact hrun moves _ ⟨hrefl, hrefl⟩
  · exact hrefl

theorem BatchesOf.rearranged {toRepair : List Nat} {batchSize : Nat} {batches batches' : List (List Nat)}
    (h : BatchesOf toRepair batchSize batches) (hr : Rearranged batches batches') :
    BatchesOf toRepair batchSize batches' := by
  refine ⟨?_, hr.once.trans h.once, fun batch hbatch => ?_⟩
  · rw [← h.count, ← List.length_map (f := List.length), hr.size, List.length_map]
  · have hmem : batch.length ∈ batches.map List.length := hr.size ▸ List.mem_map_of_mem hbatch
    obtain ⟨b, hb, he⟩ := List.mem_map.1 hmem
    rw [← he]
    exact h.size b hb

/-! ## The three functions -/

/-- **Batches partition the stripes to repair**, for each of the three functions and whatever
chance decides. -/
theorem batches_partition (placements : List (List Int)) (failNodeIds : List Int) (batchSize : Nat)
    (hb : 1 ≤ batchSize) :
    ((filterFailedStripes placements failNodeIds).Nodup ∧
      ∀ id, id ∈ filterFailedStripes placements failNodeIds ↔
        id < placements.length ∧ ∃ node ∈ placements.getD id [], node ∈ failNodeIds) ∧
    BatchesOf (filterFailedStripes placements failNodeIds) batchSize
      (genRepairBatchesForMultipleFailureNew placements failNodeIds batchSize) ∧
    (∀ shuffle : List Nat → List Nat, (∀ l, (shuffle l).Perm l) →
      BatchesOf (filterFailedStripes placements failNodeIds) batchSize
        (genRepairBatchesForMultipleFailureRandom placements failNodeIds batchSize shuffle)) ∧
    ∀ sort : List Nat → List Nat, (∀ l, (sort l).Perm l) →
      ∀ clusterSize dummyLoads smaller moves,
        BatchesOf (filterFailedStripes placements failNodeIds) batchSize
          (genRepairBatchesForMultipleFailureNewFireNew placements failNodeIds batchSize sort
            clusterSize dummyLoads smaller moves) := by
  refine ⟨⟨?_, fun id => ?_⟩, ?_, ?_, ?_⟩
  · rw [filterFailedStripes_eq]
    exact List.nodup_range.filter _
  · rw [filterFailedStripes_eq, List.mem_filter, List.mem_range, decide_eq_true_iff]
  · exact batchesOf_cutBatches hb (List.Perm.refl _)
  · exact fun shuffle hs => batchesOf_cutBatches hb (hs _)
  · intro sort hs clusterSize dummyLoads smaller moves
    unfold genRepairBatchesForMultipleFailureNewFireNew
    simp only
    split
    · next h0 =>
      -- nothing to repair, no batches
      refine ⟨?_, ?_, by simp⟩
      · rw [h0, List.length_nil, List.length_nil, Nat.zero_add, Nat.div_eq_of_lt (by omega)]
      · rw [h0]
        rfl
    · exact (batchesOf_packAll clusterSize dummyLoads smaller hb (hs _)).rearranged
        (rearranged_anneal _ _ moves)

/-- Three of four stripes have a block on node 1 or 2; two batches of at most two. -/
theorem batches_partition_two :
    filterFailedStripes [[1, 3], [2, 4], [3, 4], [1, 2]] [1, 2] = [0, 1, 3] ∧
    BatchesOf [0, 1, 3] 2
      (genRepairBatchesForMultipleFailureNew [[1, 3], [2, 4], [3, 4], [1, 2]] [1, 2] 2) :=
  ⟨by decide, (batches_partition [[1, 3], [2, 4], [3, 4], [1, 2]] [1, 2] 2 (by decide)).2.1⟩

end StripeRepair

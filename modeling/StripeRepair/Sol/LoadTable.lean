import StripeRepair.Sol.Legality
import StripeRepair.Sol.RepairBatch

/-!
# The load table of a batch

The stripes of a batch are coloured one after the other against a table of what every node
sends and receives so far. A stripe may be coloured on trial: the trial adds its traffic to
the table it is given and leaves its colouring and its own tables in the stripe; it ends early
when an assertion fails.

* `coloring_onCluster`: every colour is -1 or a node of the cluster.
* `trial_table`: the table after a trial is the one before plus the tables of the stripe.
-/

namespace StripeRepair

open PRSolution (colorAt)

/-! ## Colours on the cluster -/

/-- The colour is -1 or a node of the cluster. -/
def OnNode (clusterSize : Nat) (c : Int) : Prop := c = -1 ∨ 0 ≤ c ∧ c < clusterSize

/-- Every vertex is -1 or on a node of the cluster. -/
def Coloring.OnCluster (clusterSize : Nat) (coloring : Coloring) : Prop :=
  ∀ v, OnNode clusterSize (colorAt coloring v)

namespace Coloring

section
variable {N : Nat} {coloring : Coloring}

theorem onCluster_empty (hN : 0 < N) : OnCluster N ∅ := by
  intro v
  right
  show 0 ≤ (0 : Int) ∧ (0 : Int) < N
  omega

theorem OnCluster.insert (h : coloring.OnCluster N) (v : Nat) {c : Int} (hc : OnNode N c) :
    OnCluster N (coloring.insert v c) := by
  intro u
  rw [PRSolution.colorAt_insert]
  split
  · exact hc
  · exact h u

theorem OnCluster.insertNew (h : coloring.OnCluster N) (v : Nat) {c : Int} (hc : OnNode N c) :
    OnCluster N (coloring.insertNew v c) := by
  unfold Coloring.insertNew
  split
  · exact h
  · exact h.insert v hc

end

end Coloring

namespace ParallelSolution

section
variable {p : ParallelSolution} {placement : List Int} {d : ECDAG} {scenario : Scenario}

variable (p placement d scenario) in
/-- The nodes that are used are in the cluster: those of the placement, and a standby node for
each block that is repaired. -/
structure Fits : Prop where
  cluster : 0 < p.clusterSize
  nodes : ∀ x ∈ placement, 0 ≤ x ∧ x < p.clusterSize
  standby : scenario = .standby → d.ecConcacts.length ≤ p.standbySize

variable (h : p.Fits placement d scenario)
include h

theorem Fits.leafNode (v : Nat) : OnNode p.clusterSize (p.leafNode placement v) := by
  unfold ParallelSolution.leafNode
  split
  · right
    by_cases hv : v / p.ecw < placement.length
    · rw [List.getD_eq_getElem _ _ hv]
      exact h.nodes _ (List.getElem_mem hv)
    · rw [List.getD_eq_default _ _ (not_lt.1 hv)]
      have := h.cluster
      omega
  · exact Or.inl rfl

theorem Fits.colorConcactScatter (draws : Nat → Nat) {st : Coloring × List Int}
    (hst : st.1.OnCluster p.clusterSize) (item : Nat × Nat) :
    (p.colorConcactScatter placement draws st item).1.OnCluster p.clusterSize := by
  refine hst.insertNew _ (Or.inr ?_)
  have hcluster := h.cluster
  rw [List.getD_eq_getElem?_getD]
  cases hr : (p.spare placement st.2)[draws item.2 % (p.spare placement st.2).length]? with
  | none =>
    show 0 ≤ (0 : Int) ∧ (0 : Int) < _
    omega
  | some r =>
    have hmem := (List.mem_filter.1 (List.mem_of_getElem? hr)).1
    obtain ⟨i, hi, rfl⟩ := List.mem_map.1 hmem
    rw [List.mem_range] at hi
    show 0 ≤ (i : Int) ∧ (i : Int) < _
    omega

/-- **What `prepare` leaves** is on the cluster. -/
theorem Fits.prepare (failNodeIds : List Int) (draws : Nat → Nat) :
    (p.prepare placement d failNodeIds scenario draws).OnCluster p.clusterSize := by
  have hleaves : (d.ecLeaves.foldl (p.colorLeaf placement) (∅, failNodeIds)).1.OnCluster
      p.clusterSize :=
    List.foldlRecOn (motive := fun st : Coloring × List Int => st.1.OnCluster p.clusterSize)
      d.ecLeaves _ (Coloring.onCluster_empty h.cluster) fun st hst v _ =>
        hst.insertNew v (h.leafNode v)
  unfold ParallelSolution.prepare
  cases scenario with
  | standby =>
    refine List.foldlRecOn (motive := fun r : Coloring => r.OnCluster p.clusterSize) _ _ hleaves
      fun r hr item hitem => hr.insertNew _ (Or.inr ?_)
    have hlt := (List.mem_zipIdx hitem).2.1
    have hstandby := h.standby rfl
    unfold clusterSize
    omega
  | scatter =>
    exact List.foldlRecOn (motive := fun st : Coloring × List Int => st.1.OnCluster p.clusterSize)
      _ _ hleaves fun st hst item _ => h.colorConcactScatter draws hst item

end

section
variable {d : ECDAG} {loadTable : List (List Int)} {N : Nat}

theorem onNode_chooseColor (evaluate : Int → State) {colors : List Int}
    (h : ∀ c ∈ colors, OnNode N c) : OnNode N (chooseColor evaluate colors) := by
  rcases chooseColor_mem_or evaluate colors with hc | hc
  · exact h _ hc
  · exact Or.inl hc

theorem onNode_childColors {coloring : Coloring} (h : coloring.OnCluster N) (idx : Nat) :
    ∀ c ∈ d.getChildColors coloring idx, OnNode N c := by
  intro c hc
  obtain ⟨-, child, -, rfl⟩ := ECDAG.mem_getChildColors.1 hc
  exact h child

theorem onCluster_changeColor {ord' : HashOrder EvalWalk} {st st' : StripeTables}
    (h : st.coloring.OnCluster N) {idx : Nat} {c : Int} (hc : OnNode N c)
    (hst : st.changeColor d ord' idx c = some st') : st'.coloring.OnCluster N := by
  rw [(StripeTables.changeColor_some hst).1]
  exact h.insert idx hc

theorem onCluster_yhStep {ord' : HashOrder EvalWalk} {st st' : StripeTables}
    (h : st.coloring.OnCluster N) (idx : Nat) (hst : yhStep d loadTable ord' st idx = some st') :
    st'.coloring.OnCluster N := by
  have hbest : OnNode N (if d.getChildColors st.coloring idx = [-1] then -1
      else chooseColor_fullnode d st.coloring st.cells (d.getChildColors st.coloring idx)
        loadTable idx) := by
    split
    · exact Or.inl rfl
    · exact onNode_chooseColor _ (onNode_childColors h idx)
  unfold yhStep at hst
  dsimp only at hst
  generalize (if d.getChildColors st.coloring idx = [-1] then -1 else _) = best at hbest hst
  split at hst
  · exact Option.some.inj hst ▸ h
  · exact onCluster_changeColor h hbest hst

theorem onNode_levelColor {candidates : List Int} (hcand : ∀ c ∈ candidates, OnNode N c)
    {st : StripeTables} (h : st.coloring.OnCluster N) (idx : Nat) :
    OnNode N (levelColor d loadTable candidates st idx) := by
  refine onNode_chooseColor _ ?_
  split
  · exact onNode_childColors h idx
  · exact hcand

theorem onCluster_levelStep {ord' : HashOrder EvalWalk} {candidates : List Int}
    (hcand : ∀ c ∈ candidates, OnNode N c) {st st' : StripeTables} (h : st.coloring.OnCluster N)
    (idx : Nat) (hst : levelStep d loadTable ord' candidates st idx = some st') :
    st'.coloring.OnCluster N := by
  have hbest := @onNode_levelColor d loadTable N candidates hcand st h idx
  unfold levelStep at hst
  dsimp only at hst
  split at hst
  · exact Option.some.inj hst ▸ h
  · split at hst
    · exact Option.some.inj hst ▸ h
    · -- the whole group gets a colour that was tried
      exact Lts.run_inv (I := fun st : StripeTables => st.coloring.OnCluster N)
        (fun _ _ _ hs h1 => onCluster_changeColor hs hbest h1) h hst

theorem onCluster_blank {coloring : Coloring} (ord' : HashOrder EvalWalk)
    (h : coloring.OnCluster N) : (blank d ord' coloring).coloring.OnCluster N :=
  List.foldlRecOn (motive := fun r : Coloring => r.OnCluster N) _ _ h
    fun _ hr v _ => hr.insertNew v (Or.inl rfl)

/-- **Every colour that is left** is -1 or a node of the cluster, whatever the method. -/
theorem coloring_onCluster {p : ParallelSolution} {placement : List Int} {scenario : Scenario}
    (h : p.Fits placement d scenario) {failNodeIds : List Int} {draws : Nat → Nat}
    {ord : HashOrder Walk} {ord' : HashOrder EvalWalk} {method : Nat}
    {res : Coloring × List (List Int)}
    (hres : genColoringForMultipleFailureLevelNew d loadTable ord ord' p placement failNodeIds
      scenario draws method = some res) : res.1.OnCluster p.clusterSize := by
  have hprep := h.prepare failNodeIds draws
  have hblank := onCluster_blank (d := d) ord' hprep
  have hcand : ∀ c ∈ candidatesOf d p placement failNodeIds
      (p.prepare placement d failNodeIds scenario draws), OnNode p.clusterSize c := by
    intro c hc
    rcases List.mem_append.1 hc with hc | hc
    · exact Or.inr (h.nodes c (List.mem_filter.1 hc).1)
    · obtain ⟨i, -, rfl⟩ := List.mem_map.1 hc
      exact hprep _
  obtain ⟨st, hst, rfl⟩ := genColoring_some hres
  split at hst
  · exact Lts.run_inv (I := fun st : StripeTables => st.coloring.OnCluster p.clusterSize)
      (fun _ v _ hs h1 => onCluster_levelStep hcand hs v h1) hblank hst
  · exact Lts.run_inv (I := fun st : StripeTables => st.coloring.OnCluster p.clusterSize)
      (fun _ v _ hs h1 => onCluster_yhStep hs v h1) hblank hst

end

end ParallelSolution

/-! ## A trial -/

/-- What a trial leaves in the stripe: `_coloring`, `_in` and `_out`, and `_load`. -/
structure Colored where
  coloring : Coloring
  tables : Traffic
  load : Nat

/-- `stripe->setColoring(coloring); stripe->evaluateColoring()` -/
def ECDAG.paint (d : ECDAG) (ord' : HashOrder EvalWalk) (coloring : Coloring) : Colored :=
  let tables := (ord'.order .coloring coloring.keys).foldl
    (d.evalVertex (colorAt coloring) Stripe.counted Traffic.move) .empty
  ⟨coloring, tables, (tables.stat ord' (0, 0)).2⟩

/-- What a trial depends on besides the load table: what `rand` returns and the orders in which
the unordered maps are walked through. -/
structure Chance where
  draws : Nat → Nat
  ord : HashOrder Walk
  ord' : HashOrder EvalWalk

/-- A stripe of the batch, with the chances of its trials, one for each method. -/
structure Job where
  placement : List Int
  chance : Nat → Chance

/-- What is the same for all stripes: the code, the failed nodes and the scenario. -/
structure Planner extends ParallelSolution where
  decode : List Nat → List Nat → ECDAG
  failNodeIds : List Int
  scenario : Scenario

namespace Planner

section
variable (p : Planner)

/-- `curstripe->refreshECDAG(curstripe->genRepairECDAG(_ec, fail_node_ids))` -/
def repairECDAG (j : Job) : ECDAG :=
  (genRepairECDAG p.decode p.ecn p.ecw (p.failBlocks j.placement p.failNodeIds)).refreshECDAG

/-- `genColoringForMultipleFailureLevelNew` with what it leaves in the stripe; `none` when an
assertion fails. -/
def trial (j : Job) (loadTable : List (List Int)) (method : Nat) :
    Option (Colored × List (List Int)) :=
  let c := j.chance method
  (ParallelSolution.genColoringForMultipleFailureLevelNew (p.repairECDAG j) loadTable c.ord c.ord'
    p.toParallelSolution j.placement p.failNodeIds p.scenario c.draws method).map
    fun res => ((p.repairECDAG j).paint c.ord' res.1, res.2)

/-- The stripe uses nodes of the cluster, and the code keeps its promise for it. -/
structure Fits (j : Job) : Prop where
  nodes : p.toParallelSolution.Fits j.placement (p.repairECDAG j) p.scenario
  dag : RepairDag (p.repairECDAG j) p.ecn p.ecw (p.failBlocks j.placement p.failNodeIds)

/-- The trial with method 1 drops no transfer. -/
def DropsNone (j : Job) (loadTable : List (List Int)) : Prop :=
  ParallelSolution.DropsNone (p.repairECDAG j) loadTable (j.chance 1).ord (j.chance 1).ord'
    p.toParallelSolution j.placement p.failNodeIds p.scenario (j.chance 1).draws

instance (j : Job) (loadTable : List (List Int)) : Decidable (p.DropsNone j loadTable) :=
  inferInstanceAs (Decidable (ParallelSolution.DropsNone ..))

end

end Planner

/-- The entries are of nodes of the cluster. -/
def Traffic.OnCluster (clusterSize : Nat) (t : Traffic) : Prop :=
  ∀ i, i ∈ t.inMap ∨ i ∈ t.outMap → 0 ≤ i ∧ i < clusterSize

/-- The entrywise sum of the tables: a row for each node, `OUT` before `IN`. -/
def sumTable (clusterSize : Nat) (ts : List Traffic) : List (List Int) :=
  (List.range clusterSize).map fun i : Nat =>
    [(((ts.map fun t => t.outMap.get i).sum : Nat) : Int),
      (((ts.map fun t => t.inMap.get i).sum : Nat) : Int)]

theorem mem_foldl_incr {l : List Int} {m : CountMap Int} {i : Int}
    (h : i ∈ l.foldl CountMap.incr m) : i ∈ m ∨ i ∈ l := by
  induction l generalizing m with
  | nil => exact Or.inl h
  | cons a l ih =>
    rcases ih h with h | h
    · rw [CountMap.incr_eq, AList.mem_insert] at h
      rcases h with rfl | h
      · exact Or.inr (List.mem_cons_self ..)
      · exact Or.inl h
    · exact Or.inr (List.mem_cons_of_mem _ h)

section
variable {N : Nat} {d : ECDAG} {coloring : Coloring} (h : coloring.OnCluster N)
include h

/-- The ends of a transfer are nodes of the cluster. -/
theorem Coloring.OnCluster.ends {v : Nat} {m : Nat × Int}
    (hm : m ∈ d.movesOf (colorAt coloring) Stripe.counted v) :
    (0 ≤ colorAt coloring m.1 ∧ colorAt coloring m.1 < N) ∧ 0 ≤ m.2 ∧ m.2 < N := by
  unfold ECDAG.movesOf at hm
  split at hm
  · cases hm
  · next hc =>
    obtain ⟨c, hcm, rfl⟩ := List.mem_map.1 hm
    obtain ⟨hcm, hcount⟩ := List.mem_filter.1 hcm
    obtain ⟨u, -, rfl⟩ := (ECDAG.mem_parentColors d).1 hcm
    simp only [Stripe.counted, decide_eq_true_eq] at hcount
    exact ⟨(h v).resolve_left hc, (h u).resolve_left hcount.2⟩

/-- The transfers of the colouring, in the order of the walk. -/
theorem Coloring.OnCluster.exists_transfers (ord' : HashOrder EvalWalk) :
    ∃ es : List (Int × Int), (∀ e ∈ es, (0 ≤ e.1 ∧ e.1 < N) ∧ 0 ≤ e.2 ∧ e.2 < N) ∧
      (∀ L, (ord'.order .coloring coloring.keys).foldl
        (d.evalVertex (colorAt coloring) Stripe.counted Stripe.bump) L = es.foldl Stripe.bump L) ∧
      (d.paint ord' coloring).tables = es.foldl Traffic.move .empty := by
  refine ⟨_, fun e he => ?_, fun L => ECDAG.foldl_evalVertex .., ECDAG.foldl_evalVertex ..⟩
  obtain ⟨m, hm, rfl⟩ := List.mem_map.1 he
  obtain ⟨v, -, hm⟩ := List.mem_flatMap.1 hm
  exact h.ends hm

/-- **The table after a colouring**: the one before plus the tables of the stripe. -/
theorem Coloring.OnCluster.evalColoringGlobal_eq (ord' : HashOrder EvalWalk) (L : List (List Int)) :
    (ord'.order .coloring coloring.keys).foldl
        (d.evalVertex (colorAt coloring) Stripe.counted Stripe.bump) L =
      Stripe.plus L (d.paint ord' coloring).tables := by
  obtain ⟨es, hes, hglobal, htables⟩ := h.exists_transfers (d := d) ord'
  rw [hglobal, htables, Stripe.plus, Stripe.foldl_bump L fun e he => ⟨(hes e he).1.1, (hes e he).2.1⟩]
  congr 1 <;>
  · funext i
    simp only [Traffic.get_foldl_move]

theorem Coloring.OnCluster.paint (ord' : HashOrder EvalWalk) :
    (d.paint ord' coloring).tables.OnCluster N := by
  obtain ⟨es, hes, -, htables⟩ := h.exists_transfers (d := d) ord'
  rw [htables, Traffic.foldl_move]
  rintro i (hi | hi)
  · rcases mem_foldl_incr hi with hi | hi
    · exact absurd hi (AList.notMem_empty i)
    · obtain ⟨e, he, rfl⟩ := List.mem_map.1 hi
      exact (hes e he).2
  · rcases mem_foldl_incr hi with hi | hi
    · exact absurd hi (AList.notMem_empty i)
    · obtain ⟨e, he, rfl⟩ := List.mem_map.1 hi
      exact (hes e he).1

end

section
variable {p : Planner} {j : Job} (h : p.Fits j)
include h

/-- **A trial** adds the tables it leaves in the stripe to the table it is given. -/
theorem Planner.trial_table {loadTable : List (List Int)} {method : Nat}
    {res : Colored × List (List Int)} (hres : p.trial j loadTable method = some res) :
    res.2 = Stripe.plus loadTable res.1.tables ∧ res.1.tables.OnCluster p.clusterSize := by
  obtain ⟨res', hres', rfl⟩ := Option.map_eq_some_iff.1 hres
  have hcolor := ParallelSolution.coloring_onCluster h.nodes hres'
  refine ⟨?_, hcolor.paint _⟩
  obtain ⟨st, -, rfl⟩ := ParallelSolution.genColoring_some hres'
  exact hcolor.evalColoringGlobal_eq _ loadTable

/-- **A trial gets to its end** with method 0, and with method 1 when no transfer is dropped. -/
theorem Planner.trial_runs (loadTable : List (List Int)) (method : Nat)
    (hdrops : method = 1 → p.DropsNone j loadTable) :
    ∃ res, p.trial j loadTable method = some res := by
  obtain ⟨res, hres⟩ := ParallelSolution.genColoring_runs h.dag p.scenario (j.chance method).draws
    loadTable (j.chance method).ord (j.chance method).ord' method (by rintro rfl; exact hdrops rfl)
  exact ⟨_, Option.map_eq_some_iff.2 ⟨res, hres, rfl⟩⟩

end

/-- The load of a stripe is the largest entry of its tables. -/
theorem ECDAG.isPeak_load (d : ECDAG) (ord' : HashOrder EvalWalk) (coloring : Coloring) :
    CountMap.IsPeak (d.paint ord' coloring).tables.inMap.get
      (d.paint ord' coloring).tables.outMap.get (d.paint ord' coloring).load :=
  (Traffic.stat_spec _ ord').2

/-! ## Sums of tables -/

section
variable (N : Nat) (ts : List Traffic)

theorem plus_sumTable (t : Traffic) : Stripe.plus (sumTable N ts) t = sumTable N (ts ++ [t]) := by
  unfold Stripe.plus Stripe.addTo sumTable
  apply List.ext_getElem
  · simp
  · intro i h1 h2
    simp

theorem sumTable_nil : sumTable N [] = List.replicate N [0, 0] := by
  unfold sumTable
  apply List.ext_getElem
  · simp
  · intro i h1 h2
    simp

/-- **The table of the batch** is the sum of the tables of its stripes. -/
theorem getLoadTable_eq_sumTable (ord : HashOrder BatchWalk) (b : RepairBatch Colored)
    (h : ∀ c ∈ b.stripeList, c.tables.OnCluster N) :
    b.getLoadTable Colored.tables ord N = sumTable N (b.stripeList.map Colored.tables) := by
  rw [RepairBatch.getLoadTable_eq_of_mem ord b fun c hc i hi => (h c hc i hi).1]
  unfold Stripe.addTo sumTable
  apply List.ext_getElem
  · simp
  · intro i h1 h2
    simp [RepairBatch.sumOut, RepairBatch.sumIn, Function.comp_def]

variable {N ts}

/-- A sum is 0 when every stripe moves nothing. -/
theorem sumTable_eq_nil_iff {cs : List Colored} (h : ∀ c ∈ cs, c.tables.OnCluster N) :
    sumTable N (cs.map Colored.tables) = sumTable N [] ↔
      ∀ c ∈ cs, RepairBatch.Idle Colored.tables c := by
  have hrows : sumTable N (cs.map Colored.tables) = sumTable N [] ↔ ∀ i < N,
      (∀ c ∈ cs, c.tables.outMap.get (i : Int) = 0) ∧ ∀ c ∈ cs, c.tables.inMap.get (i : Int) = 0 := by
    unfold sumTable
    rw [List.map_inj_left]
    refine forall_congr' fun i => ?_
    rw [List.mem_range]
    refine imp_congr_right fun _ => ?_
    simp only [List.map_map, Function.comp_def, List.map_nil, List.sum_nil, Nat.cast_zero,
      List.cons.injEq, and_true, Int.natCast_eq_zero, List.sum_eq_zero_iff, List.forall_mem_map]
  rw [hrows]
  constructor
  · intro hz c hc i
    by_cases hi : 0 ≤ i ∧ i < N
    · obtain ⟨n, rfl⟩ := Int.eq_ofNat_of_zero_le hi.1
      have hn : n < N := by omega
      exact ⟨(hz n hn).2 c hc, (hz n hn).1 c hc⟩
    · exact ⟨CountMap.get_of_not_mem fun hm => hi (h c hc i (Or.inl hm)),
        CountMap.get_of_not_mem fun hm => hi (h c hc i (Or.inr hm))⟩
  · exact fun hz i _ => ⟨fun c hc => (hz c hc i).2, fun c hc => (hz c hc i).1⟩

/-- The table of one stripe tells what each node sends and receives. -/
theorem get_eq_of_sumTable {t t' : Traffic} (h : t.OnCluster N) (h' : t'.OnCluster N)
    (he : sumTable N [t] = sumTable N [t']) (i : Int) :
    t.inMap.get i = t'.inMap.get i ∧ t.outMap.get i = t'.outMap.get i := by
  by_cases hi : 0 ≤ i ∧ i < N
  · obtain ⟨n, rfl⟩ := Int.eq_ofNat_of_zero_le hi.1
    have hn : n < N := by omega
    unfold sumTable at he
    rw [List.map_inj_left] at he
    have hrow := he n (List.mem_range.2 hn)
    simp only [List.map_singleton, List.sum_singleton, List.cons.injEq, Int.natCast_inj,
      and_true] at hrow
    exact hrow.symm
  · have hzero : ∀ t : Traffic, t.OnCluster N → t.inMap.get i = 0 ∧ t.outMap.get i = 0 :=
      fun t ht => ⟨CountMap.get_of_not_mem fun hm => hi (ht i (Or.inl hm)),
        CountMap.get_of_not_mem fun hm => hi (ht i (Or.inr hm))⟩
    rw [(hzero t h).1, (hzero t h).2, (hzero t' h').1, (hzero t' h').2]
    exact ⟨rfl, rfl⟩

end

end StripeRepair

import StripeRepair.Sol.Batches
import StripeRepair.Sol.LoadTable
import StripeRepair.Ec.BUTTERFLY

/-!
# Two trials for each stripe

With method 1 the planner colours a stripe by method 0 and by method 1 and keeps one of the
two colourings. `genRepairBatchesForMultipleFailureNewFireNew` gives each trial a copy of the
load table and keeps the winner's; `genRepairBatchesForMultipleFailureNew` gives both trials
the table itself and clears it in between. Where an assertion of a trial fails the batch ends.

* `fireNew_keeps`: the table is the sum of what was kept, and the better trial is kept.
* `fireNew_aborts`: a batch of two stripes whose second trial fails an assertion.
* `newLoadTable_iff`: when the cleared table is still that of the batch.
-/

namespace StripeRepair

namespace Planner

section
variable (p : Planner)

/-- `vector<vector<int>>(_cluster_size, {0, 0})` -/
def emptyTable : List (List Int) := List.replicate p.clusterSize [0, 0]

/-! ## One batch of the FireNew method -/

/-- `get_max_time` -/
def getMaxTime (lt : List (List Int)) : Int :=
  lt.foldl (fun maxNodeTime nodeLoad =>
    let currentNodeMax := max (nodeLoad.getD 0 0) (nodeLoad.getD 1 0)
    if currentNodeMax > maxNodeTime then currentNodeMax else maxNodeTime) 0

/-- `cur_stripe_list` and `loadtable` -/
structure FireNewState where
  kept : List Colored
  loadtable : List (List Int)

/-- One stripe; `none` when an assertion of a trial fails. -/
def fireNewStripe (method : Nat) (st : FireNewState) (j : Job) : Option FireNewState :=
  if method = 1 then do
    let (hyper, loadtableHyper) ← p.trial j st.loadtable 0
    let (multi, loadtableMulti) ← p.trial j st.loadtable 1
    if getMaxTime loadtableMulti < getMaxTime loadtableHyper ∨
        (getMaxTime loadtableMulti = getMaxTime loadtableHyper ∧ multi.load ≤ hyper.load) then
      return ⟨st.kept ++ [(p.repairECDAG j).paint (j.chance 1).ord' multi.coloring], loadtableMulti⟩
    else
      return ⟨st.kept ++ [(p.repairECDAG j).paint (j.chance 0).ord' hyper.coloring], loadtableHyper⟩
  else do
    let (colored, loadtable) ← p.trial j st.loadtable method
    return ⟨st.kept ++ [colored], loadtable⟩

/-- The loop over `allocated_stripes`. -/
def fireNewBatch (method : Nat) (jobs : List Job) : Option FireNewState :=
  Lts.run (p.fireNewStripe method) ⟨[], p.emptyTable⟩ jobs

/-- No trial of the batch with method 1 drops a transfer. -/
def FireNewDropsNone (jobs : List Job) : Prop :=
  Lts.Meets (p.fireNewStripe 1) (fun st j => p.DropsNone j st.loadtable) ⟨[], p.emptyTable⟩ jobs

instance (jobs : List Job) : Decidable (p.FireNewDropsNone jobs) :=
  Lts.decidableMeets (p.fireNewStripe 1) (fun st j => p.DropsNone j st.loadtable) jobs
    ⟨[], p.emptyTable⟩

/-! ## One batch of the New method -/

/-- A stripe that was coloured, with the table at the start of each of its trials. -/
structure Record where
  starts : List (List (List Int))
  kept : Colored

structure NewState where
  records : List Record
  loadtable : List (List Int)

/-- One stripe; `none` when an assertion of a trial fails. -/
def newStripe (method : Nat) (st : NewState) (j : Job) : Option NewState :=
  if method = 1 then do
    let (hyper, _) ← p.trial j st.loadtable 0
    let (multi, loadtable) ← p.trial j p.emptyTable 1
    return ⟨st.records ++ [⟨[st.loadtable, p.emptyTable], if multi.load > hyper.load then
      (p.repairECDAG j).paint (j.chance 0).ord' hyper.coloring else multi⟩], loadtable⟩
  else do
    let (colored, loadtable) ← p.trial j st.loadtable method
    return ⟨st.records ++ [⟨[st.loadtable], colored⟩], loadtable⟩

/-- The loop over the stripes of a batch. -/
def newBatch (method : Nat) (jobs : List Job) : Option NewState :=
  Lts.run (p.newStripe method) ⟨[], p.emptyTable⟩ jobs

/-- The tables that were kept. -/
def keptTables (records : List Record) : List Traffic := records.map fun r => r.kept.tables

/-- Every trial starts from the sum of what was kept before. -/
def StartsFollow (clusterSize : Nat) (records : List Record) : Prop :=
  ∀ pre r post, records = pre ++ r :: post →
    ∀ L ∈ r.starts, L = sumTable clusterSize (keptTables pre)

/-- The load table follows what is kept, up to the table of the batch. -/
structure Follows (clusterSize : Nat) (st : NewState) : Prop where
  starts : StartsFollow clusterSize st.records
  batch : ∀ (ord : HashOrder BatchWalk) (b : RepairBatch Colored),
    b.stripeList = st.records.map Record.kept →
      st.loadtable = b.getLoadTable Colored.tables ord clusterSize

/-- What is kept of the stripe is a colouring with its own tables. -/
def Painted (j : Job) (c : Colored) : Prop :=
  ∃ ord' : HashOrder EvalWalk, c = (p.repairECDAG j).paint ord' c.coloring

/-- What a method leaves of a stripe that is coloured for itself. -/
def alone (j : Job) (method : Nat) : Option Colored := (p.trial j p.emptyTable method).map Prod.fst

/-- Coloured for itself by method 1, each stripe gets to its end, only the last stripe moves
packets, and there method 1 is no worse than method 0. -/
def LastOnly (jobs : List Job) : Prop :=
  ∀ pre j post, jobs = pre ++ j :: post → ∃ multi, p.alone j 1 = some multi ∧
    (post ≠ [] → RepairBatch.Idle Colored.tables multi) ∧
    (post = [] → ∃ hyper, p.alone j 0 = some hyper ∧ multi.load ≤ hyper.load)

end

/-! ## The FireNew method -/

/-- The largest entry of rows of two. -/
theorem getMaxTime_rows (f g : Nat → Int) (l : List Nat) :
    getMaxTime (l.map fun i => [f i, g i]) = (l.map fun i => [f i, g i]).flatten.foldl max 0 := by
  have hfold : ∀ m : Int, (l.map fun i => [f i, g i]).foldl (fun maxNodeTime nodeLoad =>
      if max (nodeLoad.getD 0 0) (nodeLoad.getD 1 0) > maxNodeTime then
        max (nodeLoad.getD 0 0) (nodeLoad.getD 1 0) else maxNodeTime) m =
      (l.map fun i => [f i, g i]).flatten.foldl max m := by
    induction l with
    | nil => exact fun m => rfl
    | cons i l ih =>
      intro m
      rw [List.map_cons, List.foldl_cons, ih, List.flatten_cons, List.foldl_append]
      congr 1
      show (if max (f i) (g i) > m then max (f i) (g i) else m) = max (max m (f i)) (g i)
      split <;> omega
  exact hfold 0

/-- **The time of a table** is the largest number of packets that a node sends or receives. -/
theorem getMaxTime_sumTable {N : Nat} {cs : List Colored} (h : ∀ c ∈ cs, c.tables.OnCluster N) :
    ∃ time : Nat, getMaxTime (sumTable N (cs.map Colored.tables)) = time ∧
      CountMap.IsPeak (RepairBatch.sumOut Colored.tables cs) (RepairBatch.sumIn Colored.tables cs)
        time := by
  have hrows : sumTable N (cs.map Colored.tables) = (List.range N).map fun i : Nat =>
      [(RepairBatch.sumOut Colored.tables cs i : Int), (RepairBatch.sumIn Colored.tables cs i : Int)] := by
    simp only [sumTable, List.map_map]
    rfl
  -- a walk over the nodes meets every value that is not 0
  have hwalk : ∀ f : Int → Nat, (∀ i, ¬(0 ≤ i ∧ i < (N : Int)) → f i = 0) →
      (∀ n ∈ (List.range N).map (fun i : Nat => f i), ∃ k, f k = n) ∧
      ∀ k, f k = 0 ∨ f k ∈ (List.range N).map fun i : Nat => f i := by
    intro f hf
    refine ⟨fun n hn => ?_, fun k => ?_⟩
    · obtain ⟨i, -, hi⟩ := List.mem_map.1 hn
      exact ⟨i, hi⟩
    · by_cases hk : 0 ≤ k ∧ k < N
      · refine Or.inr (List.mem_map.2 ⟨k.toNat, List.mem_range.2 (by omega), ?_⟩)
        rw [Int.toNat_of_nonneg hk.1]
      · exact Or.inl (hf k hk)
  have hout := hwalk _ fun i hi => (RepairBatch.sum_outside h hi).2
  have hin := hwalk _ fun i hi => (RepairBatch.sum_outside h hi).1
  have hpeak := CountMap.isPeak_raise hout.1 hout.2 hin.1 hin.2
  refine ⟨_, ?_, hpeak⟩
  rw [hrows, getMaxTime_rows]
  exact RepairBatch.isPeak_flatten hpeak N fun i hi => (RepairBatch.sum_outside h hi).symm

section
variable {p : Planner}

/-- What a trial leaves is painted as it is. -/
theorem paint_trial {j : Job} {loadTable : List (List Int)} {method : Nat}
    {res : Colored × List (List Int)} (h : p.trial j loadTable method = some res) :
    (p.repairECDAG j).paint (j.chance method).ord' res.1.coloring = res.1 := by
  obtain ⟨res', -, rfl⟩ := Option.map_eq_some_iff.1 h
  rfl

/-- **One stripe with method 1**: two trials from the same table, one of which is kept. -/
theorem fireNewStripe_one {st st' : FireNewState} {j : Job}
    (h : p.fireNewStripe 1 st j = some st') :
    ∃ hyper multi, p.trial j st.loadtable 0 = some hyper ∧ p.trial j st.loadtable 1 = some multi ∧
      st' = if getMaxTime multi.2 < getMaxTime hyper.2 ∨
          (getMaxTime multi.2 = getMaxTime hyper.2 ∧ multi.1.load ≤ hyper.1.load) then
        ⟨st.kept ++ [multi.1], multi.2⟩ else ⟨st.kept ++ [hyper.1], hyper.2⟩ := by
  rw [fireNewStripe, if_pos rfl] at h
  obtain ⟨hyper, hhyper, h⟩ := Option.bind_eq_some_iff.1 h
  obtain ⟨multi, hmulti, h⟩ := Option.bind_eq_some_iff.1 h
  refine ⟨hyper, multi, hhyper, hmulti, ?_⟩
  dsimp only at h
  rw [paint_trial hhyper, paint_trial hmulti] at h
  split at h
  · next hbetter =>
    rw [if_pos hbetter]
    exact (Option.some.inj h).symm
  · next hbetter =>
    rw [if_neg hbetter]
    exact (Option.some.inj h).symm

/-- The trials decide whether the stripe gets done. -/
theorem fireNewStripe_runs {st : FireNewState} {j : Job} (hj : p.Fits j)
    (hdrops : p.DropsNone j st.loadtable) : ∃ st', p.fireNewStripe 1 st j = some st' := by
  obtain ⟨hyper, hhyper⟩ := p.trial_runs hj st.loadtable 0 fun h => absurd h (by decide)
  obtain ⟨multi, hmulti⟩ := p.trial_runs hj st.loadtable 1 fun _ => hdrops
  rw [fireNewStripe, if_pos rfl, hhyper, hmulti]
  dsimp only [Option.bind_eq_bind, Option.bind_some]
  split
  · exact ⟨_, rfl⟩
  · exact ⟨_, rfl⟩

variable (p) in
/-- A colouring of each stripe is kept, and the table is the sum of their tables. -/
structure Keeps (jobs : List Job) (kept : List Colored) (loadtable : List (List Int)) : Prop where
  painted : List.Forall₂ p.Painted jobs kept
  onCluster : ∀ c ∈ kept, c.tables.OnCluster p.clusterSize
  table : loadtable = sumTable p.clusterSize (kept.map Colored.tables)

theorem keeps_nil : p.Keeps [] [] p.emptyTable :=
  ⟨List.Forall₂.nil, fun _ hc => absurd hc List.not_mem_nil, (sumTable_nil _).symm⟩

/-- What a trial leaves may be kept together with its table. -/
theorem Keeps.trial {jobs : List Job} {kept : List Colored} {loadtable : List (List Int)}
    (h : p.Keeps jobs kept loadtable) {j : Job} (hj : p.Fits j) {method : Nat}
    {res : Colored × List (List Int)} (hres : p.trial j loadtable method = some res) :
    p.Keeps (jobs ++ [j]) (kept ++ [res.1]) res.2 := by
  obtain ⟨h1, h2⟩ := p.trial_table hj hres
  refine ⟨List.rel_append h.painted (List.forall₂_cons.2
    ⟨⟨(j.chance method).ord', (paint_trial hres).symm⟩, List.Forall₂.nil⟩), fun c hc => ?_, ?_⟩
  · rcases List.mem_append.1 hc with hc | hc
    · exact h.onCluster c hc
    · rw [List.mem_singleton.1 hc]
      exact h2
  · rw [h1, List.map_append, List.map_singleton, ← plus_sumTable, ← h.table]

/-- **One stripe**: whichever colouring is kept, its table is. -/
theorem Keeps.fireNewStripe {jobs : List Job} {st st' : FireNewState}
    (h : p.Keeps jobs st.kept st.loadtable) {j : Job} (hj : p.Fits j)
    (hst : p.fireNewStripe 1 st j = some st') : p.Keeps (jobs ++ [j]) st'.kept st'.loadtable := by
  obtain ⟨hyper, multi, hhyper, hmulti, rfl⟩ := fireNewStripe_one hst
  split
  · exact h.trial hj hmulti
  · exact h.trial hj hhyper

theorem keeps_fireNewBatch {jobs : List Job} (hjobs : ∀ j ∈ jobs, p.Fits j) {st : FireNewState}
    (hst : p.fireNewBatch 1 jobs = some st) : p.Keeps jobs st.kept st.loadtable := by
  refine Lts.run_prefix_inv (fun pre (st : FireNewState) => p.Keeps pre st.kept st.loadtable)
    (fun pre j post st st' hl h h1 => ?_) keeps_nil hst
  exact h.fireNewStripe (hjobs j (hl ▸ List.mem_append_right _ (List.mem_cons_self ..))) h1

/-- **A batch gets done** when no trial drops a transfer. -/
theorem fireNewBatch_runs {jobs : List Job} (hjobs : ∀ j ∈ jobs, p.Fits j)
    (hdrops : p.FireNewDropsNone jobs) : ∃ st, p.fireNewBatch 1 jobs = some st := by
  have hstep : ∀ pre j post (st : FireNewState), jobs = pre ++ j :: post → True →
      p.DropsNone j st.loadtable → ∃ st', p.fireNewStripe 1 st j = some st' ∧ True := by
    intro pre j post st hl _ hd
    obtain ⟨st', hst'⟩ := fireNewStripe_runs
      (hjobs j (hl ▸ List.mem_append_right _ (List.mem_cons_self ..))) hd
    exact ⟨st', hst', trivial⟩
  obtain ⟨st, hst, -⟩ := Lts.exists_run_of_meets (fun _ _ => True) hstep trivial hdrops
  exact ⟨st, hst⟩

end

/-- **Adaptive choice**, for every batch and every outcome of the draws in which no trial drops a
transfer: every stripe gets done, after each stripe the load table is the sum of the tables of what
is kept, and of the two trials, both made with the table before, the one is kept after which the
busiest node has less to do; then the one with the smaller load, and then method 1. -/
theorem fireNew_keeps (p : Planner) (jobs : List Job) (hjobs : ∀ j ∈ jobs, p.Fits j)
    (hdrops : p.FireNewDropsNone jobs) (pre : List Job) (j : Job) (post : List Job)
    (hsplit : jobs = pre ++ j :: post) :
    ∃ st st' hyper multi, p.fireNewBatch 1 pre = some st ∧
      p.fireNewBatch 1 (pre ++ [j]) = some st' ∧
      p.trial j st.loadtable 0 = some hyper ∧ p.trial j st.loadtable 1 = some multi ∧
      p.Keeps pre st.kept st.loadtable ∧ p.Keeps (pre ++ [j]) st'.kept st'.loadtable ∧
      ∃ timeHyper timeMulti : Nat,
        CountMap.IsPeak (RepairBatch.sumOut Colored.tables (st.kept ++ [hyper.1]))
          (RepairBatch.sumIn Colored.tables (st.kept ++ [hyper.1])) timeHyper ∧
        CountMap.IsPeak (RepairBatch.sumOut Colored.tables (st.kept ++ [multi.1]))
          (RepairBatch.sumIn Colored.tables (st.kept ++ [multi.1])) timeMulti ∧
        CountMap.IsPeak hyper.1.tables.inMap.get hyper.1.tables.outMap.get hyper.1.load ∧
        CountMap.IsPeak multi.1.tables.inMap.get multi.1.tables.outMap.get multi.1.load ∧
        st'.kept = st.kept ++ [if timeMulti < timeHyper ∨
          (timeMulti = timeHyper ∧ multi.1.load ≤ hyper.1.load) then multi.1 else hyper.1] := by
  have hj := hjobs j (hsplit ▸ List.mem_append_right _ (List.mem_cons_self ..))
  have hpre : ∀ i ∈ pre, p.Fits i := fun i hi => hjobs i (hsplit ▸ List.mem_append_left _ hi)
  rw [FireNewDropsNone, hsplit, Lts.meets_append] at hdrops
  obtain ⟨st, hst⟩ := fireNewBatch_runs hpre hdrops.1
  obtain ⟨st', hstep⟩ := fireNewStripe_runs hj (hdrops.2 st hst).1
  have hrun : p.fireNewBatch 1 (pre ++ [j]) = some st' := by
    rw [fireNewBatch, Lts.run_append_cons]
    rw [fireNewBatch] at hst
    simp only [hst, hstep, Option.bind_some, Lts.run]
  have hkeeps := keeps_fireNewBatch hpre hst
  obtain ⟨hyper, multi, hhyper, hmulti, heq⟩ := fireNewStripe_one hstep
  have hhkeeps := hkeeps.trial hj hhyper
  have hmkeeps := hkeeps.trial hj hmulti
  obtain ⟨timeHyper, hh, hhpeak⟩ := getMaxTime_sumTable hhkeeps.onCluster
  obtain ⟨timeMulti, hm, hmpeak⟩ := getMaxTime_sumTable hmkeeps.onCluster
  rw [← hhkeeps.table] at hh
  rw [← hmkeeps.table] at hm
  have hpeak : ∀ {m : Nat} {res : Colored × List (List Int)}, p.trial j st.loadtable m = some res →
      CountMap.IsPeak res.1.tables.inMap.get res.1.tables.outMap.get res.1.load := by
    intro m res hres
    rw [← paint_trial hres]
    exact ECDAG.isPeak_load ..
  refine ⟨st, st', hyper, multi, hst, hrun, hhyper, hmulti, hkeeps, hkeeps.fireNewStripe hj hstep,
    timeHyper, timeMulti, hhpeak, hmpeak, hpeak hhyper, hpeak hmulti, ?_⟩
  simp only [hh, hm, Nat.cast_lt, Nat.cast_inj] at heq
  rw [heq]
  split
  · rfl
  · rfl

/-- A (3, 2) stripe with one parity, its block 2 lost. -/
def sumPlanner : Planner where
  ecn := 3
  ecw := 1
  standbySize := 1
  agentsNum := 5
  decode := fun _ _ => .build [⟨2, [0, 1, 3], [1, 1, 1]⟩]
  failNodeIds := [2]
  scenario := .standby

def sumJob : Job := ⟨[0, 1, 2], fun _ => ⟨fun _ => 0, .insertion _, .insertion _⟩⟩

theorem sumJob_fits : sumPlanner.Fits sumJob := by
  have hjs : Decodes [⟨2, [0, 1, 3], [1, 1, 1]⟩] 3 1 (sumPlanner.failBlocks [0, 1, 2] [2]) :=
    ⟨by decide, by decide, by decide, by decide⟩
  exact ⟨⟨by decide, by decide, by decide⟩, .of_decodes (by decide) (by decide) rfl hjs⟩

theorem fireNew_keeps_sum : ∃ st, sumPlanner.fireNewBatch 1 [sumJob, sumJob] = some st ∧
    sumPlanner.Keeps [sumJob, sumJob] st.kept st.loadtable := by
  obtain ⟨-, st', -, -, -, hst', -, -, -, hkeeps, -⟩ := fireNew_keeps sumPlanner [sumJob, sumJob]
    (by simpa using sumJob_fits) (by decide +kernel) [sumJob] sumJob [] rfl
  exact ⟨st', hst', hkeeps⟩

/-- BUTTERFLY with n = 6 and w = 8 on six agents, node 3 failed. -/
def butterflyPlanner : Planner where
  ecn := 6
  ecw := 8
  standbySize := 1
  agentsNum := 6
  decode := BUTTERFLY.decode 6 4 8
  failNodeIds := [3]
  scenario := .standby

def butterflyJob (placement : List Int) : Job :=
  ⟨placement, fun _ => ⟨fun _ => 0, .insertion _, .insertion _⟩⟩

theorem butterflyJob_fits {placement : List Int} (hmem : ∀ x ∈ placement, 0 ≤ x ∧ x < 7)
    (hjs : Decodes (BUTTERFLY.decodeJoins 6 4 8 (packets 8
      (losses 6 (butterflyPlanner.failBlocks placement [3])))) 6 8
      (butterflyPlanner.failBlocks placement [3]))
    (hone : (losses 6 (butterflyPlanner.failBlocks placement [3])).length ≤ 1) :
    butterflyPlanner.Fits (butterflyJob placement) := by
  have hdag : RepairDag (butterflyPlanner.repairECDAG (butterflyJob placement)) 6 8
      (butterflyPlanner.failBlocks placement [3]) := .of_decodes (by decide) (by decide) rfl hjs
  refine ⟨⟨by decide, hmem, fun _ => ?_⟩, hdag⟩
  rw [hdag.concacts, List.length_map]
  exact hone

/-- **A batch that ends early**: block 0 of the first stripe and block 3 of the second are on the
failed node. The second stripe is coloured by method 1 on the table of the first; there a group
gets the colour that one of its members has, and a counter gets negative. -/
theorem fireNew_aborts :
    (∀ j ∈ [butterflyJob [3, 4, 5, 0, 1, 2], butterflyJob [0, 1, 2, 3, 4, 5]],
      butterflyPlanner.Fits j) ∧
    ¬ ∃ st, butterflyPlanner.fireNewBatch 1
      [butterflyJob [3, 4, 5, 0, 1, 2], butterflyJob [0, 1, 2, 3, 4, 5]] = some st := by
  refine ⟨fun j hj => ?_, ?_⟩
  · simp only [List.mem_cons, List.not_mem_nil, or_false] at hj
    rcases hj with rfl | rfl
    · exact butterflyJob_fits (by decide) ⟨by decide +kernel, by decide +kernel, by decide +kernel,
        by decide +kernel⟩ (by decide)
    · exact butterflyJob_fits (by decide) ⟨by decide +kernel, by decide +kernel, by decide +kernel,
        by decide +kernel⟩ (by decide)
  rintro ⟨st, hst⟩
  have hnone : butterflyPlanner.fireNewBatch 1
      [butterflyJob [3, 4, 5, 0, 1, 2], butterflyJob [0, 1, 2, 3, 4, 5]] |>.isNone := by
    decide +kernel
  rw [hst] at hnone
  cases hnone

/-! ## The New method -/

section
variable {p : Planner}

theorem startsFollow_nil (N : Nat) : StartsFollow N [] := by
  intro pre r post h
  exact absurd h.symm (by simp)

theorem startsFollow_concat {N : Nat} {records : List Record} {r : Record} :
    StartsFollow N (records ++ [r]) ↔
      StartsFollow N records ∧ ∀ L ∈ r.starts, L = sumTable N (keptTables records) := by
  constructor
  · intro h
    refine ⟨fun pre s post hs => h pre s (post ++ [r]) (by rw [hs]; simp), h records r [] rfl⟩
  · rintro ⟨h1, h2⟩ pre s post hs
    rcases List.eq_nil_or_concat' post with rfl | ⟨post', r', rfl⟩
    · obtain ⟨rfl, he⟩ := List.append_inj' hs rfl
      obtain rfl : r = s := List.head_eq_of_cons_eq he
      exact h2
    · rw [← List.cons_append, ← List.append_assoc] at hs
      exact h1 pre s post' (List.append_inj' hs rfl).1

theorem keptTables_eq (records : List Record) :
    keptTables records = (records.map Record.kept).map Colored.tables := by
  rw [List.map_map]
  rfl

/-- The table of the batch is the sum of what is kept. -/
theorem follows_iff {st : NewState} {N : Nat} (h : ∀ r ∈ st.records, r.kept.tables.OnCluster N) :
    Follows N st ↔ StartsFollow N st.records ∧ st.loadtable = sumTable N (keptTables st.records) := by
  have hbatch : ∀ (ord : HashOrder BatchWalk) (b : RepairBatch Colored),
      b.stripeList = st.records.map Record.kept →
      b.getLoadTable Colored.tables ord N = sumTable N (keptTables st.records) := by
    intro ord b hb
    rw [getLoadTable_eq_sumTable N ord b (by rw [hb]; simpa using h), hb, keptTables_eq]
  constructor
  · rintro ⟨h1, h2⟩
    exact ⟨h1, (h2 (.insertion _) ⟨st.records.map Record.kept, ∅, ∅, 0, 0⟩ rfl).trans
      (hbatch _ _ rfl)⟩
  · rintro ⟨h1, h2⟩
    exact ⟨h1, fun ord b hb => h2.trans (hbatch ord b hb).symm⟩

/-- **A call with another method** gets done and books the stripe on the table it is given. -/
theorem newBatch_keeps {method : Nat} (hm : method ≠ 1) {jobs : List Job}
    (hjobs : ∀ j ∈ jobs, p.Fits j) :
    ∃ st, p.newBatch method jobs = some st ∧
      p.Keeps jobs (st.records.map Record.kept) st.loadtable ∧
      StartsFollow p.clusterSize st.records := by
  refine Lts.exists_run_of_meets (fun pre (st : NewState) =>
    p.Keeps pre (st.records.map Record.kept) st.loadtable ∧ StartsFollow p.clusterSize st.records)
    (fun pre j post st hl h _ => ?_) ⟨keeps_nil, startsFollow_nil _⟩ (Lts.meets_true _ _)
  have hj := hjobs j (hl ▸ List.mem_append_right _ (List.mem_cons_self ..))
  obtain ⟨res, hres⟩ := p.trial_runs hj st.loadtable method fun h => absurd h hm
  rw [newStripe, if_neg hm, hres]
  refine ⟨_, rfl, ?_, startsFollow_concat.2 ⟨h.2, fun L hL => ?_⟩⟩
  · have hkeeps := h.1.trial hj hres
    rw [← List.map_singleton (f := Record.kept) (a := ⟨[st.loadtable], res.1⟩),
      ← List.map_append] at hkeeps
    exact hkeeps
  · rw [List.mem_singleton.1 hL, h.1.table, keptTables_eq]

theorem plus_emptyTable (t : Traffic) :
    Stripe.plus p.emptyTable t = sumTable p.clusterSize [t] := by
  rw [emptyTable, ← sumTable_nil, plus_sumTable, List.nil_append]

theorem alone_some {j : Job} {method : Nat} {c : Colored} (h : p.alone j method = some c) :
    ∃ loadtable, p.trial j p.emptyTable method = some (c, loadtable) := by
  obtain ⟨res, hres, rfl⟩ := Option.map_eq_some_iff.1 h
  exact ⟨res.2, hres⟩

theorem alone_onCluster {j : Job} (hj : p.Fits j) {method : Nat} {c : Colored}
    (h : p.alone j method = some c) : c.tables.OnCluster p.clusterSize := by
  obtain ⟨loadtable, hres⟩ := alone_some h
  exact (p.trial_table hj hres).2

theorem isPeak_alone {j : Job} {method : Nat} {c : Colored} (h : p.alone j method = some c) :
    CountMap.IsPeak c.tables.inMap.get c.tables.outMap.get c.load := by
  obtain ⟨loadtable, hres⟩ := alone_some h
  have hpaint : (p.repairECDAG j).paint (j.chance method).ord' c.coloring = c := paint_trial hres
  rw [← hpaint]
  exact ECDAG.isPeak_load ..

/-- **One stripe with method 1**: the second trial is made on an empty table. -/
theorem newStripe_one {st st' : NewState} {j : Job} (hj : p.Fits j)
    (h : p.newStripe 1 st j = some st') :
    ∃ hyper multi loadtable, p.trial j st.loadtable 0 = some (hyper, loadtable) ∧
      p.alone j 1 = some multi ∧
      st' = ⟨st.records ++ [⟨[st.loadtable, p.emptyTable],
        if multi.load > hyper.load then hyper else multi⟩], sumTable p.clusterSize [multi.tables]⟩ := by
  rw [newStripe, if_pos rfl] at h
  obtain ⟨hyper, hhyper, h⟩ := Option.bind_eq_some_iff.1 h
  obtain ⟨multi, hmulti, h⟩ := Option.bind_eq_some_iff.1 h
  refine ⟨hyper.1, multi.1, hyper.2, hhyper, by rw [alone, hmulti, Option.map_some], ?_⟩
  dsimp only at h
  rw [paint_trial hhyper, (p.trial_table hj hmulti).1, plus_emptyTable] at h
  exact (Option.some.inj h).symm

/-- The trial with method 1 decides whether the stripe gets done. -/
theorem newStripe_runs {st : NewState} {j : Job} (hj : p.Fits j) {multi : Colored}
    (h : p.alone j 1 = some multi) : ∃ st', p.newStripe 1 st j = some st' := by
  obtain ⟨hyper, hhyper⟩ := p.trial_runs hj st.loadtable 0 fun h => absurd h (by decide)
  obtain ⟨loadtable, hmulti⟩ := alone_some h
  rw [newStripe, if_pos rfl, hhyper, hmulti]
  exact ⟨_, rfl⟩

/-- **A batch of method 1 gets done** when the trials on an empty table do. -/
theorem newBatch_runs {jobs : List Job} (hjobs : ∀ j ∈ jobs, p.Fits j)
    (h : ∀ j ∈ jobs, ∃ multi, p.alone j 1 = some multi) : ∃ st, p.newBatch 1 jobs = some st := by
  have hstep : ∀ pre j post (st : NewState), jobs = pre ++ j :: post → True → True →
      ∃ st', p.newStripe 1 st j = some st' ∧ True := by
    intro pre j post st hl _ _
    have hmem : j ∈ jobs := hl ▸ List.mem_append_right _ (List.mem_cons_self ..)
    obtain ⟨multi, hmulti⟩ := h j hmem
    obtain ⟨st', hst'⟩ := newStripe_runs (hjobs j hmem) hmulti
    exact ⟨st', hst', trivial⟩
  obtain ⟨st, hst, -⟩ := Lts.exists_run_of_meets (fun _ _ => True) hstep trivial
    (Lts.meets_true _ _)
  exact ⟨st, hst⟩

theorem newBatch_concat {jobs : List Job} {j : Job} {st : NewState}
    (h : p.newBatch 1 (jobs ++ [j]) = some st) :
    ∃ st0, p.newBatch 1 jobs = some st0 ∧ p.newStripe 1 st0 j = some st := by
  rw [newBatch, Lts.run_append_cons] at h
  obtain ⟨st1, h1, h2⟩ := Option.bind_eq_some_iff.1 h
  obtain ⟨st0, h0, h1⟩ := Option.bind_eq_some_iff.1 h1
  obtain rfl : st1 = st := Option.some.inj h2
  exact ⟨st0, h0, h1⟩

/-- What is kept of a stripe is on the cluster. -/
theorem onCluster_newBatch {jobs : List Job} (hjobs : ∀ j ∈ jobs, p.Fits j) {st : NewState}
    (hst : p.newBatch 1 jobs = some st) :
    (∀ j ∈ jobs, ∃ multi, p.alone j 1 = some multi) ∧
      ∀ r ∈ st.records, r.kept.tables.OnCluster p.clusterSize := by
  refine Lts.run_prefix_inv (fun pre (st : NewState) =>
    (∀ j ∈ pre, ∃ multi, p.alone j 1 = some multi) ∧
      ∀ r ∈ st.records, r.kept.tables.OnCluster p.clusterSize)
    (fun pre j post st st' hl h h1 => ?_) ⟨by simp, by simp⟩ hst
  have hj := hjobs j (hl ▸ List.mem_append_right _ (List.mem_cons_self ..))
  obtain ⟨hyper, multi, loadtable, hhyper, hmulti, rfl⟩ := newStripe_one hj h1
  refine ⟨fun i hi => ?_, fun r hr => ?_⟩
  · rcases List.mem_append.1 hi with hi | hi
    · exact h.1 i hi
    · exact ⟨multi, List.mem_singleton.1 hi ▸ hmulti⟩
  · rcases List.mem_append.1 hr with hr | hr
    · exact h.2 r hr
    · rw [List.mem_singleton.1 hr]
      dsimp only
      split
      · exact (p.trial_table hj hhyper).2
      · exact alone_onCluster hj hmulti

theorem idle_alone_iff {j : Job} (hj : p.Fits j) {multi : Colored}
    (h : p.alone j 1 = some multi) :
    sumTable p.clusterSize [multi.tables] = p.emptyTable ↔
      RepairBatch.Idle Colored.tables multi := by
  have hiff := @sumTable_eq_nil_iff p.clusterSize [multi] fun c hc => by
    rw [List.mem_singleton.1 hc]
    exact alone_onCluster hj h
  rw [sumTable_nil, List.forall_mem_singleton] at hiff
  exact hiff

/-- The load of a stripe that moves nothing. -/
theorem load_of_idle {j : Job} {multi : Colored} (h : p.alone j 1 = some multi)
    (hidle : RepairBatch.Idle Colored.tables multi) : multi.load = 0 := by
  have hpeak : CountMap.IsPeak multi.tables.inMap.get multi.tables.outMap.get 0 :=
    ⟨fun k => ⟨(hidle k).1.le, (hidle k).2.le⟩, Or.inl rfl⟩
  exact (isPeak_alone h).unique hpeak

/-- While the stripes move nothing, the tables stay empty. -/
theorem newBatch_idle {jobs : List Job} (hjobs : ∀ j ∈ jobs, p.Fits j)
    (h : ∀ j ∈ jobs, ∀ multi, p.alone j 1 = some multi → RepairBatch.Idle Colored.tables multi)
    {st : NewState} (hst : p.newBatch 1 jobs = some st) :
    StartsFollow p.clusterSize st.records ∧
      sumTable p.clusterSize (keptTables st.records) = p.emptyTable ∧
      st.loadtable = p.emptyTable := by
  refine Lts.run_prefix_inv (fun _ (st : NewState) => StartsFollow p.clusterSize st.records ∧
      sumTable p.clusterSize (keptTables st.records) = p.emptyTable ∧
      st.loadtable = p.emptyTable)
    (fun pre j post st st' hl h1 hstep => ?_) ⟨startsFollow_nil _, sumTable_nil _, rfl⟩ hst
  obtain ⟨hstarts, hsum, htable⟩ := h1
  have hmem : j ∈ jobs := hl ▸ List.mem_append_right _ (List.mem_cons_self ..)
  have hj := hjobs j hmem
  obtain ⟨hyper, multi, loadtable, hhyper, hmulti, rfl⟩ := newStripe_one hj hstep
  have hidle := h j hmem multi hmulti
  have hkept : ¬ multi.load > hyper.load := by
    have := load_of_idle hmulti hidle
    omega
  refine ⟨startsFollow_concat.2 ⟨hstarts, fun L hL => ?_⟩, ?_, (idle_alone_iff hj hmulti).2 hidle⟩
  · rw [hsum]
    simp only [htable, List.mem_cons, List.not_mem_nil, or_false, or_self] at hL
    exact hL
  · rw [if_neg hkept, keptTables, List.map_append, List.map_singleton, ← plus_sumTable]
    rw [keptTables] at hsum
    rw [hsum, plus_emptyTable]
    exact (idle_alone_iff hj hmulti).2 hidle

/-- **The second trial** of a stripe starts from an empty table, and the first trial of the next
stripe from what the second one left: both are right only if no stripe so far moves packets. -/
theorem idle_of_startsFollow {jobs : List Job} {j : Job} (hjobs : ∀ i ∈ jobs, p.Fits i)
    (hj : p.Fits j) {st : NewState} (hst : p.newBatch 1 (jobs ++ [j]) = some st)
    (h : StartsFollow p.clusterSize st.records) :
    ∀ i ∈ jobs, ∀ multi, p.alone i 1 = some multi → RepairBatch.Idle Colored.tables multi := by
  induction jobs using List.reverseRecOn generalizing j st with
  | nil => exact fun i hi => absurd hi List.not_mem_nil
  | append_singleton jobs i ih =>
    have hi := hjobs i (List.mem_append_right _ (List.mem_singleton_self i))
    obtain ⟨st0, hst0, hstep⟩ := newBatch_concat hst
    obtain ⟨hyper, last, _, _, _, rfl⟩ := newStripe_one hj hstep
    obtain ⟨h1, h2⟩ := startsFollow_concat.1 h
    have hfirst := h2 _ (List.mem_cons_self ..)
    have hsecond := h2 p.emptyTable (List.mem_cons_of_mem _ (List.mem_singleton_self _))
    have hrest := ih (fun k hk => hjobs k (List.mem_append_left _ hk)) hi hst0 h1
    obtain ⟨st1, -, hstep1⟩ := newBatch_concat hst0
    obtain ⟨_, multi, _, _, hmulti, rfl⟩ := newStripe_one hi hstep1
    intro k hk
    rcases List.mem_append.1 hk with hk | hk
    · exact hrest k hk
    · rw [List.mem_singleton.1 hk]
      intro multi' hmulti'
      obtain rfl : multi = multi' := Option.some.inj (hmulti.symm.trans hmulti')
      exact (idle_alone_iff hi hmulti).1 (hfirst.trans hsecond.symm)

theorem lastOnly_concat {jobs : List Job} {j : Job} : p.LastOnly (jobs ++ [j]) ↔
    (∀ i ∈ jobs, ∃ multi, p.alone i 1 = some multi ∧ RepairBatch.Idle Colored.tables multi) ∧
      ∃ multi hyper, p.alone j 1 = some multi ∧ p.alone j 0 = some hyper ∧
        multi.load ≤ hyper.load := by
  constructor
  · intro h
    refine ⟨fun i hi => ?_, ?_⟩
    · obtain ⟨pre, post, rfl⟩ := List.append_of_mem hi
      obtain ⟨multi, hmulti, hidle, -⟩ := h pre i (post ++ [j]) (by simp)
      exact ⟨multi, hmulti, hidle (by simp)⟩
    · obtain ⟨multi, hmulti, -, hle⟩ := h jobs j [] rfl
      obtain ⟨hyper, hhyper, hle⟩ := hle rfl
      exact ⟨multi, hyper, hmulti, hhyper, hle⟩
  · rintro ⟨h1, multi, hyper, hmulti, hhyper, hle⟩ pre i post hs
    rcases List.eq_nil_or_concat' post with rfl | ⟨post', k, rfl⟩
    · obtain ⟨-, he⟩ := List.append_inj' hs rfl
      obtain rfl : j = i := List.head_eq_of_cons_eq he
      exact ⟨multi, hmulti, fun h0 => absurd rfl h0, fun _ => ⟨hyper, hhyper, hle⟩⟩
    · rw [← List.cons_append, ← List.append_assoc] at hs
      obtain ⟨rfl, -⟩ := List.append_inj' hs rfl
      obtain ⟨multi', hmulti', hidle⟩ := h1 i (by simp)
      exact ⟨multi', hmulti', fun _ => hidle, fun h0 => absurd h0 (by simp)⟩

/-- **The last stripe**, when those before it move nothing: the table is right if and only if
method 1 is no worse than method 0. -/
theorem follows_last_iff {jobs : List Job} {j : Job} (hjobs : ∀ i ∈ jobs, p.Fits i)
    (hj : p.Fits j)
    (hidle : ∀ i ∈ jobs, ∀ multi, p.alone i 1 = some multi → RepairBatch.Idle Colored.tables multi)
    {st : NewState} (hst : p.newBatch 1 (jobs ++ [j]) = some st) :
    Follows p.clusterSize st ↔
      ∃ multi hyper, p.alone j 1 = some multi ∧ p.alone j 0 = some hyper ∧
        multi.load ≤ hyper.load := by
  have hfits : ∀ i ∈ jobs ++ [j], p.Fits i := fun i hi =>
    (List.mem_append.1 hi).elim (hjobs i) fun hi => List.mem_singleton.1 hi ▸ hj
  rw [follows_iff (onCluster_newBatch hfits hst).2]
  obtain ⟨st0, hst0, hstep⟩ := newBatch_concat hst
  obtain ⟨hstarts, hsum, htable⟩ := newBatch_idle hjobs hidle hst0
  obtain ⟨hyper, multi, loadtable, hhyper, hmulti, rfl⟩ := newStripe_one hj hstep
  rw [htable] at hhyper ⊢
  have hhyper' : p.alone j 0 = some hyper := by rw [alone, hhyper, Option.map_some]
  have hfollow : StartsFollow p.clusterSize (st0.records ++ [⟨[p.emptyTable, p.emptyTable],
      if multi.load > hyper.load then hyper else multi⟩]) := by
    refine startsFollow_concat.2 ⟨hstarts, fun L hL => ?_⟩
    rw [hsum]
    simp only [List.mem_cons, List.not_mem_nil, or_false, or_self] at hL
    exact hL
  rw [and_iff_right hfollow]
  have hlast : sumTable p.clusterSize (keptTables (st0.records ++ [⟨[p.emptyTable, p.emptyTable],
      if multi.load > hyper.load then hyper else multi⟩])) =
      sumTable p.clusterSize [(if multi.load > hyper.load then hyper else multi).tables] := by
    rw [keptTables, List.map_append, List.map_singleton, ← plus_sumTable]
    rw [keptTables] at hsum
    rw [hsum, plus_emptyTable]
  rw [hlast]
  constructor
  · intro h
    refine ⟨multi, hyper, hmulti, hhyper', ?_⟩
    by_contra hgt
    rw [if_pos (not_le.1 hgt)] at h
    have hget := get_eq_of_sumTable (alone_onCluster hj hmulti) (alone_onCluster hj hhyper') h
    have hpeak := isPeak_alone hhyper'
    rw [show hyper.tables.inMap.get = multi.tables.inMap.get from
        funext fun i => (hget i).1.symm,
      show hyper.tables.outMap.get = multi.tables.outMap.get from
        funext fun i => (hget i).2.symm] at hpeak
    exact hgt ((isPeak_alone hmulti).unique hpeak).le
  · rintro ⟨multi', hyper', h1, h0, hle⟩
    obtain rfl : multi = multi' := Option.some.inj (hmulti.symm.trans h1)
    obtain rfl : hyper = hyper' := Option.some.inj (hhyper'.symm.trans h0)
    rw [if_neg (not_lt.2 hle)]

/-- **A batch of method 1**: it gets done and the load table follows what is kept only while there
is nothing to follow. -/
theorem newBatch_follows_iff {jobs : List Job} (hjobs : ∀ j ∈ jobs, p.Fits j) :
    (∃ st, p.newBatch 1 jobs = some st ∧ Follows p.clusterSize st) ↔ p.LastOnly jobs := by
  rcases List.eq_nil_or_concat' jobs with rfl | ⟨init, j, rfl⟩
  · refine iff_of_true ⟨_, rfl, (follows_iff (by simp)).2 ⟨startsFollow_nil _, (sumTable_nil _).symm⟩⟩
      fun pre i post hs => ?_
    exact absurd hs.symm (by simp)
  have hinit : ∀ i ∈ init, p.Fits i := fun i hi => hjobs i (List.mem_append_left _ hi)
  have hj := hjobs j (List.mem_append_right _ (List.mem_singleton_self j))
  rw [lastOnly_concat]
  constructor
  · rintro ⟨st, hst, h⟩
    have hidle := idle_of_startsFollow hinit hj hst h.starts
    refine ⟨fun i hi => ?_, (follows_last_iff hinit hj hidle hst).1 h⟩
    obtain ⟨multi, hmulti⟩ := (onCluster_newBatch hjobs hst).1 i (List.mem_append_left _ hi)
    exact ⟨multi, hmulti, hidle i hi multi hmulti⟩
  · rintro ⟨hidle, hlast⟩
    have hidle' : ∀ i ∈ init, ∀ multi, p.alone i 1 = some multi →
        RepairBatch.Idle Colored.tables multi := by
      intro i hi multi hmulti
      obtain ⟨multi', hmulti', h⟩ := hidle i hi
      obtain rfl : multi = multi' := Option.some.inj (hmulti.symm.trans hmulti')
      exact h
    obtain ⟨st, hst⟩ := newBatch_runs hjobs fun i hi => by
      rcases List.mem_append.1 hi with hi | hi
      · obtain ⟨multi, hmulti, -⟩ := hidle i hi
        exact ⟨multi, hmulti⟩
      · obtain ⟨multi, -, hmulti, -⟩ := hlast
        exact ⟨multi, List.mem_singleton.1 hi ▸ hmulti⟩
    exact ⟨st, hst, (follows_last_iff hinit hj hidle' hst).2 hlast⟩

end

/-- The stripes of the batches of `genRepairBatchesForMultipleFailureNew`. -/
def batchJobs (p : Planner) (stripes : List Job) (batchSize : Nat) : List (List Job) :=
  (genRepairBatchesForMultipleFailureNew (stripes.map Job.placement) p.failNodeIds batchSize).map
    fun batch => batch.filterMap fun i => stripes[i]?

/-- **The load table of the New method**, for every batch and every outcome of the draws: every
stripe gets done, each trial starts from the sum of what was kept before it in the batch, and the
table after the batch is that of the batch, if and only if the method is not 1 or, coloured by
method 1 for itself, each stripe of a batch gets done, each but the last moves nothing and the last
has no larger load than coloured by method 0. -/
theorem newLoadTable_iff (p : Planner) (stripes : List Job) (hfit : ∀ j ∈ stripes, p.Fits j)
    (batchSize method : Nat) :
    (∀ jobs ∈ p.batchJobs stripes batchSize, ∃ st, p.newBatch method jobs = some st ∧
        Follows p.clusterSize st) ↔
      (method = 1 → ∀ jobs ∈ p.batchJobs stripes batchSize, p.LastOnly jobs) := by
  have hjobs : ∀ jobs ∈ p.batchJobs stripes batchSize, ∀ j ∈ jobs, p.Fits j := by
    intro jobs hm j hj
    obtain ⟨batch, -, rfl⟩ := List.mem_map.1 hm
    obtain ⟨i, -, hi⟩ := List.mem_filterMap.1 hj
    exact hfit j (List.mem_of_getElem? hi)
  by_cases hm : method = 1
  · subst hm
    rw [forall_prop_of_true rfl]
    exact forall₂_congr fun jobs h => newBatch_follows_iff (hjobs jobs h)
  · refine iff_of_true (fun jobs h => ?_) fun h => absurd h hm
    obtain ⟨st, hst, h1, h2⟩ := newBatch_keeps hm (hjobs jobs h)
    refine ⟨st, hst, (follows_iff ?_).2 ⟨h2, ?_⟩⟩
    · exact fun r hr => h1.onCluster _ (List.mem_map_of_mem hr)
    · rw [h1.table, keptTables_eq]

/-- One of two batches of one stripe: both methods add the two packets on node 0. -/
theorem newLoadTable_single : ∃ st, sumPlanner.newBatch 1 [sumJob] = some st ∧ Follows 6 st := by
  have hbatch : sumPlanner.batchJobs [sumJob, sumJob] 1 = [[sumJob], [sumJob]] := rfl
  refine (newLoadTable_iff sumPlanner [sumJob, sumJob] (by simpa using sumJob_fits) 1 1).2
    (fun _ jobs hjobs => ?_) [sumJob] (hbatch ▸ List.mem_cons_self)
  obtain rfl : jobs = [] ++ [sumJob] := by simpa [hbatch] using hjobs
  obtain ⟨multi, hmulti⟩ : ∃ c, sumPlanner.alone sumJob 1 = some c :=
    Option.isSome_iff_exists.1 (by decide +kernel)
  obtain ⟨hyper, hhyper⟩ : ∃ c, sumPlanner.alone sumJob 0 = some c :=
    Option.isSome_iff_exists.1 (by decide +kernel)
  have hload : (sumPlanner.alone sumJob 1).map Colored.load =
      (sumPlanner.alone sumJob 0).map Colored.load := by decide +kernel
  rw [hmulti, hhyper] at hload
  exact lastOnly_concat.2 ⟨fun i hi => absurd hi List.not_mem_nil, multi, hyper, hmulti, hhyper,
    (Option.some.inj hload).le⟩

/-- A batch of two stripes: the second trial of the second stripe starts from an empty table. -/
theorem newBatch_forgets : ¬ ∀ jobs ∈ sumPlanner.batchJobs [sumJob, sumJob] 2,
    ∃ st, sumPlanner.newBatch 1 jobs = some st ∧ Follows 6 st := by
  intro h
  obtain ⟨st, hst, hfollows⟩ := h [sumJob, sumJob] (List.mem_singleton_self _)
  have hidle := @idle_of_startsFollow sumPlanner [sumJob] sumJob (by simpa using sumJob_fits)
    sumJob_fits st hst hfollows.starts sumJob (List.mem_singleton_self _)
  have hsends : (sumPlanner.alone sumJob 1).map (fun c => (c.tables.inMap.get 5, c.tables.inMap.get 0))
      = some (1, 1) := by decide +kernel
  obtain ⟨multi, hmulti, hget⟩ := Option.map_eq_some_iff.1 hsends
  have hzero := (hidle multi hmulti 5).1
  rw [Prod.mk.injEq] at hget
  omega

end Planner

end StripeRepair

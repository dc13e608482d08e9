import Mathlib

/-!
# `RepairSchedulerNew`: which failed nodes to repair now

The scheduler keeps the nodes that have failed and are not repaired. A node is kept once,
however often it fails. A stripe is in danger when its failed nodes and its nodes that are
predicted to fail next are more than the tolerance `n - k`; the failed nodes of the stripes
in danger are repaired.

* `mem_nodesToRepairSet`: which nodes these are.
* `executePartialRepair_spec`: what a repair leaves.
-/

namespace StripeRepair

inductive RepairDecision
  | repairImmediate
  | repairLazy
  | repairPartial
  deriving DecidableEq, Repr

/-- The counters of `RepairStats` that are written here. -/
structure RepairStats where
  totalRepairRounds : Nat
  dataLossEvents : Nat
  maxConcurrentFailures : Nat
  partialRepairCount : Nat
  lostStripesCount : Nat
  deriving DecidableEq, Repr

/-- `if (cur > max_concurrent_failures) max_concurrent_failures = cur` -/
def RepairStats.concurrent (st : RepairStats) (cur : Nat) : RepairStats :=
  if cur > st.maxConcurrentFailures then { st with maxConcurrentFailures := cur } else st

/-- The id of a stripe and the nodes that store its blocks. -/
structure PlacedStripe where
  stripeId : Int
  placement : List Int
  distinct : placement.Nodup
  deriving DecidableEq

/-- `_current_failed` has no repetitions. -/
structure RepairSchedulerNew where
  tolerance : Int
  currentFailed : List Int
  stats : RepairStats
  dailyFailCounts : List Nat
  nodup : currentFailed.Nodup

/-- `if (find(l, id) == l.end()) l.push_back(id)` -/
def pushNew (l : List Int) (id : Int) : List Int := if id ∈ l then l else l ++ [id]

theorem nodup_pushNew {l : List Int} (h : l.Nodup) (id : Int) : (pushNew l id).Nodup := by
  unfold pushNew
  split
  · exact h
  · next hid =>
    rw [← List.concat_eq_append]
    exact h.concat hid

theorem mem_pushNew (l : List Int) (id x : Int) : x ∈ pushNew l id ↔ x ∈ l ∨ x = id := by
  unfold pushNew
  split
  · next h =>
    refine (or_iff_left_of_imp ?_).symm
    rintro rfl
    exact h
  · rw [List.mem_append, List.mem_singleton]

theorem nodup_foldl_pushNew {l : List Int} (h : l.Nodup) (ids : List Int) :
    (ids.foldl pushNew l).Nodup := by
  induction ids generalizing l with
  | nil => exact h
  | cons id ids ih => exact ih (nodup_pushNew h id)

theorem mem_foldl_pushNew (l ids : List Int) (x : Int) :
    x ∈ ids.foldl pushNew l ↔ x ∈ l ∨ x ∈ ids := by
  induction ids generalizing l with
  | nil => simp
  | cons id ids ih => rw [List.foldl_cons, ih, mem_pushNew, List.mem_cons, or_assoc]

/-- The body of the loop of `executePartialRepair`: what is repaired, what is left. -/
def repairOne (acc : List Int × List Int) (nid : Int) : List Int × List Int :=
  if nid ∈ acc.2 then (acc.1 ++ [nid], acc.2.erase nid) else acc

theorem nodup_foldl_repairOne {acc : List Int × List Int} (h : acc.2.Nodup) (nids : List Int) :
    (nids.foldl repairOne acc).2.Nodup := by
  induction nids generalizing acc with
  | nil => exact h
  | cons nid nids ih =>
    refine ih ?_
    unfold repairOne
    split
    · exact h.erase nid
    · exact h

namespace RepairSchedulerNew

def new (n k : Int) : RepairSchedulerNew := ⟨n - k, [], ⟨0, 0, 0, 0, 0⟩, [], List.nodup_nil⟩

/-- The number of failed nodes is compared with the tolerance only for the result, which no
caller reads. -/
def addFailures (s : RepairSchedulerNew) (newFails : List Int) : RepairSchedulerNew :=
  { s with
    currentFailed := newFails.foldl pushNew s.currentFailed
    stats := s.stats.concurrent (newFails.foldl pushNew s.currentFailed).length
    dailyFailCounts := s.dailyFailCounts ++ [newFails.length]
    nodup := nodup_foldl_pushNew s.nodup newFails }

def recordDataLoss (s : RepairSchedulerNew) (lostStripes : Nat) : RepairSchedulerNew :=
  { s with stats := { s.stats with
      dataLossEvents := s.stats.dataLossEvents + 1
      lostStripesCount := s.stats.lostStripesCount + lostStripes } }

/-- All failed nodes are repaired. -/
def executeFullRepair (s : RepairSchedulerNew) : List Int × RepairSchedulerNew :=
  (s.currentFailed, { s with
    currentFailed := []
    stats := { s.stats with totalRepairRounds := s.stats.totalRepairRounds + 1 }
    nodup := List.nodup_nil })

def executePartialRepair (s : RepairSchedulerNew) (nodesToRepair : List Int) :
    List Int × RepairSchedulerNew :=
  let res := nodesToRepair.foldl repairOne ([], s.currentFailed)
  (res.1, { s with
    currentFailed := res.2
    stats := if res.1 = [] then s.stats else { s.stats with
      totalRepairRounds := s.stats.totalRepairRounds + 1
      partialRepairCount := s.stats.partialRepairCount + 1 }
    nodup := nodup_foldl_repairOne s.nodup nodesToRepair })

/-! ## The decision for each stripe -/

/-- `sid_map`: of two stripes with the same id the later one stays. -/
def sidMap (stripeList : List PlacedStripe) : AList fun _ : Int => PlacedStripe :=
  stripeList.foldl (fun m s => m.insert s.stripeId s) ∅

def stripesOf (stripeList : List PlacedStripe) : List PlacedStripe :=
  (sidMap stripeList).entries.map Sigma.snd

/-- The nodes of the stripe that are in the list. -/
def inStripe (st : PlacedStripe) (ids : List Int) : List Int :=
  st.placement.filter fun nid => nid ∈ ids

/-- `cur_in_stripe` is not empty, and with `next_in_stripe` it exceeds the tolerance. -/
def InDanger (s : RepairSchedulerNew) (nextFailIds : List Int) (st : PlacedStripe) : Prop :=
  inStripe st s.currentFailed ≠ [] ∧
    s.tolerance < ((inStripe st s.currentFailed).length + (inStripe st nextFailIds).length : Nat)

instance (s : RepairSchedulerNew) (nextFailIds : List Int) (st : PlacedStripe) :
    Decidable (s.InDanger nextFailIds st) := by
  unfold InDanger
  infer_instance

/-- `nodes_to_repair_set`: a union, so the order of the walk through the map does not count. -/
def nodesToRepairSet (s : RepairSchedulerNew) (stripeList : List PlacedStripe)
    (nextFailIds : List Int) : Finset Int :=
  (stripesOf stripeList).foldl (fun acc st =>
    if s.InDanger nextFailIds st then acc ∪ (inStripe st s.currentFailed).toFinset else acc) ∅

def decideTraceDrivenStripe (s : RepairSchedulerNew) (stripeList : List PlacedStripe)
    (nextFailIds : List Int) : RepairDecision × List Int :=
  if s.currentFailed = [] then (.repairLazy, [])
  else
    let nodesToRepairSet := s.nodesToRepairSet stripeList nextFailIds
    if nodesToRepairSet = ∅ then (.repairLazy, [])
    else
      let nodesToRepair := nodesToRepairSet.sort (· ≤ ·)
      if nodesToRepair.length = s.currentFailed.length then (.repairImmediate, nodesToRepair)
      else (.repairPartial, nodesToRepair)

def decideImmediate (s : RepairSchedulerNew) : RepairDecision :=
  if s.currentFailed = [] then .repairLazy else .repairImmediate

/-- The failed nodes of the stripes with `tolerance` or more of them. -/
def lazyRepairSet (s : RepairSchedulerNew) (stripeList : List PlacedStripe) : Finset Int :=
  (stripesOf stripeList).foldl (fun acc st =>
    if s.tolerance ≤ ((inStripe st s.currentFailed).length : Nat) then
      acc ∪ (inStripe st s.currentFailed).toFinset else acc) ∅

def decideLazy (s : RepairSchedulerNew) (stripeList : List PlacedStripe) :
    RepairDecision × List Int :=
  if s.currentFailed = [] then (.repairLazy, [])
  else
    let nodesToRepairSet := s.lazyRepairSet stripeList
    if nodesToRepairSet = ∅ then (.repairLazy, [])
    else (.repairImmediate, nodesToRepairSet.sort (· ≤ ·))

end RepairSchedulerNew

/-- `fails_in_stripe` -/
def failsInStripe (currentFailedNodes : List Int) (st : PlacedStripe) : Nat :=
  currentFailedNodes.countP fun nid => nid ∈ st.placement

/-- The number of stripes with more failures than the tolerance. -/
def checkStripeDataLoss (currentFailedNodes : List Int) (stripeList : List PlacedStripe)
    (tolerance : Int) : Nat :=
  stripeList.countP fun st => tolerance < (failsInStripe currentFailedNodes st : Nat)

namespace RepairSchedulerNew

/-! ## What they do -/

@[simp] theorem mem_addFailures (s : RepairSchedulerNew) (newFails : List Int) (x : Int) :
    x ∈ (s.addFailures newFails).currentFailed ↔ x ∈ s.currentFailed ∨ x ∈ newFails :=
  mem_foldl_pushNew s.currentFailed newFails x

@[simp] theorem tolerance_addFailures (s : RepairSchedulerNew) (newFails : List Int) :
    (s.addFailures newFails).tolerance = s.tolerance := rfl

@[simp] theorem tolerance_executePartialRepair (s : RepairSchedulerNew) (nids : List Int) :
    (s.executePartialRepair nids).2.tolerance = s.tolerance := rfl

theorem foldl_repairOne (nids : List Int) (acc : List Int × List Int) (h : acc.2.Nodup)
    (x : Int) :
    (x ∈ (nids.foldl repairOne acc).1 ↔ x ∈ acc.1 ∨ (x ∈ acc.2 ∧ x ∈ nids)) ∧
      (x ∈ (nids.foldl repairOne acc).2 ↔ x ∈ acc.2 ∧ x ∉ nids) := by
  induction nids generalizing acc with
  | nil => simp
  | cons nid nids ih =>
    rw [List.foldl_cons]
    by_cases hn : nid ∈ acc.2
    · obtain ⟨h1, h2⟩ := ih (acc.1 ++ [nid], acc.2.erase nid) (h.erase nid)
      rw [repairOne, if_pos hn, h1, h2, h.mem_erase_iff, List.mem_append, List.mem_singleton,
        List.mem_cons]
      by_cases hx : x = nid
      · subst hx
        simp [hn]
      · simp [hx]
    · obtain ⟨h1, h2⟩ := ih acc h
      rw [repairOne, if_neg hn, h1, h2, List.mem_cons]
      by_cases hx : x = nid
      · subst hx
        simp [hn]
      · simp [hx]

/-- **What a repair does**: the failed nodes of the list are repaired, the others stay. -/
theorem executePartialRepair_spec (s : RepairSchedulerNew) (nids : List Int) (x : Int) :
    (x ∈ (s.executePartialRepair nids).1 ↔ x ∈ s.currentFailed ∧ x ∈ nids) ∧
      (x ∈ (s.executePartialRepair nids).2.currentFailed ↔ x ∈ s.currentFailed ∧ x ∉ nids) := by
  obtain ⟨h1, h2⟩ := foldl_repairOne nids ([], s.currentFailed) s.nodup x
  refine ⟨h1.trans ?_, h2⟩
  simp

theorem mem_inStripe {st : PlacedStripe} {ids : List Int} {x : Int} :
    x ∈ inStripe st ids ↔ x ∈ st.placement ∧ x ∈ ids := by
  rw [inStripe, List.mem_filter, decide_eq_true_iff]

/-- The loss check and the decisions count the same nodes, from the two sides. -/
theorem failsInStripe_eq {ids : List Int} (hids : ids.Nodup) (st : PlacedStripe) :
    failsInStripe ids st = (inStripe st ids).length := by
  rw [failsInStripe, List.countP_eq_length_filter]
  refine List.Perm.length_eq ?_
  refine (List.perm_ext_iff_of_nodup (hids.filter _) (st.distinct.filter _)).2 fun x => ?_
  simp [and_comm]

theorem length_inStripe_le {st : PlacedStripe} {ids ids' : List Int}
    (h : ∀ x ∈ st.placement, x ∈ ids → x ∈ ids') :
    (inStripe st ids).length ≤ (inStripe st ids').length := by
  rw [inStripe, inStripe, ← List.countP_eq_length_filter, ← List.countP_eq_length_filter]
  exact List.countP_mono_left fun x hx hid => by simpa using h x hx (by simpa using hid)

/-- A node of the union is counted in one of the two lists. -/
theorem length_inStripe_append_le (st : PlacedStripe) (ids ids' : List Int) :
    (inStripe st (ids ++ ids')).length ≤ (inStripe st ids).length + (inStripe st ids').length := by
  simp only [inStripe, ← List.countP_eq_length_filter]
  induction st.placement with
  | nil => simp
  | cons a l ih =>
    simp only [List.countP_cons, List.mem_append, decide_eq_true_eq] at ih ⊢
    by_cases h1 : a ∈ ids <;> by_cases h2 : a ∈ ids' <;>
      simp only [h1, h2, or_self, or_true, true_or, if_true, if_false] <;> omega

/-! ## The map of the stripes -/

theorem lookup_foldl_insert (l : List PlacedStripe) (m : AList fun _ : Int => PlacedStripe)
    {k : Int} {st : PlacedStripe}
    (h : (l.foldl (fun m s => m.insert s.stripeId s) m).lookup k = some st) :
    m.lookup k = some st ∨ st ∈ l := by
  induction l generalizing m with
  | nil => exact Or.inl h
  | cons a l ih =>
    rcases ih _ h with h | h
    · by_cases hk : k = a.stripeId
      · subst hk
        rw [AList.lookup_insert, Option.some.injEq] at h
        exact Or.inr (h ▸ List.mem_cons_self ..)
      · rw [AList.lookup_insert_ne hk] at h
        exact Or.inl h
    · exact Or.inr (List.mem_cons_of_mem _ h)

theorem mem_of_mem_stripesOf {stripeList : List PlacedStripe} {st : PlacedStripe}
    (h : st ∈ stripesOf stripeList) : st ∈ stripeList := by
  obtain ⟨⟨k, st⟩, he, rfl⟩ := List.mem_map.1 h
  refine (lookup_foldl_insert stripeList ∅ (AList.mem_lookup_iff.2 he)).resolve_left ?_
  rw [AList.lookup_empty]
  exact fun h => by cases h

theorem lookup_foldl_insert_of_not_mem {l : List PlacedStripe}
    (m : AList fun _ : Int => PlacedStripe) {k : Int} (hk : k ∉ l.map PlacedStripe.stripeId) :
    (l.foldl (fun m s => m.insert s.stripeId s) m).lookup k = m.lookup k := by
  induction l generalizing m with
  | nil => rfl
  | cons a l ih =>
    rw [List.map_cons, List.mem_cons, not_or] at hk
    rw [List.foldl_cons, ih _ hk.2, AList.lookup_insert_ne hk.1]

section
variable {stripeList : List PlacedStripe} (hid : (stripeList.map PlacedStripe.stripeId).Nodup)
include hid

/-- With distinct ids a stripe is found under its id. -/
theorem lookup_sidMap {st : PlacedStripe} (h : st ∈ stripeList) :
    (sidMap stripeList).lookup st.stripeId = some st := by
  obtain ⟨pre, post, rfl⟩ := List.append_of_mem h
  rw [List.map_append, List.map_cons] at hid
  have hpost : st.stripeId ∉ post.map PlacedStripe.stripeId :=
    (List.nodup_cons.1 hid.of_append_right).1
  rw [sidMap, List.foldl_append, List.foldl_cons, lookup_foldl_insert_of_not_mem _ hpost,
    AList.lookup_insert]

/-- No stripe is lost in the map. -/
theorem mem_stripesOf {st : PlacedStripe} : st ∈ stripesOf stripeList ↔ st ∈ stripeList := by
  refine ⟨mem_of_mem_stripesOf, fun h => ?_⟩
  exact List.mem_map.2 ⟨_, AList.mem_lookup_iff.1 (lookup_sidMap hid h), rfl⟩

end

/-! ## The decision -/

section
variable (s : RepairSchedulerNew) (stripeList : List PlacedStripe) (nextFailIds : List Int)

/-- **The nodes to repair**: the failed nodes of the stripes in danger. -/
theorem mem_nodesToRepairSet {x : Int} : x ∈ s.nodesToRepairSet stripeList nextFailIds ↔
    ∃ st ∈ stripesOf stripeList, s.InDanger nextFailIds st ∧ x ∈ inStripe st s.currentFailed := by
  have hfold : ∀ (l : List PlacedStripe) (acc : Finset Int),
      x ∈ l.foldl (fun acc st => if s.InDanger nextFailIds st then
        acc ∪ (inStripe st s.currentFailed).toFinset else acc) acc ↔
      x ∈ acc ∨ ∃ st ∈ l, s.InDanger nextFailIds st ∧ x ∈ inStripe st s.currentFailed := by
    intro l
    induction l with
    | nil => simp
    | cons a l ih =>
      intro acc
      rw [List.foldl_cons, ih]
      split
      · next ha => simp [ha, or_assoc]
      · next ha => simp [ha]
  rw [nodesToRepairSet, hfold]
  simp

theorem nodesToRepairSet_subset {stripeList : List PlacedStripe} {nextFailIds : List Int} {x : Int}
    (h : x ∈ s.nodesToRepairSet stripeList nextFailIds) : x ∈ s.currentFailed := by
  obtain ⟨st, -, -, hx⟩ := (s.mem_nodesToRepairSet stripeList nextFailIds).1 h
  exact (mem_inStripe.1 hx).2

theorem mem_decide {x : Int} : x ∈ (s.decideTraceDrivenStripe stripeList nextFailIds).2 ↔
    x ∈ s.nodesToRepairSet stripeList nextFailIds := by
  unfold decideTraceDrivenStripe
  split
  · next h0 =>
    refine iff_of_false List.not_mem_nil fun hx => ?_
    obtain ⟨st, -, -, hx⟩ := (s.mem_nodesToRepairSet stripeList nextFailIds).1 hx
    rw [mem_inStripe, h0] at hx
    exact List.not_mem_nil hx.2
  · simp only
    split
    · next he =>
      rw [he]
      exact iff_of_false List.not_mem_nil (Finset.notMem_empty x)
    · split <;> exact Finset.mem_sort _

/-- The decision is to wait exactly when there is nothing to repair. -/
theorem decide_lazy : (s.decideTraceDrivenStripe stripeList nextFailIds).1 = .repairLazy ↔
    (s.decideTraceDrivenStripe stripeList nextFailIds).2 = [] := by
  have hsort : ∀ set : Finset Int, set ≠ ∅ → set.sort (· ≤ ·) ≠ [] := by
    intro set hset h
    obtain ⟨x, hx⟩ := Finset.nonempty_iff_ne_empty.2 hset
    exact List.not_mem_nil (h ▸ (Finset.mem_sort _).2 hx)
  unfold decideTraceDrivenStripe
  split
  · simp
  · simp only
    split
    · simp
    · next he =>
      split
      · exact iff_of_false (by simp) (hsort _ he)
      · exact iff_of_false (by simp) (hsort _ he)

end

end RepairSchedulerNew

end StripeRepair

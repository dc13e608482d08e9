import StripeRepair.Common.Worker
import StripeRepair.Common.Persist
import Mathlib

/-!
# Which queues are filled and emptied evenly

A packet is put into the local queue of a node once per round, but each compute task of
the node that uses it takes one out, and so does each persist task.

* `pushes_perm`, `pops_perm`: all pushes and pops of a node in one round.
* `queueBalance_iff`: the queues balance exactly when the parents of each packet on a
  node are on one level, and only one of them where that is the last level.
-/

namespace StripeRepair

/-! ## Counting -/

theorem flatMap_filter_eq {α : Type} (l : List Nat) (p : Nat → Prop) [DecidablePred p]
    (g : Nat → List α) :
    (l.filter fun v => p v).flatMap g = l.flatMap fun v => if p v then g v else [] := by
  induction l with
  | nil => rfl
  | cons v l ih =>
    rw [List.filter_cons, List.flatMap_cons, ← ih]
    by_cases h : p v <;> simp [h]

/-- A sum of numbers is one when one of them is one and the others are zero. -/
theorem sum_eq_one_iff {α : Type} {l : List α} (hl : l.Nodup) (f : α → Nat) :
    (l.map f).sum = 1 ↔ ∃ a ∈ l, f a = 1 ∧ ∀ b ∈ l, b ≠ a → f b = 0 := by
  induction l with
  | nil => simp
  | cons a l ih =>
    obtain ⟨ha, hl⟩ := List.nodup_cons.1 hl
    have hzero : (l.map f).sum = 0 ↔ ∀ b ∈ l, f b = 0 := by
      rw [List.sum_eq_zero_iff, List.forall_mem_map]
    rw [List.map_cons, List.sum_cons]
    constructor
    · intro h
      by_cases h0 : f a = 0
      · obtain ⟨b, hb, hb1, hrest⟩ := (ih hl).1 (by omega)
        refine ⟨b, List.mem_cons_of_mem _ hb, hb1, fun x hx hxb => ?_⟩
        rcases List.mem_cons.1 hx with rfl | hx
        · exact h0
        · exact hrest x hx hxb
      · have hz := hzero.1 (by omega)
        refine ⟨a, List.mem_cons_self .., by omega, fun x hx hxa => ?_⟩
        exact hz x ((List.mem_cons.1 hx).resolve_left hxa)
    · rintro ⟨b, hb, hb1, hrest⟩
      rcases List.mem_cons.1 hb with rfl | hb
      · rw [hb1, hzero.2 fun x hx => hrest x (List.mem_cons_of_mem _ hx) fun he => ha (he ▸ hx)]
      · rw [hrest a (List.mem_cons_self ..) fun he => ha (he ▸ hb),
          (ih hl).2 ⟨b, hb, hb1, fun x hx => hrest x (List.mem_cons_of_mem _ hx)⟩]

/-- A key that occurs once in the lists of some tasks occurs in one of the lists. -/
theorem countP_of_count_flatMap {α : Type} {ts : List α} {f : α → List Int} {k : Int}
    (h : (ts.flatMap f).count k = 1) : (ts.countP fun t => k ∈ f t) = 1 := by
  induction ts with
  | nil => simp at h
  | cons t ts ih =>
    rw [List.flatMap_cons, List.count_append] at h
    by_cases hk : k ∈ f t
    · have hpos := List.count_pos_iff.2 hk
      have hrest : k ∉ ts.flatMap f := List.count_eq_zero.1 (by omega)
      rw [List.countP_cons_of_pos (by simpa using hk), List.countP_eq_zero.2]
      intro u hu hku
      exact hrest (List.mem_flatMap.2 ⟨u, hu, of_decide_eq_true hku⟩)
    · rw [List.count_eq_zero.2 hk] at h
      rw [List.countP_cons_of_neg (by simpa using hk)]
      exact ih (by omega)

namespace Stripe

/-- The packets per round match in each queue, and a queue that is emptied is created, filled
and emptied by one task each. -/
structure QueueBalance (ecw : Nat) (tasks : List Task) : Prop where
  even : ∀ key, (tasks.flatMap (Task.pushes ecw)).count key =
    (tasks.flatMap (Task.pops ecw)).count key
  created : ∀ key ∈ tasks.flatMap (Task.pops ecw), (tasks.countP fun t => key ∈ t.queues) = 1
  filled : ∀ key ∈ tasks.flatMap (Task.pops ecw),
    (tasks.countP fun t => key ∈ t.pushes ecw) = 1
  emptied : ∀ key ∈ tasks.flatMap (Task.pops ecw),
    (tasks.countP fun t => key ∈ t.pops ecw) = 1

/-- The parents of `u` on node `c` are on one level; on the last level there is one parent,
and it has `u` as a child once. -/
def OneConsumer (s : Stripe) (c : Int) (u : Nat) : Prop :=
  (∀ p ∈ s.ecdag.parentIds u, ∀ q ∈ s.ecdag.parentIds u, s.coloring p = c → s.coloring q = c →
    s.ecdag.height p = s.ecdag.height q) ∧
  ∀ p ∈ s.ecdag.parentIds u, s.coloring p = c → s.ecdag.height p = s.ecdag.numLevels - 1 →
    (s.ecdag.childIndices p).count u = 1 ∧
      ∀ q ∈ s.ecdag.parentIds u, s.coloring q = c → q = p

/-! ## Pushes -/

section
variable (s : Stripe) (ecn ecw : Nat) (c : Int)

/-- The pushes for packet `v` on node `c`: to the local queue where it is used, to the cache
queue where it is sent from. -/
def pushesOf (v : Nat) : List Int :=
  (if s.UsedOn v c then [localKey v] else []) ++
    if s.Made ecn ecw v ∧ s.coloring v = c ∧ (s.usage v).2 = true then [cacheKey v] else []

/-- The same, task by task. -/
theorem pushesOf_eq (hc : c ≠ -1) (v : Nat) : s.pushesOf ecn ecw c v =
    (if s.Made ecn ecw v ∧ s.coloring v = c then Task.usageQueues (s.usage v) v else []) ++
      (if s.Made ecn ecw v ∧ c ∈ s.sendto v then [localKey v] else []) ++
      if ¬ s.Made ecn ecw v ∧ s.UsedOn v c ∧ c ≠ -1 then [localKey v] else [] := by
  unfold pushesOf Task.usageQueues
  by_cases hm : s.Made ecn ecw v
  · by_cases hv : s.coloring v = c
    · have hl : (s.usage v).1 = true ↔ s.UsedOn v c := hv ▸ s.usage_fst
      simp [hm, hv, hl, s.mem_sendto]
    · simp [hm, hv, s.mem_sendto, Ne.symm hv]
  · simp [hm, hc]

end

section
variable {s : Stripe} {ecn ecw : Nat} {placement : Nat → Int} (hd : s.ecdag.WellFormed)
  (hl : s.Legal ecn ecw placement) (ord : HashOrder Walk)

theorem blkAt_ne_zero (s : Stripe) (i : Int) : s.blkAt i ≠ some "ZERO" := by
  unfold blkAt
  split
  · exact fun h => s.named (List.mem_of_getElem? h)
  · exact fun h => by cases h

/-- Packets of one block have different offsets. -/
theorem nodup_offsets {b : Nat} {vs : List Nat} (hvs : ∀ v ∈ vs, v / ecw = b)
    (hsorted : vs.Pairwise (· < ·)) : (vs.map fun v => v % ecw).Nodup := by
  refine List.Nodup.map_on ?_ (hsorted.imp fun h => h.ne)
  intro u hu v hv he
  have h1 := Nat.div_add_mod u ecw
  have h2 := Nat.div_add_mod v ecw
  rw [hvs u hu] at h1
  rw [hvs v hv] at h2
  omega

theorem pushes_moveTasks (c : Int) (level : Nat) :
    (s.moveTasks ecn ecw ord c level).flatMap (Task.pushes ecw) =
      ((s.madeAt ecn ecw ord level).filter fun v => c ∈ s.sendto v).map localKey ++
        ((s.zerosAt ecn ecw ord level).filter fun v => s.UsedOn v c ∧ c ≠ -1).map localKey := by
  have hsend : (Task.send [] (List.map s.sendto [])).pushes ecw = [] := rfl
  rw [moveTasks, List.flatMap_append, List.flatMap_append,
    flatMap_taskFor (f := fun vs => .send vs (vs.map s.sendto)) hsend, Task.pushes_send,
    flatMap_taskFor (f := .recv) (Task.pushes_recv ecw []), Task.pushes_recv,
    flatMap_taskFor (f := fun vs => .read (some "ZERO") vs []) (Task.pushes_zero ecw [] []),
    Task.pushes_zero]
  rfl

theorem pops_moveTasks (c : Int) (level : Nat) :
    (s.moveTasks ecn ecw ord c level).flatMap (Task.pops ecw) =
      ((s.madeAt ecn ecw ord level).filter fun v => s.sendto v ≠ [] ∧ s.coloring v = c).map
        cacheKey := by
  have hsend : (Task.send [] (List.map s.sendto [])).pops ecw = [] := rfl
  rw [moveTasks, List.flatMap_append, List.flatMap_append,
    flatMap_taskFor (f := fun vs => .send vs (vs.map s.sendto)) hsend, Task.pops_send,
    flatMap_taskFor (f := .recv) (Task.pops_recv ecw []), Task.pops_recv,
    flatMap_taskFor (f := fun vs => .read (some "ZERO") vs []) (Task.pops_read ecw _ [] []),
    Task.pops_read]
  simp

/-- What the outputs and the moves of a level push, vertex by vertex. -/
theorem pushesOf_level {c : Int} (hc : c ≠ -1) (level : Nat) :
    (((s.madeAt ecn ecw ord level).filter fun v => s.coloring v = c).flatMap
        (fun v => Task.usageQueues (s.usage v) v) ++
      (((s.madeAt ecn ecw ord level).filter fun v => c ∈ s.sendto v).map localKey ++
        ((s.zerosAt ecn ecw ord level).filter fun v => s.UsedOn v c ∧ c ≠ -1).map localKey)).Perm
      ((s.ecdag.levelAt ord level).flatMap (s.pushesOf ecn ecw c)) := by
  have hsplit : ∀ (p q : Nat → Prop) [DecidablePred p] [DecidablePred q] (g : Nat → List Int),
      (((s.ecdag.levelAt ord level).filter fun v => p v).filter fun v => q v).flatMap g =
        (s.ecdag.levelAt ord level).flatMap fun v => if p v ∧ q v then g v else [] := by
    intro p q _ _ g
    rw [List.filter_filter, ← flatMap_filter_eq]
    congr 1
    refine List.filter_congr fun v _ => ?_
    rw [← Bool.decide_and, decide_eq_decide, and_comm]
  have hmap : ∀ l : List Nat, l.map localKey = l.flatMap fun v => [localKey v] :=
    fun l => (List.flatMap_pure_eq_map localKey l).symm
  rw [madeAt, zerosAt, hmap, hmap, hsplit, hsplit, hsplit]
  refine ((List.Perm.append_left _ (List.flatMap_append_perm _ _ _)).trans
    (List.flatMap_append_perm _ _ _)).trans (List.Perm.of_eq ?_)
  refine List.flatMap_congr fun v _ => ?_
  rw [s.pushesOf_eq ecn ecw c hc, List.append_assoc]

include hd

/-- Nothing of the last level is pushed. -/
theorem pushesOf_last {v : Nat} (h : s.ecdag.height v = s.ecdag.numLevels - 1) (c : Int) :
    s.pushesOf ecn ecw c v = [] := by
  have husage : (s.usage v).2 ≠ true := by
    rw [ne_eq, s.usage_snd]
    rintro ⟨c', -, hused⟩
    exact not_usedOn_of_last hd h c' hused
  rw [pushesOf, if_neg (not_usedOn_of_last hd h c), if_neg fun h => husage h.2.2]
  rfl

include hl

/-- **The pushes of a node** in one round. -/
theorem pushes_perm (hw : 0 < ecw) {c : Int} (hc : c ≠ -1) :
    ((s.nodeTasks ecn ecw ord c).flatMap (Task.pushes ecw)).Perm
      (s.ecdag.nodeIds.flatMap (s.pushesOf ecn ecw c)) := by
  have hlevel : ∀ level, ((s.levelTasksOn ecn ecw ord c level).flatMap (Task.pushes ecw)).Perm
      ((s.ecdag.levelAt ord level).flatMap (s.pushesOf ecn ecw c)) := by
    refine level_cases (s := s) _ ?_ ?_ ?_
    · rw [levelTasksOn_zero hd, List.flatMap_append, pushes_moveTasks]
      refine List.Perm.trans (List.Perm.append_right _ ?_) (pushesOf_level ord hc 0)
      refine flatMap_readTasks (s := s) ecw ord c ((hd.levelAt_nodup ord 0).filter _) ?_ ?_
      · intro u hu v hv he
        obtain ⟨hu, hmu⟩ := List.mem_filter.1 hu
        obtain ⟨hu, hhu⟩ := hd.mem_levelAt.1 hu
        obtain ⟨hv, hhv⟩ := hd.mem_levelAt.1 (List.mem_of_mem_filter hv)
        exact hl.same_block u hu v hv ((hd.height_eq_zero hu).1 hhu) ((hd.height_eq_zero hv).1 hhv)
          ((made_leaf hd hu hhu).1 (of_decide_eq_true hmu)) he
      · intro b vs hvs hsorted
        exact Task.pushes_real (s.blkAt_ne_zero b) hw s.usage
          (nodup_offsets (fun v hv => (hvs v hv).2) hsorted)
    · intro level h0 hlast
      rw [levelTasksOn_mid hd ecn ecw ord c h0 hlast, List.flatMap_append, pushes_moveTasks,
        flatMap_taskFor (f := fun vs => .compute (vs.map s.computeItem)) rfl]
      refine List.Perm.trans (List.Perm.append_right _ ?_) (pushesOf_level ord hc level)
      refine (Task.pushes_compute ecw _).trans (List.Perm.of_eq ?_)
      rw [Task.queues, List.flatMap_map]
      rfl
    · intro h0
      rw [levelTasksOn_last ecn ecw ord c h0, flatMap_persist_nil fun vs b => Task.pushes_persist ecw vs b]
      refine List.Perm.of_eq (List.flatMap_eq_nil_iff.2 fun v hv => ?_).symm
      exact pushesOf_last hd (hd.mem_levelAt.1 hv).2 c
  have hall : s.ecdag.nodeIds.filter (fun _ => true) = s.ecdag.nodeIds :=
    List.filter_eq_self.2 fun _ _ => rfl
  rw [nodeTasks, List.flatMap_assoc, ← hall]
  refine hd.flatMap_levels_perm ord fun level _ => ?_
  rw [List.filter_eq_self.2 fun _ _ => rfl]
  exact hlevel level

end

/-! ## Pops -/

section
variable (s : Stripe) (ecn ecw : Nat) (ord : HashOrder Walk) (c : Int)

/-- The packets that the compute or persist tasks of a level take out of local queues. -/
def consumed (level : Nat) : List Nat :=
  if level = 0 then []
  else if level = s.ecdag.numLevels - 1 then
    ((s.ecdag.levelAt ord level).filter fun v => s.coloring v = c).flatMap s.ecdag.childIndices
  else Worker.inputList
    (((s.madeAt ecn ecw ord level).filter fun v => s.coloring v = c).map s.computeItem)

/-- Packet `v` is in the cache queue of node `c`. -/
def Cached (v : Nat) : Prop := s.Made ecn ecw v ∧ s.coloring v = c ∧ (s.usage v).2 = true

instance (v : Nat) : Decidable (s.Cached ecn ecw c v) := by
  unfold Cached
  infer_instance

end

section
variable {s : Stripe} {ecn ecw : Nat} {placement : Nat → Int} (hd : s.ecdag.WellFormed)
  (ord : HashOrder Walk)

theorem filter_cached (c : Int) (level : Nat) :
    ((s.madeAt ecn ecw ord level).filter fun v => s.sendto v ≠ [] ∧ s.coloring v = c) =
      (s.ecdag.levelAt ord level).filter fun v => s.Cached ecn ecw c v := by
  rw [madeAt, List.filter_filter]
  refine List.filter_congr fun v _ => ?_
  rw [← Bool.decide_and, decide_eq_decide, Cached, s.sendto_ne_nil]
  exact ⟨fun h => ⟨h.2, h.1.2, h.1.1⟩, fun h => ⟨⟨h.2.2, h.2.1⟩, h.1⟩⟩

include hd

/-- **The pops of a node** in one round. -/
theorem pops_perm (c : Int) : ((s.nodeTasks ecn ecw ord c).flatMap (Task.pops ecw)).Perm
    ((s.ecdag.nodeIds.filter fun v => s.Cached ecn ecw c v).map cacheKey ++
      ((List.range s.ecdag.numLevels).flatMap (s.consumed ecn ecw ord c)).map localKey) := by
  have hlevel : ∀ level, (s.levelTasksOn ecn ecw ord c level).flatMap (Task.pops ecw) =
      (s.consumed ecn ecw ord c level).map localKey ++
        ((s.ecdag.levelAt ord level).filter fun v => s.Cached ecn ecw c v).map cacheKey := by
    refine level_cases (s := s) _ ?_ ?_ ?_
    · rw [levelTasksOn_zero hd, List.flatMap_append, pops_moveTasks, filter_cached,
        flatMap_readTasks_nil ecw ord c fun b vs us => Task.pops_read ecw b vs us, consumed,
        if_pos rfl]
      rfl
    · intro level h0 hlast
      rw [levelTasksOn_mid hd ecn ecw ord c h0 hlast, List.flatMap_append, pops_moveTasks,
        filter_cached, flatMap_taskFor (f := fun vs => .compute (vs.map s.computeItem)) rfl,
        Task.pops_compute, consumed, if_neg h0, if_neg hlast]
    · intro h0
      have hnone : ((s.ecdag.levelAt ord (s.ecdag.numLevels - 1)).filter fun v =>
          s.Cached ecn ecw c v) = [] := by
        refine List.filter_eq_nil_iff.2 fun v hv hcached => ?_
        obtain ⟨hv, hh⟩ := hd.mem_levelAt.1 hv
        obtain ⟨c', -, hused⟩ := s.usage_snd.1 (of_decide_eq_true hcached).2.2
        exact not_usedOn_of_last hd hh c' hused
      rw [levelTasksOn_last ecn ecw ord c h0, hnone, consumed, if_neg h0, if_pos rfl,
        List.flatMap_map, List.map_flatMap]
      simp [Task.pops_persist]
  rw [nodeTasks, List.flatMap_assoc, List.flatMap_congr fun level _ => hlevel level]
  refine (List.flatMap_append_perm _ _ _).symm.trans (List.perm_append_comm.trans ?_)
  refine List.Perm.append ?_ (List.Perm.of_eq (List.map_flatMap ..).symm)
  rw [← List.flatMap_pure_eq_map cacheKey]
  refine hd.flatMap_levels_perm ord fun level _ => ?_
  rw [List.flatMap_pure_eq_map cacheKey]

/-! ## Consumers -/

theorem mem_consumed {c : Int} (hc : c ≠ -1) {level u : Nat} :
    u ∈ s.consumed ecn ecw ord c level ↔
      ∃ p ∈ s.ecdag.parentIds u, s.coloring p = c ∧ s.ecdag.height p = level := by
  have hlevel : ∀ {p}, p ∈ s.ecdag.parentIds u → s.ecdag.height p = level →
      p ∈ s.ecdag.levelAt ord level ∧ u ∈ s.ecdag.childIndices p := by
    intro p hp hh
    have hch := hd.mem_parentIds.1 hp
    exact ⟨hd.mem_levelAt.2 ⟨(hd.childIndices_nodeIds hch).2, hh⟩, hch⟩
  unfold consumed
  split
  · next h0 =>
    refine iff_of_false List.not_mem_nil ?_
    rintro ⟨p, hp, -, hh⟩
    have := hd.height_lt (hd.mem_parentIds.1 hp)
    omega
  · next h0 =>
    split
    · rw [List.mem_flatMap]
      constructor
      · rintro ⟨p, hp, hu⟩
        obtain ⟨hp, hpc⟩ := List.mem_filter.1 hp
        exact ⟨p, hd.mem_parentIds.2 hu, of_decide_eq_true hpc, (hd.mem_levelAt.1 hp).2⟩
      · rintro ⟨p, hp, hpc, hh⟩
        obtain ⟨hpl, hu⟩ := hlevel hp hh
        exact ⟨p, List.mem_filter.2 ⟨hpl, decide_eq_true hpc⟩, hu⟩
    · rw [Worker.mem_inputList]
      constructor
      · rintro ⟨ci, hci, hu⟩
        obtain ⟨p, hp, rfl⟩ := List.mem_map.1 hci
        obtain ⟨hp, hpc⟩ := List.mem_filter.1 hp
        exact ⟨p, hd.mem_parentIds.2 hu, of_decide_eq_true hpc,
          (hd.mem_levelAt.1 (List.mem_of_mem_filter hp)).2⟩
      · rintro ⟨p, hp, hpc, hh⟩
        obtain ⟨hpl, hu⟩ := hlevel hp hh
        have hmade : s.Made ecn ecw p :=
          (made_inner hd (hd.mem_levelAt.1 hpl).1 (hh.symm ▸ h0)).2 (hpc.symm ▸ hc)
        refine ⟨s.computeItem p, List.mem_map_of_mem (List.mem_filter.2 ⟨?_, ?_⟩), hu⟩
        · exact List.mem_filter.2 ⟨hpl, decide_eq_true hmade⟩
        · exact decide_eq_true hpc

omit hd in
/-- Below the last level a packet is taken out at most once. -/
theorem count_consumed_le {c : Int} {level : Nat} (h : level ≠ s.ecdag.numLevels - 1) (u : Nat) :
    (s.consumed ecn ecw ord c level).count u ≤ 1 := by
  unfold consumed
  split
  · simp
  · exact List.nodup_iff_count_le_one.1 (Worker.inputList_nodup _) u

/-- On the last level it is taken out once when one parent has it once as a child. -/
theorem count_consumed_last {c : Int} (h0 : s.ecdag.numLevels - 1 ≠ 0) (u : Nat) :
    (s.consumed ecn ecw ord c (s.ecdag.numLevels - 1)).count u = 1 ↔
      ∃ p ∈ s.ecdag.parentIds u, s.coloring p = c ∧ s.ecdag.height p = s.ecdag.numLevels - 1 ∧
        (s.ecdag.childIndices p).count u = 1 ∧ ∀ q ∈ s.ecdag.parentIds u, s.coloring q = c →
          s.ecdag.height q = s.ecdag.numLevels - 1 → q = p := by
  have hmem : ∀ p, p ∈ ((s.ecdag.levelAt ord (s.ecdag.numLevels - 1)).filter fun v =>
      s.coloring v = c) ↔ p ∈ s.ecdag.nodeIds ∧ s.coloring p = c ∧
        s.ecdag.height p = s.ecdag.numLevels - 1 := by
    intro p
    rw [List.mem_filter, hd.mem_levelAt, decide_eq_true_iff]
    tauto
  rw [consumed, if_neg h0, if_pos rfl, List.count_flatMap,
    sum_eq_one_iff ((hd.levelAt_nodup ord _).filter _)]
  constructor
  · rintro ⟨p, hp, hone, hrest⟩
    obtain ⟨-, hpc, hh⟩ := (hmem p).1 hp
    have hone : (s.ecdag.childIndices p).count u = 1 := hone
    have hpu : u ∈ s.ecdag.childIndices p := List.count_pos_iff.1 (by omega)
    refine ⟨p, hd.mem_parentIds.2 hpu, hpc, hh, hone, fun q hq hqc hqh => ?_⟩
    by_contra hne
    have hqu := hd.mem_parentIds.1 hq
    have h0 := hrest q ((hmem q).2 ⟨(hd.childIndices_nodeIds hqu).2, hqc, hqh⟩) hne
    exact List.count_eq_zero.1 h0 hqu
  · rintro ⟨p, hp, hpc, hh, hone, hrest⟩
    have hpu := hd.mem_parentIds.1 hp
    refine ⟨p, (hmem p).2 ⟨(hd.childIndices_nodeIds hpu).2, hpc, hh⟩, hone, fun q hq hne => ?_⟩
    obtain ⟨-, hqc, hqh⟩ := (hmem q).1 hq
    exact List.count_eq_zero.2 fun hqu => hne (hrest q (hd.mem_parentIds.2 hqu) hqc hqh)

/-- **A packet in use is taken out once per round** when it has one consumer. -/
theorem count_consumed_eq_one {c : Int} (hc : c ≠ -1) {u : Nat} (hused : s.UsedOn u c) :
    ((List.range s.ecdag.numLevels).flatMap (s.consumed ecn ecw ord c)).count u = 1 ↔
      s.OneConsumer c u := by
  have hlt : ∀ {p}, p ∈ s.ecdag.parentIds u → s.ecdag.height p ∈ List.range s.ecdag.numLevels := by
    intro p hp
    refine List.mem_range.2 (ECDAG.height_lt_numLevels ?_)
    exact (hd.childIndices_nodeIds (hd.mem_parentIds.1 hp)).2
  have hpos : ∀ {p}, p ∈ s.ecdag.parentIds u → s.coloring p = c →
      0 < (s.consumed ecn ecw ord c (s.ecdag.height p)).count u :=
    fun hp hpc => List.count_pos_iff.2 ((mem_consumed hd ord hc).2 ⟨_, hp, hpc, rfl⟩)
  have hlast : ∀ {p}, p ∈ s.ecdag.parentIds u → s.ecdag.height p = s.ecdag.numLevels - 1 →
      s.ecdag.numLevels - 1 ≠ 0 := by
    intro p hp hh
    have := hd.height_lt (hd.mem_parentIds.1 hp)
    omega
  rw [List.count_flatMap, sum_eq_one_iff List.nodup_range]
  constructor
  · rintro ⟨level, -, hone, hrest⟩
    have hone : (s.consumed ecn ecw ord c level).count u = 1 := hone
    have hlevel : ∀ p ∈ s.ecdag.parentIds u, s.coloring p = c → s.ecdag.height p = level := by
      intro p hp hpc
      by_contra hne
      have hzero : (s.consumed ecn ecw ord c (s.ecdag.height p)).count u = 0 :=
        hrest _ (hlt hp) hne
      have := hpos hp hpc
      omega
    refine ⟨fun p hp q hq hpc hqc => (hlevel p hp hpc).trans (hlevel q hq hqc).symm, ?_⟩
    intro p hp hpc hh
    have hll : level = s.ecdag.numLevels - 1 := (hlevel p hp hpc).symm.trans hh
    rw [hll] at hone
    obtain ⟨p', hp', hpc', hh', hcount, huniq⟩ :=
      (count_consumed_last hd ord (hlast hp hh) u).1 hone
    obtain rfl : p = p' := huniq p hp hpc hh
    exact ⟨hcount, fun q hq hqc => huniq q hq hqc (hll ▸ hlevel q hq hqc)⟩
  · rintro ⟨hsame, hone⟩
    obtain ⟨p, hp, hpc⟩ := hused
    refine ⟨s.ecdag.height p, hlt hp, ?_, fun level _ hne => ?_⟩
    · show (s.consumed ecn ecw ord c (s.ecdag.height p)).count u = 1
      by_cases hh : s.ecdag.height p = s.ecdag.numLevels - 1
      · obtain ⟨hcount, huniq⟩ := hone p hp hpc hh
        rw [hh]
        refine (count_consumed_last hd ord (hlast hp hh) u).2 ⟨p, hp, hpc, hh, hcount, ?_⟩
        exact fun q hq hqc _ => huniq q hq hqc
      · have h1 := hpos hp hpc
        have h2 : (s.consumed ecn ecw ord c (s.ecdag.height p)).count u ≤ 1 :=
          count_consumed_le ord hh u
        omega
    · refine List.count_eq_zero.2 fun hu => hne ?_
      obtain ⟨q, hq, hqc, hqh⟩ := (mem_consumed hd ord hc).1 hu
      exact hqh.symm.trans (hsame q hq p hp hqc hpc)

/-- The queues that are created are those that are filled. -/
theorem pushes_perm_queues (hw : 0 < ecw) (c : Int) :
    ∀ t ∈ s.nodeTasks ecn ecw ord c, (t.pushes ecw).Perm t.queues := by
  have hfor : ∀ {f : List Nat → Task} {l : List Nat} {t : Task},
      (∀ vs, ((f vs).pushes ecw).Perm (f vs).queues) → t ∈ taskFor f l →
        (t.pushes ecw).Perm t.queues := by
    intro f l t hf ht
    unfold taskFor at ht
    split at ht
    · cases ht
    · exact List.mem_singleton.1 ht ▸ hf l
  have hmove : ∀ level, ∀ t ∈ s.moveTasks ecn ecw ord c level, (t.pushes ecw).Perm t.queues := by
    intro level t ht
    rcases List.mem_append.1 ht with ht | ht
    · rcases List.mem_append.1 ht with ht | ht
      · exact hfor (fun vs => List.Perm.of_eq (Task.pushes_send ecw vs _)) ht
      · exact hfor (fun vs => List.Perm.of_eq (Task.pushes_recv ecw vs)) ht
    · exact hfor (fun vs => List.Perm.of_eq (Task.pushes_zero ecw vs [])) ht
  intro t ht
  obtain ⟨level, -, ht⟩ := List.mem_flatMap.1 ht
  revert ht
  refine level_cases (s := s) (fun level => t ∈ s.levelTasksOn ecn ecw ord c level →
    (t.pushes ecw).Perm t.queues) ?_ ?_ ?_ level
  · rw [levelTasksOn_zero hd]
    intro ht
    rcases List.mem_append.1 ht with ht | ht
    · obtain ⟨b, vs, rfl, -, hvs, hsorted⟩ :=
        mem_readTasks ecw ord c ((hd.levelAt_nodup ord 0).filter _) ht
      rw [Task.queues_real (s.blkAt_ne_zero b)]
      exact Task.pushes_real (s.blkAt_ne_zero b) hw s.usage
        (nodup_offsets (fun v hv => (hvs v hv).2) hsorted)
    · exact hmove 0 t ht
  · intro level h0 hlast ht
    rw [levelTasksOn_mid hd ecn ecw ord c h0 hlast] at ht
    rcases List.mem_append.1 ht with ht | ht
    · exact hfor (fun vs => Task.pushes_compute ecw _) ht
    · exact hmove level t ht
  · intro h0 ht
    rw [levelTasksOn_last ecn ecw ord c h0] at ht
    obtain ⟨v, -, rfl⟩ := List.mem_map.1 ht
    exact List.Perm.of_eq (Task.pushes_persist ecw _ _)

/-! ## The balance of a node -/

variable (hl : s.Legal ecn ecw placement)
include hl

/-- Local queues and cache queues apart. -/
theorem pushes_perm_keys (hw : 0 < ecw) {c : Int} (hc : c ≠ -1) :
    ((s.nodeTasks ecn ecw ord c).flatMap (Task.pushes ecw)).Perm
      ((s.ecdag.nodeIds.filter fun v => s.Cached ecn ecw c v).map cacheKey ++
        (s.ecdag.nodeIds.filter fun v => s.UsedOn v c).map localKey) := by
  have hmap : ∀ (k : Nat → Int) (l : List Nat), l.map k = l.flatMap fun v => [k v] :=
    fun k l => (List.flatMap_pure_eq_map k l).symm
  rw [hmap, hmap, flatMap_filter_eq, flatMap_filter_eq]
  refine (pushes_perm hd hl ord hw hc).trans ?_
  refine ((List.flatMap_append_perm _ _ _).symm.trans List.perm_append_comm).trans ?_
  exact List.Perm.of_eq rfl

/-- What is cached is used, so it is not the concatenation of block 0. -/
theorem nodup_pushes (hw : 0 < ecw) {c : Int} (hc : c ≠ -1)
    (hkey : ∀ v, REQUESTOR ∉ s.ecdag.childIndices v) :
    ((s.nodeTasks ecn ecw ord c).flatMap (Task.pushes ecw)).Nodup := by
  have hne : ∀ v, s.Cached ecn ecw c v → v ≠ REQUESTOR := by
    rintro v ⟨-, -, husage⟩ rfl
    obtain ⟨-, -, p, hp, -⟩ := s.usage_snd.1 husage
    exact hkey p (hd.mem_parentIds.1 hp)
  rw [(pushes_perm_keys hd ord hl hw hc).nodup_iff, List.nodup_append]
  refine ⟨?_, (hd.nodup.filter _).map localKey_injective, ?_⟩
  · refine List.Nodup.map_on (fun u hu v hv he => ?_) (hd.nodup.filter _)
    exact cacheKey_inj (hne u (of_decide_eq_true (List.mem_filter.1 hu).2))
      (hne v (of_decide_eq_true (List.mem_filter.1 hv).2)) he
  · rintro a ha b hb rfl
    obtain ⟨u, -, rfl⟩ := List.mem_map.1 ha
    obtain ⟨v, -, he⟩ := List.mem_map.1 hb
    have := cacheKey_neg u
    unfold localKey at he
    omega

theorem even_iff (hw : 0 < ecw) {c : Int} (hc : c ≠ -1) :
    (∀ key, ((s.nodeTasks ecn ecw ord c).flatMap (Task.pushes ecw)).count key =
      ((s.nodeTasks ecn ecw ord c).flatMap (Task.pops ecw)).count key) ↔
      ∀ u, s.OneConsumer c u := by
  have hkeys : (∀ key, ((s.nodeTasks ecn ecw ord c).flatMap (Task.pushes ecw)).count key =
      ((s.nodeTasks ecn ecw ord c).flatMap (Task.pops ecw)).count key) ↔
      ∀ u, (s.ecdag.nodeIds.filter fun v => s.UsedOn v c).count u =
        ((List.range s.ecdag.numLevels).flatMap (s.consumed ecn ecw ord c)).count u := by
    rw [← List.perm_iff_count, ← List.perm_iff_count]
    refine ((pushes_perm_keys hd ord hl hw hc).congr_left _).trans
      (((pops_perm hd ord c).congr_right _).trans ?_)
    rw [List.perm_append_left_iff]
    exact List.map_perm_map_iff localKey_injective
  rw [hkeys]
  refine forall_congr' fun u => ?_
  by_cases hused : s.UsedOn u c
  · have hmem : u ∈ s.ecdag.nodeIds.filter fun v => s.UsedOn v c := by
      obtain ⟨p, hp, hpc⟩ := hused
      refine List.mem_filter.2 ⟨(hd.childIndices_nodeIds (hd.mem_parentIds.1 hp)).1, ?_⟩
      exact decide_eq_true ⟨p, hp, hpc⟩
    rw [List.count_eq_one_of_mem (hd.nodup.filter _) hmem, eq_comm,
      count_consumed_eq_one hd ord hc hused]
  · have hnone : ∀ p ∈ s.ecdag.parentIds u, s.coloring p ≠ c := fun p hp hpc => hused ⟨p, hp, hpc⟩
    refine iff_of_true ?_ ⟨fun p hp _ _ hpc => absurd hpc (hnone p hp),
      fun p hp hpc => absurd hpc (hnone p hp)⟩
    rw [List.count_eq_zero.2, List.count_eq_zero.2]
    · intro hu
      obtain ⟨level, -, hu⟩ := List.mem_flatMap.1 hu
      obtain ⟨p, hp, hpc, -⟩ := (mem_consumed hd ord hc).1 hu
      exact hnone p hp hpc
    · exact fun hu => hused (of_decide_eq_true (List.mem_filter.1 hu).2)

theorem queueBalance_node (hw : 0 < ecw) {c : Int} (hc : c ≠ -1)
    (hkey : ∀ v, REQUESTOR ∉ s.ecdag.childIndices v) :
    QueueBalance ecw (s.nodeTasks ecn ecw ord c) ↔ ∀ u, s.OneConsumer c u := by
  constructor
  · exact fun h => (even_iff hd ord hl hw hc).1 h.even
  · intro h
    have heven := (even_iff hd ord hl hw hc).2 h
    have hnodup := nodup_pushes hd ord hl hw hc hkey
    have hone : ∀ key ∈ (s.nodeTasks ecn ecw ord c).flatMap (Task.pops ecw),
        ((s.nodeTasks ecn ecw ord c).flatMap (Task.pushes ecw)).count key = 1 := by
      intro key hk
      have h1 := List.count_pos_iff.2 hk
      have h2 := heven key
      have h3 := List.nodup_iff_count_le_one.1 hnodup key
      omega
    refine ⟨heven, fun key hk => ?_, fun key hk => countP_of_count_flatMap (hone key hk), ?_⟩
    · rw [← countP_of_count_flatMap (hone key hk)]
      refine List.countP_congr fun t ht => ?_
      rw [decide_eq_true_iff, decide_eq_true_iff,
        (pushes_perm_queues hd ord hw c t ht).mem_iff]
    · exact fun key hk => countP_of_count_flatMap (heven key ▸ hone key hk)

end

/-- **The queues of all nodes balance** exactly when every packet has one consumer on each
node. The id of the concatenation of block 0, whose negation is `KEY0`, is no packet. -/
theorem queueBalance_iff (s : Stripe) (hd : s.ecdag.Built) (ord : HashOrder Walk) (ecn ecw : Nat)
    (hw : 0 < ecw) (fail2repair : Int → Option Int) (placement : Nat → Int)
    (hl : (s.remap fail2repair).Legal ecn ecw placement)
    (hkey : ∀ nd ∈ s.ecdag.ecNodeMap, REQUESTOR ∉ nd.childNodes) :
    (∀ c, c ≠ -1 → QueueBalance ecw (s.tasksOf ord ecn ecw fail2repair c)) ↔
      ∀ c, c ≠ -1 → ∀ u, (s.remap fail2repair).OneConsumer c u := by
  have hwf : (s.remap fail2repair).ecdag.WellFormed := hd.wellFormed
  have hkey' : ∀ v, REQUESTOR ∉ (s.remap fail2repair).ecdag.childIndices v := by
    intro v hv
    obtain ⟨nd, hnd, -, hc⟩ := hwf.mem_childIndices.1 hv
    exact hkey nd hnd hc
  refine forall_congr' fun c => forall_congr' fun hc => ?_
  rw [tasksOf_eq_nodeTasks hd.wellFormed]
  exact queueBalance_node hwf ord hl hw hc hkey'

/-- Where each vertex has one parent, whatever the colouring is. -/
theorem oneConsumer_of_one_parent {s : Stripe} (hd : s.ecdag.WellFormed)
    (h : ∀ u ∈ s.ecdag.nodeIds, (s.ecdag.parentIds u).length ≤ 1) (c : Int) (u : Nat) :
    s.OneConsumer c u := by
  have hone : ∀ p ∈ s.ecdag.parentIds u, s.ecdag.parentIds u = [p] := by
    intro p hp
    have hlen := h u (hd.childIndices_nodeIds (hd.mem_parentIds.1 hp)).1
    match hps : s.ecdag.parentIds u with
    | [] => rw [hps] at hp; cases hp
    | [q] =>
      rw [hps] at hp
      rw [List.mem_singleton.1 hp]
    | _ :: _ :: _ =>
      rw [hps] at hlen
      simp at hlen
  have hsame : ∀ p ∈ s.ecdag.parentIds u, ∀ q ∈ s.ecdag.parentIds u, q = p := by
    intro p hp q hq
    rw [hone p hp] at hq
    exact List.mem_singleton.1 hq
  refine ⟨fun p hp q hq _ _ => by rw [hsame p hp q hq], fun p hp _ _ => ⟨?_, fun q hq _ =>
    hsame p hp q hq⟩⟩
  obtain ⟨hu, hpn⟩ := hd.childIndices_nodeIds (hd.mem_parentIds.1 hp)
  rw [← hd.count_parentIds hu hpn, hone p hp]
  simp

/-- The queues of the node that sends block 0 and of the node that repairs block 2. -/
theorem sumStripe_balanced :
    QueueBalance 1 (sumStripe.tasksOf (HashOrder.insertion Walk) 3 1 (fun _ => none) 0) ∧
    QueueBalance 1 (sumStripe.tasksOf (HashOrder.insertion Walk) 3 1 (fun _ => none) 5) := by
  have hbal := (queueBalance_iff sumStripe (.concact _ _ _ (ECDAG.built_build _))
    (HashOrder.insertion Walk) 3 1 (by decide) (fun _ => none) (fun i => i)
    ⟨by decide, by decide, by decide⟩ (by decide)).2
    fun c _ => oneConsumer_of_one_parent
      (.concact (ECDAG.built_build _).wellFormed _ _ _) (by decide) c
  exact ⟨hbal 0 (by decide), hbal 5 (by decide)⟩

/-! ## A packet with two consumers -/

/-- Blocks 0 and 4 of a Hitchhiker-XOR+ (7, 4) stripe, repaired on node 7 as the centralized
planner does; block 4 is written on node 8. -/
noncomputable def lostStripe : Stripe where
  ecdag := (HHXORPlus.decode 7 4 (fun _ A => A⁻¹) (packets 2 (survivors 7 {0, 4}))
    (packets 2 (losses 7 {0, 4}))).concact (packets 2 (losses 7 {0, 4})) 7 2
  blklist := ["b0", "b1", "b2", "b3", "b4", "b5", "b6"]
  coloring v := if v ∈ [2, 3, 4, 5, 6, 7, 10, 11] then (v / 2 : Nat)
    else if v = REQUESTOR - 4 then 8 else 7
  distinct := parityStripe.distinct
  named := parityStripe.named

/-- Packet 11 is taken out of its queue on node 7 by two tasks. -/
theorem lostStripe_unbalanced :
    lostStripe.Legal 7 2 (fun i => i) ∧ ¬ ∃ ord : HashOrder Walk, ∀ c, c ≠ -1 →
      QueueBalance 2 (lostStripe.tasksOf ord 7 2 (fun _ => none) c) := by
  have hl : lostStripe.Legal 7 2 (fun i => i) :=
    ⟨by decide +kernel, by decide, by decide +kernel⟩
  refine ⟨hl, ?_⟩
  rintro ⟨ord, h⟩
  have hd : lostStripe.ecdag.WellFormed := .concact (ECDAG.built_build _).wellFormed _ _ _
  have hb := h 7 (by decide)
  rw [tasksOf_eq_nodeTasks hd] at hb
  have hone := (even_iff hd ord hl (by decide) (by decide)).1 hb.even 11
  exact absurd (hone.1 14 (by decide +kernel) 17 (by decide +kernel) (by decide) (by decide))
    (by decide +kernel)

end Stripe

end StripeRepair

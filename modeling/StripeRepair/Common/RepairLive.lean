import StripeRepair.Lib.FifoLive
import StripeRepair.Common.RepairRun

/-!
# A repair comes to an end

A packet of height `h` goes through its queues in the order cache queue, connection, redis,
local queue, and the packets that are computed from it are higher.  So the threads of a
stripe never wait for each other in a circle.

* `split_task`: what a task waits for comes before what it passes on.
* `repair_live`: which stripes are repaired under every schedule, and how long that takes.
* `repair_writes`: at any time the repaired blocks are right as far as they are written.
-/

namespace StripeRepair

namespace Task

section
variable {ecw : Nat} {c : Int} {t : Task} {ch : Chan}

theorem mem_popChans : ch ∈ t.popChans ecw c ↔
    (∃ key ∈ t.pops ecw, ch = .queue c key) ∨ ∃ v ∈ t.recvEntries, ch = .redis c v := by
  constructor
  · intro h
    rcases of_mem_popChans h with ⟨key, rfl⟩ | ⟨v, rfl⟩
    · obtain ⟨op, hop, he⟩ := List.mem_filterMap.1 h
      cases op with
      | pop key' v =>
        cases he
        exact Or.inl ⟨key, List.mem_filterMap.2 ⟨_, hop, rfl⟩, rfl⟩
      | _ => cases he
    · refine Or.inr ⟨v, List.count_pos_iff.1 ?_, rfl⟩
      rw [← count_popChans_redis ecw c t v]
      exact List.count_pos_iff.2 h
  · rintro (⟨key, hkey, rfl⟩ | ⟨v, hv, rfl⟩)
    · obtain ⟨op, hop, he⟩ := List.mem_filterMap.1 hkey
      cases op with
      | pop key' v =>
        cases he
        exact List.mem_filterMap.2 ⟨_, hop, rfl⟩
      | _ => cases he
    · rw [← List.count_pos_iff, count_popChans_redis]
      exact List.count_pos_iff.2 hv

theorem of_mem_pushChans' (h : ch ∈ t.pushChans ecw c) :
    (∃ key ∈ t.pushes ecw, ch = .queue c key) ∨
      (∃ e ∈ t.sendEntries, ch = .wire c e.2 e.1) ∨ ∃ b, ch = .file c b := by
  rcases of_mem_pushChans h with ⟨key, rfl⟩ | ⟨dst, v, rfl⟩ | ⟨b, rfl⟩
  · refine Or.inl ⟨key, List.count_pos_iff.1 ?_, rfl⟩
    rw [← count_pushChans_queue ecw c t key]
    exact List.count_pos_iff.2 h
  · refine Or.inr (Or.inl ⟨(v, dst), List.count_pos_iff.1 ?_, rfl⟩)
    rw [← count_pushChans_wire ecw c t dst v]
    exact List.count_pos_iff.2 h
  · exact Or.inr (Or.inr ⟨b, rfl⟩)

end

end Task

namespace Stripe

/-! ## The order of the queues -/

/-- The place of a queue in a packet round. -/
def rank (s : Stripe) : Chan → Nat
  | .queue _ key => 4 * s.ecdag.height (keyVertex key) + if 0 ≤ key then 3 else 0
  | .wire _ _ dagidx => 4 * s.ecdag.height dagidx + 1
  | .redis _ dagidx => 4 * s.ecdag.height dagidx + 2
  | .file _ _ => 4 * s.ecdag.numLevels + 4

section
variable {s : Stripe}

theorem height_le_numLevels (v : Nat) : s.ecdag.height v ≤ s.ecdag.numLevels := by
  by_cases hv : v ∈ s.ecdag.nodeIds
  · exact (ECDAG.height_lt_numLevels hv).le
  · have h0 : s.ecdag.height v = 0 := LinearProgram.height_of_not_mem hv
    omega

theorem rank_local (c : Int) (v : Nat) :
    s.rank (.queue c (localKey v)) = 4 * s.ecdag.height v + 3 := by
  have h0 : 0 ≤ localKey v := Int.natCast_nonneg v
  rw [rank, keyVertex_localKey, if_pos h0]

theorem rank_cache (c : Int) {v : Nat} (hv : v ≠ REQUESTOR) :
    s.rank (.queue c (cacheKey v)) = 4 * s.ecdag.height v := by
  have h0 := cacheKey_neg v
  rw [rank, keyVertex_cacheKey hv, if_neg (by omega), Nat.add_zero]

/-- What the task waits for in a round has a rank below `b`, what it passes on has not. -/
def SplitAt (s : Stripe) (ecw : Nat) (c : Int) (t : Task) (b : Nat) : Prop :=
  (∀ ch ∈ t.popChans ecw c, s.rank ch < b) ∧ ∀ ch ∈ t.pushChans ecw c, b ≤ s.rank ch

/-- A task that waits for nothing. -/
theorem splitAt_of_no_pops {ecw : Nat} {c : Int} {t : Task} (hpops : t.pops ecw = [])
    (hrecv : t.recvEntries = []) : s.SplitAt ecw c t 0 := by
  refine ⟨fun ch hch => ?_, fun _ _ => Nat.zero_le _⟩
  rcases Task.mem_popChans.1 hch with ⟨key, hkey, -⟩ | ⟨v, hv, -⟩
  · rw [hpops] at hkey
    cases hkey
  · rw [hrecv] at hv
    cases hv

end

section
variable {s : Stripe} {ecn ecw : Nat} {placement : Nat → Int} (hd : s.ecdag.WellFormed)
  (hl : s.Legal ecn ecw placement) (hkey : s.KeysFree) (ord : HashOrder Walk) {c : Int} {t : Task}
include hd hl hkey

/-- The tasks that move the packets of a level. -/
theorem split_moveTasks {level : Nat} (ht : t ∈ s.moveTasks ecn ecw ord c level) :
    ∃ b ≤ 4 * s.ecdag.numLevels + 5, s.SplitAt ecw c t b := by
  have hheight : ∀ {v}, v ∈ s.madeAt ecn ecw ord level → s.ecdag.height v = level :=
    fun hv => (of_mem_madeAt hd hl ord hv).2.1
  rcases List.mem_append.1 ht with ht | ht
  · rcases List.mem_append.1 ht with ht | ht
    · -- a send task: from the cache queue to the connection
      obtain ⟨rfl, u, hu⟩ := mem_taskFor ht
      have hule := height_le_numLevels (s := s) u
      rw [hheight (List.mem_of_mem_filter hu)] at hule
      refine ⟨4 * level + 1, by omega, fun ch hch => ?_, fun ch hch => ?_⟩
      · rcases Task.mem_popChans.1 hch with ⟨key, hkey', rfl⟩ | ⟨v, hv, -⟩
        · rw [Task.pops_send] at hkey'
          obtain ⟨v, hv, rfl⟩ := List.mem_map.1 hkey'
          obtain ⟨hmade, hto⟩ := List.mem_filter.1 hv
          rw [rank_cache c (hkey.usage hd (s.sendto_ne_nil.1 (of_decide_eq_true hto).1)),
            hheight hmade]
          exact Nat.lt_succ_self _
        · cases hv
      · rcases Task.of_mem_pushChans' hch with ⟨key, hkey', -⟩ | ⟨e, he, rfl⟩ | ⟨b, rfl⟩
        · rw [Task.pushes_send] at hkey'
          cases hkey'
        · rw [sendEntries_send] at he
          obtain ⟨v, hv, he⟩ := List.mem_flatMap.1 he
          obtain ⟨c', -, rfl⟩ := List.mem_map.1 he
          rw [rank, hheight (List.mem_of_mem_filter hv)]
        · show _ ≤ 4 * s.ecdag.numLevels + 4
          omega
    · -- a receive task: from the redis to the local queue
      obtain ⟨rfl, u, hu⟩ := mem_taskFor ht
      have hule := height_le_numLevels (s := s) u
      rw [hheight (List.mem_of_mem_filter hu)] at hule
      refine ⟨4 * level + 3, by omega, fun ch hch => ?_, fun ch hch => ?_⟩
      · rcases Task.mem_popChans.1 hch with ⟨key, hkey', -⟩ | ⟨v, hv, rfl⟩
        · rw [Task.pops_recv] at hkey'
          cases hkey'
        · rw [rank, hheight (List.mem_of_mem_filter hv)]
          exact Nat.lt_succ_self _
      · rcases Task.of_mem_pushChans' hch with ⟨key, hkey', rfl⟩ | ⟨e, he, -⟩ | ⟨b, rfl⟩
        · rw [Task.pushes_recv] at hkey'
          obtain ⟨v, hv, rfl⟩ := List.mem_map.1 hkey'
          rw [rank_local, hheight (List.mem_of_mem_filter hv)]
        · cases he
        · show _ ≤ 4 * s.ecdag.numLevels + 4
          omega
  · obtain ⟨rfl, -⟩ := mem_taskFor ht
    exact ⟨0, Nat.zero_le _, splitAt_of_no_pops (Task.pops_read ..) rfl⟩

/-- **What a task waits for comes before what it passes on.** -/
theorem split_task (ht : t ∈ s.nodeTasks ecn ecw ord c) :
    ∃ b ≤ 4 * s.ecdag.numLevels + 5, s.SplitAt ecw c t b := by
  obtain ⟨level, -, ht⟩ := List.mem_flatMap.1 ht
  revert ht
  refine level_cases (s := s) (fun level => t ∈ s.levelTasksOn ecn ecw ord c level →
    ∃ b ≤ 4 * s.ecdag.numLevels + 5, s.SplitAt ecw c t b) ?_ ?_ ?_ level
  · rw [levelTasksOn_zero hd]
    intro ht
    rcases List.mem_append.1 ht with ht | ht
    · obtain ⟨b, vs, rfl, -⟩ := mem_readTasks ecw ord c ((hd.levelAt_nodup ord 0).filter _) ht
      exact ⟨0, Nat.zero_le _, splitAt_of_no_pops (Task.pops_read ..) rfl⟩
    · exact split_moveTasks hd hl hkey ord ht
  · intro level h0 hlast
    rw [levelTasksOn_mid hd ecn ecw ord c h0 hlast]
    intro ht
    rcases List.mem_append.1 ht with ht | ht
    · -- a compute task: from the local queues of lower packets
      obtain ⟨rfl, w, hw⟩ := mem_taskFor ht
      have hheight : ∀ {v}, v ∈ (s.madeAt ecn ecw ord level).filter (fun v => s.coloring v = c) →
          s.ecdag.height v = level :=
        fun hv => (of_mem_madeAt hd hl ord (List.mem_of_mem_filter hv)).2.1
      have hwle := height_le_numLevels (s := s) w
      rw [hheight hw] at hwle
      refine ⟨4 * level, by omega, fun ch hch => ?_, fun ch hch => ?_⟩
      · rcases Task.mem_popChans.1 hch with ⟨key, hkey', rfl⟩ | ⟨v, hv, -⟩
        · rw [Task.pops_compute] at hkey'
          obtain ⟨u, hu, rfl⟩ := List.mem_map.1 hkey'
          obtain ⟨ci, hci, hu⟩ := Worker.mem_inputList.1 hu
          obtain ⟨p, hp, rfl⟩ := List.mem_map.1 hci
          have hlt := hd.height_lt (show u ∈ s.ecdag.childIndices p from hu)
          rw [hheight hp] at hlt
          rw [rank_local]
          omega
        · cases hv
      · rcases Task.of_mem_pushChans' hch with ⟨key, hkey', rfl⟩ | ⟨e, he, -⟩ | ⟨b, rfl⟩
        · rw [(Task.pushes_compute ecw _).mem_iff, Task.queues, List.flatMap_map] at hkey'
          obtain ⟨v, hv, hkey'⟩ := List.mem_flatMap.1 hkey'
          have husage : key ∈ Task.usageQueues (s.usage v) v := hkey'
          rw [← hheight hv]
          rcases List.mem_append.1 husage with h | h
          · split at h
            · rw [List.mem_singleton.1 h, rank_local]
              omega
            · cases h
          · split at h
            · next h2 =>
              rw [List.mem_singleton.1 h, rank_cache c (hkey.usage hd h2)]
            · cases h
        · cases he
        · show _ ≤ 4 * s.ecdag.numLevels + 4
          omega
    · exact split_moveTasks hd hl hkey ord ht
  · intro h0 ht
    rw [levelTasksOn_last ecn ecw ord c h0] at ht
    obtain ⟨v, -, rfl⟩ := List.mem_map.1 ht
    refine ⟨4 * s.ecdag.numLevels + 4, by omega, fun ch hch => ?_, fun ch hch => ?_⟩
    · rcases Task.mem_popChans.1 hch with ⟨key, hkey', rfl⟩ | ⟨u, hu, -⟩
      · rw [Task.pops_persist] at hkey'
        obtain ⟨u, -, rfl⟩ := List.mem_map.1 hkey'
        have := height_le_numLevels (s := s) u
        rw [rank_local]
        omega
      · cases hu
    · rcases Task.of_mem_pushChans' hch with ⟨key, hkey', -⟩ | ⟨e, he, -⟩ | ⟨b, rfl⟩
      · rw [Task.pushes_persist] at hkey'
        cases hkey'
      · cases he
      · exact Nat.le_refl _

end

end Stripe

/-! ## The threads of a network -/

section
variable {pktbytes : Nat} {tasks : Int → List Task} {ecw pktnum : Nat}
  {disk : Int → Option String → Nat → GF256} {regs : ThreadId → Nat → Packet pktbytes}

/-- No two threads pop from one queue, when the tasks of a node do not. -/
theorem popsApart_program (h : ∀ c ch, ((tasks c).flatMap (Task.popChans ecw c)).count ch ≤ 1) :
    FifoNet.PopsApart (program tasks ecw pktnum disk :
      ThreadId → List (FifoNet.Instr _ _ (Packet pktbytes))) := by
  intro i j hij ch
  by_contra hno
  rw [not_or] at hno
  rcases of_popRegs_program hno.1 with ⟨c, k, t, rfl, ht, hch⟩ | ⟨c, dst, v, rfl, rfl⟩
  · rcases of_popRegs_program hno.2 with ⟨c', k', t', rfl, ht', hch'⟩ | ⟨c', dst', v', rfl, rfl⟩
    · obtain rfl : c = c' := by
        rcases Task.of_mem_popChans hch with ⟨key, rfl⟩ | ⟨v, rfl⟩
        · rcases Task.of_mem_popChans hch' with ⟨key', he⟩ | ⟨v', he⟩ <;> cases he
          rfl
        · rcases Task.of_mem_popChans hch' with ⟨key', he⟩ | ⟨v', he⟩ <;> cases he
          rfl
      have hone := (Stripe.countP_mem_le_count (tasks c) (Task.popChans ecw c) ch).trans (h c ch)
      refine hij ?_
      rw [Stripe.index_unique hone ht ht' (by simpa using hch) (by simpa using hch')]
    · rcases Task.of_mem_popChans hch with ⟨key, he⟩ | ⟨v, he⟩ <;> cases he
  · rcases of_popRegs_program hno.2 with ⟨c', k', t', rfl, ht', hch'⟩ | ⟨c', dst', v', rfl, he⟩
    · rcases Task.of_mem_popChans hch' with ⟨key, he⟩ | ⟨v, he⟩ <;> cases he
    · cases he
      exact hij rfl

/-- The threads of the tasks of the nodes, and the connections that they use. -/
def threadsOf (tasks : Int → List Task) (nodes : List Int) : List ThreadId :=
  nodes.flatMap fun c => (List.range (tasks c).length).map (ThreadId.task c) ++
    ((tasks c).flatMap Task.sendEntries).dedup.map fun e => ThreadId.net c e.2 e.1

/-- The steps of all threads: a connection takes two for each packet. -/
def stepsOf (tasks : Int → List Task) (nodes : List Int) (ecw pktnum : Nat) : Nat :=
  pktnum * (nodes.map fun c => ((tasks c).map fun t => (t.round ecw).length).sum +
    2 * ((tasks c).flatMap Task.sendEntries).length).sum

theorem nodup_threadsOf {nodes : List Int} (hnodes : nodes.Nodup) :
    (threadsOf tasks nodes).Nodup := by
  refine List.nodup_flatMap.2 ⟨fun c _ => List.nodup_append.2 ⟨?_, ?_, ?_⟩, ?_⟩
  · exact List.nodup_range.map fun _ _ h => (ThreadId.task.inj h).2
  · refine (List.nodup_dedup _).map fun e e' h => ?_
    obtain ⟨-, h2, h1⟩ := ThreadId.net.inj h
    exact Prod.ext h1 h2
  · rintro _ ha _ hb rfl
    obtain ⟨k, -, rfl⟩ := List.mem_map.1 ha
    obtain ⟨e, -, he⟩ := List.mem_map.1 hb
    cases he
  · refine hnodes.imp fun {c c'} hne => ?_
    have hnode : ∀ {c i}, i ∈ (List.range (tasks c).length).map (ThreadId.task c) ++
        ((tasks c).flatMap Task.sendEntries).dedup.map (fun e => ThreadId.net c e.2 e.1) →
        (∃ k, i = .task c k) ∨ ∃ dst v, i = .net c dst v := by
      intro c i hi
      rcases List.mem_append.1 hi with hi | hi
      · obtain ⟨k, -, rfl⟩ := List.mem_map.1 hi
        exact Or.inl ⟨k, rfl⟩
      · obtain ⟨e, -, rfl⟩ := List.mem_map.1 hi
        exact Or.inr ⟨e.2, e.1, rfl⟩
    refine List.disjoint_left.2 fun i hi hi' => hne ?_
    rcases hnode hi with ⟨k, rfl⟩ | ⟨dst, v, rfl⟩
    · rcases hnode hi' with ⟨k', he⟩ | ⟨dst', v', he⟩ <;> cases he
      rfl
    · rcases hnode hi' with ⟨k', he⟩ | ⟨dst', v', he⟩ <;> cases he
      rfl

theorem program_net_of_not_sent {c dst : Int} {v : Nat}
    (h : (v, dst) ∉ (tasks c).flatMap Task.sendEntries) :
    (program tasks ecw pktnum disk (.net c dst v) :
      List (FifoNet.Instr _ _ (Packet pktbytes))) = [] := by
  rw [program, List.count_eq_zero.2 h, Nat.mul_zero]
  rfl

/-- The other threads have nothing to do. -/
theorem program_of_not_mem_threadsOf {nodes : List Int} (hnodes : ∀ c ∉ nodes, tasks c = [])
    {i : ThreadId} (hi : i ∉ threadsOf tasks nodes) :
    (program tasks ecw pktnum disk i : List (FifoNet.Instr _ _ (Packet pktbytes))) = [] := by
  have hpart : ∀ {c}, c ∈ nodes → i ∉ (List.range (tasks c).length).map (ThreadId.task c) ∧
      i ∉ ((tasks c).flatMap Task.sendEntries).dedup.map fun e => ThreadId.net c e.2 e.1 := by
    intro c hc
    rw [← not_or, ← List.mem_append]
    exact fun h => hi (List.mem_flatMap.2 ⟨c, hc, h⟩)
  cases i with
  | task c k =>
    cases ht : (tasks c)[k]? with
    | none => exact program_none ht
    | some t =>
      have hk := (List.getElem?_eq_some_iff.1 ht).1
      by_cases hc : c ∈ nodes
      · exact absurd (List.mem_map_of_mem (List.mem_range.2 hk)) (hpart hc).1
      · rw [hnodes c hc] at hk
        cases hk
  | net c dst v =>
    refine program_net_of_not_sent fun hmem => ?_
    by_cases hc : c ∈ nodes
    · exact (hpart hc).2 (List.mem_map.2 ⟨(v, dst), List.mem_dedup.2 hmem, rfl⟩)
    · rw [hnodes c hc] at hmem
      cases hmem

theorem length_program_task {c : Int} {k : Nat} {t : Task} (h : (tasks c)[k]? = some t) :
    (program tasks ecw pktnum disk (.task c k) :
      List (FifoNet.Instr _ _ (Packet pktbytes))).length = pktnum * (t.round ecw).length := by
  rw [program_some h, List.length_flatMap]
  simp [Task.body]

theorem length_program_net (c dst : Int) (v : Nat) :
    (program tasks ecw pktnum disk (.net c dst v) :
      List (FifoNet.Instr _ _ (Packet pktbytes))).length =
        pktnum * (2 * ((tasks c).flatMap Task.sendEntries).count (v, dst)) := by
  rw [program, List.length_flatMap]
  simp [deliver, Nat.mul_assoc, Nat.mul_comm 2]

/-- All that there is to do. -/
theorem left_start (nodes : List Int) :
    (FifoNet.Net.start (program tasks ecw pktnum disk) regs).left (threadsOf tasks nodes) =
      stepsOf tasks nodes ecw pktnum := by
  let len : ThreadId → Nat := fun i => (program tasks ecw pktnum disk i :
    List (FifoNet.Instr _ _ (Packet pktbytes))).length
  show ((threadsOf tasks nodes).map len).sum = _
  rw [threadsOf, stepsOf, ← List.sum_map_mul_left, List.map_flatMap,
    List.flatMap_def, List.sum_flatten, List.map_map]
  congr 1
  refine List.map_congr_left fun c _ => ?_
  rw [Function.comp_apply, List.map_append, List.sum_append, Nat.mul_add]
  congr 1
  · exact sum_tasks fun h => length_program_task h
  · have hnet : ∀ e : Nat × Int, len (.net c e.2 e.1) =
        pktnum * (2 * ((tasks c).flatMap Task.sendEntries).count e) :=
      fun e => length_program_net c e.2 e.1
    rw [List.map_map, ← List.sum_map_count_dedup_eq_length, ← List.sum_map_mul_left,
      ← List.sum_map_mul_left]
    congr 1
    refine List.map_congr_left fun e _ => (hnet e).trans ?_
    congr!

variable (regs) in
/-- The tasks of one agent and one connection are all that uses a queue. -/
theorem counted_net {c : Int} {i0 : ThreadId} (hi0 : ∀ k, i0 ≠ .task c k) {ch : Chan}
    (hpop : ∀ i, FifoNet.popRegs ch (program tasks ecw pktnum disk i :
      List (FifoNet.Instr _ _ (Packet pktbytes))) ≠ [] →
        i = i0 ∨ ∃ k < (tasks c).length, i = .task c k)
    (hpush : ∀ i, FifoNet.pushRegs ch (program tasks ecw pktnum disk i :
      List (FifoNet.Instr _ _ (Packet pktbytes))) ≠ [] →
        i = i0 ∨ ∃ k < (tasks c).length, i = .task c k) :
    ((List.range (tasks c).length).map (ThreadId.task c) ++ [i0]).Nodup ∧
    FifoNet.Counted ((List.range (tasks c).length).map (ThreadId.task c) ++ [i0]) ch
      (pktnum * ((tasks c).flatMap (Task.popChans ecw c)).count ch +
        (FifoNet.popRegs ch (program tasks ecw pktnum disk i0 :
          List (FifoNet.Instr _ _ (Packet pktbytes)))).length)
      (pktnum * ((tasks c).flatMap (Task.pushChans ecw c)).count ch +
        (FifoNet.pushRegs ch (program tasks ecw pktnum disk i0 :
          List (FifoNet.Instr _ _ (Packet pktbytes)))).length)
      (FifoNet.Net.start (program tasks ecw pktnum disk) regs) := by
  have hmem : ∀ {i}, (i = i0 ∨ ∃ k < (tasks c).length, i = ThreadId.task c k) →
      i ∈ (List.range (tasks c).length).map (ThreadId.task c) ++ [i0] := by
    rintro i (rfl | ⟨k, hk, rfl⟩)
    · exact List.mem_append_right _ (List.mem_singleton_self _)
    · exact List.mem_append_left _ (List.mem_map_of_mem (List.mem_range.2 hk))
  constructor
  · refine List.nodup_append.2 ⟨?_, List.nodup_singleton _, ?_⟩
    · exact List.nodup_range.map fun _ _ h => (ThreadId.task.inj h).2
    · rintro a ha b hb rfl
      obtain ⟨k, -, rfl⟩ := List.mem_map.1 ha
      exact hi0 k (List.mem_singleton.1 hb).symm
  · refine ⟨fun i hi => ⟨?_, ?_⟩, ?_, ?_, Nat.le_refl _⟩
    · by_contra hne
      exact hi (hmem (hpop i hne))
    · by_contra hne
      exact hi (hmem (hpush i hne))
    · show 0 + _ = _
      rw [Nat.zero_add, List.map_append, List.sum_append, List.count_flatMap]
      congr 1
      exact sum_tasks fun h => (uses_task h ch).1
    · show 0 + _ = _
      rw [Nat.zero_add, List.map_append, List.sum_append, List.count_flatMap]
      congr 1
      exact sum_tasks fun h => (uses_task h ch).2

/-- How often a queue is emptied and filled in a packet round of all agents, when packet `v` is
sent by the agent `sender v`. -/
def usesOf (tasks : Int → List Task) (ecw : Nat) (sender : Nat → Int) : Chan → Nat × Nat
  | .queue c key => (((tasks c).flatMap (Task.popChans ecw c)).count (.queue c key),
    ((tasks c).flatMap (Task.pushChans ecw c)).count (.queue c key))
  | .wire c dst v => (((tasks c).flatMap Task.sendEntries).count (v, dst),
    ((tasks c).flatMap Task.sendEntries).count (v, dst))
  | .redis dst v => (((tasks dst).flatMap Task.recvEntries).count v,
    ((tasks (sender v)).flatMap Task.sendEntries).count (v, dst))
  | .file c b => (0, ((tasks c).flatMap (Task.pushChans ecw c)).count (.file c b))

variable (regs) in
/-- **How often a queue is emptied and filled** in all. -/
theorem counted_program (sender : Nat → Int)
    (hsender : ∀ c, ∀ e ∈ (tasks c).flatMap Task.sendEntries, sender e.1 = c) (ch : Chan) :
    ∃ ts : List ThreadId, ts.Nodup ∧
      FifoNet.Counted ts ch (pktnum * (usesOf tasks ecw sender ch).1)
        (pktnum * (usesOf tasks ecw sender ch).2)
        (FifoNet.Net.start (program tasks ecw pktnum disk) regs) := by
  have hrun : Lts.run FifoNet.step (FifoNet.Net.start (program tasks ecw pktnum disk) regs) [] =
      some (FifoNet.Net.start (program tasks ecw pktnum disk) regs) := rfl
  have hnodup : ∀ c, ((List.range (tasks c).length).map (ThreadId.task c)).Nodup :=
    fun c => List.nodup_range.map fun _ _ h => (ThreadId.task.inj h).2
  have hlt : ∀ {c k t}, (tasks c)[k]? = some t → k < (tasks c).length :=
    fun h => (List.getElem?_eq_some_iff.1 h).1
  cases ch with
  | queue c key => exact ⟨_, hnodup c, counted_tasks rfl hrun⟩
  | file c b =>
    have hnone : ((tasks c).flatMap (Task.popChans ecw c)).count (.file c b) = 0 := by
      refine List.count_eq_zero.2 fun h => ?_
      obtain ⟨t, -, h⟩ := List.mem_flatMap.1 h
      rcases Task.of_mem_popChans h with ⟨key, he⟩ | ⟨v, he⟩ <;> cases he
    have hc := counted_tasks (show Chan.agent (.file c b) = some c from rfl) hrun
    rw [hnone] at hc
    exact ⟨_, hnodup c, hc⟩
  | wire c dst v =>
    have hpop : ∀ i, FifoNet.popRegs (.wire c dst v) (program tasks ecw pktnum disk i :
        List (FifoNet.Instr _ _ (Packet pktbytes))) ≠ [] →
          i = .net c dst v ∨ ∃ k < (tasks c).length, i = .task c k := by
      intro i hne
      rcases of_popRegs_program hne with ⟨c', k, t, rfl, ht, hin⟩ | ⟨c', dst', v', rfl, he⟩
      · rcases Task.of_mem_popChans hin with ⟨key, he⟩ | ⟨v, he⟩ <;> cases he
      · cases he
        exact Or.inl rfl
    have hpush : ∀ i, FifoNet.pushRegs (.wire c dst v) (program tasks ecw pktnum disk i :
        List (FifoNet.Instr _ _ (Packet pktbytes))) ≠ [] →
          i = .net c dst v ∨ ∃ k < (tasks c).length, i = .task c k := by
      intro i hne
      rcases of_pushRegs_program hne with ⟨c', k, t, rfl, ht, hin⟩ | ⟨c', dst', v', rfl, he, -⟩
      · rcases Task.of_mem_pushChans hin with ⟨key, he⟩ | ⟨dst', v', he⟩ | ⟨b, he⟩ <;> cases he
        exact Or.inr ⟨k, hlt ht, rfl⟩
      · cases he
    obtain ⟨hts, hc⟩ := counted_net regs (fun k h => by cases h) hpop hpush
    have hnone : ((tasks c).flatMap (Task.popChans ecw c)).count (.wire c dst v) = 0 := by
      refine List.count_eq_zero.2 fun h => ?_
      obtain ⟨t, -, h⟩ := List.mem_flatMap.1 h
      rcases Task.of_mem_popChans h with ⟨key, he⟩ | ⟨v, he⟩ <;> cases he
    rw [(uses_net c dst v _).1, (uses_net c dst v _).2, hnone,
      Stripe.count_flatMap_congr fun t _ => Task.count_pushChans_wire ecw c t dst v] at hc
    simp only [Nat.mul_zero, Nat.zero_add, if_true, Nat.mul_one, reduceCtorEq, if_false,
      Nat.add_zero] at hc
    exact ⟨_, hts, hc⟩
  | redis dst v =>
    have hpop : ∀ i, FifoNet.popRegs (.redis dst v) (program tasks ecw pktnum disk i :
        List (FifoNet.Instr _ _ (Packet pktbytes))) ≠ [] →
          i = .net (sender v) dst v ∨ ∃ k < (tasks dst).length, i = .task dst k := by
      intro i hne
      rcases of_popRegs_program hne with ⟨c', k, t, rfl, ht, hin⟩ | ⟨c', dst', v', rfl, he⟩
      · rcases Task.of_mem_popChans hin with ⟨key, he⟩ | ⟨v, he⟩ <;> cases he
        exact Or.inr ⟨k, hlt ht, rfl⟩
      · cases he
    have hpush : ∀ i, FifoNet.pushRegs (.redis dst v) (program tasks ecw pktnum disk i :
        List (FifoNet.Instr _ _ (Packet pktbytes))) ≠ [] →
          i = .net (sender v) dst v ∨ ∃ k < (tasks dst).length, i = .task dst k := by
      intro i hne
      rcases of_pushRegs_program hne with ⟨c', k, t, rfl, ht, hin⟩ | ⟨c', dst', v', rfl, he, hs⟩
      · rcases Task.of_mem_pushChans hin with ⟨key, he⟩ | ⟨dst', v', he⟩ | ⟨b, he⟩ <;> cases he
      · cases he
        rw [hsender c' _ hs]
        exact Or.inl rfl
    obtain ⟨hts, hc⟩ := counted_net regs (fun k h => by cases h) hpop hpush
    have hnone : ((tasks dst).flatMap (Task.pushChans ecw dst)).count (.redis dst v) = 0 := by
      refine List.count_eq_zero.2 fun h => ?_
      obtain ⟨t, -, h⟩ := List.mem_flatMap.1 h
      rcases Task.of_mem_pushChans h with ⟨key, he⟩ | ⟨dst', v', he⟩ | ⟨b, he⟩ <;> cases he
    rw [(uses_net _ dst v _).1, (uses_net _ dst v _).2, hnone,
      Stripe.count_flatMap_congr fun t _ => Task.count_popChans_redis ecw dst t v] at hc
    simp only [Nat.mul_zero, Nat.zero_add, if_true, Nat.mul_one, reduceCtorEq, if_false,
      Nat.add_zero] at hc
    exact ⟨_, hts, hc⟩

/-- **No queue is emptied more often than filled**, when this holds of the queues of each agent
and everything that is received is sent. -/
theorem fed_program (sender : Nat → Int)
    (hle : ∀ c key, ((tasks c).flatMap (Task.popChans ecw c)).count (.queue c key) ≤
      ((tasks c).flatMap (Task.pushChans ecw c)).count (.queue c key))
    (hsender : ∀ c, ∀ e ∈ (tasks c).flatMap Task.sendEntries, sender e.1 = c)
    (hrecv : ∀ dst v, ((tasks dst).flatMap Task.recvEntries).count v ≤
      ((tasks (sender v)).flatMap Task.sendEntries).count (v, dst)) (ch : Chan) :
    FifoNet.Fed (FifoNet.Net.start (program tasks ecw pktnum disk) regs) ch := by
  obtain ⟨ts, hts, hc⟩ := counted_program regs sender hsender ch
  refine ⟨ts, _, _, hts, Nat.mul_le_mul_left _ ?_, hc⟩
  cases ch with
  | queue c key => exact hle c key
  | wire c dst v => exact Nat.le_refl _
  | redis dst v => exact hrecv dst v
  | file c b => exact Nat.zero_le _

end

namespace Stripe

/-! ## Which stripes are repaired -/

/-- Each packet has one consumer on each node, and what is persisted is persisted on a node. -/
structure WellPlanned (s : Stripe) : Prop where
  consumer : ∀ c, c ≠ -1 → ∀ u, s.OneConsumer c u
  placed : ∀ v ∈ s.ecdag.nodeIds, s.ecdag.height v = s.ecdag.numLevels - 1 →
    s.ecdag.height v ≠ 0 → s.coloring v ≠ -1

section
variable {s : Stripe} {ecn ecw : Nat} {placement : Nat → Int} (hd : s.ecdag.WellFormed)
  (hl : s.Legal ecn ecw placement) (hkey : s.KeysFree) (ord : HashOrder Walk)

theorem count_popChans_queue (c : Int) (t : Task) (key : Int) :
    (t.popChans ecw c).count (.queue c key) = (t.pops ecw).count key := by
  rw [Task.popChans, Task.pops, List.count_filterMap, List.count_filterMap]
  refine List.countP_congr fun op _ => ?_
  cases op <;> simp [Op.popChan, Op.popKey]

/-- The queues of an agent, as keys. -/
theorem count_keys (c key : Int) :
    ((s.nodeTasks ecn ecw ord c).flatMap (Task.popChans ecw c)).count (.queue c key) =
      ((s.nodeTasks ecn ecw ord c).flatMap (Task.pops ecw)).count key ∧
    ((s.nodeTasks ecn ecw ord c).flatMap (Task.pushChans ecw c)).count (.queue c key) =
      ((s.nodeTasks ecn ecw ord c).flatMap (Task.pushes ecw)).count key :=
  ⟨count_flatMap_congr fun t _ => count_popChans_queue c t key,
    count_flatMap_congr fun t _ => Task.count_pushChans_queue ecw c t key⟩

include hd hl

/-- Node -1 pushes nothing. -/
theorem pushes_neg : (s.nodeTasks ecn ecw ord (-1)).flatMap (Task.pushes ecw) = [] := by
  refine List.flatMap_eq_nil_iff.2 fun t ht => ?_
  cases taskOf_nodeTasks hd hl ord ht with
  | persist v hv h => exact Task.pushes_persist ecw _ _
  | _ => contradiction

/-- When each packet on the last level is persisted on a node, node -1 has no tasks. -/
theorem nodeTasks_neg (hplaced : ∀ v ∈ s.ecdag.nodeIds,
    s.ecdag.height v = s.ecdag.numLevels - 1 → s.ecdag.height v ≠ 0 → s.coloring v ≠ -1) :
    s.nodeTasks ecn ecw ord (-1) = [] := by
  refine List.eq_nil_iff_forall_not_mem.2 fun t ht => ?_
  obtain ⟨b, hb⟩ : ∃ b, t.persistsTo b = true := by
    cases taskOf_nodeTasks hd hl ord ht with
    | persist v hv h => exact ⟨_, decide_eq_true rfl⟩
    | _ => contradiction
  obtain ⟨level, -, ht⟩ := List.mem_flatMap.1 ht
  by_cases hlast : level ≠ s.ecdag.numLevels - 1 ∨ level = 0
  · have hnone := persists_of_ne_last hd ord ecn ecw (-1) b hlast
    exact List.filter_eq_nil_iff.1 hnone t ht hb
  · obtain ⟨rfl, h0⟩ : level = s.ecdag.numLevels - 1 ∧ level ≠ 0 := by
      rw [not_or, not_not] at hlast
      exact hlast
    rw [levelTasksOn_last ecn ecw ord (-1) h0] at ht
    obtain ⟨v, hv, rfl⟩ := List.mem_map.1 ht
    obtain ⟨hv, hc⟩ := List.mem_filter.1 hv
    obtain ⟨hmem, hh⟩ := hd.mem_levelAt.1 hv
    exact hplaced v hmem hh (hh ▸ h0) (of_decide_eq_true hc)

/-- **The queues of a well-planned stripe** are emptied as often as filled. -/
theorem WellPlanned.even (hw : 0 < ecw) (hplan : s.WellPlanned) (c key : Int) :
    ((s.nodeTasks ecn ecw ord c).flatMap (Task.popChans ecw c)).count (.queue c key) =
      ((s.nodeTasks ecn ecw ord c).flatMap (Task.pushChans ecw c)).count (.queue c key) := by
  by_cases hc : c = -1
  · subst hc
    rw [nodeTasks_neg hd hl ord hplan.placed]
    rfl
  · rw [(count_keys ord c key).1, (count_keys ord c key).2]
    exact ((even_iff hd ord hl hw hc).2 (hplan.consumer c hc) key).symm

/-- Also those between the agents; what is written to a file stays there. -/
theorem WellPlanned.usesOf_eq (hw : 0 < ecw) (hplan : s.WellPlanned) {ch : Chan}
    (hch : ∀ c b, ch ≠ .file c b) :
    (usesOf (s.nodeTasks ecn ecw ord) ecw s.coloring ch).1 =
      (usesOf (s.nodeTasks ecn ecw ord) ecw s.coloring ch).2 := by
  cases ch with
  | queue c key => exact hplan.even hd hl ord hw c key
  | wire c dst v => rfl
  | redis dst v =>
    -- a packet is received where it is sent to, both times at most once
    show List.count v _ = List.count (v, dst) _
    by_cases hmem : v ∈ (s.nodeTasks ecn ecw ord dst).flatMap Task.recvEntries
    · obtain ⟨hv, hne, hdiff, hused⟩ := (mem_recvs hd ord hl).1 hmem
      rw [List.count_eq_one_of_mem (nodup_recvs hd ord dst) hmem,
        List.count_eq_one_of_mem (nodup_sends hd ord _)
          ((mem_sends hd ord hl).2 ⟨hv, hne, rfl, hdiff, hused⟩)]
    · rw [List.count_eq_zero.2 hmem, List.count_eq_zero.2 fun h => hmem ?_]
      obtain ⟨hv, hne, -, hdiff, hused⟩ := (mem_sends hd ord hl).1 h
      exact (mem_recvs hd ord hl).2 ⟨hv, hne, hdiff, hused⟩
  | file c b => exact absurd rfl (hch c b)

include hkey

/-- **Only well-planned stripes** have such queues. -/
theorem wellPlanned_of_le (hw : 0 < ecw)
    (hle : ∀ c key, ((s.nodeTasks ecn ecw ord c).flatMap (Task.popChans ecw c)).count
        (.queue c key) ≤
      ((s.nodeTasks ecn ecw ord c).flatMap (Task.pushChans ecw c)).count (.queue c key)) :
    s.WellPlanned := by
  have hkeys : ∀ c key, ((s.nodeTasks ecn ecw ord c).flatMap (Task.pops ecw)).count key ≤
      ((s.nodeTasks ecn ecw ord c).flatMap (Task.pushes ecw)).count key := by
    intro c key
    rw [← (count_keys ord c key).1, ← (count_keys ord c key).2]
    exact hle c key
  constructor
  · intro c hc
    refine (even_iff hd ord hl hw hc).1 fun key => Nat.le_antisymm ?_ (hkeys c key)
    by_cases hpush : key ∈ (s.nodeTasks ecn ecw ord c).flatMap (Task.pushes ecw)
    · refine (List.nodup_iff_count_le_one.1
        (nodup_pushes hd ord hl hw hc (hkey.childIndices hd)) key).trans ?_
      -- what is in use is popped at least once
      refine List.count_pos_iff.2 ((pops_perm hd ord c).mem_iff.2 ?_)
      rcases List.mem_append.1 ((pushes_perm_keys hd ord hl hw hc).mem_iff.1 hpush) with h | h
      · exact List.mem_append_left _ h
      · refine List.mem_append_right _ ?_
        obtain ⟨u, hu, rfl⟩ := List.mem_map.1 h
        obtain ⟨p, hp, hpc⟩ : s.UsedOn u c := of_decide_eq_true (List.mem_filter.1 hu).2
        refine List.mem_map_of_mem (List.mem_flatMap.2 ⟨s.ecdag.height p, ?_, ?_⟩)
        · exact List.mem_range.2 (ECDAG.height_lt_numLevels
            (hd.childIndices_nodeIds (hd.mem_parentIds.1 hp)).2)
        · exact (mem_consumed hd ord hc).2 ⟨p, hp, hpc, rfl⟩
    · rw [List.count_eq_zero.2 hpush]
      exact Nat.zero_le _
  · intro v hv hh h0 hc
    obtain ⟨u, hu⟩ := List.exists_mem_of_ne_nil _ (mt (hd.height_eq_zero hv).2 h0)
    have hpop : localKey u ∈ (s.nodeTasks ecn ecw ord (-1)).flatMap (Task.pops ecw) := by
      refine (pops_perm hd ord (-1)).mem_iff.2 (List.mem_append_right _ (List.mem_map_of_mem ?_))
      refine List.mem_flatMap.2 ⟨s.ecdag.numLevels - 1, ?_, ?_⟩
      · have := ECDAG.height_lt_numLevels hv
        exact List.mem_range.2 (by omega)
      · rw [consumed, if_neg (hh ▸ h0), if_pos rfl]
        refine List.mem_flatMap.2 ⟨v, List.mem_filter.2 ⟨hd.mem_levelAt.2 ⟨hv, hh⟩, ?_⟩, hu⟩
        exact decide_eq_true hc
    have hle1 := hkeys (-1) (localKey u)
    rw [pushes_neg hd hl ord, List.count_nil, Nat.le_zero] at hle1
    exact List.count_eq_zero.1 hle1 hpop

/-- A node pops from no queue twice in a round. -/
theorem WellPlanned.count_popChans_le (hw : 0 < ecw) (hplan : s.WellPlanned) (c : Int) (ch : Chan) :
    ((s.nodeTasks ecn ecw ord c).flatMap (Task.popChans ecw c)).count ch ≤ 1 := by
  by_cases hmem : ch ∈ (s.nodeTasks ecn ecw ord c).flatMap (Task.popChans ecw c)
  · obtain ⟨t, ht, hin⟩ := List.mem_flatMap.1 hmem
    rcases Task.of_mem_popChans hin with ⟨key, rfl⟩ | ⟨v, rfl⟩
    · exact (hplan.even hd hl ord hw c key).le.trans
        (count_pushChans_le hd hl hkey ord hw c _ fun b h => by cases h)
    · rw [count_flatMap_congr fun t _ => Task.count_popChans_redis ecw c t v]
      exact List.nodup_iff_count_le_one.1 (nodup_recvs hd ord c) v
  · rw [List.count_eq_zero.2 hmem]
    exact Nat.zero_le 1

section
variable {pktbytes : Nat} (pktnum : Nat) (disk : Int → Option String → Nat → GF256)
  (regs : ThreadId → Nat → Packet pktbytes)

/-- **Each thread passes on what comes after what it waits for.** -/
theorem staged_program (hw : 0 < ecw) (hplan : s.WellPlanned) (i : ThreadId) :
    FifoNet.Staged (FifoNet.stageOf (4 * s.ecdag.numLevels + 5) s.rank)
      (program (s.nodeTasks ecn ecw ord) ecw pktnum disk i :
        List (FifoNet.Instr _ _ (Packet pktbytes))) (fun _ => 0) (fun _ => 0) 0 := by
  cases i with
  | task c k =>
    cases ht : (s.nodeTasks ecn ecw ord c)[k]? with
    | none =>
      rw [program_none ht]
      trivial
    | some t =>
      have hmem := List.mem_of_getElem? ht
      obtain ⟨b, hb, hpops, hpushes⟩ := split_task hd hl hkey ord hmem
      rw [program_some ht]
      refine FifoNet.staged_rounds hb (fun r ch => Task.length_popRegs_body ecw disk c t r ch)
        (fun r ch => Task.length_pushRegs_body ecw disk c t r ch) (fun ch => ?_)
        (fun r => ⟨fun ch hne => hpops ch ?_, fun ch hne => hpushes ch ?_⟩) _
      · exact (count_le_count_flatMap hmem _ ch).trans
          (hplan.count_popChans_le hd hl hkey ord hw c ch)
      · have hpos := List.length_pos_iff.2 hne
        rw [Task.length_popRegs_body] at hpos
        exact List.count_pos_iff.1 hpos
      · have hpos := List.length_pos_iff.2 hne
        rw [Task.length_pushRegs_body] at hpos
        exact List.count_pos_iff.1 hpos
  | net c dst v =>
    have hle := height_le_numLevels (s := s) v
    have hb : 4 * s.ecdag.height v + 2 ≤ 4 * s.ecdag.numLevels + 5 := by omega
    refine FifoNet.staged_rounds hb (fun _ ch => length_popRegs_deliver c dst v ch)
      (fun _ ch => length_pushRegs_deliver c dst v ch) (fun ch => ?_)
      (fun r => ⟨fun ch hne => ?_, fun ch hne => ?_⟩) _
    · split
      · exact Nat.le_refl 1
      · exact Nat.zero_le 1
    · have hpos := List.length_pos_iff.2 hne
      rw [length_popRegs_deliver] at hpos
      split at hpos
      · next he =>
        subst he
        exact Nat.lt_succ_self _
      · exact absurd hpos (Nat.lt_irrefl 0)
    · have hpos := List.length_pos_iff.2 hne
      rw [length_pushRegs_deliver] at hpos
      split at hpos
      · next he =>
        subst he
        exact Nat.le_refl _
      · exact absurd hpos (Nat.lt_irrefl 0)

/-- **A run of a well-planned stripe that cannot go on has ended all threads.** -/
theorem WellPlanned.done_of_stuck (hw : 0 < ecw) (hplan : s.WellPlanned) {schedule : List ThreadId}
    {net : FifoNet.Net ThreadId Chan Nat (Packet pktbytes)}
    (hrun : Lts.run FifoNet.step (FifoNet.Net.start
      (program (s.nodeTasks ecn ecw ord) ecw pktnum disk) regs) schedule = some net)
    (hstuck : Lts.Stuck FifoNet.step net) : net.Done := by
  refine FifoNet.done_of_stuck (FifoNet.monotone_stageOf _ _)
    (staged_program hd hl hkey ord pktnum disk hw hplan)
    (popsApart_program (hplan.count_popChans_le hd hl hkey ord hw))
    (fed_program s.coloring (fun c key => (hplan.even hd hl ord hw c key).le) (fun c e he => ?_) fun dst v => ?_)
    hrun hstuck
  · exact color_of_mem_sends hd hl ord he
  · -- what is received is sent by the node of its colour
    by_cases hmem : v ∈ (s.nodeTasks ecn ecw ord dst).flatMap Task.recvEntries
    · obtain ⟨hv, hne, hdiff, hused⟩ := (mem_recvs hd ord hl).1 hmem
      refine (List.nodup_iff_count_le_one.1 (nodup_recvs hd ord dst) v).trans ?_
      exact List.count_pos_iff.2 ((mem_sends hd ord hl).2 ⟨hv, hne, rfl, hdiff, hused⟩)
    · rw [List.count_eq_zero.2 hmem]
      exact Nat.zero_le _

end

end

/-! ## All runs -/

/-- The steps of a repair. -/
def steps (s : Stripe) (ord : HashOrder Walk) (ecn ecw : Nat) (fail2repair : Int → Option Int)
    (pktnum : Nat) : Nat :=
  stepsOf (s.tasksOf ord ecn ecw fail2repair) (s.genRepairTasks ord ecn ecw fail2repair).keys ecw
    pktnum

theorem tasksOf_eq_nil (s : Stripe) (ord : HashOrder Walk) (ecn ecw : Nat)
    (fail2repair : Int → Option Int) {c : Int}
    (hc : c ∉ (s.genRepairTasks ord ecn ecw fail2repair).keys) :
    s.tasksOf ord ecn ecw fail2repair c = [] := by
  rw [tasksOf, PushMap.get, AList.lookup_eq_none.2 fun h => hc (AList.mem_keys.1 h)]
  rfl

/-- A run is no longer than `steps`, and when it is so long all threads have ended. -/
theorem run_steps (s : Stripe) (ord : HashOrder Walk) (ecn ecw : Nat)
    (fail2repair : Int → Option Int) {pktbytes : Nat} {pktnum : Nat}
    {disk : Int → Option String → Nat → GF256} {regs : ThreadId → Nat → Packet pktbytes}
    {schedule : List ThreadId} {net : FifoNet.Net ThreadId Chan Nat (Packet pktbytes)}
    (hrun : Lts.run FifoNet.step (FifoNet.Net.start
      (program (s.tasksOf ord ecn ecw fail2repair) ecw pktnum disk) regs) schedule = some net) :
    schedule.length ≤ s.steps ord ecn ecw fail2repair pktnum ∧
      (schedule.length = s.steps ord ecn ecw fail2repair pktnum ↔ net.Done) := by
  have hothers : ∀ i ∉ threadsOf (s.tasksOf ord ecn ecw fail2repair)
      (s.genRepairTasks ord ecn ecw fail2repair).keys,
      ((FifoNet.Net.start (program (s.tasksOf ord ecn ecw fail2repair) ecw pktnum disk)
        regs).threads i).prog = [] := fun i hi =>
          program_of_not_mem_threadsOf (fun c => s.tasksOf_eq_nil ord ecn ecw fail2repair) hi
  obtain ⟨ho, hl⟩ := FifoNet.run_length (nodup_threadsOf (AList.keys_nodup _)) hothers hrun
  rw [left_start] at hl
  have hsteps : s.steps ord ecn ecw fail2repair pktnum = _ := hl
  refine ⟨by omega, fun h => ?_, fun h => ?_⟩
  · exact FifoNet.done_of_left ho (by omega)
  · rw [FifoNet.left_of_done _ h] at hsteps
    omega

/-- Some run goes on until no thread can take a step. -/
theorem exists_stuck (s : Stripe) (ord : HashOrder Walk) (ecn ecw : Nat)
    (fail2repair : Int → Option Int) {pktbytes : Nat} (pktnum : Nat)
    (disk : Int → Option String → Nat → GF256) (regs : ThreadId → Nat → Packet pktbytes) :
    ∃ schedule net, Lts.run FifoNet.step (FifoNet.Net.start
      (program (s.tasksOf ord ecn ecw fail2repair) ecw pktnum disk) regs) schedule = some net ∧
      Lts.Stuck FifoNet.step net :=
  FifoNet.exists_stuck (nodup_threadsOf (AList.keys_nodup
    (s.genRepairTasks ord ecn ecw fail2repair))) fun _ hi =>
      program_of_not_mem_threadsOf (fun _ => s.tasksOf_eq_nil ord ecn ecw fail2repair) hi

/-- Under every schedule all threads are ended, or under any. -/
theorem ends_tfae (s : Stripe) (hd : s.ecdag.Built) (ord : HashOrder Walk) (ecn ecw : Nat)
    (hw : 0 < ecw) (fail2repair : Int → Option Int) (placement : Nat → Int)
    (hl : (s.remap fail2repair).Legal ecn ecw placement) (hkey : s.KeysFree) {pktbytes : Nat}
    (pktnum : Nat) (hpk : 0 < pktnum) (disk : Int → Option String → Nat → GF256)
    (regs : ThreadId → Nat → Packet pktbytes) :
    let start := FifoNet.Net.start (program (s.tasksOf ord ecn ecw fail2repair) ecw pktnum disk) regs
    List.TFAE [(s.remap fail2repair).WellPlanned,
      ∀ schedule net, Lts.run FifoNet.step start schedule = some net → Lts.Stuck FifoNet.step net →
        net.Done,
      ∃ schedule net, Lts.run FifoNet.step start schedule = some net ∧ net.Done] := by
  intro start
  have hwf : (s.remap fail2repair).ecdag.WellFormed := hd.wellFormed
  have htasks : s.tasksOf ord ecn ecw fail2repair = (s.remap fail2repair).nodeTasks ecn ecw ord :=
    funext fun c => tasksOf_eq_nodeTasks hd.wellFormed ecn ecw ord c fail2repair
  tfae_have 1 → 2 := by
    intro hplan schedule net hrun hstuck
    simp only [start, htasks] at hrun
    exact hplan.done_of_stuck hwf hl hkey ord pktnum disk regs hw hrun hstuck
  tfae_have 2 → 3 := by
    intro hdone
    obtain ⟨schedule, net, hrun, hstuck⟩ :=
      s.exists_stuck ord ecn ecw fail2repair pktnum disk regs
    exact ⟨schedule, net, hrun, hdone schedule net hrun hstuck⟩
  tfae_have 3 → 1 := by
    rintro ⟨schedule, net, hrun, hdone⟩
    simp only [start, htasks] at hrun
    exact wellPlanned_of_le hwf hl hkey ord hw fun c key =>
      count_le_of_done hpk (show Chan.agent (.queue c key) = some c from rfl) hrun
        fun c k => hdone (.task c k)
  tfae_finish

/-- **Which stripes are repaired**: a repair takes at most `steps` steps, and it comes to an end
under every schedule, or under any, exactly when the stripe is well planned. -/
theorem repair_live (s : Stripe) (hd : s.ecdag.Built) (ord : HashOrder Walk) (ecn ecw : Nat)
    (hw : 0 < ecw) (fail2repair : Int → Option Int) (placement : Nat → Int)
    (hl : (s.remap fail2repair).Legal ecn ecw placement) (hkey : s.KeysFree) {pktbytes : Nat}
    (pktnum : Nat) (hpk : 0 < pktnum) (disk : Int → Option String → Nat → GF256)
    (regs : ThreadId → Nat → Packet pktbytes) :
    let start := FifoNet.Net.start (program (s.tasksOf ord ecn ecw fail2repair) ecw pktnum disk) regs
    (∀ schedule net, Lts.run FifoNet.step start schedule = some net →
      schedule.length ≤ s.steps ord ecn ecw fail2repair pktnum ∧
        (schedule.length = s.steps ord ecn ecw fail2repair pktnum ↔ net.Done)) ∧
    List.TFAE [(s.remap fail2repair).WellPlanned,
      ∀ schedule net, Lts.run FifoNet.step start schedule = some net → Lts.Stuck FifoNet.step net →
        net.Done,
      ∃ schedule net, Lts.run FifoNet.step start schedule = some net ∧ net.Done] := by
  intro start
  exact ⟨fun schedule net hrun => s.run_steps ord ecn ecw fail2repair hrun,
    s.ends_tfae hd ord ecn ecw hw fail2repair placement hl hkey pktnum hpk disk regs⟩

theorem sumStripe_wellPlanned : (sumStripe.remap fun _ => none).WellPlanned where
  consumer c _ u := oneConsumer_of_one_parent (s := sumStripe.remap fun _ => none)
    (.concact (ECDAG.built_build _).wellFormed _ _ _) (by decide) c u
  placed := by decide

theorem sumStripe_finishes : ∃ schedule net,
    Lts.run FifoNet.step (FifoNet.Net.start
      (program (sumStripe.tasksOf (HashOrder.insertion Walk) 3 1 fun _ => none) 1 4
        fun c _ _ => ⟨BitVec.ofInt 8 c⟩) fun _ _ => (0 : Packet 1)) schedule = some net ∧
    net.Done :=
  ((repair_live sumStripe (.concact _ _ _ (ECDAG.built_build _)) (HashOrder.insertion Walk) 3 1
    (by decide) (fun _ => none) (fun i => i) ⟨by decide, by decide, by decide⟩ (by decide) 4
    (by decide) (fun c _ _ => ⟨BitVec.ofInt 8 c⟩) fun _ _ => 0).2.out 0 2).1 sumStripe_wellPlanned

/-! ## What is written -/

theorem isPrefix_map_range {α : Type} (f : Nat → α) {m n : Nat} (h : m ≤ n) :
    (List.range m).map f <+: (List.range n).map f := by
  obtain ⟨k, rfl⟩ := Nat.exists_eq_add_of_le h
  rw [List.range_add, List.map_append]
  exact List.prefix_append _ _

section
variable (s : Stripe) (decode : List Nat → List Nat → ECDAG) (n w : Nat) (failed : Finset Nat)
  (hn : s.blklist.length = n) (hR : n ≤ REQUESTOR) (hw : 0 < w) (js : List Join)
  (hdec : decode (packets w (survivors n failed)) (packets w (losses n failed)) = .build js)
  (hdag : s.ecdag = genRepairECDAG decode n w failed ∨
    s.ecdag = (genRepairECDAG decode n w failed).refreshECDAG)
  (hlast : ConcactsLast s.ecdag w failed)
include hn hR hw hdec hdag hlast

/-- Each packet of a failed block is persisted once in a round. -/
theorem count_pushChans_failed (hsub : failed ⊆ Finset.range n) (ord : HashOrder Walk)
    {i : Nat} (hi : i ∈ failed) :
    ((s.nodeTasks n w ord (s.coloring (REQUESTOR - i))).flatMap
      (Task.pushChans w (s.coloring (REQUESTOR - i)))).count
        (.file (s.coloring (REQUESTOR - i)) (s.blkAt i)) = w := by
  obtain ⟨hbuilt, -⟩ := genRepairECDAG_spec hw hdec hdag
  have hd : s.ecdag.WellFormed := hbuilt.wellFormed
  have hilt : i < n := Finset.mem_range.1 (hsub hi)
  -- the block is on the last level, so all its packets are written
  have hon : REQUESTOR - i ∈ s.handledByLast ord := by
    have hne : blockPackets w i ≠ [] := fun h => by
      have := congrArg List.length h
      simp [blockPackets] at this
      omega
    obtain ⟨v, hv⟩ := List.exists_mem_of_ne_nil _ (hlast.children i hi ▸ hne)
    have hlow := hbuilt.wellFormed.height_lt hv
    exact (mem_handledByLast hd ord).2 ⟨(hbuilt.wellFormed.childIndices_nodeIds hv).2,
      hlast.last i hi, by omega⟩
  exact count_pushChans_file ord (hn.symm ▸ hilt) (by omega) hon (hlast.children i hi) rfl hd

omit hR hw hdec hdag hlast in
/-- What ought to be written. -/
theorem map_stream_file {i : Nat} (hi : i < n) {pktbytes : Nat} (pktnum : Nat)
    (disk : Int → Option String → Nat → GF256) (c : Int) (placement : Nat → Int) :
    (List.range (pktnum * w)).map (s.stream n w placement disk (.file c (s.blkAt i))) =
      (List.range pktnum).flatMap fun r => (blockPackets w i).map
        (s.ecdag.eval (s.sourcePacket n w placement disk r) : Nat → Packet pktbytes) := by
  rw [map_range_mul]
  refine List.flatMap_congr fun r _ => ?_
  rw [blockPackets, List.map_map]
  refine List.map_congr_left fun j hj => ?_
  exact stream_file disk (hn.symm ▸ hi) (List.mem_range.1 hj)

/-- **The repair of a well-planned stripe**: at any time each repaired block is right as far as it
is written, and when no thread can go on it is written to its end. -/
theorem repair_writes (hsub : failed ⊆ Finset.range n) (hkey : s.KeysFree) (ord : HashOrder Walk)
    (fail2repair : Int → Option Int) (placement : Nat → Int)
    (hl : (s.remap fail2repair).Legal n w placement) (hplan : (s.remap fail2repair).WellPlanned)
    {pktbytes : Nat} (pktnum : Nat) (disk : Int → Option String → Nat → GF256)
    (regs : ThreadId → Nat → Packet pktbytes) (schedule : List ThreadId)
    (net : FifoNet.Net ThreadId Chan Nat (Packet pktbytes))
    (hrun : Lts.run FifoNet.step (FifoNet.Net.start
      (program (s.tasksOf ord n w fail2repair) w pktnum disk) regs) schedule = some net)
    (i : Nat) (hi : i ∈ failed) :
    net.pushed (.file ((s.remap fail2repair).coloring (REQUESTOR - i)) (s.blkAt i)) <+:
      ((List.range pktnum).flatMap fun r => (blockPackets w i).map
        (s.ecdag.eval ((s.remap fail2repair).sourcePacket n w placement disk r))) ∧
    (Lts.Stuck FifoNet.step net →
      net.pushed (.file ((s.remap fail2repair).coloring (REQUESTOR - i)) (s.blkAt i)) =
        (List.range pktnum).flatMap fun r => (blockPackets w i).map
          (s.ecdag.eval ((s.remap fail2repair).sourcePacket n w placement disk r))) := by
  obtain ⟨hbuilt, -⟩ := genRepairECDAG_spec hw hdec hdag
  have hd : (s.remap fail2repair).ecdag.WellFormed := hbuilt.wellFormed
  have hilt : i < n := Finset.mem_range.1 (hsub hi)
  have htasks : s.tasksOf ord n w fail2repair = (s.remap fail2repair).nodeTasks n w ord :=
    funext fun c => tasksOf_eq_nodeTasks hbuilt.wellFormed n w ord c fail2repair
  rw [htasks] at hrun
  have hpersist : ∀ c, ∀ t ∈ (s.remap fail2repair).nodeTasks n w ord c,
      (s.remap fail2repair).Persists w t := fun c t ht =>
    persists_of_concactsLast (s.remap fail2repair) decode n w failed hn hR hw js hdec hdag
      hlast ord hl c ht
  have honce := oncePerRound hd hl hkey ord hw (fun c key => (hplan.even hd hl ord hw c key).le) hpersist (hn.trans_le hR)
  have hinv := FifoNet.inv_run (inv_start hd hl hkey disk pktnum honce
    (fun c t ht => taskOf_nodeTasks hd hl ord ht) hpersist regs) hrun
  let c := (s.remap fail2repair).coloring (REQUESTOR - i)
  have hcount : (((s.remap fail2repair).nodeTasks n w ord c).flatMap
      (Task.pushChans w c)).count (.file c (s.blkAt i)) = w :=
    count_pushChans_failed (s.remap fail2repair) decode n w failed hn hR hw js hdec hdag hlast hsub
      ord hi
  have hcounted := counted_tasks (show Chan.agent (.file c (s.blkAt i)) = some c from rfl) hrun
  rw [hcount] at hcounted
  have hexpected : (List.range (pktnum * w)).map ((s.remap fail2repair).stream n w placement disk
      (.file c (s.blkAt i))) = (List.range pktnum).flatMap fun r => (blockPackets w i).map
        (s.ecdag.eval ((s.remap fail2repair).sourcePacket n w placement disk r) :
          Nat → Packet pktbytes) :=
    map_stream_file (s.remap fail2repair) n w hn hilt pktnum disk c placement
  rw [hinv.pushed_eq, ← hexpected]
  refine ⟨isPrefix_map_range _ ?_, fun hstuck => ?_⟩
  · have := hcounted.pushed
    exact Nat.le.intro this
  · have hdone := hplan.done_of_stuck hd hl hkey ord pktnum disk regs hw hrun hstuck
    rw [(hcounted.of_done fun j _ => hdone j).2]

end

/-- Three packets of block 2 of the (3, 2) stripe. -/
theorem sumStripe_writes : ∃ net : FifoNet.Net ThreadId Chan Nat (Packet 1),
    Lts.run FifoNet.step (FifoNet.Net.start
      (program (sumStripe.tasksOf (HashOrder.insertion Walk) 3 1 fun _ => none) 1 3
        fun c _ _ => ⟨BitVec.ofInt 8 c⟩) fun _ _ => 0) [.task 0 0, .task 0 0] = some net ∧
    net.pushed (.file 5 (some "b2")) <+: (List.range 3).flatMap fun r => (blockPackets 1 2).map
      (sumStripe.ecdag.eval
        (sumStripe.sourcePacket 3 1 (fun i => i) (fun c _ _ => ⟨BitVec.ofInt 8 c⟩) r)) := by
  let start : FifoNet.Net ThreadId Chan Nat (Packet 1) := FifoNet.Net.start
    (program (sumStripe.tasksOf (HashOrder.insertion Walk) 3 1 fun _ => none) 1 3
      fun c _ _ => ⟨BitVec.ofInt 8 c⟩) fun _ _ => 0
  have hruns : (Lts.run FifoNet.step start [.task 0 0, .task 0 0]).isSome = true := by
    decide +kernel
  obtain ⟨net, hrun⟩ := Option.isSome_iff_exists.1 hruns
  exact ⟨net, hrun, (repair_writes sumStripe (fun _ _ => .build [⟨2, [0, 1, 3], [1, 1, 1]⟩]) 3 1
    {2} rfl (by decide) (by decide) _ rfl (Or.inl (by decide)) ⟨by decide, by decide, by decide⟩
    (by decide) (by decide) _ (fun _ => none) (fun i => i) ⟨by decide, by decide, by decide⟩
    sumStripe_wellPlanned 3 _ _ _ net hrun 2 (by decide)).1⟩

end Stripe

end StripeRepair

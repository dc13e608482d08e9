import StripeRepair.Common.TaskContents

/-!
# Sends and receives match

For a legal colouring, `send_recv_matching`: each packet that is used on another node is
sent there once and received there once, and nothing else is sent or received.  What a
node receives it neither reads nor computes itself.
-/

namespace StripeRepair

namespace Stripe

section
variable {s : Stripe} {ecn ecw : Nat} {placement : Nat → Int}

/-- The packets a legal colouring gives to a node are the ones that are made. -/
theorem Legal.made_iff (hd : s.ecdag.WellFormed) (hl : s.Legal ecn ecw placement) {v : Nat}
    (hv : v ∈ s.ecdag.nodeIds) : s.Made ecn ecw v ↔ s.coloring v ≠ -1 := by
  by_cases h0 : s.ecdag.childIndices v = []
  · rw [made_leaf hd hv ((hd.height_eq_zero hv).2 h0), hl.leaf v hv h0]
    split
    · next h => exact iff_of_true h (hl.placed _ h)
    · next h => exact iff_of_false h fun hne => hne rfl
  · exact made_inner hd hv fun hh => h0 ((hd.height_eq_zero hv).1 hh)

/-- A packet that is made is not used on node -1. -/
theorem Legal.not_usedOn_neg (hd : s.ecdag.WellFormed) (hl : s.Legal ecn ecw placement) {v : Nat}
    (hc : s.coloring v ≠ -1) : ¬ s.UsedOn v (-1) := by
  rintro ⟨p, hp, hpc⟩
  have hch := hd.mem_parentIds.1 hp
  exact hc (hl.zero p (hd.childIndices_nodeIds hch).2 (List.ne_nil_of_mem hch) hpc v hch)

theorem Legal.same_block (hl : s.Legal ecn ecw placement) : s.BlocksOnNodes ecn ecw := by
  intro u hu v hv hcu hcv hlt he
  rw [hl.leaf u hu hcu, hl.leaf v hv hcv, if_pos hlt, if_pos (he ▸ hlt), he]

/-! ## What a node reads or computes -/

section
variable (ord : HashOrder Walk) {c : Int} {level v : Nat}

theorem mem_readEntries_moveTasks
    (h : v ∈ (s.moveTasks ecn ecw ord c level).flatMap Task.readEntries) :
    v ∈ s.zerosAt ecn ecw ord level := by
  rw [moveTasks, List.flatMap_append, List.flatMap_append,
    flatMap_taskFor (f := fun vs => .send vs (vs.map s.sendto)) rfl,
    flatMap_taskFor (f := .recv) rfl, flatMap_taskFor (f := fun vs => .read _ vs []) rfl] at h
  exact List.mem_of_mem_filter h

/-- What a node reads is of its colour or zero. -/
theorem of_mem_readEntries (hd : s.ecdag.WellFormed) (hb : s.BlocksOnNodes ecn ecw)
    (h : v ∈ (s.levelTasksOn ecn ecw ord c level).flatMap Task.readEntries) :
    ¬ s.Made ecn ecw v ∨ s.coloring v = c := by
  have hzero : ∀ {level}, v ∈ s.zerosAt ecn ecw ord level → ¬ s.Made ecn ecw v :=
    fun h => of_decide_eq_true (List.mem_filter.1 h).2
  revert h
  refine level_cases (s := s) (fun level => v ∈ (s.levelTasksOn ecn ecw ord c level).flatMap
    Task.readEntries → ¬ s.Made ecn ecw v ∨ s.coloring v = c) ?_ ?_ ?_ level
  · rw [levelTasksOn_zero hd, List.flatMap_append, List.mem_append]
    rintro (h | h)
    · refine Or.inr ?_
      have hreads := flatMap_readTasks (s := s) (e := Task.readEntries) (g := fun v => [v])
        ecw ord c ((hd.levelAt_nodup ord 0).filter fun v => s.Made ecn ecw v) ?_ ?_
      · rw [List.flatMap_singleton'] at hreads
        exact of_decide_eq_true (List.mem_filter.1 (hreads.mem_iff.1 h)).2
      · intro u hu w hw he
        obtain ⟨hu, hmu⟩ := List.mem_filter.1 hu
        obtain ⟨hu, hhu⟩ := hd.mem_levelAt.1 hu
        obtain ⟨hw, hhw⟩ := hd.mem_levelAt.1 (List.mem_of_mem_filter hw)
        exact hb u hu w hw ((hd.height_eq_zero hu).1 hhu) ((hd.height_eq_zero hw).1 hhw)
          ((made_leaf hd hu hhu).1 (of_decide_eq_true hmu)) he
      · intro b vs _ _
        rw [List.flatMap_singleton']
        rfl
    · exact Or.inl (hzero (mem_readEntries_moveTasks ord h))
  · intro level h0 hlast h
    rw [levelTasksOn_mid hd ecn ecw ord c h0 hlast, List.flatMap_append,
      flatMap_taskFor (f := fun vs => .compute (vs.map s.computeItem)) rfl] at h
    exact Or.inl (hzero (mem_readEntries_moveTasks ord h))
  · intro h0 h
    rw [levelTasksOn_last ecn ecw ord c h0, flatMap_persist_nil fun _ _ => rfl] at h
    cases h

/-- What a node computes is of its colour, and on a level in between. -/
theorem of_mem_computedEntries (hd : s.ecdag.WellFormed)
    (h : v ∈ (s.levelTasksOn ecn ecw ord c level).flatMap Task.computedEntries) :
    s.coloring v = c ∧ v ∈ s.ecdag.levelAt ord level ∧ level ≠ s.ecdag.numLevels - 1 := by
  have hmove : ∀ level, (s.moveTasks ecn ecw ord c level).flatMap Task.computedEntries = [] := by
    intro level
    rw [moveTasks, List.flatMap_append, List.flatMap_append,
      flatMap_taskFor (f := fun vs => .send vs (vs.map s.sendto)) rfl,
      flatMap_taskFor (f := .recv) rfl, flatMap_taskFor (f := fun vs => .read _ vs []) rfl]
    rfl
  revert h
  refine level_cases (s := s) (fun level => v ∈ (s.levelTasksOn ecn ecw ord c level).flatMap
    Task.computedEntries → s.coloring v = c ∧ v ∈ s.ecdag.levelAt ord level ∧
      level ≠ s.ecdag.numLevels - 1) ?_ ?_ ?_ level
  · rw [levelTasksOn_zero hd, List.flatMap_append,
      flatMap_readTasks_nil ecw ord c fun _ _ _ => rfl, hmove]
    exact fun h => by cases h
  · intro level h0 hlast h
    rw [levelTasksOn_mid hd ecn ecw ord c h0 hlast, List.flatMap_append,
      flatMap_taskFor (f := fun vs => .compute (vs.map s.computeItem)) rfl, hmove,
      List.append_nil] at h
    rw [Task.computedEntries, List.map_map] at h
    obtain ⟨u, hu, rfl⟩ := List.mem_map.1 h
    obtain ⟨hu, hc⟩ := List.mem_filter.1 hu
    exact ⟨of_decide_eq_true hc, List.mem_of_mem_filter hu, hlast⟩
  · intro h0 h
    rw [levelTasksOn_last ecn ecw ord c h0, flatMap_persist_nil fun _ _ => rfl] at h
    cases h

end

end

/-! ## The matching -/

/-- Sends and receives in the tasks of all nodes, for the DAG and the colouring of `s`. -/
structure SendRecvMatching (s : Stripe) (tasks : Int → List Task) : Prop where
  /-- What is used on another node is sent there once and received there once. -/
  moved : ∀ u ∈ s.ecdag.nodeIds, s.coloring u ≠ -1 → ∀ c', c' ≠ s.coloring u → s.UsedOn u c' →
    ((tasks (s.coloring u)).flatMap Task.sendEntries).count (u, c') = 1 ∧
      ((tasks c').flatMap Task.recvEntries).count u = 1
  /-- Nothing else is sent. -/
  sent : ∀ c u c', (u, c') ∈ (tasks c).flatMap Task.sendEntries →
    u ∈ s.ecdag.nodeIds ∧ s.coloring u = c ∧ c ≠ -1 ∧ c' ≠ c ∧ c' ≠ -1 ∧ s.UsedOn u c'
  /-- Nothing else is received. -/
  received : ∀ c' u, u ∈ (tasks c').flatMap Task.recvEntries →
    u ∈ s.ecdag.nodeIds ∧ s.coloring u ≠ -1 ∧ c' ≠ s.coloring u ∧ c' ≠ -1 ∧ s.UsedOn u c'
  /-- What is received is not at hand. -/
  foreign : ∀ c' u, u ∈ (tasks c').flatMap Task.recvEntries →
    u ∉ (tasks c').flatMap Task.readEntries ∧ u ∉ (tasks c').flatMap Task.computedEntries

section
variable {s : Stripe} {ecn ecw : Nat} {placement : Nat → Int} (hd : s.ecdag.WellFormed)
  (ord : HashOrder Walk)
include hd

theorem nodup_sends (c : Int) :
    ((s.nodeTasks ecn ecw ord c).flatMap Task.sendEntries).Nodup := by
  rw [(sends_perm hd ecn ecw ord c).nodup_iff, List.nodup_flatMap]
  refine ⟨fun v _ => (s.nodup_sendto v).map fun a b h => (Prod.mk.inj h).2, ?_⟩
  refine ((hd.nodup.filter _).filter _).pairwise_of_forall_ne fun v _ v' _ hne e he he' => hne ?_
  obtain ⟨_, -, rfl⟩ := List.mem_map.1 he
  obtain ⟨_, -, h⟩ := List.mem_map.1 he'
  exact (Prod.mk.inj h).1.symm

theorem nodup_recvs (c : Int) :
    ((s.nodeTasks ecn ecw ord c).flatMap Task.recvEntries).Nodup := by
  rw [(recvs_perm hd ecn ecw ord c).nodup_iff]
  exact (hd.nodup.filter _).filter _

variable (hl : s.Legal ecn ecw placement)
include hl

/-- The vertices that are made are those with a node. -/
theorem mem_made {u : Nat} : u ∈ s.ecdag.nodeIds.filter (fun v => s.Made ecn ecw v) ↔
    u ∈ s.ecdag.nodeIds ∧ s.coloring u ≠ -1 := by
  rw [List.mem_filter, decide_eq_true_iff]
  exact and_congr_right fun hu => hl.made_iff hd hu

theorem mem_sends {c c' : Int} {u : Nat} :
    (u, c') ∈ (s.nodeTasks ecn ecw ord c).flatMap Task.sendEntries ↔
      u ∈ s.ecdag.nodeIds ∧ s.coloring u ≠ -1 ∧ s.coloring u = c ∧ c' ≠ s.coloring u ∧
        s.UsedOn u c' := by
  rw [(sends_perm hd ecn ecw ord c).mem_iff, List.mem_flatMap, ← s.mem_sendto, ← and_assoc,
    ← mem_made hd hl]
  constructor
  · rintro ⟨v, hv, he⟩
    obtain ⟨c'', hto, he⟩ := List.mem_map.1 he
    obtain ⟨rfl, rfl⟩ := Prod.mk.inj he
    obtain ⟨hv, hc⟩ := List.mem_filter.1 hv
    exact ⟨hv, of_decide_eq_true hc, hto⟩
  · rintro ⟨hu, hc, hto⟩
    exact ⟨u, List.mem_filter.2 ⟨hu, decide_eq_true hc⟩, List.mem_map_of_mem hto⟩

theorem mem_recvs {c' : Int} {u : Nat} :
    u ∈ (s.nodeTasks ecn ecw ord c').flatMap Task.recvEntries ↔
      u ∈ s.ecdag.nodeIds ∧ s.coloring u ≠ -1 ∧ c' ≠ s.coloring u ∧ s.UsedOn u c' := by
  rw [(recvs_perm hd ecn ecw ord c').mem_iff, List.mem_filter, decide_eq_true_iff,
    mem_made hd hl, s.mem_sendto, and_assoc]

/-- What is received is not read. -/
theorem not_read_of_mem_recvs {c' : Int} {u : Nat}
    (hu : u ∈ (s.nodeTasks ecn ecw ord c').flatMap Task.recvEntries) :
    u ∉ (s.nodeTasks ecn ecw ord c').flatMap Task.readEntries := by
  obtain ⟨hmem, hne, hdiff, -⟩ := (mem_recvs hd ord hl).1 hu
  intro h
  rw [nodeTasks, List.flatMap_assoc] at h
  obtain ⟨level, -, h⟩ := List.mem_flatMap.1 h
  rcases of_mem_readEntries ord hd hl.same_block h with h | h
  · exact h ((hl.made_iff hd hmem).2 hne)
  · exact hdiff h.symm

/-- What is received is not computed. -/
theorem not_computed_of_mem_recvs {c' : Int} {u : Nat}
    (hu : u ∈ (s.nodeTasks ecn ecw ord c').flatMap Task.recvEntries) :
    u ∉ (s.nodeTasks ecn ecw ord c').flatMap Task.computedEntries := by
  obtain ⟨-, -, hdiff, -⟩ := (mem_recvs hd ord hl).1 hu
  intro h
  rw [nodeTasks, List.flatMap_assoc] at h
  obtain ⟨level, -, h⟩ := List.mem_flatMap.1 h
  exact hdiff (of_mem_computedEntries ord hd h).1.symm

end

/-- **Sends and receives match**, for every DAG and every legal colouring. -/
theorem send_recv_matching (s : Stripe) (hd : s.ecdag.Built) (ord : HashOrder Walk) (ecn ecw : Nat)
    (fail2repair : Int → Option Int) (placement : Nat → Int)
    (hl : (s.remap fail2repair).Legal ecn ecw placement) :
    (s.remap fail2repair).SendRecvMatching (s.tasksOf ord ecn ecw fail2repair) := by
  have htasks : s.tasksOf ord ecn ecw fail2repair = (s.remap fail2repair).nodeTasks ecn ecw ord :=
    funext fun c => tasksOf_eq_nodeTasks hd.wellFormed ecn ecw ord c fail2repair
  have hw : (s.remap fail2repair).ecdag.WellFormed := hd.wellFormed
  rw [htasks]
  constructor
  · intro u hu hne c' hc' hused
    constructor
    · refine List.count_eq_one_of_mem (nodup_sends hw ord _) ?_
      exact (mem_sends hw ord hl).2 ⟨hu, hne, rfl, hc', hused⟩
    · refine List.count_eq_one_of_mem (nodup_recvs hw ord _) ?_
      exact (mem_recvs hw ord hl).2 ⟨hu, hne, hc', hused⟩
  · intro c u c' hmem
    obtain ⟨hu, hne, rfl, hdiff, hused⟩ := (mem_sends hw ord hl).1 hmem
    exact ⟨hu, rfl, hne, hdiff, fun h => hl.not_usedOn_neg hw hne (h ▸ hused), hused⟩
  · intro c' u hmem
    obtain ⟨hu, hne, hdiff, hused⟩ := (mem_recvs hw ord hl).1 hmem
    exact ⟨hu, hne, hdiff, fun h => hl.not_usedOn_neg hw hne (h ▸ hused), hused⟩
  · intro c' u hmem
    exact ⟨not_read_of_mem_recvs hw ord hl hmem, not_computed_of_mem_recvs hw ord hl hmem⟩

/-- Block 2 of a (3, 2) stripe is the sum of blocks 0 and 1, with a zero packet of a virtual
block; it is repaired on node 5. -/
def sumStripe : Stripe where
  ecdag := (ECDAG.build [⟨2, [0, 1, 3], [1, 1, 1]⟩]).concact [2] 3 1
  blklist := ["b0", "b1", "b2"]
  coloring v := if v < 2 then v else if v = 3 then -1 else 5
  distinct := by decide
  named := by decide

theorem sumStripe_moved :
    ((sumStripe.tasksOf (HashOrder.insertion Walk) 3 1 (fun _ => none) 0).flatMap
      Task.sendEntries).count (0, 5) = 1 ∧
    ((sumStripe.tasksOf (HashOrder.insertion Walk) 3 1 (fun _ => none) 5).flatMap
      Task.recvEntries).count 0 = 1 :=
  (send_recv_matching sumStripe (.concact _ _ _ (ECDAG.built_build _)) _ 3 1 (fun _ => none)
    (fun i => i) ⟨by decide, by decide, by decide⟩).moved 0 (by decide) (by decide) 5 (by decide)
    (by decide)

end Stripe

end StripeRepair

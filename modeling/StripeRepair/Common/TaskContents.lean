import StripeRepair.Common.Stripe

/-!
# What the tasks of a node contain

A packet is made on the node of its colour, read from a block there or computed, and is
sent once to each other node that uses it.  Zero packets are made where they are used.

* `levelTasksOn_zero`, `levelTasksOn_mid`, `levelTasksOn_last`: the tasks of a level.
* `flatMap_readTasks`: the read tasks of a node cover the packets of its colour.
* `sends_perm`, `recvs_perm`: all send and receive entries of a node.
-/

namespace StripeRepair

namespace Task

/-- The pairs of a packet and a target in a send task. -/
def sendEntries : Task → List (Nat × Int)
  | .send dagidxList sendToList =>
    (dagidxList.zip sendToList).flatMap fun e => e.2.map fun c => (e.1, c)
  | _ => []

def recvEntries : Task → List Nat
  | .recv dagidxList => dagidxList
  | _ => []

def readEntries : Task → List Nat
  | .read _ dagidxList _ => dagidxList
  | _ => []

def computedEntries : Task → List Nat
  | .compute computeList => computeList.map ComputeItem.dstidx
  | _ => []

end Task

namespace Stripe

section
variable (s : Stripe) (ecn ecw : Nat)

/-- The packet is read from a real block or computed; otherwise it is a zero packet. -/
def Made (v : Nat) : Prop :=
  if s.ecdag.childIndices v = [] then v / ecw < ecn else s.coloring v ≠ -1

instance (v : Nat) : Decidable (s.Made ecn ecw v) := by
  unfold Made
  infer_instance

/-- A total colouring as the planners make it: a leaf has the node that stores its block, or
-1 if there is no such block, and another vertex has -1 only if all its children do. -/
structure Legal (placement : Nat → Int) : Prop where
  leaf : ∀ v ∈ s.ecdag.nodeIds, s.ecdag.childIndices v = [] →
    s.coloring v = if v / ecw < ecn then placement (v / ecw) else -1
  placed : ∀ i < ecn, placement i ≠ -1
  zero : ∀ v ∈ s.ecdag.nodeIds, s.ecdag.childIndices v ≠ [] → s.coloring v = -1 →
    ∀ c ∈ s.ecdag.childIndices v, s.coloring c = -1

variable (ord : HashOrder Walk)

/-- The tasks of level `level` for node `c`. -/
def levelTasksOn (c : Int) (level : Nat) : List Task :=
  onNode c (s.levelTasks ord ecn ecw s.ecdag.numLevels level (s.ecdag.levelAt ord level))

/-- The tasks of node `c`, level by level. -/
def nodeTasks (c : Int) : List Task :=
  (List.range s.ecdag.numLevels).flatMap (s.levelTasksOn ecn ecw ord c)

def madeAt (level : Nat) : List Nat :=
  (s.ecdag.levelAt ord level).filter fun v => s.Made ecn ecw v

def zerosAt (level : Nat) : List Nat :=
  (s.ecdag.levelAt ord level).filter fun v => ¬ s.Made ecn ecw v

/-- The send, receive and zero tasks of a level for node `c`. -/
def moveTasks (c : Int) (level : Nat) : List Task :=
  taskFor (fun vs => .send vs (vs.map s.sendto))
      ((s.madeAt ecn ecw ord level).filter fun v => s.sendto v ≠ [] ∧ s.coloring v = c) ++
    taskFor .recv ((s.madeAt ecn ecw ord level).filter fun v => c ∈ s.sendto v) ++
    taskFor (fun vs => .read (some "ZERO") vs [])
      ((s.zerosAt ecn ecw ord level).filter fun v => s.UsedOn v c ∧ c ≠ -1)

end

/-! ## Level by level -/

theorem flatMap_taskFor {α : Type} {f : List Nat → Task} {e : Task → List α} (he : e (f []) = [])
    (l : List Nat) : (taskFor f l).flatMap e = e (f l) := by
  unfold taskFor
  split
  · next h => rw [h, he]; rfl
  · simp

theorem flatMap_filter_of_nil {α : Type} {l : List Nat} {p q : Nat → Bool} {g : Nat → List α}
    (h : ∀ v ∈ l, p v = q v ∨ g v = []) : (l.filter p).flatMap g = (l.filter q).flatMap g := by
  induction l with
  | nil => rfl
  | cons v l ih =>
    have ih := ih fun u hu => h u (List.mem_cons_of_mem _ hu)
    rw [List.filter_cons, List.filter_cons]
    rcases h v (List.mem_cons_self ..) with hv | hv
    · rw [hv]
      split <;> simp [ih]
    · split <;> split <;> simp [ih, hv]

theorem sendEntries_send (s : Stripe) (vs : List Nat) :
    (Task.send vs (vs.map s.sendto)).sendEntries =
      vs.flatMap fun v => (s.sendto v).map fun c => (v, c) := by
  rw [Task.sendEntries]
  induction vs with
  | nil => rfl
  | cons v vs ih =>
    rw [List.map_cons, List.zip_cons_cons, List.flatMap_cons, ih]
    rfl

section
variable {s : Stripe} (hd : s.ecdag.WellFormed)
include hd

theorem parentIds_of_last {v : Nat} (h : s.ecdag.height v = s.ecdag.numLevels - 1) :
    s.ecdag.parentIds v = [] := by
  refine List.eq_nil_iff_forall_not_mem.2 fun p hp => ?_
  have hc := hd.mem_parentIds.1 hp
  have h1 := hd.height_lt hc
  have h2 := ECDAG.height_lt_numLevels (hd.childIndices_nodeIds hc).2
  omega

theorem not_usedOn_of_last {v : Nat} (h : s.ecdag.height v = s.ecdag.numLevels - 1) (c : Int) :
    ¬ s.UsedOn v c := by
  rintro ⟨p, hp, -⟩
  rw [parentIds_of_last hd h] at hp
  cases hp

theorem sendto_of_last {v : Nat} (h : s.ecdag.height v = s.ecdag.numLevels - 1) :
    s.sendto v = [] := by
  refine List.eq_nil_iff_forall_not_mem.2 fun c hc => ?_
  exact not_usedOn_of_last hd h c (s.mem_sendto.1 hc).2

theorem made_leaf {ecn ecw v : Nat} (hv : v ∈ s.ecdag.nodeIds) (h : s.ecdag.height v = 0) :
    s.Made ecn ecw v ↔ v / ecw < ecn := by
  rw [Made, if_pos ((hd.height_eq_zero hv).1 h)]

theorem made_inner {ecn ecw v : Nat} (hv : v ∈ s.ecdag.nodeIds) (h : s.ecdag.height v ≠ 0) :
    s.Made ecn ecw v ↔ s.coloring v ≠ -1 := by
  rw [Made, if_neg fun h0 => h ((hd.height_eq_zero hv).2 h0)]

variable (ecn ecw : Nat) (ord : HashOrder Walk) (c : Int)

theorem levelTasksOn_zero : s.levelTasksOn ecn ecw ord c 0 =
    onNode c (s.readTasks ord ecw (s.madeAt ecn ecw ord 0)) ++ s.moveTasks ecn ecw ord c 0 := by
  have hmade : ((s.ecdag.levelAt ord 0).filter fun v => v / ecw < ecn) =
      s.madeAt ecn ecw ord 0 := by
    refine List.filter_congr fun v hv => ?_
    obtain ⟨hv, hh⟩ := hd.mem_levelAt.1 hv
    rw [decide_eq_decide, made_leaf hd hv hh]
  have hzero : ((s.ecdag.levelAt ord 0).filter fun v => ¬ v / ecw < ecn) =
      s.zerosAt ecn ecw ord 0 := by
    refine List.filter_congr fun v hv => ?_
    obtain ⟨hv, hh⟩ := hd.mem_levelAt.1 hv
    rw [decide_eq_decide, made_leaf hd hv hh]
  rw [levelTasksOn, levelTasks, if_pos rfl, hmade, hzero, moveTasks]
  simp only [onNode_append, onNode_sendTasks, onNode_recvTasks, onNode_zeroTasks, List.append_assoc]

theorem levelTasksOn_mid {level : Nat} (h0 : level ≠ 0) (hlast : level ≠ s.ecdag.numLevels - 1) :
    s.levelTasksOn ecn ecw ord c level =
      taskFor (fun vs => .compute (vs.map s.computeItem))
        ((s.madeAt ecn ecw ord level).filter fun v => s.coloring v = c) ++
      s.moveTasks ecn ecw ord c level := by
  have hmade : ((s.ecdag.levelAt ord level).filter fun v => s.coloring v ≠ -1) =
      s.madeAt ecn ecw ord level := by
    refine List.filter_congr fun v hv => ?_
    obtain ⟨hv, hh⟩ := hd.mem_levelAt.1 hv
    rw [decide_eq_decide, made_inner hd hv (hh.symm ▸ h0)]
  have hzero : ((s.ecdag.levelAt ord level).filter fun v => ¬ s.coloring v ≠ -1) =
      s.zerosAt ecn ecw ord level := by
    refine List.filter_congr fun v hv => ?_
    obtain ⟨hv, hh⟩ := hd.mem_levelAt.1 hv
    rw [decide_eq_decide, made_inner hd hv (hh.symm ▸ h0)]
  rw [levelTasksOn, levelTasks, if_neg h0, if_neg hlast, hmade, hzero, moveTasks]
  simp only [onNode_append, onNode_computeTasks, onNode_sendTasks, onNode_recvTasks,
    onNode_zeroTasks, List.append_assoc]

omit hd in
theorem levelTasksOn_last (h0 : s.ecdag.numLevels - 1 ≠ 0) :
    s.levelTasksOn ecn ecw ord c (s.ecdag.numLevels - 1) =
      ((s.ecdag.levelAt ord (s.ecdag.numLevels - 1)).filter fun v => s.coloring v = c).map fun v =>
        .persist (s.ecdag.childIndices v) (s.blkAt (REQUESTOR - v)) := by
  rw [levelTasksOn, levelTasks, if_neg h0, if_pos rfl, onNode, List.filter_map, List.map_map]
  rfl

omit hd in
/-- The cases of a level. -/
theorem level_cases (P : Nat → Prop) (hzero : P 0)
    (hmid : ∀ level, level ≠ 0 → level ≠ s.ecdag.numLevels - 1 → P level)
    (hlast : s.ecdag.numLevels - 1 ≠ 0 → P (s.ecdag.numLevels - 1)) (level : Nat) : P level := by
  by_cases h0 : level = 0
  · exact h0 ▸ hzero
  · by_cases hl : level = s.ecdag.numLevels - 1
    · exact hl ▸ hlast (hl ▸ h0)
    · exact hmid level h0 hl

/-- **What `genRepairTasks` compiles for a node.** -/
theorem tasksOf_eq_nodeTasks (fail2repair : Int → Option Int) :
    s.tasksOf ord ecn ecw fail2repair c = (s.remap fail2repair).nodeTasks ecn ecw ord c :=
  s.tasksOf_eq ord ecn ecw hd fail2repair c

/-! ## The entries of a node -/

omit hd in
theorem flatMap_readTasks_nil {α : Type} {e : Task → List α} (he : ∀ b vs us, e (.read b vs us) = [])
    (l : List Nat) : (onNode c (s.readTasks ord ecw l)).flatMap e = [] := by
  refine List.flatMap_eq_nil_iff.2 fun t ht => ?_
  obtain ⟨x, hx, rfl⟩ := List.mem_map.1 ht
  obtain ⟨item, -, rfl⟩ := List.mem_map.1 (List.mem_of_mem_filter hx)
  exact he _ _ _

omit hd in
theorem flatMap_persist_nil {α : Type} {e : Task → List α} (he : ∀ vs b, e (.persist vs b) = [])
    (l : List Nat) : (l.map fun v => Task.persist (s.ecdag.childIndices v)
      (s.blkAt (REQUESTOR - v))).flatMap e = [] := by
  refine List.flatMap_eq_nil_iff.2 fun t ht => ?_
  obtain ⟨v, -, rfl⟩ := List.mem_map.1 ht
  exact he _ _

/-- What a level contributes for its `Made` vertices, all levels contribute for all of them. -/
theorem flatMap_tasksOn_perm {α : Type} {e : Task → List α} {P : Nat → Bool} {g : Nat → List α}
    (h : ∀ level, (s.levelTasksOn ecn ecw ord c level).flatMap e =
      ((s.madeAt ecn ecw ord level).filter P).flatMap g) :
    ((s.nodeTasks ecn ecw ord c).flatMap e).Perm
      (((s.ecdag.nodeIds.filter fun v => s.Made ecn ecw v).filter P).flatMap g) := by
  rw [nodeTasks, List.flatMap_assoc, List.filter_filter]
  refine hd.flatMap_levels_perm ord fun level _ => ?_
  rw [h level, madeAt, List.filter_filter]

omit hd in
theorem sendEntries_moveTasks (level : Nat) :
    (s.moveTasks ecn ecw ord c level).flatMap Task.sendEntries =
      ((s.madeAt ecn ecw ord level).filter fun v => s.coloring v = c).flatMap fun v =>
        (s.sendto v).map fun c' => (v, c') := by
  have hsend : (Task.send [] (List.map s.sendto [])).sendEntries = [] := rfl
  rw [moveTasks, List.flatMap_append, List.flatMap_append,
    flatMap_taskFor (f := fun vs => .send vs (vs.map s.sendto)) hsend,
    flatMap_taskFor (f := .recv) rfl, flatMap_taskFor (f := fun vs => .read _ vs []) rfl,
    sendEntries_send]
  show _ ++ [] ++ [] = _
  rw [List.append_nil, List.append_nil]
  refine flatMap_filter_of_nil fun v _ => ?_
  by_cases h : s.sendto v = []
  · exact Or.inr (by rw [h]; rfl)
  · exact Or.inl (by simp [h])

omit hd in
theorem recvEntries_moveTasks (level : Nat) :
    (s.moveTasks ecn ecw ord c level).flatMap Task.recvEntries =
      (s.madeAt ecn ecw ord level).filter fun v => c ∈ s.sendto v := by
  rw [moveTasks, List.flatMap_append, List.flatMap_append,
    flatMap_taskFor (f := fun vs => .send vs (vs.map s.sendto)) rfl,
    flatMap_taskFor (f := .recv) rfl, flatMap_taskFor (f := fun vs => .read _ vs []) rfl]
  show [] ++ _ ++ [] = _
  rw [List.append_nil, List.nil_append]
  rfl

/-- Nothing of the last level is used. -/
theorem filter_madeAt_last {P : Nat → Bool}
    (hP : ∀ v, (∀ c', ¬ s.UsedOn v c') → P v = false) :
    (s.madeAt ecn ecw ord (s.ecdag.numLevels - 1)).filter P = [] := by
  refine List.filter_eq_nil_iff.2 fun v hv => ?_
  obtain ⟨hv, hh⟩ := hd.mem_levelAt.1 (List.mem_of_mem_filter hv)
  rw [hP v (not_usedOn_of_last hd hh)]
  exact Bool.false_ne_true

/-- **The send entries of a node.** -/
theorem sends_perm :
    ((s.nodeTasks ecn ecw ord c).flatMap Task.sendEntries).Perm
      (((s.ecdag.nodeIds.filter fun v => s.Made ecn ecw v).filter fun v => s.coloring v = c).flatMap
        fun v => (s.sendto v).map fun c' => (v, c')) := by
  refine flatMap_tasksOn_perm hd ecn ecw ord c (level_cases (s := s) _ ?_ ?_ ?_)
  · rw [levelTasksOn_zero hd, List.flatMap_append,
      flatMap_readTasks_nil ecw ord c (fun _ _ _ => rfl), sendEntries_moveTasks, List.nil_append]
  · intro level h0 hl
    rw [levelTasksOn_mid hd ecn ecw ord c h0 hl, List.flatMap_append,
      flatMap_taskFor (f := fun vs => .compute (vs.map s.computeItem)) rfl, sendEntries_moveTasks]
    rfl
  · intro h0
    rw [levelTasksOn_last ecn ecw ord c h0, flatMap_persist_nil fun _ _ => rfl]
    refine (List.flatMap_eq_nil_iff.2 fun v hv => ?_).symm
    obtain ⟨hv, hh⟩ := hd.mem_levelAt.1 (List.mem_of_mem_filter (List.mem_of_mem_filter hv))
    rw [sendto_of_last hd hh]
    rfl

/-- **The receive entries of a node.** -/
theorem recvs_perm :
    ((s.nodeTasks ecn ecw ord c).flatMap Task.recvEntries).Perm
      ((s.ecdag.nodeIds.filter fun v => s.Made ecn ecw v).filter fun v => c ∈ s.sendto v) := by
  rw [← List.flatMap_singleton' (List.filter _ (List.filter _ s.ecdag.nodeIds))]
  refine flatMap_tasksOn_perm hd ecn ecw ord c (level_cases (s := s) _ ?_ ?_ ?_)
  · rw [List.flatMap_singleton', levelTasksOn_zero hd, List.flatMap_append,
      flatMap_readTasks_nil ecw ord c (fun _ _ _ => rfl), recvEntries_moveTasks, List.nil_append]
  · intro level h0 hl
    rw [List.flatMap_singleton', levelTasksOn_mid hd ecn ecw ord c h0 hl, List.flatMap_append,
      flatMap_taskFor (f := fun vs => .compute (vs.map s.computeItem)) rfl, recvEntries_moveTasks]
    rfl
  · intro h0
    rw [List.flatMap_singleton', levelTasksOn_last ecn ecw ord c h0,
      flatMap_persist_nil fun _ _ => rfl, filter_madeAt_last hd]
    intro v hv
    exact decide_eq_false fun h => hv _ (s.mem_sendto.1 h).2

/-- The packets of a block have one colour: the node that stores the block. -/
def BlocksOnNodes (s : Stripe) (ecn ecw : Nat) : Prop :=
  ∀ u ∈ s.ecdag.nodeIds, ∀ v ∈ s.ecdag.nodeIds, s.ecdag.childIndices u = [] →
    s.ecdag.childIndices v = [] → u / ecw < ecn → u / ecw = v / ecw → s.coloring u = s.coloring v

omit hd in
/-- An entry of `blkidx2readdagidxlist`. -/
theorem mem_blkidx2readdagidxlist {l : List Nat} {item : Σ _ : Nat, List Nat}
    (hitem : item ∈ (PushMap.collect (fun v => [v / ecw]) l).entries) :
    item.2 ≠ [] ∧ ∀ v, v ∈ item.2 ↔ v ∈ l ∧ v / ecw = item.1 := by
  obtain ⟨hkey, hget⟩ := (PushMap.mem_entries _ item).1 hitem
  rw [PushMap.get_collect fun v _ => List.nodup_singleton _] at hget
  have hmem : ∀ v, v ∈ item.2 ↔ v ∈ l ∧ v / ecw = item.1 := by
    intro v
    rw [hget, List.mem_filter, decide_eq_true_iff, List.mem_singleton, eq_comm (a := item.1)]
  obtain ⟨v, hv, hk⟩ := PushMap.mem_collect.1 hkey
  exact ⟨List.ne_nil_of_mem ((hmem v).2 ⟨hv, (List.mem_singleton.1 hk).symm⟩), hmem⟩

omit hd in
/-- A read task collects packets of one block, in ascending order. -/
theorem sorted_blkidx2readdagidxlist {l : List Nat} (hl : l.Nodup) {item : Σ _ : Nat, List Nat}
    (hitem : item ∈ (PushMap.collect (fun v => [v / ecw]) l).entries) :
    (∀ v ∈ item.2.insertionSort (· ≤ ·), v ∈ l ∧ v / ecw = item.1) ∧
      (item.2.insertionSort (· ≤ ·)).Pairwise (· < ·) := by
  have hperm := List.perm_insertionSort (· ≤ ·) item.2
  constructor
  · intro v hv
    exact ((mem_blkidx2readdagidxlist ecw hitem).2 v).1 (hperm.mem_iff.1 hv)
  · have hne : (item.2.insertionSort (· ≤ ·)).Nodup := by
      rw [hperm.nodup_iff, ((PushMap.mem_entries _ item).1 hitem).2,
        PushMap.get_collect fun v _ => List.nodup_singleton _]
      exact hl.filter _
    exact ((List.pairwise_insertionSort (· ≤ ·) item.2).and hne).imp
      fun h => lt_of_le_of_ne h.1 h.2

omit hd in
theorem mem_readTasks {l : List Nat} (hl : l.Nodup) {t : Task}
    (ht : t ∈ onNode c (s.readTasks ord ecw l)) :
    ∃ (b : Nat) (vs : List Nat), t = .read (s.blkAt b) vs (vs.map s.usage) ∧ vs ≠ [] ∧
      (∀ v ∈ vs, v ∈ l ∧ v / ecw = b) ∧ vs.Pairwise (· < ·) := by
  obtain ⟨x, hx, rfl⟩ := List.mem_map.1 ht
  obtain ⟨item, hitem, rfl⟩ := List.mem_map.1 (List.mem_of_mem_filter hx)
  have hitem := (ord.mem_order _ _ _).1 hitem
  refine ⟨item.1, _, rfl, fun hnil => ?_, sorted_blkidx2readdagidxlist ecw hl hitem⟩
  refine (mem_blkidx2readdagidxlist ecw hitem).1 (List.perm_nil.1 ?_)
  exact hnil ▸ (List.perm_insertionSort (· ≤ ·) item.2).symm

omit hd in
/-- **The read tasks of a node** cover the packets of its colour. -/
theorem flatMap_readTasks {α : Type} {e : Task → List α} {g : Nat → List α} {l : List Nat}
    (hl : l.Nodup) (hcol : ∀ u ∈ l, ∀ v ∈ l, u / ecw = v / ecw → s.coloring u = s.coloring v)
    (he : ∀ (b : Nat) (vs : List Nat), (∀ v ∈ vs, v ∈ l ∧ v / ecw = b) → vs.Pairwise (· < ·) →
      (e (.read (s.blkAt b) vs (vs.map s.usage))).Perm (vs.flatMap g)) :
    ((onNode c (s.readTasks ord ecw l)).flatMap e).Perm
      ((l.filter fun v => s.coloring v = c).flatMap g) := by
  have htask : ∀ item ∈ (PushMap.collect (fun v => [v / ecw]) l).entries,
      (e (.read (s.blkAt item.1) (item.2.insertionSort (· ≤ ·))
        ((item.2.insertionSort (· ≤ ·)).map s.usage))).Perm (item.2.flatMap g) := by
    intro item hitem
    obtain ⟨hmem, hsorted⟩ := sorted_blkidx2readdagidxlist ecw hl hitem
    exact (he item.1 _ hmem hsorted).trans ((List.perm_insertionSort (· ≤ ·) item.2).flatMap_right g)
  -- all packets of a task have the colour of its first
  have hcolor : ∀ item ∈ (PushMap.collect (fun v => [v / ecw]) l).entries,
      (item.2.filter fun v => s.coloring v = c) =
        if s.coloring (item.2.headD 0) = c then item.2 else [] := by
    intro item hitem
    obtain ⟨hne, hmem⟩ := mem_blkidx2readdagidxlist ecw hitem
    have hhead : item.2.headD 0 ∈ item.2 := by
      cases hi : item.2 with
      | nil => exact absurd hi hne
      | cons a as => exact List.mem_cons_self ..
    have hsame : ∀ v ∈ item.2, s.coloring v = s.coloring (item.2.headD 0) := by
      intro v hv
      obtain ⟨h1, h2⟩ := (hmem v).1 hv
      obtain ⟨h3, h4⟩ := (hmem _).1 hhead
      exact hcol v h1 _ h3 (h2.trans h4.symm)
    split
    · next h => exact List.filter_eq_self.2 fun v hv => decide_eq_true ((hsame v hv).trans h)
    · next h =>
      refine List.filter_eq_nil_iff.2 fun v hv hv' => h ?_
      exact (hsame v hv).symm.trans (of_decide_eq_true hv')
  rw [onNode, readTasks, List.filter_map, List.map_map, List.flatMap_map]
  have hord := ord.perm .blkidx2readdagidxlist (PushMap.collect (fun v => [v / ecw]) l).entries
  refine ((hord.filter _).flatMap_right _).trans ?_
  refine (List.Perm.flatMap_left _ fun item hitem =>
    htask item (List.mem_of_mem_filter hitem)).trans ?_
  rw [← List.flatMap_assoc]
  refine List.Perm.flatMap_right g ?_
  have hparts : ((PushMap.collect (fun v => [v / ecw]) l).entries.flatMap Sigma.snd).Perm l :=
    PushMap.flatMap_entries_perm hl
  refine List.Perm.trans (List.Perm.of_eq ?_) (hparts.filter fun v => s.coloring v = c)
  rw [List.filter_flatMap, List.flatMap_congr hcolor]
  generalize (PushMap.collect (fun v => [v / ecw]) l).entries = items
  induction items with
  | nil => rfl
  | cons item items ih =>
    rw [List.filter_cons, List.flatMap_cons, ← ih]
    simp only [Function.comp_apply, decide_eq_true_eq]
    split <;> rfl

end

end Stripe

end StripeRepair

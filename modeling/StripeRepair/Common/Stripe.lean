import StripeRepair.Ec.Levels
import Mathlib.Data.List.Sort

/-!
# `Stripe`: from a coloured DAG to tasks

`genRepairTasks` goes through the levels of the repair DAG and compiles, for each node,
the tasks its agent has to perform: read tasks and zero tasks for the leaves, compute
tasks for the vertices in between, persist tasks for the last level, and a send and a
receive task per level for the packets that are used on another node.

The batch and the stripe id, which every task carries along, are left out: the tasks are
those of one stripe in one batch.  `_taskmap` is empty before the call.

* `tasksOf_eq`: the tasks of a node, level by level.
* `onNode_sendTasks`, …: of each kind there is at most one task per level and node.
-/

namespace StripeRepair

structure ComputeItem where
  dstidx : Nat
  srclist : List Nat
  coefs : List Int
  usage : Bool × Bool
  deriving DecidableEq, Repr

/-- The task types 0 to 4. A name is `none` where the code reads past `_blklist`. -/
inductive Task
  | read (blkName : Option String) (dagidxList : List Nat) (usageList : List (Bool × Bool))
  | send (dagidxList : List Nat) (sendToList : List (List Int))
  | recv (dagidxList : List Nat)
  | compute (computeList : List ComputeItem)
  | persist (collectList : List Nat) (repairedBlock : Option String)
  deriving DecidableEq, Repr

/-- From node ids to the tasks of the node. -/
abbrev TaskMap := PushMap Int Task

/-- The names of the blocks are distinct, and none of them is the name of zero blocks. -/
structure Stripe where
  ecdag : ECDAG
  blklist : List String
  coloring : Nat → Int
  distinct : blklist.Nodup
  named : "ZERO" ∉ blklist

namespace Stripe

/-- `_blklist[i]` -/
def blkAt (s : Stripe) (i : Int) : Option String :=
  if 0 ≤ i then s.blklist[i.toNat]? else none

/-- The colours of the parents, each once. -/
def nodeidlist (s : Stripe) (dagidx : Nat) : List Int :=
  (s.ecdag.parentIds dagidx).foldl
    (fun l p => if s.coloring p ∈ l then l else l ++ [s.coloring p]) []

/-- `<same, diff>`: used on the same node, used on a different node. -/
def usage (s : Stripe) (dagidx : Nat) : Bool × Bool :=
  ((s.nodeidlist dagidx).any fun c => c = s.coloring dagidx,
    (s.nodeidlist dagidx).any fun c => c ≠ s.coloring dagidx)

/-- Where a packet is sent: we do not need to send to the same node. -/
def sendto (s : Stripe) (dagidx : Nat) : List Int :=
  (s.nodeidlist dagidx).erase (s.coloring dagidx)

/-! ## The tasks of a level -/

section
variable (s : Stripe) (ord : HashOrder Walk)

/-- One read task for each block. -/
def readTasks (ecw : Nat) (realidx : List Nat) : List (Int × Task) :=
  let blkidx2readdagidxlist := PushMap.collect (fun v => [v / ecw]) realidx
  (ord.order .blkidx2readdagidxlist blkidx2readdagidxlist.entries).map fun item =>
    let dagidxlist := item.2.insertionSort (· ≤ ·)
    (s.coloring (item.2.headD 0),
      .read (s.blkAt item.1) dagidxlist (dagidxlist.map s.usage))

def sendTasks (level : Nat) (realidx : List Nat) : List (Int × Task) :=
  let sendfrom2dagidxlist :=
    PushMap.collect (fun v => if s.sendto v = [] then [] else [s.coloring v]) realidx
  (ord.order (.sendfrom2dagidxlist level) sendfrom2dagidxlist.entries).map fun item =>
    (item.1, .send item.2 (item.2.map s.sendto))

def recvTasks (level : Nat) (realidx : List Nat) : List (Int × Task) :=
  let recvnodeid2dagidxlist := PushMap.collect s.sendto realidx
  (ord.order (.recvnodeid2dagidxlist level) recvnodeid2dagidxlist.entries).map fun item =>
    (item.1, .recv item.2)

/-- Packets that are zero are produced where they are used. A parent coloured -1 is zero
itself: we delay the generation to its level. -/
def zeroTasks (walk : Walk) (zeroidx : List Nat) : List (Int × Task) :=
  let nodeid2zerodagidxlist :=
    PushMap.collect (fun v => (s.nodeidlist v).filter fun c => c ≠ -1) zeroidx
  (ord.order walk nodeid2zerodagidxlist.entries).map fun item =>
    (item.1, .read (some "ZERO") item.2 [])

def computeItem (dagidx : Nat) : ComputeItem :=
  ⟨dagidx, s.ecdag.childIndices dagidx, s.ecdag.getCoefs dagidx, s.usage dagidx⟩

def computeTasks (level : Nat) (realidx : List Nat) : List (Int × Task) :=
  let nodeid2dagidxlist := PushMap.collect (fun v => [s.coloring v]) realidx
  (ord.order (.nodeid2dagidxlist level) nodeid2dagidxlist.entries).map fun item =>
    (item.1, .compute (item.2.map s.computeItem))

def genLevel0 (ecn ecw : Nat) (leaves : List Nat) (res : TaskMap) : TaskMap :=
  let realidx := leaves.filter fun v => v / ecw < ecn
  let virtidx := leaves.filter fun v => ¬ v / ecw < ecn
  res.pushAll (s.readTasks ord ecw realidx ++ s.sendTasks ord 0 realidx ++
    s.recvTasks ord 0 realidx ++ s.zeroTasks ord .nodeid2virdagidxlist virtidx)

def genIntermediateLevels (level : Nat) (leaves : List Nat) (res : TaskMap) : TaskMap :=
  let realidx := leaves.filter fun v => s.coloring v ≠ -1
  let zeroidx := leaves.filter fun v => ¬ s.coloring v ≠ -1
  res.pushAll (s.computeTasks ord level realidx ++ s.sendTasks ord level realidx ++
    s.recvTasks ord level realidx ++ s.zeroTasks ord (.nodeid2zerodagidxlist level) zeroidx)

/-- One persist task for each vertex of the last level, whatever the vertex is. -/
def genLastLevel (leaves : List Nat) (res : TaskMap) : TaskMap :=
  res.pushAll (leaves.map fun v =>
    (s.coloring v, .persist (s.ecdag.childIndices v) (s.blkAt (REQUESTOR - v))))

/-- The body of the loop over the levels. -/
def genLevel (ecn ecw numLevel : Nat) (res : TaskMap) (item : List Nat × Nat) : TaskMap :=
  if item.2 = 0 then s.genLevel0 ord ecn ecw item.1 res
  else if item.2 = numLevel - 1 then s.genLastLevel item.1 res
  else s.genIntermediateLevels ord item.2 item.1 res

/-- Tasks for a failed node go to the node that repairs it. -/
def remap (fail2repair : Int → Option Int) : Stripe :=
  { s with coloring := fun v => (fail2repair (s.coloring v)).getD (s.coloring v) }

def genRepairTasks (ecn ecw : Nat) (fail2repair : Int → Option Int) : TaskMap :=
  let topolevel := s.ecdag.genLeveledTopologicalSorting ord
  topolevel.zipIdx.foldl ((s.remap fail2repair).genLevel ord ecn ecw topolevel.length) ∅

end

/-! ## The colours of the parents -/

section
variable (s : Stripe)

/-- Some parent of `v` is on node `c`. -/
def UsedOn (v : Nat) (c : Int) : Prop := ∃ p ∈ s.ecdag.parentIds v, s.coloring p = c

instance (v : Nat) (c : Int) : Decidable (s.UsedOn v c) := by
  unfold UsedOn
  infer_instance

theorem foldl_nodeidlist (ps : List Nat) (l : List Int) (hl : l.Nodup) :
    (ps.foldl (fun l p => if s.coloring p ∈ l then l else l ++ [s.coloring p]) l).Nodup ∧
      ∀ c, c ∈ ps.foldl (fun l p => if s.coloring p ∈ l then l else l ++ [s.coloring p]) l ↔
        c ∈ l ∨ ∃ p ∈ ps, s.coloring p = c := by
  induction ps generalizing l with
  | nil => exact ⟨hl, by simp⟩
  | cons p ps ih =>
    rw [List.foldl_cons]
    split
    · next h =>
      refine ⟨(ih l hl).1, fun c => ?_⟩
      rw [(ih l hl).2 c]
      constructor
      · rintro (h1 | ⟨q, hq, h1⟩)
        · exact Or.inl h1
        · exact Or.inr ⟨q, List.mem_cons_of_mem _ hq, h1⟩
      · rintro (h1 | ⟨q, hq, h1⟩)
        · exact Or.inl h1
        · rcases List.mem_cons.1 hq with rfl | hq
          · exact Or.inl (h1 ▸ h)
          · exact Or.inr ⟨q, hq, h1⟩
    · next h =>
      have hl' : (l ++ [s.coloring p]).Nodup := by
        rw [← List.concat_eq_append]
        exact hl.concat h
      refine ⟨(ih _ hl').1, fun c => ?_⟩
      rw [(ih _ hl').2 c]
      simp only [List.mem_append, List.mem_singleton, List.exists_mem_cons_iff, or_assoc,
        eq_comm (a := c)]

theorem nodup_nodeidlist (v : Nat) : (s.nodeidlist v).Nodup :=
  (s.foldl_nodeidlist _ [] List.nodup_nil).1

theorem mem_nodeidlist {v : Nat} {c : Int} : c ∈ s.nodeidlist v ↔ s.UsedOn v c := by
  rw [nodeidlist, (s.foldl_nodeidlist _ [] List.nodup_nil).2 c]
  simp [UsedOn]

theorem usage_fst {v : Nat} : (s.usage v).1 = true ↔ s.UsedOn v (s.coloring v) := by
  simp [usage, ← mem_nodeidlist]

theorem usage_snd {v : Nat} : (s.usage v).2 = true ↔ ∃ c, c ≠ s.coloring v ∧ s.UsedOn v c := by
  simp [usage, ← mem_nodeidlist, and_comm]

theorem nodup_sendto (v : Nat) : (s.sendto v).Nodup := (s.nodup_nodeidlist v).erase _

theorem mem_sendto {v : Nat} {c : Int} : c ∈ s.sendto v ↔ c ≠ s.coloring v ∧ s.UsedOn v c := by
  rw [sendto, (s.nodup_nodeidlist v).mem_erase_iff, mem_nodeidlist]

theorem sendto_ne_nil {v : Nat} : s.sendto v ≠ [] ↔ (s.usage v).2 = true := by
  rw [usage_snd]
  constructor
  · intro h
    obtain ⟨c, hc⟩ := List.exists_mem_of_ne_nil _ h
    exact ⟨c, s.mem_sendto.1 hc⟩
  · rintro ⟨c, hc⟩
    exact List.ne_nil_of_mem (s.mem_sendto.2 hc)

end

/-! ## The tasks of one node -/

/-- What of a list of tasks is for node `c`. -/
def onNode (c : Int) (l : List (Int × Task)) : List Task :=
  (l.filter fun e => e.1 = c).map Prod.snd

theorem onNode_append (c : Int) (l l' : List (Int × Task)) :
    onNode c (l ++ l') = onNode c l ++ onNode c l' := by
  simp [onNode]

/-- A walk that makes a task for each key makes at most one for a node. -/
theorem onNode_walk (ord : HashOrder Walk) (w : Walk) (m : PushMap Int Nat)
    (f : List Nat → Task) (c : Int) :
    onNode c ((ord.order w m.entries).map fun item => (item.1, f item.2)) =
      if c ∈ m then [f (m.get c)] else [] := by
  rw [onNode, List.filter_map, List.map_map]
  show List.map _ ((ord.order w m.entries).filter fun item => item.1 = c) = _
  rw [PushMap.filter_order_entries]
  split <;> rfl

/-- The task for a list of packets, if there are any. -/
def taskFor (f : List Nat → Task) (l : List Nat) : List Task := if l = [] then [] else [f l]

theorem onNode_collect (ord : HashOrder Walk) (w : Walk) {keysOf : Nat → List Int} {l : List Nat}
    (hk : ∀ v ∈ l, (keysOf v).Nodup) (f : List Nat → Task) (c : Int) :
    onNode c ((ord.order w (PushMap.collect keysOf l).entries).map fun item =>
      (item.1, f item.2)) = taskFor f (l.filter fun v => c ∈ keysOf v) := by
  rw [onNode_walk, PushMap.get_collect hk, taskFor]
  have hmem : c ∈ PushMap.collect keysOf l ↔ l.filter (fun v => c ∈ keysOf v) ≠ [] := by
    rw [PushMap.mem_collect, ne_eq, List.filter_eq_nil_iff]
    simp
  by_cases h : l.filter (fun v => c ∈ keysOf v) = []
  · rw [if_pos h, if_neg fun hm => hmem.1 hm h]
  · rw [if_neg h, if_pos (hmem.2 h)]

section
variable (s : Stripe) (ord : HashOrder Walk) (level : Nat) (c : Int) (l : List Nat)

theorem onNode_sendTasks : onNode c (s.sendTasks ord level l) =
    taskFor (fun vs => .send vs (vs.map s.sendto))
      (l.filter fun v => s.sendto v ≠ [] ∧ s.coloring v = c) := by
  refine (onNode_collect ord _ (fun v _ => by split <;> simp) (fun vs => .send vs _) c).trans ?_
  congr 1
  refine List.filter_congr fun v _ => ?_
  rw [decide_eq_decide]
  split
  · next h => simp [h]
  · next h => simp [h, eq_comm]

theorem onNode_recvTasks : onNode c (s.recvTasks ord level l) =
    taskFor .recv (l.filter fun v => c ∈ s.sendto v) :=
  onNode_collect ord _ (fun v _ => s.nodup_sendto v) _ c

theorem onNode_zeroTasks (walk : Walk) : onNode c (s.zeroTasks ord walk l) =
    taskFor (fun vs => .read (some "ZERO") vs []) (l.filter fun v => s.UsedOn v c ∧ c ≠ -1) := by
  refine (onNode_collect ord walk (fun v _ => (s.nodup_nodeidlist v).filter _)
    (fun vs => .read _ vs []) c).trans ?_
  congr 1
  refine List.filter_congr fun v _ => ?_
  rw [decide_eq_decide, List.mem_filter, mem_nodeidlist, decide_eq_true_iff]

theorem onNode_computeTasks : onNode c (s.computeTasks ord level l) =
    taskFor (fun vs => .compute (vs.map s.computeItem)) (l.filter fun v => s.coloring v = c) := by
  refine (onNode_collect ord _ (fun v _ => List.nodup_singleton _) (fun vs => .compute _) c).trans ?_
  congr 1
  refine List.filter_congr fun v _ => ?_
  rw [decide_eq_decide, List.mem_singleton, eq_comm]

end

/-! ## All levels -/

section
variable (s : Stripe) (ord : HashOrder Walk) (ecn ecw : Nat)

/-- What is pushed for a level. -/
def levelTasks (numLevel level : Nat) (leaves : List Nat) : List (Int × Task) :=
  if level = 0 then
    s.readTasks ord ecw (leaves.filter fun v => v / ecw < ecn) ++
      s.sendTasks ord 0 (leaves.filter fun v => v / ecw < ecn) ++
      s.recvTasks ord 0 (leaves.filter fun v => v / ecw < ecn) ++
      s.zeroTasks ord .nodeid2virdagidxlist (leaves.filter fun v => ¬ v / ecw < ecn)
  else if level = numLevel - 1 then
    leaves.map fun v => (s.coloring v, .persist (s.ecdag.childIndices v) (s.blkAt (REQUESTOR - v)))
  else
    s.computeTasks ord level (leaves.filter fun v => s.coloring v ≠ -1) ++
      s.sendTasks ord level (leaves.filter fun v => s.coloring v ≠ -1) ++
      s.recvTasks ord level (leaves.filter fun v => s.coloring v ≠ -1) ++
      s.zeroTasks ord (.nodeid2zerodagidxlist level) (leaves.filter fun v => ¬ s.coloring v ≠ -1)

theorem genLevel_eq (numLevel : Nat) (res : TaskMap) (item : List Nat × Nat) :
    s.genLevel ord ecn ecw numLevel res item =
      res.pushAll (s.levelTasks ord ecn ecw numLevel item.2 item.1) := by
  unfold genLevel levelTasks
  split
  · rfl
  · split <;> rfl

/-- The tasks of node `c`: `_taskmap[c]`. -/
def tasksOf (fail2repair : Int → Option Int) (c : Int) : List Task :=
  (s.genRepairTasks ord ecn ecw fail2repair).get c

theorem get_foldl_genLevel (numLevel : Nat) (items : List (List Nat × Nat)) (res : TaskMap)
    (c : Int) : (items.foldl (s.genLevel ord ecn ecw numLevel) res).get c =
      res.get c ++ items.flatMap fun item =>
        onNode c (s.levelTasks ord ecn ecw numLevel item.2 item.1) := by
  induction items generalizing res with
  | nil => simp
  | cons item items ih =>
    rw [List.foldl_cons, ih, genLevel_eq, PushMap.get_pushAll, List.flatMap_cons,
      List.append_assoc]
    rfl

theorem zipIdx_range_map {α : Type} (f : Nat → α) (n : Nat) :
    ((List.range n).map f).zipIdx = (List.range n).map fun i => (f i, i) := by
  apply List.ext_getElem
  · simp
  · intro i h1 h2
    simp

/-- **The tasks of a node, level by level.** -/
theorem tasksOf_eq (hd : s.ecdag.WellFormed) (fail2repair : Int → Option Int) (c : Int) :
    s.tasksOf ord ecn ecw fail2repair c = (List.range s.ecdag.numLevels).flatMap fun level =>
      onNode c ((s.remap fail2repair).levelTasks ord ecn ecw s.ecdag.numLevels level
        (s.ecdag.levelAt ord level)) := by
  unfold tasksOf genRepairTasks
  simp only [hd.sorting_eq ord, zipIdx_range_map, List.length_map, List.length_range]
  rw [get_foldl_genLevel, PushMap.get_empty, List.nil_append, List.flatMap_map]

end

end Stripe

end StripeRepair

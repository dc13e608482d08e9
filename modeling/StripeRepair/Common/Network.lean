import StripeRepair.Lib.FifoNet
import StripeRepair.Ec.Eval
import StripeRepair.Common.Persist
import StripeRepair.Common.QueueBalance

/-!
# The agents as a network

The threads of all agents run the programs of their tasks.  What a send task pushes goes
through a connection, in order, and from there into the redis of the other agent; when it
arrives is up to the schedule.

* `taskOf_nodeTasks`: what the tasks of a node are.
* `filterMap_round`: what a task does in a packet round, kind by kind.
-/

namespace StripeRepair

/-- Where packets wait: in a queue of an agent, on the way to the redis of another agent, in
the redis of an agent, and for good in a repaired block. -/
inductive Chan
  | queue (node : Int) (key : Int)
  | wire (node sendto : Int) (dagidx : Nat)
  | redis (node : Int) (dagidx : Nat)
  | file (node : Int) (blkName : Option String)
  deriving DecidableEq, Repr

/-- A thread for each task of each agent, and the connections between the agents. -/
inductive ThreadId
  | task (node : Int) (taskid : Nat)
  | net (node sendto : Int) (dagidx : Nat)
  deriving DecidableEq, Repr

abbrev Packet (pktbytes : Nat) := Fin pktbytes → GF256

section
variable {pktbytes : Nat}

/-- Sub-packet `j` of packet `r` of a block. -/
def readPacket (ecw : Nat) (block : Nat → GF256) (r j : Nat) : Packet pktbytes :=
  fun b => block (r * (pktbytes * ecw) + j * pktbytes + b)

/-- A step of a thread of agent `c` in packet round `r`; `disk` holds the blocks. -/
def Op.instr (ecw : Nat) (disk : Int → Option String → Nat → GF256) (c : Int) (r : Nat) :
    Op → FifoNet.Instr Chan Nat (Packet pktbytes)
  | .pread blkName j dagidx => .set dagidx fun _ => readPacket ecw (disk c blkName) r j
  | .zero dagidx => .set dagidx fun _ => 0
  | .pop key dagidx => .pop (.queue c key) dagidx
  | .push key dagidx => .push (.queue c key) dagidx
  | .blpop dagidx => .pop (.redis c dagidx) dagidx
  | .rpush sendto dagidx => .push (.wire c sendto dagidx) dagidx
  | .multi dst srclist coefs =>
    .set dst fun regs => LinearProgram.combine ((coefs.map GF256.ofInt).zip srclist) regs
  | .write blkName dagidx => .push (.file c blkName) dagidx

/-- Packet round `r` of a task. -/
def Task.body (ecw : Nat) (disk : Int → Option String → Nat → GF256) (c : Int) (t : Task)
    (r : Nat) : List (FifoNet.Instr Chan Nat (Packet pktbytes)) :=
  (t.round ecw).map (Op.instr ecw disk c r)

/-- A connection delivers each packet that is sent. -/
def deliver (c sendto : Int) (dagidx : Nat) :
    List (FifoNet.Instr Chan Nat (Packet pktbytes)) :=
  [.pop (.wire c sendto dagidx) dagidx, .push (.redis sendto dagidx) dagidx]

/-- What each thread does, for blocks of `pktnum` packets. -/
def program (tasks : Int → List Task) (ecw pktnum : Nat)
    (disk : Int → Option String → Nat → GF256) :
    ThreadId → List (FifoNet.Instr Chan Nat (Packet pktbytes))
  | .task c i =>
    match (tasks c)[i]? with
    | none => []
    | some t => (List.range pktnum).flatMap (t.body ecw disk c)
  | .net c sendto dagidx =>
    (List.range (pktnum * ((tasks c).flatMap Task.sendEntries).count (dagidx, sendto))).flatMap
      fun _ => deliver c sendto dagidx

end

namespace Stripe

/-! ## What the tasks of a node are -/

/-- The tasks of node `c`, kind by kind. Node -1 only has persist tasks. -/
inductive TaskOf (s : Stripe) (ecn ecw : Nat) (placement : Nat → Int) (c : Int) : Task → Prop
  | read (hc : c ≠ -1) (b : Nat) (vs : List Nat) (h : ∀ v ∈ vs, v / ecw = b ∧ b < ecn ∧
      s.ecdag.childIndices v = [] ∧ placement b = c) :
    TaskOf s ecn ecw placement c (.read (s.blkAt b) vs (vs.map s.usage))
  | zero (hc : c ≠ -1) (vs : List Nat) (h : ∀ v ∈ vs, v ∈ s.ecdag.nodeIds ∧ s.coloring v = -1) :
    TaskOf s ecn ecw placement c (.read (some "ZERO") vs [])
  | send (hc : c ≠ -1) (vs : List Nat) (h : ∀ v ∈ vs, s.sendto v ≠ []) :
    TaskOf s ecn ecw placement c (.send vs (vs.map s.sendto))
  | recv (hc : c ≠ -1) (vs : List Nat) : TaskOf s ecn ecw placement c (.recv vs)
  | compute (hc : c ≠ -1) (vs : List Nat) (h : ∀ v ∈ vs, s.ecdag.childIndices v ≠ []) :
    TaskOf s ecn ecw placement c (.compute (vs.map s.computeItem))
  | persist (v : Nat) (hv : v ∈ s.ecdag.nodeIds)
      (h : s.ecdag.height v = s.ecdag.numLevels - 1) :
    TaskOf s ecn ecw placement c (.persist (s.ecdag.childIndices v) (s.blkAt (REQUESTOR - v)))

theorem mem_taskFor {f : List Nat → Task} {l : List Nat} {t : Task} (h : t ∈ taskFor f l) :
    t = f l ∧ ∃ v, v ∈ l := by
  unfold taskFor at h
  split at h
  · cases h
  · next hl => exact ⟨List.mem_singleton.1 h, List.exists_mem_of_ne_nil _ hl⟩

section
variable {s : Stripe} {ecn ecw : Nat} {placement : Nat → Int} (hd : s.ecdag.WellFormed)
  (hl : s.Legal ecn ecw placement) (ord : HashOrder Walk) {c : Int} {t : Task}
include hd hl

/-- What is made has a node. -/
theorem of_mem_madeAt {level v : Nat} (hv : v ∈ s.madeAt ecn ecw ord level) :
    v ∈ s.ecdag.nodeIds ∧ s.ecdag.height v = level ∧ s.coloring v ≠ -1 := by
  obtain ⟨hlev, hmade⟩ := List.mem_filter.1 hv
  obtain ⟨hmem, hh⟩ := hd.mem_levelAt.1 hlev
  exact ⟨hmem, hh, (hl.made_iff hd hmem).1 (of_decide_eq_true hmade)⟩

theorem taskOf_moveTasks {level : Nat} (ht : t ∈ s.moveTasks ecn ecw ord c level) :
    s.TaskOf ecn ecw placement c t := by
  rcases List.mem_append.1 ht with ht | ht
  · rcases List.mem_append.1 ht with ht | ht
    · obtain ⟨rfl, u, hu⟩ := mem_taskFor ht
      obtain ⟨hu, huc⟩ := List.mem_filter.1 hu
      have huc := (of_decide_eq_true huc).2
      refine .send (huc ▸ (of_mem_madeAt hd hl ord hu).2.2) _ fun v hv => ?_
      exact (of_decide_eq_true (List.mem_filter.1 hv).2).1
    · obtain ⟨rfl, u, hu⟩ := mem_taskFor ht
      obtain ⟨hu, hto⟩ := List.mem_filter.1 hu
      obtain ⟨hmem, -, hne⟩ := of_mem_madeAt hd hl ord hu
      have hused := (s.mem_sendto.1 (of_decide_eq_true hto)).2
      exact .recv (fun h => hl.not_usedOn_neg hd hne (h ▸ hused)) _
  · obtain ⟨rfl, u, hu⟩ := mem_taskFor ht
    refine .zero (of_decide_eq_true (List.mem_filter.1 hu).2).2 _ fun v hv => ?_
    obtain ⟨hv, hmade⟩ := List.mem_filter.1 (List.mem_of_mem_filter hv)
    have hv := (hd.mem_levelAt.1 hv).1
    exact ⟨hv, not_not.1 fun h => of_decide_eq_true hmade ((hl.made_iff hd hv).2 h)⟩

theorem taskOf_readTasks (ht : t ∈ onNode c (s.readTasks ord ecw (s.madeAt ecn ecw ord 0))) :
    s.TaskOf ecn ecw placement c t := by
  obtain ⟨b, vs, rfl, hne, hvs, -⟩ :=
    mem_readTasks ecw ord c ((hd.levelAt_nodup ord 0).filter _) ht
  have hall : ∀ v ∈ vs, v / ecw = b ∧ b < ecn ∧ s.ecdag.childIndices v = [] ∧
      placement b = c := by
    intro v hv
    obtain ⟨hmade, hb⟩ := hvs v hv
    obtain ⟨hmem, hh, hcol⟩ := of_mem_madeAt hd hl ord hmade
    have hnil := (hd.height_eq_zero hmem).1 hh
    have hlt : b < ecn := hb ▸ (made_leaf hd hmem hh).1 ((hl.made_iff hd hmem).2 hcol)
    have hread : v ∈ (s.levelTasksOn ecn ecw ord c 0).flatMap Task.readEntries := by
      rw [levelTasksOn_zero hd]
      exact List.mem_flatMap.2 ⟨_, List.mem_append_left _ ht, hv⟩
    have hc := (of_mem_readEntries ord hd hl.same_block hread).resolve_left
      (not_not.2 ((hl.made_iff hd hmem).2 hcol))
    rw [hl.leaf v hmem hnil, hb, if_pos hlt] at hc
    exact ⟨hb, hlt, hnil, hc⟩
  obtain ⟨u, hu⟩ := List.exists_mem_of_ne_nil _ hne
  obtain ⟨-, hlt, -, hc⟩ := hall u hu
  exact .read (hc ▸ hl.placed b hlt) b vs hall

/-- **What the tasks of a node are.** -/
theorem taskOf_nodeTasks (ht : t ∈ s.nodeTasks ecn ecw ord c) :
    s.TaskOf ecn ecw placement c t := by
  obtain ⟨level, -, ht⟩ := List.mem_flatMap.1 ht
  by_cases h0 : level = 0
  · subst h0
    rw [levelTasksOn_zero hd] at ht
    rcases List.mem_append.1 ht with ht | ht
    · exact taskOf_readTasks hd hl ord ht
    · exact taskOf_moveTasks hd hl ord ht
  · by_cases hlast : level = s.ecdag.numLevels - 1
    · subst hlast
      rw [levelTasksOn_last ecn ecw ord c h0] at ht
      obtain ⟨v, hv, rfl⟩ := List.mem_map.1 ht
      obtain ⟨hmem, hh⟩ := hd.mem_levelAt.1 (List.mem_of_mem_filter hv)
      exact .persist v hmem hh
    · rw [levelTasksOn_mid hd ecn ecw ord c h0 hlast] at ht
      rcases List.mem_append.1 ht with ht | ht
      · obtain ⟨rfl, u, hu⟩ := mem_taskFor ht
        obtain ⟨hu, huc⟩ := List.mem_filter.1 hu
        have huc : s.coloring u = c := of_decide_eq_true huc
        refine .compute (huc ▸ (of_mem_madeAt hd hl ord hu).2.2) _ fun v hv hnil => ?_
        obtain ⟨hmem, hh, -⟩ := of_mem_madeAt hd hl ord (List.mem_of_mem_filter hv)
        exact h0 (hh.symm.trans ((hd.height_eq_zero hmem).2 hnil))
      · exact taskOf_moveTasks hd hl ord ht

end

end Stripe

/-! ## The queues of a thread -/

/-- The packet that a queue carries. -/
def keyVertex (key : Int) : Nat :=
  if 0 ≤ key then key.toNat else if key = KEY0 then 0 else (-key).toNat

theorem keyVertex_localKey (v : Nat) : keyVertex (localKey v) = v := by
  unfold keyVertex localKey
  rw [if_pos (by omega)]
  omega

theorem keyVertex_cacheKey {v : Nat} (hv : v ≠ REQUESTOR) : keyVertex (cacheKey v) = v := by
  have hneg := cacheKey_neg v
  unfold keyVertex
  rw [if_neg (by omega)]
  unfold cacheKey KEY0 REQUESTOR at *
  by_cases h0 : v = 0
  · simp [h0]
  · rw [if_pos h0, if_neg (by omega)]
    omega

def Op.popChan (c : Int) : Op → Option Chan
  | .pop key _ => some (.queue c key)
  | .blpop dagidx => some (.redis c dagidx)
  | _ => none

def Op.pushChan (c : Int) : Op → Option Chan
  | .push key _ => some (.queue c key)
  | .rpush sendto dagidx => some (.wire c sendto dagidx)
  | .write blkName _ => some (.file c blkName)
  | _ => none

namespace Task

/-- Where a packet round takes packets from. -/
def popChans (ecw : Nat) (c : Int) (t : Task) : List Chan :=
  (t.round ecw).filterMap (Op.popChan c)

/-- Where a packet round puts packets. -/
def pushChans (ecw : Nat) (c : Int) (t : Task) : List Chan :=
  (t.round ecw).filterMap (Op.pushChan c)

section
variable {pktbytes : Nat} (ecw : Nat) (disk : Int → Option String → Nat → GF256) (c : Int)
  (t : Task) (r : Nat) (ch : Chan)

theorem length_popRegs_body :
    (FifoNet.popRegs ch (t.body ecw disk c r : List (FifoNet.Instr _ _ (Packet pktbytes)))).length =
      (t.popChans ecw c).count ch := by
  rw [FifoNet.popRegs, body, List.filterMap_map, List.length_filterMap_eq_countP, popChans,
    List.count_filterMap]
  refine List.countP_congr fun op _ => ?_
  cases op <;> simp [Op.instr, FifoNet.Instr.popReg, Op.popChan]

theorem length_pushRegs_body :
    (FifoNet.pushRegs ch (t.body ecw disk c r : List (FifoNet.Instr _ _ (Packet pktbytes)))).length =
      (t.pushChans ecw c).count ch := by
  rw [FifoNet.pushRegs, body, List.filterMap_map, List.length_filterMap_eq_countP, pushChans,
    List.count_filterMap]
  refine List.countP_congr fun op _ => ?_
  cases op <;> simp [Op.instr, FifoNet.Instr.pushReg, Op.pushChan]

theorem count_pushChans_queue (key : Int) :
    (t.pushChans ecw c).count (.queue c key) = (t.pushes ecw).count key := by
  rw [pushChans, pushes, List.count_filterMap, List.count_filterMap]
  refine List.countP_congr fun op _ => ?_
  cases op <;> simp [Op.pushChan, Op.pushKey]

end

end Task

/-- Steps that stay within the agent. -/
def Op.isLocal : Op → Bool
  | .blpop _ => false
  | .rpush _ _ => false
  | .write _ _ => false
  | _ => true

namespace Task

section
variable {α : Type} {e : Op → Option α} (he : ∀ op, op.isLocal → e op = none)
include he

theorem filterMap_pushes (u : Bool × Bool) (v : Nat) :
    (Worker.pushLocal u v ++ Worker.pushCache u v).filterMap e = [] := by
  refine List.filterMap_eq_nil_iff.2 fun op hop => he op ?_
  unfold Worker.pushLocal Worker.pushCache at hop
  rcases List.mem_append.1 hop with hop | hop
  · split at hop
    · rw [List.mem_singleton.1 hop]
      rfl
    · cases hop
  · split at hop
    · rw [List.mem_singleton.1 hop]
      rfl
    · cases hop

/-- Send, receive and persist tasks are those that reach out. -/
theorem filterMap_round (ecw : Nat) (t : Task) : (t.round ecw).filterMap e =
    match t with
    | .send vs tos => (vs.zip tos).flatMap fun x => x.2.filterMap fun c => e (.rpush c x.1)
    | .recv vs => vs.filterMap fun v => e (.blpop v)
    | .persist vs b => vs.filterMap fun v => e (.write b v)
    | _ => [] := by
  cases t with
  | read b vs us =>
    rw [round]
    split
    · rw [Worker.readVirtBlock, List.filterMap_flatMap]
      refine List.flatMap_eq_nil_iff.2 fun v _ => ?_
      simp [he (.zero v) rfl, he (.push (localKey v) v) rfl]
    · rw [Worker.readRealBlock, List.filterMap_flatMap]
      refine List.flatMap_eq_nil_iff.2 fun j _ => ?_
      split
      · rfl
      · next x _ => rw [List.filterMap_cons, he (.pread b j x.1) rfl, filterMap_pushes he]
  | send vs tos =>
    rw [round, Worker.sendOneByOne, List.filterMap_flatMap]
    refine List.flatMap_congr fun x _ => ?_
    rw [List.filterMap_cons, he (.pop (cacheKey x.1) x.1) rfl, List.filterMap_map]
    rfl
  | recv vs =>
    rw [round, Worker.recvList, List.filterMap_flatMap]
    show _ = vs.filterMap fun v => e (.blpop v)
    rw [List.filterMap_eq_flatMap_toList]
    refine List.flatMap_congr fun v _ => ?_
    rw [List.filterMap_cons, List.filterMap_cons, he (.push (localKey v) v) rfl]
    cases e (.blpop v) <;> rfl
  | compute cl =>
    rw [round, Worker.computeOneByOne, List.filterMap_append, List.filterMap_map,
      List.filterMap_flatMap]
    have hpop : (Worker.inputList cl).filterMap (e ∘ fun v => .pop (localKey v) v) = [] :=
      List.filterMap_eq_nil_iff.2 fun v _ => he _ rfl
    rw [hpop, List.nil_append]
    refine List.flatMap_eq_nil_iff.2 fun ci _ => ?_
    rw [List.filterMap_cons, he (.multi ci.dstidx ci.srclist ci.coefs) rfl, List.filterMap_append]
    have hpushes := filterMap_pushes he ci.usage ci.dstidx
    rw [List.filterMap_append, List.append_eq_nil_iff] at hpushes
    rw [hpushes.1, hpushes.2]
    rfl
  | persist vs b =>
    rw [round, Worker.persist, List.filterMap_flatMap]
    show _ = vs.filterMap fun v => e (.write b v)
    rw [List.filterMap_eq_flatMap_toList]
    refine List.flatMap_congr fun v _ => ?_
    rw [List.filterMap_cons, List.filterMap_cons, he (.pop (localKey v) v) rfl]
    cases e (.write b v) <;> rfl

end

section
variable (ecw : Nat) (c : Int) (t : Task)

theorem count_popChans_redis (v : Nat) :
    (t.popChans ecw c).count (.redis c v) = t.recvEntries.count v := by
  let e : Op → Option Nat := fun op => match op with
    | .blpop v => some v
    | _ => none
  have hcount : (t.popChans ecw c).count (.redis c v) = ((t.round ecw).filterMap e).count v := by
    rw [popChans, List.count_filterMap, List.count_filterMap]
    refine List.countP_congr fun op _ => ?_
    cases op <;> simp [Op.popChan, e]
  rw [hcount, filterMap_round (fun op h => by cases op <;> first | rfl | cases h)]
  cases t with
  | send vs tos => simp [recvEntries, e, List.flatMap_eq_nil_iff.2]
  | _ => simp [recvEntries, e]

theorem count_pushChans_wire (sendto : Int) (v : Nat) :
    (t.pushChans ecw c).count (.wire c sendto v) = t.sendEntries.count (v, sendto) := by
  let e : Op → Option (Nat × Int) := fun op => match op with
    | .rpush sendto v => some (v, sendto)
    | _ => none
  have hcount : (t.pushChans ecw c).count (.wire c sendto v) =
      ((t.round ecw).filterMap e).count (v, sendto) := by
    rw [pushChans, List.count_filterMap, List.count_filterMap]
    refine List.countP_congr fun op _ => ?_
    cases op <;> simp [Op.pushChan, e, and_comm]
  rw [hcount, filterMap_round (fun op h => by cases op <;> first | rfl | cases h)]
  cases t <;> simp [sendEntries, e]

end

end Task

end StripeRepair

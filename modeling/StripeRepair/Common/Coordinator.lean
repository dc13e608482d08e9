import StripeRepair.Lib.Choreography
import StripeRepair.Lib.StraightLine
import StripeRepair.Common.RepairLive

/-!
# The coordinator and the agents

`Coordinator::repair` goes through the batches. For each node with tasks in the batch a thread
sends a request and the commands to the redis of its agent; when all are sent, other threads
wait for the finish flags of the nodes, and then the next batch is begun. `Worker::doProcess`
reads a request and the commands it announces, runs a thread for each stripe of the batch, which
runs a thread for each of its tasks, and raises the flag.

A thread that is created and joined is modelled by one that waits to be started and then says
that it has finished. A command stands for the bytes that are parsed to it.
-/

namespace StripeRepair

/-! ## Addresses -/

/-- The addresses in the configuration. -/
structure Config where
  agentsIPs : List Nat
  repairIPs : List Nat

namespace Config

/-- The address of a node; past both lists the code reads what is not there. -/
def ip (conf : Config) (nodeid : Int) : Nat :=
  if nodeid.toNat < conf.agentsIPs.length then conf.agentsIPs.getD nodeid.toNat 0
  else conf.repairIPs.getD (nodeid.toNat - conf.agentsIPs.length) 0

/-- The node that the loops of `sendFinishFlag` find. -/
def nodeid (conf : Config) (localIp : Nat) : Int :=
  if localIp ∈ conf.agentsIPs then conf.agentsIPs.idxOf localIp
  else if localIp ∈ conf.repairIPs then conf.agentsIPs.length + conf.repairIPs.idxOf localIp
  else -1

/-- The node has an address. -/
def HasNode (conf : Config) (c : Int) : Prop :=
  0 ≤ c ∧ c < (conf.agentsIPs ++ conf.repairIPs).length

instance (conf : Config) (c : Int) : Decidable (conf.HasNode c) := by
  unfold HasNode
  infer_instance

section
variable {conf : Config} {c : Int} {localIp : Nat}

theorem ip_eq (hc : conf.HasNode c) :
    (conf.agentsIPs ++ conf.repairIPs)[c.toNat]? = some (conf.ip c) := by
  obtain ⟨h0, hlt⟩ := hc
  rw [List.length_append] at hlt
  unfold ip
  split
  · next h =>
    rw [List.getElem?_append_left h, List.getD_eq_getElem?_getD, List.getElem?_eq_getElem h]
    rfl
  · next h =>
    have h' : c.toNat - conf.agentsIPs.length < conf.repairIPs.length := by omega
    rw [List.getElem?_append_right (by omega), List.getD_eq_getElem?_getD,
      List.getElem?_eq_getElem h']
    rfl

theorem nodeid_eq (h : localIp ∈ conf.agentsIPs ++ conf.repairIPs) :
    conf.nodeid localIp = (conf.agentsIPs ++ conf.repairIPs).idxOf localIp := by
  unfold nodeid
  rw [List.idxOf_append]
  split
  · rfl
  · next hno =>
    rw [if_pos ((List.mem_append.1 h).resolve_left hno)]
    omega

theorem nodeid_of_not_mem (h : localIp ∉ conf.agentsIPs ++ conf.repairIPs) :
    conf.nodeid localIp = -1 := by
  rw [List.mem_append, not_or] at h
  unfold nodeid
  rw [if_neg h.1, if_neg h.2]

/-- A node is found under its address, when addresses are distinct. -/
theorem nodeid_ip (hips : (conf.agentsIPs ++ conf.repairIPs).Nodup) (hc : conf.HasNode c) :
    conf.nodeid (conf.ip c) = c := by
  obtain ⟨hlt, hget⟩ := List.getElem?_eq_some_iff.1 (ip_eq hc)
  have h0 := hc.1
  rw [nodeid_eq (hget ▸ List.getElem_mem hlt), ← hget, hips.idxOf_getElem]
  omega

theorem ip_nodeid (h : conf.nodeid localIp ≠ -1) : conf.ip (conf.nodeid localIp) = localIp := by
  have hmem : localIp ∈ conf.agentsIPs ++ conf.repairIPs := by
    by_contra hno
    exact h (nodeid_of_not_mem hno)
  have hlt := List.idxOf_lt_length_of_mem hmem
  have hnode : conf.HasNode (conf.nodeid localIp) := by
    rw [nodeid_eq hmem]
    exact ⟨by omega, by omega⟩
  have hget := ip_eq hnode
  rw [nodeid_eq hmem, Int.toNat_natCast, List.getElem?_eq_getElem hlt, List.getElem_idxOf hlt] at hget
  rw [nodeid_eq hmem]
  exact (Option.some.inj hget).symm

end

end Config

/-! ## Messages -/

/-- `ag_request` -/
structure AGCommand where
  batchId : Int
  stripeIdList : List Int
  stripeTaskNum : List Nat

/-- The items of a compute task follow on their own. -/
inductive TaskCommand
  | task (t : Task)
  | compute (dstidx : List Nat)

namespace Task

def command : Task → TaskCommand
  | .compute items => .compute (items.map ComputeItem.dstidx)
  | t => .task t

def items : Task → List ComputeItem
  | .compute items => items
  | _ => []

end Task

/-- The tasks of a node in a batch. -/
structure NodeBatchTask where
  batchId : Int
  stripeIdList : List Int
  numList : List Nat
  taskmap : List (Int × List Task)
  ip : Nat

/-- `_taskmap[stripeid]`; `insert` keeps what is there. -/
def NodeBatchTask.tasks (nb : NodeBatchTask) (stripeid : Int) : List Task :=
  (nb.taskmap.lookup stripeid).getD []

/-! ## Threads and what they share -/

/-- The threads that are created and joined. -/
inductive Created
  | sendCommands (nodeid : Int)
  | waitFinishFlag (nodeid : Int)
  | repairStripe (ip : Nat) (batchid stripeid : Int)
  | task (ip : Nat) (batchid stripeid : Int) (tid : Nat)
  deriving DecidableEq

inductive Actor
  | coordinator
  | agent (ip : Nat)
  | thread (t : Created)
  /-- A connection between two agents. -/
  | net (batchid stripeid : Int) (node sendto : Int) (dagidx : Nat)
  deriving DecidableEq

/-- Where values wait: for a thread to be started or joined, under a key in the redis of an
agent or of the coordinator, or on the way through the agents, see `Chan`. -/
inductive Port
  | start (t : Created)
  | join (t : Created)
  | agRequest (ip : Nat)
  | command (ip : Nat) (batchid stripeid : Int)
  | computeItem (ip : Nat) (batchid stripeid : Int) (dstidx : Nat)
  | finish (batchid nodeid : Int)
  | data (batchid stripeid : Int) (ch : Chan)
  deriving DecidableEq

/-- What a thread is started with. -/
abbrev Created.Arg : Created → Type
  | .sendCommands _ => NodeBatchTask
  | .waitFinishFlag _ => Int
  | .repairStripe _ _ _ => Nat × List Task
  | .task _ _ _ _ => Task

abbrev Port.Value (pktbytes : Nat) : Port → Type
  | .start t => t.Arg
  | .join _ => Unit
  | .agRequest _ => AGCommand
  | .command _ _ _ => TaskCommand
  | .computeItem _ _ _ _ => ComputeItem
  | .finish _ _ => Unit
  | .data _ _ _ => Packet pktbytes

abbrev Code (pktbytes : Nat) := Proc Port (Port.Value pktbytes)

abbrev Message (pktbytes : Nat) := Sigma (Port.Value pktbytes)

/-! ## The coordinator -/

section
variable {pktbytes : Nat}

/-- The command of a task, and those of its items. -/
def Task.messages (ip : Nat) (batchid stripeid : Int) (t : Task) : List (Message pktbytes) :=
  ⟨.command ip batchid stripeid, t.command⟩ ::
    t.items.map fun ci => ⟨.computeItem ip batchid stripeid ci.dstidx, ci⟩

namespace NodeBatchTask

variable (nb : NodeBatchTask)

def sendAGCommand : Message pktbytes :=
  ⟨.agRequest nb.ip, (⟨nb.batchId, nb.stripeIdList, nb.numList⟩ : AGCommand)⟩

def sendTaskCommands : List (Message pktbytes) :=
  (nb.stripeIdList.zip nb.numList).flatMap fun e =>
    ((nb.tasks e.1).take e.2).flatMap (Task.messages nb.ip nb.batchId e.1)

def sendCommands : List (Message pktbytes) := nb.sendAGCommand :: nb.sendTaskCommands

end NodeBatchTask

end

/-- A stripe of a batch: its id, the nodes of its blocks, the blocks that failed, and the order
in which its maps are walked through. -/
structure BatchStripe where
  stripeId : Int
  stripe : Stripe
  placement : Nat → Int
  failed : Finset Nat
  walks : HashOrder Walk

structure Batch where
  batchId : Int
  stripeList : List BatchStripe

/-- The maps from nodes that are walked through for a batch. -/
inductive NodeWalk
  | nodeid2internalidx (batchid : Int)
  | batchtaskmap (batchid : Int)

/-- What is the same for all batches. -/
structure Cluster where
  conf : Config
  ecn : Nat
  ecw : Nat
  pktnum : Nat
  fail2repair : Int → Option Int
  disk : Int → Option String → Nat → GF256
  walks : HashOrder NodeWalk

section
variable (cl : Cluster) {pktbytes : Nat}

namespace BatchStripe

variable (st : BatchStripe)

/-- `getTaskForNodeId` -/
def tasks (c : Int) : List Task :=
  st.stripe.tasksOf st.walks cl.ecn cl.ecw cl.fail2repair c

/-- The nodes that have tasks for the stripe. -/
def nodes : List Int :=
  (st.stripe.genRepairTasks st.walks cl.ecn cl.ecw cl.fail2repair).keys

end BatchStripe

namespace Batch

variable (b : Batch)

/-- `_stripe_list[i]` has tasks for these nodes. -/
def nodesAt (i : Nat) : List Int := (b.stripeList[i]?.map (BatchStripe.nodes cl)).getD []

def nodeid2internalidx : PushMap Int Nat :=
  PushMap.collect (b.nodesAt cl) (List.range b.stripeList.length)

def nodeBatchTask (c : Int) (internalidx : List Nat) : NodeBatchTask :=
  let stripes := internalidx.filterMap fun ii => b.stripeList[ii]?
  { batchId := b.batchId
    stripeIdList := stripes.map BatchStripe.stripeId
    numList := stripes.map fun st => (st.tasks cl c).length
    taskmap := stripes.map fun st => (st.stripeId, st.tasks cl c)
    ip := cl.conf.ip c }

/-- In the order in which it is filled. -/
def batchtaskmap : List (Int × NodeBatchTask) :=
  (cl.walks.order (.nodeid2internalidx b.batchId) (b.nodeid2internalidx cl).entries).map
    fun item => (item.1, b.nodeBatchTask cl item.1 item.2)

/-- The part of `genRepairTasks` after the tasks are made. -/
def genRepairTasks (k : Code pktbytes) : Code pktbytes :=
  let senders := cl.walks.order (.batchtaskmap b.batchId) (b.batchtaskmap cl)
  let waiters := (cl.walks.order (.nodeid2internalidx b.batchId)
    (b.nodeid2internalidx cl).entries).map Sigma.fst
  Proc.pushes (senders.map fun item => ⟨.start (.sendCommands item.1), item.2⟩) <|
  Proc.awaits (senders.map fun item => .join (.sendCommands item.1)) <|
  Proc.pushes (waiters.map fun c => ⟨.start (.waitFinishFlag c), b.batchId⟩) <|
  Proc.awaits (waiters.map fun c => .join (.waitFinishFlag c)) k

end Batch

/-- The loop of `Coordinator::repair` over the batches. -/
def Coordinator.repair (batches : List Batch) : Code pktbytes :=
  batches.foldr (fun b k => b.genRepairTasks cl k) .done

def Created.sendCommandsBody (c : Int) : Code pktbytes :=
  .pop (.start (.sendCommands c)) fun (nb : NodeBatchTask) =>
    Proc.pushes nb.sendCommands (.push (.join (.sendCommands c)) () .loop)

def Created.waitFinishFlagBody (c : Int) : Code pktbytes :=
  .pop (.start (.waitFinishFlag c)) fun (batchid : Int) =>
    .pop (.finish batchid c) fun _ => .push (.join (.waitFinishFlag c)) () .loop

/-! ## The agents -/

namespace Worker

/-- The loop of `resolveComputeTask`. -/
def resolveCompute (ip : Nat) (batchid stripeid : Int) (k : List ComputeItem → Code pktbytes) :
    List Nat → Code pktbytes
  | [] => k []
  | dagidx :: l => .pop (.computeItem ip batchid stripeid dagidx) fun (ci : ComputeItem) =>
    resolveCompute ip batchid stripeid (fun items => k (ci :: items)) l

/-- The constructor of a task from a command. -/
def resolve (ip : Nat) (batchid stripeid : Int) (k : Task → Code pktbytes) :
    TaskCommand → Code pktbytes
  | .task t => k t
  | .compute l => resolveCompute ip batchid stripeid (fun items => k (.compute items)) l

/-- The loop over the tasks of a stripe. -/
def recvTasks (ip : Nat) (batchid stripeid : Int) : Nat → (List Task → Code pktbytes) →
    Code pktbytes
  | 0, k => k []
  | tasknum + 1, k => .pop (.command ip batchid stripeid) fun (cmd : TaskCommand) =>
    resolve ip batchid stripeid
      (fun t => recvTasks ip batchid stripeid tasknum fun tasklist => k (t :: tasklist)) cmd

/-- The loop over the stripes. -/
def recvStripes (ip : Nat) (batchid : Int) : List (Int × Nat) →
    (List (Int × List Task) → Code pktbytes) → Code pktbytes
  | [], k => k []
  | (stripeid, tasknum) :: l, k => recvTasks ip batchid stripeid tasknum fun tasklist =>
    recvStripes ip batchid l fun taskmap => k ((stripeid, tasklist) :: taskmap)

def recvBatchTasks (ip : Nat) (cmd : AGCommand) (k : NodeBatchTask → Code pktbytes) :
    Code pktbytes :=
  recvStripes ip cmd.batchId (cmd.stripeIdList.zip cmd.stripeTaskNum) fun taskmap =>
    k ⟨cmd.batchId, cmd.stripeIdList, cmd.stripeTaskNum, taskmap, 0⟩

def repairBatch (ip : Nat) (nb : NodeBatchTask) (k : Code pktbytes) : Code pktbytes :=
  Proc.pushes ((nb.stripeIdList.zip nb.numList).map fun e =>
    ⟨.start (.repairStripe ip nb.batchId e.1), (e.2, nb.tasks e.1)⟩) <|
  Proc.awaits (nb.stripeIdList.map fun stripeid => .join (.repairStripe ip nb.batchId stripeid)) <|
  .push (.finish nb.batchId (cl.conf.nodeid ip)) () k

def doProcess (ip : Nat) : Code pktbytes :=
  .pop (.agRequest ip) fun (cmd : AGCommand) => recvBatchTasks ip cmd fun nb =>
    repairBatch cl ip nb .loop

end Worker

/-- The order in which the tasks of a stripe are launched: real reads, virtual reads, sends,
receives, computations, persists. -/
def Task.launchOrder : Task → Nat
  | .read blkName _ _ => if blkName ≠ some "ZERO" then 0 else 1
  | .send _ _ => 2
  | .recv _ => 3
  | .compute _ => 4
  | .persist _ _ => 5

/-- The tasks with their places in the list, kind by kind. -/
def launched (tasklist : List Task) : List (Task × Nat) :=
  (List.range 6).flatMap fun kind => tasklist.zipIdx.filter fun e => e.1.launchOrder = kind

def Created.repairStripeBody (ip : Nat) (batchid stripeid : Int) : Code pktbytes :=
  .pop (.start (.repairStripe ip batchid stripeid)) fun (arg : Nat × List Task) =>
    let thrds := launched (arg.2.take arg.1)
    Proc.pushes (thrds.map fun e => ⟨.start (.task ip batchid stripeid e.2), e.1⟩) <|
    Proc.awaits (thrds.map fun e => .join (.task ip batchid stripeid e.2)) <|
    .push (.join (.repairStripe ip batchid stripeid)) () .loop

/-- The thread of a task runs its packet rounds, see `Task.body`. -/
def Created.taskBody (ip : Nat) (batchid stripeid : Int) (tid : Nat) : Code pktbytes :=
  .pop (.start (.task ip batchid stripeid tid)) fun (t : Task) =>
    Proc.ofProgram (Port.data batchid stripeid) (fun _ x => x) (fun _ x => x)
      (.push (.join (.task ip batchid stripeid tid)) () .loop)
      ((List.range cl.pktnum).flatMap (t.body cl.ecw cl.disk (cl.conf.nodeid ip))) fun _ => 0

/-- What a connection does for each packet. -/
def netBody (batchid stripeid : Int) (c sendto : Int) (dagidx : Nat) : Code pktbytes :=
  Proc.ofProgram (Port.data batchid stripeid) (fun _ x => x) (fun _ x => x) .loop
    (deliver c sendto dagidx) fun _ => 0

/-- **What each actor does.** -/
def Cluster.code (batches : List Batch) : Actor → Code pktbytes
  | .coordinator => Coordinator.repair cl batches
  | .agent ip => Worker.doProcess cl ip
  | .thread (.sendCommands c) => Created.sendCommandsBody c
  | .thread (.waitFinishFlag c) => Created.waitFinishFlagBody c
  | .thread (.repairStripe ip batchid stripeid) => Created.repairStripeBody ip batchid stripeid
  | .thread (.task ip batchid stripeid tid) => Created.taskBody cl ip batchid stripeid tid
  | .net batchid stripeid c sendto dagidx => netBody batchid stripeid c sendto dagidx

end

/-! ## What an agent receives -/

section
variable {pktbytes : Nat} {body : Code pktbytes}

/-- What waits for the messages one after another. -/
def popsOf (l : List (Message pktbytes)) : List (Act Port (Port.Value pktbytes)) :=
  l.map fun e => .pop e.1 e.2

theorem popsOf_append (l l' : List (Message pktbytes)) : popsOf (l ++ l') = popsOf l ++ popsOf l' :=
  List.map_append

namespace Worker

theorem does_resolveCompute (ip : Nat) (batchid stripeid : Int)
    (k : List ComputeItem → Code pktbytes) (items : List ComputeItem) :
    Proc.Does body (resolveCompute ip batchid stripeid k (items.map ComputeItem.dstidx))
      (popsOf (items.map fun ci => ⟨.computeItem ip batchid stripeid ci.dstidx, ci⟩)) (k items) := by
  induction items generalizing k with
  | nil => exact .nil _
  | cons ci items ih => exact .pop (ih fun items => k (ci :: items))

/-- **A task is read as it was sent.** -/
theorem does_resolve (ip : Nat) (batchid stripeid : Int) (k : Task → Code pktbytes) (t : Task) :
    Proc.Does body (.pop (.command ip batchid stripeid) fun (cmd : TaskCommand) =>
      resolve ip batchid stripeid k cmd) (popsOf (t.messages ip batchid stripeid)) (k t) := by
  refine .pop ?_
  cases t with
  | compute items => exact does_resolveCompute ip batchid stripeid (fun items => k (.compute items)) items
  | _ => exact .nil _

theorem does_recvTasks (ip : Nat) (batchid stripeid : Int) (tasklist : List Task)
    (k : List Task → Code pktbytes) :
    Proc.Does body (recvTasks ip batchid stripeid tasklist.length k)
      (popsOf (tasklist.flatMap (Task.messages ip batchid stripeid))) (k tasklist) := by
  induction tasklist generalizing k with
  | nil => exact .nil _
  | cons t tasklist ih =>
    rw [List.flatMap_cons, popsOf_append]
    exact (does_resolve ip batchid stripeid _ t).append (ih fun l => k (t :: l))

theorem does_recvStripes (ip : Nat) (batchid : Int) (stripes : List (Int × List Task))
    (k : List (Int × List Task) → Code pktbytes) :
    Proc.Does body (recvStripes ip batchid (stripes.map fun e => (e.1, e.2.length)) k)
      (popsOf (stripes.flatMap fun e => e.2.flatMap (Task.messages ip batchid e.1)))
      (k stripes) := by
  induction stripes generalizing k with
  | nil => exact .nil _
  | cons e stripes ih =>
    rw [List.flatMap_cons, popsOf_append]
    exact (does_recvTasks ip batchid e.1 e.2 _).append (ih fun l => k (e :: l))

end Worker

end

end StripeRepair

import StripeRepair.Common.Coordinator

/-!
# The choreography of a repair

All messages of a repair in one order, batch by batch: requests and commands, the threads of
the stripes and of their tasks are started, the packets of each stripe, then the threads are
joined and the flags are raised.

* `does_code`: each actor does what the choreography has for it.
* `sound_choreography`: each queue has one writer and at most one reader, who waits for all.
-/

namespace StripeRepair

/-! ## What is launched -/

/-- Each task is launched once, under its place in the list. -/
theorem launched_perm (tasklist : List Task) : (launched tasklist).Perm tasklist.zipIdx := by
  have hkind : ∀ t : Task, t.launchOrder < 6 := by
    intro t
    cases t <;> simp [Task.launchOrder]
    split <;> omega
  unfold launched
  refine (List.perm_iff_count).2 fun e => ?_
  rw [List.count_flatMap]
  refine (FifoNet.sum_uses List.nodup_range (i := e.1.launchOrder) (fun kind hne => ?_)
    fun _ => List.mem_range.2 (hkind e.1)).trans (List.count_filter (decide_eq_true rfl))
  exact (of_decide_eq_true (List.mem_filter.1
    (List.count_pos_iff.1 (Nat.pos_of_ne_zero hne))).2).symm

/-! ## The nodes of a batch -/

namespace Batch

section
variable (cl : Cluster) (b : Batch)

/-- The stripes that a node has tasks for. -/
def stripesOf (c : Int) : List BatchStripe := b.stripeList.filter fun st => c ∈ st.nodes cl

/-- What is sent to the agent of a node. -/
def taskOf (c : Int) : NodeBatchTask :=
  b.nodeBatchTask cl c ((b.nodeid2internalidx cl).get c)

def senders : List Int :=
  (cl.walks.order (.batchtaskmap b.batchId) (b.batchtaskmap cl)).map Prod.fst

def waiters : List Int :=
  (cl.walks.order (.nodeid2internalidx b.batchId) (b.nodeid2internalidx cl).entries).map Sigma.fst

theorem nodup_nodesAt (i : Nat) : (b.nodesAt cl i).Nodup := by
  unfold nodesAt
  cases b.stripeList[i]? with
  | none => exact List.nodup_nil
  | some st => exact AList.keys_nodup _

theorem stripes_eq (c : Int) : ((b.nodeid2internalidx cl).get c).filterMap
    (fun ii => b.stripeList[ii]?) = b.stripesOf cl c := by
  have hall : (List.range b.stripeList.length).filterMap (fun ii => b.stripeList[ii]?) =
      b.stripeList := by
    have hmap : (List.range b.stripeList.length).map (fun ii => b.stripeList[ii]?) =
        b.stripeList.map some := by
      refine List.ext_getElem (by simp) fun i h1 h2 => ?_
      simp at h1
      simp [h1]
    have := congrArg (List.filterMap id) hmap
    simpa [List.filterMap_map] using this
  unfold nodeid2internalidx stripesOf
  rw [PushMap.get_collect fun i _ => b.nodup_nodesAt cl i]
  conv_rhs => rw [← hall]
  rw [List.filter_filterMap, List.filterMap_filter]
  refine List.filterMap_congr fun i _ => ?_
  unfold nodesAt
  cases b.stripeList[i]? with
  | none => simp
  | some st => simp [Option.filter]

theorem taskOf_eq (c : Int) : b.taskOf cl c = {
    batchId := b.batchId
    stripeIdList := (b.stripesOf cl c).map BatchStripe.stripeId
    numList := (b.stripesOf cl c).map fun st => (st.tasks cl c).length
    taskmap := (b.stripesOf cl c).map fun st => (st.stripeId, st.tasks cl c)
    ip := cl.conf.ip c } := by
  unfold taskOf nodeBatchTask
  rw [stripes_eq]

theorem mem_nodeid2internalidx {c : Int} :
    c ∈ b.nodeid2internalidx cl ↔ ∃ st ∈ b.stripeList, c ∈ st.nodes cl := by
  unfold nodeid2internalidx
  rw [PushMap.mem_collect]
  constructor
  · rintro ⟨i, -, hi⟩
    unfold nodesAt at hi
    cases hst : b.stripeList[i]? with
    | none =>
      rw [hst] at hi
      cases hi
    | some st =>
      rw [hst] at hi
      exact ⟨st, List.mem_of_getElem? hst, hi⟩
  · rintro ⟨st, hst, hc⟩
    obtain ⟨i, hi⟩ := List.getElem?_of_mem hst
    refine ⟨i, List.mem_range.2 (List.getElem?_eq_some_iff.1 hi).1, ?_⟩
    unfold nodesAt
    rw [hi]
    exact hc

theorem nodup_waiters : (b.waiters cl).Nodup :=
  ((cl.walks.perm _ _).map Sigma.fst).nodup_iff.2 (b.nodeid2internalidx cl).keys_nodup

theorem mem_waiters {c : Int} : c ∈ b.waiters cl ↔ ∃ st ∈ b.stripeList, c ∈ st.nodes cl := by
  rw [← mem_nodeid2internalidx, waiters, ((cl.walks.perm _ _).map Sigma.fst).mem_iff]
  exact AList.mem_keys

/-- Both loops go through the same nodes. -/
theorem senders_perm : (b.senders cl).Perm (b.waiters cl) := by
  refine ((cl.walks.perm _ _).map Prod.fst).trans (List.Perm.of_eq ?_)
  rw [batchtaskmap, List.map_map]
  rfl

theorem order_batchtaskmap : cl.walks.order (.batchtaskmap b.batchId) (b.batchtaskmap cl) =
    (b.senders cl).map fun c => (c, b.taskOf cl c) := by
  rw [senders, List.map_map]
  conv_lhs => rw [← List.map_id (cl.walks.order _ _)]
  refine List.map_congr_left fun item hitem => ?_
  rw [HashOrder.mem_order, batchtaskmap, List.mem_map] at hitem
  obtain ⟨e, he, rfl⟩ := hitem
  rw [HashOrder.mem_order, PushMap.mem_entries] at he
  show _ = (e.1, b.taskOf cl e.1)
  rw [taskOf, ← he.2]
  rfl

/-- **What the coordinator does in a batch.** -/
theorem genRepairTasks_eq {pktbytes : Nat} (k : Code pktbytes) : b.genRepairTasks cl k =
    Proc.pushes ((b.senders cl).map fun c => ⟨.start (.sendCommands c), b.taskOf cl c⟩)
      (Proc.awaits ((b.senders cl).map fun c => .join (.sendCommands c))
        (Proc.pushes ((b.waiters cl).map fun c => ⟨.start (.waitFinishFlag c), b.batchId⟩)
          (Proc.awaits ((b.waiters cl).map fun c => .join (.waitFinishFlag c)) k))) := by
  unfold genRepairTasks
  rw [order_batchtaskmap]
  simp only [waiters, List.map_map]
  rfl

end

end Batch

/-! ## Roles -/

instance : Inhabited ThreadId := ⟨.task 0 0⟩

/-- Who creates the thread. -/
def Created.parent : Created → Actor
  | .sendCommands _ => .coordinator
  | .waitFinishFlag _ => .coordinator
  | .repairStripe ip _ _ => .agent ip
  | .task ip batchid stripeid _ => .thread (.repairStripe ip batchid stripeid)

/-- The programs of the threads of a stripe. -/
abbrev BatchStripe.programs (cl : Cluster) (pktbytes : Nat) (st : BatchStripe) :
    ThreadId → List (FifoNet.Instr Chan Nat (Packet pktbytes)) :=
  program (st.tasks cl) cl.ecw cl.pktnum cl.disk

/-- The stripe with these ids. -/
def stripeOf (batches : List Batch) (batchid stripeid : Int) : Option BatchStripe :=
  (batches.find? fun b => b.batchId = batchid).bind fun b =>
    b.stripeList.find? fun st => st.stripeId = stripeid

namespace Cluster

section
variable (cl : Cluster) (batches : List Batch) (pktbytes : Nat)

/-- The programs of the agents for a stripe. -/
def programs (batchid stripeid : Int) :
    ThreadId → List (FifoNet.Instr Chan Nat (Packet pktbytes)) :=
  match stripeOf batches batchid stripeid with
  | none => fun _ => []
  | some st => st.programs cl pktbytes

/-- The actor that runs a program. -/
def actorOf (batchid stripeid : Int) : ThreadId → Actor
  | .task c k => .thread (.task (cl.conf.ip c) batchid stripeid k)
  | .net c sendto dagidx => .net batchid stripeid c sendto dagidx

/-- Who fills a queue. -/
noncomputable def writer : Port → Actor
  | .start t => t.parent
  | .join t => .thread t
  | .agRequest ip => .thread (.sendCommands (cl.conf.nodeid ip))
  | .command ip _ _ => .thread (.sendCommands (cl.conf.nodeid ip))
  | .computeItem ip _ _ _ => .thread (.sendCommands (cl.conf.nodeid ip))
  | .finish _ c => .agent (cl.conf.ip c)
  | .data batchid stripeid ch =>
    cl.actorOf batchid stripeid (FifoNet.pusher (cl.programs batches pktbytes batchid stripeid) ch)

/-- Who empties a queue; what is written to a file stays there. -/
noncomputable def reader : Port → Option Actor
  | .start t => some (.thread t)
  | .join t => some t.parent
  | .agRequest ip => some (.agent ip)
  | .command ip _ _ => some (.agent ip)
  | .computeItem ip _ _ _ => some (.agent ip)
  | .finish _ c => some (.thread (.waitFinishFlag c))
  | .data _ _ (.file _ _) => none
  | .data batchid stripeid (.wire c sendto dagidx) => some (.net batchid stripeid c sendto dagidx)
  | .data batchid stripeid ch => some
    (cl.actorOf batchid stripeid (FifoNet.popper (cl.programs batches pktbytes batchid stripeid) ch))

/-- The node on which, or for which, an actor runs. -/
def node : Actor → Option Int
  | .coordinator => none
  | .agent ip => some (cl.conf.nodeid ip)
  | .thread (.sendCommands c) => some c
  | .thread (.waitFinishFlag c) => some c
  | .thread (.repairStripe ip _ _) => some (cl.conf.nodeid ip)
  | .thread (.task ip _ _ _) => some (cl.conf.nodeid ip)
  | .net _ _ _ _ _ => none

/-- The messages all go from `w` to `r`. -/
def Between (w r : Actor) (l : List (Message pktbytes)) : Prop :=
  ∀ e ∈ l, cl.writer batches pktbytes e.1 = w ∧ cl.reader batches pktbytes e.1 = some r

/-- The messages are between the coordinator and the actors of node `c`. -/
def Concerns (c : Int) (l : List (Message pktbytes)) : Prop :=
  ∀ e ∈ l, (cl.writer batches pktbytes e.1 = .coordinator ∨
      cl.node (cl.writer batches pktbytes e.1) = some c) ∧
    ∃ r, cl.reader batches pktbytes e.1 = some r ∧ (r = .coordinator ∨ cl.node r = some c)

/-- Ids and addresses are distinct, and all nodes with tasks have an address. -/
structure Addressed : Prop where
  ips : (cl.conf.agentsIPs ++ cl.conf.repairIPs).Nodup
  batchIds : (batches.map Batch.batchId).Nodup
  stripeIds : ∀ b ∈ batches, (b.stripeList.map BatchStripe.stripeId).Nodup
  nodes : ∀ b ∈ batches, ∀ st ∈ b.stripeList, ∀ c ∈ st.nodes cl, cl.conf.HasNode c

end

section
variable {cl : Cluster} {batches : List Batch} {pktbytes : Nat} {w r i : Actor} {c : Int}
  {l l' : List (Message pktbytes)}

theorem Between.concerns (h : cl.Between batches pktbytes w r l)
    (hw : w = .coordinator ∨ cl.node w = some c) (hr : r = .coordinator ∨ cl.node r = some c) :
    cl.Concerns batches pktbytes c l := by
  intro e he
  obtain ⟨h1, h2⟩ := h e he
  exact ⟨h1 ▸ hw, r, h2, hr⟩

theorem Concerns.append (h : cl.Concerns batches pktbytes c l)
    (h' : cl.Concerns batches pktbytes c l') : cl.Concerns batches pktbytes c (l ++ l') := by
  intro e he
  rcases List.mem_append.1 he with he | he
  · exact h e he
  · exact h' e he

theorem Concerns.flatMap {α : Type*} {as : List α} {f : α → List (Message pktbytes)}
    (h : ∀ a ∈ as, cl.Concerns batches pktbytes c (f a)) :
    cl.Concerns batches pktbytes c (as.flatMap f) := by
  intro e he
  obtain ⟨a, ha, he⟩ := List.mem_flatMap.1 he
  exact h a ha e he

/-- Actors of other nodes have no part in the messages. -/
theorem Concerns.acts (h : cl.Concerns batches pktbytes c l) {c' : Int}
    (hi : cl.node i = some c') (hc : c ≠ c') :
    Proc.acts (cl.writer batches pktbytes) (cl.reader batches pktbytes) i (Proc.say l) = [] := by
  have hne : ∀ j, j = .coordinator ∨ cl.node j = some c → j ≠ i := by
    rintro j (rfl | hj) rfl
    · cases hi
    · exact hc (Option.some.inj (hj.symm.trans hi))
  refine Proc.acts_say_other fun e he => ⟨hne _ (h e he).1, ?_⟩
  obtain ⟨r, hr, hnode⟩ := (h e he).2
  rw [hr]
  exact fun he => hne r hnode (Option.some.inj he)

variable (h : cl.Between batches pktbytes w r l)
include h

theorem Between.sent (hwr : w ≠ r) : ∀ e ∈ l, cl.writer batches pktbytes e.1 = w ∧
    cl.reader batches pktbytes e.1 ≠ some w := by
  intro e he
  obtain ⟨hw, hr⟩ := h e he
  exact ⟨hw, hr ▸ fun he => hwr (Option.some.inj he).symm⟩

theorem Between.told (hwr : w ≠ r) : ∀ e ∈ l, cl.writer batches pktbytes e.1 ≠ r ∧
    cl.reader batches pktbytes e.1 = some r := by
  intro e he
  obtain ⟨hw, hr⟩ := h e he
  exact ⟨hw ▸ hwr, hr⟩

theorem Between.other (hw : w ≠ i) (hr : r ≠ i) : ∀ e ∈ l,
    cl.writer batches pktbytes e.1 ≠ i ∧ cl.reader batches pktbytes e.1 ≠ some i := by
  intro e he
  obtain ⟨hw', hr'⟩ := h e he
  exact ⟨hw' ▸ hw, hr' ▸ fun he => hr (Option.some.inj he)⟩

end

end Cluster

/-! ## The phases of a batch -/

namespace Batch

section
variable (cl : Cluster) {pktbytes : Nat} (b : Batch) (c : Int)

def askSender : List (Message pktbytes) := [⟨.start (.sendCommands c), b.taskOf cl c⟩]

def requests : List (Message pktbytes) := (b.taskOf cl c).sendCommands

def senderDone : List (Message pktbytes) := [⟨.join (.sendCommands c), ()⟩]

def askWaiter : List (Message pktbytes) := [⟨.start (.waitFinishFlag c), b.batchId⟩]

/-- A message for each stripe of the node. -/
def forStripes (f : BatchStripe → List (Message pktbytes)) : List (Message pktbytes) :=
  (b.stripesOf cl c).flatMap f

def startStripe (st : BatchStripe) : List (Message pktbytes) :=
  [⟨.start (.repairStripe (cl.conf.ip c) b.batchId st.stripeId),
    ((st.tasks cl c).length, st.tasks cl c)⟩]

def startTask (st : BatchStripe) (e : Task × Nat) : Message pktbytes :=
  ⟨.start (.task (cl.conf.ip c) b.batchId st.stripeId e.2), e.1⟩

def joinTask (st : BatchStripe) (e : Task × Nat) : Message pktbytes :=
  ⟨.join (.task (cl.conf.ip c) b.batchId st.stripeId e.2), ()⟩

def startTasks (st : BatchStripe) : List (Message pktbytes) :=
  (launched (st.tasks cl c)).map (b.startTask cl c st)

def joinTasks (st : BatchStripe) : List (Message pktbytes) :=
  (launched (st.tasks cl c)).map (b.joinTask cl c st)

def joinStripe (st : BatchStripe) : List (Message pktbytes) :=
  [⟨.join (.repairStripe (cl.conf.ip c) b.batchId st.stripeId), ()⟩]

def flag : List (Message pktbytes) := [⟨.finish b.batchId c, ()⟩]

def waiterDone : List (Message pktbytes) := [⟨.join (.waitFinishFlag c), ()⟩]

/-- The messages of node `c` before its packets. -/
def before : List (Message pktbytes) :=
  b.askSender cl c ++ b.requests cl c ++ senderDone c ++ b.askWaiter c ++
    b.forStripes cl c (b.startStripe cl c) ++ b.forStripes cl c (b.startTasks cl c)

/-- The messages of node `c` after its packets. -/
def after : List (Message pktbytes) :=
  b.forStripes cl c (b.joinTasks cl c) ++ b.forStripes cl c (b.joinStripe cl c) ++ b.flag c ++
    waiterDone c

end

section
variable (cl : Cluster) {pktbytes : Nat} (b : Batch)

/-- The program that an actor runs for a stripe. -/
def threadOf (st : BatchStripe) : Actor → Option ThreadId
  | .thread (.task ip batchid stripeid k) =>
    if batchid = b.batchId ∧ stripeid = st.stripeId then some (.task (cl.conf.nodeid ip) k) else none
  | .net batchid stripeid c sendto dagidx =>
    if batchid = b.batchId ∧ stripeid = st.stripeId then some (.net c sendto dagidx) else none
  | _ => none

/-- What the queues of a stripe ought to carry. -/
def streamOf (st : BatchStripe) : Chan → Nat → Packet pktbytes :=
  (st.stripe.remap cl.fail2repair).stream cl.ecn cl.ecw st.placement cl.disk

/-- In the packet round and at the height of a packet it goes through the queues. -/
def stageOf (st : BatchStripe) : Chan → Nat → Nat :=
  FifoNet.stageOf (4 * (st.stripe.remap cl.fail2repair).ecdag.numLevels + 5)
    (st.stripe.remap cl.fail2repair).rank

/-- What an actor does with the packets of a stripe. -/
def packetEvents (st : BatchStripe) (i : Actor) : List (Act Port (Port.Value pktbytes) × Nat) :=
  match b.threadOf cl st i with
  | none => []
  | some j => Proc.programEvents (Port.data b.batchId st.stripeId) (fun _ x => x) (streamOf cl st)
    (stageOf cl st) (st.programs cl pktbytes j) (fun _ => 0) fun _ => 0

/-- The packets of a stripe. -/
def packets (st : BatchStripe) : Proc.Item Actor Port (Port.Value pktbytes) :=
  .part (b.packetEvents cl st)
    ((threadsOf (st.tasks cl) (st.nodes cl)).map (cl.actorOf b.batchId st.stripeId))

/-- **All messages of a batch**, in order. -/
def choreography : List (Proc.Item Actor Port (Port.Value pktbytes)) :=
  Proc.say ((b.senders cl).flatMap (b.askSender cl)) ++
  Proc.say ((b.senders cl).flatMap (b.requests cl)) ++
  Proc.say ((b.senders cl).flatMap senderDone) ++
  Proc.say ((b.waiters cl).flatMap b.askWaiter) ++
  Proc.say ((b.waiters cl).flatMap fun c => b.forStripes cl c (b.startStripe cl c)) ++
  Proc.say ((b.waiters cl).flatMap fun c => b.forStripes cl c (b.startTasks cl c)) ++
  b.stripeList.map (b.packets cl) ++
  Proc.say ((b.waiters cl).flatMap fun c => b.forStripes cl c (b.joinTasks cl c)) ++
  Proc.say ((b.waiters cl).flatMap fun c => b.forStripes cl c (b.joinStripe cl c)) ++
  Proc.say ((b.waiters cl).flatMap b.flag) ++
  Proc.say ((b.waiters cl).flatMap waiterDone)

end

/-! ## Who talks to whom -/

section
variable (cl : Cluster) (batches : List Batch) (pktbytes : Nat) (b : Batch) (c : Int)

theorem between_askSender : cl.Between batches pktbytes .coordinator (.thread (.sendCommands c))
    (b.askSender cl c) := by
  intro e he
  obtain rfl := List.mem_singleton.1 he
  exact ⟨rfl, rfl⟩

theorem between_senderDone : cl.Between batches pktbytes (.thread (.sendCommands c)) .coordinator
    (senderDone c) := by
  intro e he
  obtain rfl := List.mem_singleton.1 he
  exact ⟨rfl, rfl⟩

theorem between_askWaiter : cl.Between batches pktbytes .coordinator (.thread (.waitFinishFlag c))
    (b.askWaiter c) := by
  intro e he
  obtain rfl := List.mem_singleton.1 he
  exact ⟨rfl, rfl⟩

theorem between_startStripe (st : BatchStripe) :
    cl.Between batches pktbytes (.agent (cl.conf.ip c))
      (.thread (.repairStripe (cl.conf.ip c) b.batchId st.stripeId)) (b.startStripe cl c st) := by
  intro e he
  obtain rfl := List.mem_singleton.1 he
  exact ⟨rfl, rfl⟩

theorem between_startTask (st : BatchStripe) (t : Task × Nat) : cl.Between batches pktbytes
    (.thread (.repairStripe (cl.conf.ip c) b.batchId st.stripeId))
    (.thread (.task (cl.conf.ip c) b.batchId st.stripeId t.2)) [b.startTask cl c st t] := by
  intro e he
  obtain rfl := List.mem_singleton.1 he
  exact ⟨rfl, rfl⟩

theorem between_joinTask (st : BatchStripe) (t : Task × Nat) : cl.Between batches pktbytes
    (.thread (.task (cl.conf.ip c) b.batchId st.stripeId t.2))
    (.thread (.repairStripe (cl.conf.ip c) b.batchId st.stripeId)) [b.joinTask cl c st t] := by
  intro e he
  obtain rfl := List.mem_singleton.1 he
  exact ⟨rfl, rfl⟩

theorem between_joinStripe (st : BatchStripe) :
    cl.Between batches pktbytes (.thread (.repairStripe (cl.conf.ip c) b.batchId st.stripeId))
      (.agent (cl.conf.ip c)) (b.joinStripe cl c st) := by
  intro e he
  obtain rfl := List.mem_singleton.1 he
  exact ⟨rfl, rfl⟩

theorem between_flag : cl.Between batches pktbytes (.agent (cl.conf.ip c))
    (.thread (.waitFinishFlag c)) (b.flag c) := by
  intro e he
  obtain rfl := List.mem_singleton.1 he
  exact ⟨rfl, rfl⟩

theorem between_waiterDone : cl.Between batches pktbytes (.thread (.waitFinishFlag c)) .coordinator
    (waiterDone c) := by
  intro e he
  obtain rfl := List.mem_singleton.1 he
  exact ⟨rfl, rfl⟩

variable {c} (hc : cl.conf.nodeid (cl.conf.ip c) = c)
include hc

/-- Requests and commands go to the agent under the address of the node. -/
theorem between_requests : cl.Between batches pktbytes (.thread (.sendCommands c))
    (.agent (cl.conf.ip c)) (b.requests cl c) := by
  have hip : (b.taskOf cl c).ip = cl.conf.ip c := by rw [taskOf_eq]
  have hw : Actor.thread (.sendCommands (cl.conf.nodeid (cl.conf.ip c))) =
      .thread (.sendCommands c) := by rw [hc]
  intro e he
  unfold requests NodeBatchTask.sendCommands at he
  rcases List.mem_cons.1 he with rfl | he
  · rw [NodeBatchTask.sendAGCommand, hip]
    exact ⟨hw, rfl⟩
  · unfold NodeBatchTask.sendTaskCommands Task.messages at he
    obtain ⟨x, -, he⟩ := List.mem_flatMap.1 he
    obtain ⟨t, -, he⟩ := List.mem_flatMap.1 he
    rw [hip] at he
    rcases List.mem_cons.1 he with rfl | he
    · exact ⟨hw, rfl⟩
    · obtain ⟨ci, -, rfl⟩ := List.mem_map.1 he
      exact ⟨hw, rfl⟩

theorem concerns_startTasks (st : BatchStripe) :
    cl.Concerns batches pktbytes c (b.startTasks cl c st) := by
  intro e he
  obtain ⟨t, -, rfl⟩ := List.mem_map.1 he
  exact (between_startTask cl batches pktbytes b c st t).concerns (Or.inr (congrArg some hc))
    (Or.inr (congrArg some hc)) _ (List.mem_singleton_self _)

theorem concerns_joinTasks (st : BatchStripe) :
    cl.Concerns batches pktbytes c (b.joinTasks cl c st) := by
  intro e he
  obtain ⟨t, -, rfl⟩ := List.mem_map.1 he
  exact (between_joinTask cl batches pktbytes b c st t).concerns (Or.inr (congrArg some hc))
    (Or.inr (congrArg some hc)) _ (List.mem_singleton_self _)

theorem concerns_startStripe (st : BatchStripe) :
    cl.Concerns batches pktbytes c (b.startStripe cl c st) :=
  (between_startStripe cl batches pktbytes b c st).concerns (Or.inr (congrArg some hc))
    (Or.inr (congrArg some hc))

theorem concerns_joinStripe (st : BatchStripe) :
    cl.Concerns batches pktbytes c (b.joinStripe cl c st) :=
  (between_joinStripe cl batches pktbytes b c st).concerns (Or.inr (congrArg some hc))
    (Or.inr (congrArg some hc))

end

/-! ## What an actor does in a batch -/

section
variable {cl : Cluster} {batches : List Batch} {pktbytes : Nat} {b : Batch} {i : Actor} {c : Int}

/-- A phase, for an actor of node `c`. -/
theorem acts_phase {ns : List Int} (hns : ns.Nodup) {f : Int → List (Message pktbytes)}
    (hf : ∀ c ∈ ns, cl.Concerns batches pktbytes c (f c)) (hi : cl.node i = some c) :
    Proc.acts (cl.writer batches pktbytes) (cl.reader batches pktbytes) i (Proc.say (ns.flatMap f)) =
      if c ∈ ns then
        Proc.acts (cl.writer batches pktbytes) (cl.reader batches pktbytes) i (Proc.say (f c))
      else [] := by
  rw [Proc.say_flatMap, Proc.acts_flatMap]
  split
  · next hc =>
    have hkeys : (ns.map id).Nodup := by rwa [List.map_id]
    refine Proc.flatMap_of_key hkeys hc fun c' hc' hne => ?_
    exact (hf c' hc').acts hi hne
  · next hc =>
    refine List.flatMap_eq_nil_iff.2 fun c' hc' => (hf c' hc').acts hi ?_
    rintro rfl
    exact hc hc'

/-- The packets of the stripes. -/
theorem acts_packets (l : List BatchStripe) :
    Proc.acts (cl.writer batches pktbytes) (cl.reader batches pktbytes) i
        (l.map (b.packets cl) : List (Proc.Item Actor Port (Port.Value pktbytes))) =
      l.flatMap fun st => (b.packetEvents cl st i).map Prod.fst := List.flatMap_map ..

theorem acts_packets_of_none {l : List BatchStripe}
    (h : ∀ st, b.threadOf cl st i = none) :
    Proc.acts (cl.writer batches pktbytes) (cl.reader batches pktbytes) i
      (l.map (b.packets cl) : List (Proc.Item Actor Port (Port.Value pktbytes))) = [] := by
  rw [acts_packets]
  refine List.flatMap_eq_nil_iff.2 fun st _ => ?_
  unfold packetEvents
  rw [h st]
  rfl

/-- **What the coordinator does.** -/
theorem acts_coordinator : Proc.acts (cl.writer batches pktbytes) (cl.reader batches pktbytes)
    .coordinator (b.choreography cl : List (Proc.Item _ _ (Port.Value pktbytes))) =
      ((b.senders cl).flatMap (b.askSender cl)).map (fun e => .push e.1 e.2) ++
      popsOf ((b.senders cl).flatMap senderDone) ++
      ((b.waiters cl).flatMap b.askWaiter).map (fun e => .push e.1 e.2) ++
      popsOf ((b.waiters cl).flatMap waiterDone) := by
  unfold choreography
  have hother : ∀ (ns : List Int) (f : Int → List (Message pktbytes)),
      (∀ c, ∀ e ∈ f c, cl.writer batches pktbytes e.1 ≠ .coordinator ∧
        cl.reader batches pktbytes e.1 ≠ some .coordinator) →
      Proc.acts (cl.writer batches pktbytes) (cl.reader batches pktbytes) .coordinator
        (Proc.say (ns.flatMap f)) = [] :=
    fun ns f hf => Proc.acts_say_other (List.forall_mem_flatMap.2 fun c _ => hf c)
  have hstripes : ∀ (f : Int → BatchStripe → List (Message pktbytes)),
      (∀ c st, ∀ e ∈ f c st, cl.writer batches pktbytes e.1 ≠ .coordinator ∧
        cl.reader batches pktbytes e.1 ≠ some .coordinator) →
      Proc.acts (cl.writer batches pktbytes) (cl.reader batches pktbytes) .coordinator
        (Proc.say ((b.waiters cl).flatMap fun c => b.forStripes cl c (f c))) = [] :=
    fun f hf => hother _ _ fun c => List.forall_mem_flatMap.2 fun st _ => hf c st
  simp only [Proc.acts_append]
  rw [Proc.acts_say_writer (List.forall_mem_flatMap.2 fun c _ =>
      (between_askSender cl batches pktbytes b c).sent (by simp)),
    hother _ (b.requests cl) fun c e he => ?_,
    Proc.acts_say_reader (List.forall_mem_flatMap.2 fun c _ =>
      (between_senderDone cl batches pktbytes c).told (by simp)),
    Proc.acts_say_writer (List.forall_mem_flatMap.2 fun c _ =>
      (between_askWaiter cl batches pktbytes b c).sent (by simp)),
    hstripes (b.startStripe cl) fun c st =>
      (between_startStripe cl batches pktbytes b c st).other (by simp) (by simp),
    hstripes (b.startTasks cl) fun c st => List.forall_mem_map.2 fun t _ =>
      (between_startTask cl batches pktbytes b c st t).other (by simp) (by simp) _
        (List.mem_singleton_self _),
    acts_packets_of_none fun _ => rfl,
    hstripes (b.joinTasks cl) fun c st => List.forall_mem_map.2 fun t _ =>
      (between_joinTask cl batches pktbytes b c st t).other (by simp) (by simp) _
        (List.mem_singleton_self _),
    hstripes (b.joinStripe cl) fun c st =>
      (between_joinStripe cl batches pktbytes b c st).other (by simp) (by simp),
    hother _ b.flag fun c => (between_flag cl batches pktbytes b c).other (by simp) (by simp),
    Proc.acts_say_reader (List.forall_mem_flatMap.2 fun c _ =>
      (between_waiterDone cl batches pktbytes c).told (by simp))]
  · simp [popsOf]
  · -- requests are written by a sender and read by an agent
    unfold requests NodeBatchTask.sendCommands at he
    rcases List.mem_cons.1 he with rfl | he
    · exact ⟨by simp [Cluster.writer, NodeBatchTask.sendAGCommand],
        by simp [Cluster.reader, NodeBatchTask.sendAGCommand]⟩
    · unfold NodeBatchTask.sendTaskCommands Task.messages at he
      obtain ⟨x, -, he⟩ := List.mem_flatMap.1 he
      obtain ⟨t, -, he⟩ := List.mem_flatMap.1 he
      rcases List.mem_cons.1 he with rfl | he
      · exact ⟨by simp [Cluster.writer], by simp [Cluster.reader]⟩
      · obtain ⟨ci, -, rfl⟩ := List.mem_map.1 he
        exact ⟨by simp [Cluster.writer], by simp [Cluster.reader]⟩

theorem does_genRepairTasks (body k : Code pktbytes) :
    Proc.Does body (b.genRepairTasks cl k)
      (Proc.acts (cl.writer batches pktbytes) (cl.reader batches pktbytes) .coordinator
        (b.choreography cl)) k := by
  have hmap : ∀ (ns : List Int) (f : Int → Message pktbytes), (ns.flatMap fun c => [f c]) =
      ns.map f := fun ns f => List.flatMap_pure_eq_map f ns
  have hjoin : ∀ (ns : List Int) (t : Int → Created), (ns.map fun c => Port.join (t c)) =
      (ns.map fun c => (⟨.join (t c), ()⟩ : Message pktbytes)).map Sigma.fst := by
    intro ns t
    rw [List.map_map]
    rfl
  rw [acts_coordinator, genRepairTasks_eq, hjoin, hjoin]
  unfold askSender senderDone askWaiter waiterDone
  rw [hmap, hmap, hmap, hmap]
  exact (((Proc.does_pushes _ _).append (Proc.does_awaits _ _)).append
    (Proc.does_pushes _ _)).append (Proc.does_awaits _ _)

section
variable (hA : cl.Addressed batches) (hb : b ∈ batches)
include hA hb

theorem nodeid_ip (hc : c ∈ b.waiters cl) : cl.conf.nodeid (cl.conf.ip c) = c := by
  obtain ⟨st, hst, hc⟩ := (mem_waiters cl b).1 hc
  exact Config.nodeid_ip hA.ips (hA.nodes b hb st hst c hc)

/-- **What an actor of a node does**: its part in the messages of the node, and the packets. -/
theorem acts_node (hi : cl.node i = some c) :
    Proc.acts (cl.writer batches pktbytes) (cl.reader batches pktbytes) i
        (b.choreography cl : List (Proc.Item _ _ (Port.Value pktbytes))) =
      (if c ∈ b.waiters cl then
        Proc.acts (cl.writer batches pktbytes) (cl.reader batches pktbytes) i
          (Proc.say (b.before cl c)) else []) ++
      Proc.acts (cl.writer batches pktbytes) (cl.reader batches pktbytes) i
        (b.stripeList.map (b.packets cl)) ++
      if c ∈ b.waiters cl then
        Proc.acts (cl.writer batches pktbytes) (cl.reader batches pktbytes) i
          (Proc.say (b.after cl c)) else [] := by
  have hns := b.nodup_waiters cl
  have hns' : (b.senders cl).Nodup := (b.senders_perm cl).nodup_iff.2 hns
  have hmem : c ∈ b.senders cl ↔ c ∈ b.waiters cl := (b.senders_perm cl).mem_iff
  have hback : ∀ c ∈ b.waiters cl, cl.conf.nodeid (cl.conf.ip c) = c := fun c => nodeid_ip hA hb
  have hback' : ∀ c ∈ b.senders cl, cl.conf.nodeid (cl.conf.ip c) = c :=
    fun c hc => hback c ((b.senders_perm cl).mem_iff.1 hc)
  have hsome : ∀ {c}, cl.conf.nodeid (cl.conf.ip c) = c →
      cl.node (.agent (cl.conf.ip c)) = some c := fun h => congrArg some h
  unfold choreography before after
  simp only [Proc.acts_append, Proc.say_append]
  rw [acts_phase hns' (f := b.askSender cl) (fun c _ =>
      (between_askSender cl batches pktbytes b c).concerns (Or.inl rfl) (Or.inr rfl)) hi,
    acts_phase hns' (f := b.requests cl) (fun c hc =>
      (between_requests cl batches pktbytes b (hback' c hc)).concerns (Or.inr rfl)
        (Or.inr (hsome (hback' c hc)))) hi,
    acts_phase hns' (f := senderDone) (fun c _ =>
      (between_senderDone cl batches pktbytes c).concerns (Or.inr rfl) (Or.inl rfl)) hi,
    acts_phase hns (f := b.askWaiter) (fun c _ =>
      (between_askWaiter cl batches pktbytes b c).concerns (Or.inl rfl) (Or.inr rfl)) hi,
    acts_phase hns (f := fun c => b.forStripes cl c (b.startStripe cl c)) (fun c hc =>
      Cluster.Concerns.flatMap fun st _ =>
        concerns_startStripe cl batches pktbytes b (hback c hc) st) hi,
    acts_phase hns (f := fun c => b.forStripes cl c (b.startTasks cl c)) (fun c hc =>
      Cluster.Concerns.flatMap fun st _ =>
        concerns_startTasks cl batches pktbytes b (hback c hc) st) hi,
    acts_phase hns (f := fun c => b.forStripes cl c (b.joinTasks cl c)) (fun c hc =>
      Cluster.Concerns.flatMap fun st _ =>
        concerns_joinTasks cl batches pktbytes b (hback c hc) st) hi,
    acts_phase hns (f := fun c => b.forStripes cl c (b.joinStripe cl c)) (fun c hc =>
      Cluster.Concerns.flatMap fun st _ =>
        concerns_joinStripe cl batches pktbytes b (hback c hc) st) hi,
    acts_phase hns (f := b.flag) (fun c hc =>
      (between_flag cl batches pktbytes b c).concerns (Or.inr (hsome (hback c hc)))
        (Or.inr rfl)) hi,
    acts_phase hns (f := waiterDone) (fun c _ =>
      (between_waiterDone cl batches pktbytes c).concerns (Or.inr rfl) (Or.inl rfl)) hi]
  by_cases hc : c ∈ b.waiters cl
  · simp only [hmem, if_pos hc, List.append_assoc]
  · simp only [hmem, if_neg hc, List.nil_append, List.append_nil]

omit hA hb in
theorem forStripes_forall {f : BatchStripe → List (Message pktbytes)} {P : Message pktbytes → Prop}
    (h : ∀ st ∈ b.stripesOf cl c, ∀ e ∈ f st, P e) : ∀ e ∈ b.forStripes cl c f, P e :=
  List.forall_mem_flatMap.2 h

omit hA hb in
theorem startTasks_forall {P : Message pktbytes → Prop} {st : BatchStripe}
    (h : ∀ t ∈ launched (st.tasks cl c), ∀ e ∈ [b.startTask cl c st t], P e) :
    ∀ e ∈ b.startTasks cl c st, P e :=
  List.forall_mem_map.2 fun t ht => h t ht _ (List.mem_singleton_self _)

omit hA hb in
theorem joinTasks_forall {P : Message pktbytes → Prop} {st : BatchStripe}
    (h : ∀ t ∈ launched (st.tasks cl c), ∀ e ∈ [b.joinTask cl c st t], P e) :
    ∀ e ∈ b.joinTasks cl c st, P e :=
  List.forall_mem_map.2 fun t ht => h t ht _ (List.mem_singleton_self _)

/-- The thread that sends the commands. -/
theorem does_sendCommands (c : Int) : Proc.Does (Created.sendCommandsBody c)
    (Created.sendCommandsBody c : Code pktbytes)
    (Proc.acts (cl.writer batches pktbytes) (cl.reader batches pktbytes)
      (.thread (.sendCommands c)) (b.choreography cl)) (Created.sendCommandsBody c) := by
  rw [acts_node hA hb rfl, acts_packets_of_none fun _ => rfl]
  by_cases hc : c ∈ b.waiters cl
  · have hback := nodeid_ip hA hb hc
    rw [if_pos hc, if_pos hc]
    unfold before after
    simp only [Proc.acts_append, Proc.say_append]
    rw [Proc.acts_say_reader ((between_askSender cl batches pktbytes b c).told (by simp)),
      Proc.acts_say_writer ((between_requests cl batches pktbytes b hback).sent (by simp)),
      Proc.acts_say_writer ((between_senderDone cl batches pktbytes c).sent (by simp)),
      Proc.acts_say_other ((between_askWaiter cl batches pktbytes b c).other (by simp) (by simp)),
      Proc.acts_say_other (forStripes_forall fun st _ =>
        (between_startStripe cl batches pktbytes b c st).other (by simp) (by simp)),
      Proc.acts_say_other (forStripes_forall fun st _ => startTasks_forall fun t _ =>
        (between_startTask cl batches pktbytes b c st t).other (by simp) (by simp)),
      Proc.acts_say_other (forStripes_forall fun st _ => joinTasks_forall fun t _ =>
        (between_joinTask cl batches pktbytes b c st t).other (by simp) (by simp)),
      Proc.acts_say_other (forStripes_forall fun st _ =>
        (between_joinStripe cl batches pktbytes b c st).other (by simp) (by simp)),
      Proc.acts_say_other ((between_flag cl batches pktbytes b c).other (by simp) (by simp)),
      Proc.acts_say_other ((between_waiterDone cl batches pktbytes c).other (by simp) (by simp))]
    simp only [List.append_nil]
    rw [List.append_assoc]
    refine .pop ((Proc.does_pushes _ _).append (.push ?_))
    exact Proc.does_loop
  · rw [if_neg hc, if_neg hc]
    exact .nil _

/-- The thread that waits for the flag. -/
theorem does_waitFinishFlag (c : Int) : Proc.Does (Created.waitFinishFlagBody c)
    (Created.waitFinishFlagBody c : Code pktbytes)
    (Proc.acts (cl.writer batches pktbytes) (cl.reader batches pktbytes)
      (.thread (.waitFinishFlag c)) (b.choreography cl)) (Created.waitFinishFlagBody c) := by
  rw [acts_node hA hb rfl, acts_packets_of_none fun _ => rfl]
  by_cases hc : c ∈ b.waiters cl
  · have hback := nodeid_ip hA hb hc
    rw [if_pos hc, if_pos hc]
    unfold before after
    simp only [Proc.acts_append, Proc.say_append]
    rw [Proc.acts_say_other ((between_askSender cl batches pktbytes b c).other (by simp) (by simp)),
      Proc.acts_say_other ((between_requests cl batches pktbytes b hback).other (by simp) (by simp)),
      Proc.acts_say_other ((between_senderDone cl batches pktbytes c).other (by simp) (by simp)),
      Proc.acts_say_reader ((between_askWaiter cl batches pktbytes b c).told (by simp)),
      Proc.acts_say_other (forStripes_forall fun st _ =>
        (between_startStripe cl batches pktbytes b c st).other (by simp) (by simp)),
      Proc.acts_say_other (forStripes_forall fun st _ => startTasks_forall fun t _ =>
        (between_startTask cl batches pktbytes b c st t).other (by simp) (by simp)),
      Proc.acts_say_other (forStripes_forall fun st _ => joinTasks_forall fun t _ =>
        (between_joinTask cl batches pktbytes b c st t).other (by simp) (by simp)),
      Proc.acts_say_other (forStripes_forall fun st _ =>
        (between_joinStripe cl batches pktbytes b c st).other (by simp) (by simp)),
      Proc.acts_say_reader ((between_flag cl batches pktbytes b c).told (by simp)),
      Proc.acts_say_writer ((between_waiterDone cl batches pktbytes c).sent (by simp))]
    simp only [List.append_nil, List.nil_append]
    exact .pop (.pop (.push Proc.does_loop))
  · rw [if_neg hc, if_neg hc]
    exact .nil _

omit hA hb in
theorem lookup_map {α κ β : Type*} [BEq κ] [LawfulBEq κ] {key : α → κ} {val : α → β} {l : List α}
    (hl : (l.map key).Nodup) {a : α} (ha : a ∈ l) :
    (l.map fun a => (key a, val a)).lookup (key a) = some (val a) := by
  induction l with
  | nil => cases ha
  | cons b l ih =>
    rw [List.map_cons, List.nodup_cons] at hl
    rw [List.map_cons, List.lookup_cons]
    rcases List.mem_cons.1 ha with rfl | ha
    · rw [beq_self_eq_true]
    · have hne : (key a == key b) = false :=
        beq_false_of_ne fun he => hl.1 (he ▸ List.mem_map_of_mem ha)
      rw [hne]
      exact ih hl.2 ha

theorem nodup_stripesOf (c : Int) : ((b.stripesOf cl c).map BatchStripe.stripeId).Nodup :=
  (hA.stripeIds b hb).sublist (List.filter_sublist.map _)

theorem tasks_of_taskmap {nb : NodeBatchTask}
    (hnb : nb.taskmap = (b.stripesOf cl c).map fun st => (st.stripeId, st.tasks cl c))
    {st : BatchStripe} (hst : st ∈ b.stripesOf cl c) : nb.tasks st.stripeId = st.tasks cl c := by
  have hlookup : ((b.stripesOf cl c).map fun st => (st.stripeId, st.tasks cl c)).lookup st.stripeId =
      some (st.tasks cl c) := lookup_map (nodup_stripesOf hA hb c) hst
  unfold NodeBatchTask.tasks
  rw [hnb, hlookup]
  rfl

/-- **What the agent of a node is sent.** -/
theorem requests_eq : (b.requests cl c : List (Message pktbytes)) =
    ⟨.agRequest (cl.conf.ip c), ⟨b.batchId, (b.stripesOf cl c).map BatchStripe.stripeId,
      (b.stripesOf cl c).map fun st => (st.tasks cl c).length⟩⟩ ::
    ((b.stripesOf cl c).map fun st => (st.stripeId, st.tasks cl c)).flatMap fun e =>
      e.2.flatMap (Task.messages (cl.conf.ip c) b.batchId e.1) := by
  unfold requests NodeBatchTask.sendCommands
  refine congrArg₂ List.cons ?_ ?_
  · rw [NodeBatchTask.sendAGCommand, taskOf_eq]
  · have htasks : ∀ st ∈ b.stripesOf cl c, (b.taskOf cl c).tasks st.stripeId = st.tasks cl c :=
      fun st hst => tasks_of_taskmap hA hb (by rw [taskOf_eq]) hst
    have hids : (b.taskOf cl c).stripeIdList.zip (b.taskOf cl c).numList =
        (b.stripesOf cl c).map fun st => (st.stripeId, (st.tasks cl c).length) := by
      rw [taskOf_eq]
      exact List.zip_map'
    unfold NodeBatchTask.sendTaskCommands
    rw [hids, List.flatMap_map, List.flatMap_map]
    refine List.flatMap_congr fun st hst => ?_
    rw [htasks st hst, List.take_length]
    rw [taskOf_eq]

/-- **The agent of a node.** -/
theorem does_agent (ip : Nat) : Proc.Does (Worker.doProcess cl ip)
    (Worker.doProcess cl ip : Code pktbytes)
    (Proc.acts (cl.writer batches pktbytes) (cl.reader batches pktbytes)
      (.agent ip) (b.choreography cl)) (Worker.doProcess cl ip) := by
  rw [acts_node hA hb rfl, acts_packets_of_none fun _ => rfl]
  by_cases hc : cl.conf.nodeid ip ∈ b.waiters cl
  · have hback := nodeid_ip hA hb hc
    have hip : cl.conf.ip (cl.conf.nodeid ip) = ip := by
      refine Config.ip_nodeid fun h => ?_
      obtain ⟨st, hst, hmem⟩ := (mem_waiters cl b).1 hc
      have := (hA.nodes b hb st hst _ hmem).1
      omega
    rw [if_pos hc, if_pos hc]
    generalize hnode : cl.conf.nodeid ip = c at *
    subst hip
    unfold before after
    simp only [Proc.acts_append, Proc.say_append]
    rw [Proc.acts_say_other ((between_askSender cl batches pktbytes b c).other (by simp) (by simp)),
      Proc.acts_say_reader ((between_requests cl batches pktbytes b hback).told (by simp)),
      Proc.acts_say_other ((between_senderDone cl batches pktbytes c).other (by simp) (by simp)),
      Proc.acts_say_other ((between_askWaiter cl batches pktbytes b c).other (by simp) (by simp)),
      Proc.acts_say_writer (forStripes_forall fun st _ =>
        (between_startStripe cl batches pktbytes b c st).sent (by simp)),
      Proc.acts_say_other (forStripes_forall fun st _ => startTasks_forall fun t _ =>
        (between_startTask cl batches pktbytes b c st t).other (by simp) (by simp)),
      Proc.acts_say_other (forStripes_forall fun st _ => joinTasks_forall fun t _ =>
        (between_joinTask cl batches pktbytes b c st t).other (by simp) (by simp)),
      Proc.acts_say_reader (forStripes_forall fun st _ =>
        (between_joinStripe cl batches pktbytes b c st).told (by simp)),
      Proc.acts_say_writer ((between_flag cl batches pktbytes b c).sent (by simp)),
      Proc.acts_say_other ((between_waiterDone cl batches pktbytes c).other (by simp) (by simp))]
    simp only [List.append_nil, List.nil_append]
    rw [requests_eq hA hb, List.map_cons, List.append_assoc, List.cons_append]
    refine .pop ?_
    have hids : ((b.stripesOf cl c).map BatchStripe.stripeId).zip
        ((b.stripesOf cl c).map fun st => (st.tasks cl c).length) =
        ((b.stripesOf cl c).map fun st => (st.stripeId, st.tasks cl c)).map
          fun e => (e.1, e.2.length) := by
      rw [List.map_map]
      exact List.zip_map'
    unfold Worker.recvBatchTasks
    dsimp only
    rw [hids]
    refine (Worker.does_recvStripes _ _ _ _).append ?_
    have hmap : ∀ (l : List BatchStripe) (f : BatchStripe → Message pktbytes),
        (l.flatMap fun st => [f st]) = l.map f := fun l f => List.flatMap_pure_eq_map f l
    -- the threads of the stripes are started and joined
    have hstarts : b.forStripes cl c (b.startStripe cl c) =
        (((b.stripesOf cl c).map fun st => (st.stripeId, st.tasks cl c)).map
          fun e => (e.1, e.2.length)).map fun e => (⟨.start (.repairStripe (cl.conf.ip c)
            b.batchId e.1), (e.2, NodeBatchTask.tasks ⟨b.batchId, (b.stripesOf cl c).map
              BatchStripe.stripeId, (b.stripesOf cl c).map fun st => (st.tasks cl c).length,
              (b.stripesOf cl c).map fun st => (st.stripeId, st.tasks cl c), 0⟩ e.1)⟩ :
          Message pktbytes) := by
      unfold forStripes startStripe
      rw [hmap, List.map_map, List.map_map]
      refine List.map_congr_left fun st hst => ?_
      show _ = (⟨.start (.repairStripe (cl.conf.ip c) b.batchId st.stripeId),
        (_, NodeBatchTask.tasks _ st.stripeId)⟩ : Message pktbytes)
      rw [tasks_of_taskmap hA hb rfl hst]
    have hjoins : ((b.stripesOf cl c).map BatchStripe.stripeId).map
        (fun stripeid => Port.join (.repairStripe (cl.conf.ip c) b.batchId stripeid)) =
        (b.forStripes cl c (b.joinStripe cl c) : List (Message pktbytes)).map Sigma.fst := by
      unfold forStripes joinStripe
      rw [hmap, List.map_map, List.map_map]
      rfl
    unfold Worker.repairBatch
    dsimp only
    rw [hstarts, hjoins, hids, hnode]
    exact (Proc.does_pushes _ _).append ((Proc.does_awaits _ _).append (.push Proc.does_loop))
  · rw [if_neg hc, if_neg hc]
    exact .nil _

end

end

end Batch

end StripeRepair

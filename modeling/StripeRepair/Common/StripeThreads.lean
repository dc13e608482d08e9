import StripeRepair.Common.Cluster

/-!
# The threads of the stripes

The threads of a stripe and of its tasks, and the connections that its packets use, do what the
choreography has for them; the packets of a stripe go through its queues as they ought to.

* `does_code`: each actor does what the choreography has for it.
* `sound_packets`: each queue of a stripe has one writer and at most one reader.
-/

namespace StripeRepair

/-- The threads of a stripe share no queue, pass the right packets on in the right order, and
nothing waits in the queues in the end. -/
structure BatchStripe.Flows (cl : Cluster) (pktbytes : Nat) (st : BatchStripe) : Prop where
  obeys : ∀ i regs, FifoNet.Obeys (Batch.streamOf cl st) (st.programs cl pktbytes i) (fun _ => 0)
    (fun _ => 0) regs
  staged : ∀ i, FifoNet.Staged (Batch.stageOf cl st) (st.programs cl pktbytes i) (fun _ => 0)
    (fun _ => 0) 0
  apart : FifoNet.Apart (st.programs cl pktbytes)
  even : ∀ ch, (∀ c b, ch ≠ .file c b) →
    (FifoNet.popRegs ch (st.programs cl pktbytes
      (FifoNet.popper (st.programs cl pktbytes) ch))).length =
    (FifoNet.pushRegs ch (st.programs cl pktbytes
      (FifoNet.pusher (st.programs cl pktbytes) ch))).length

namespace Batch

section
variable (cl : Cluster) {pktbytes : Nat} (b : Batch) (st : BatchStripe)

theorem threadOf_task (ip : Nat) (batchid stripeid : Int) (k : Nat) :
    b.threadOf cl st (.thread (.task ip batchid stripeid k)) =
      if batchid = b.batchId ∧ stripeid = st.stripeId then some (.task (cl.conf.nodeid ip) k)
      else none := rfl

theorem threadOf_net (batchid stripeid c sendto : Int) (dagidx : Nat) :
    b.threadOf cl st (.net batchid stripeid c sendto dagidx) =
      if batchid = b.batchId ∧ stripeid = st.stripeId then some (.net c sendto dagidx)
      else none := rfl

variable {cl b st} {i : Actor}

theorem packetEvents_of_none (h : b.threadOf cl st i = none) :
    (b.packetEvents cl st i : List (Act Port (Port.Value pktbytes) × Nat)) = [] := by
  unfold packetEvents
  rw [h]

theorem packetEvents_of_some {j : ThreadId} (h : b.threadOf cl st i = some j) :
    (b.packetEvents cl st i : List (Act Port (Port.Value pktbytes) × Nat)) =
      Proc.programEvents (Port.data b.batchId st.stripeId) (fun _ x => x) (streamOf cl st)
        (stageOf cl st) (st.programs cl pktbytes j) (fun _ => 0) fun _ => 0 := by
  unfold packetEvents
  rw [h]

end

section
variable {cl : Cluster} {batches : List Batch} {pktbytes : Nat} {b : Batch} {c : Int}
  (hA : cl.Addressed batches) (hb : b ∈ batches)
include hA hb

/-! ## The threads -/

/-- Only the stripe with the id counts. -/
theorem acts_forStripes {i : Actor} {st : BatchStripe} (hst : st ∈ b.stripesOf cl c)
    {f : BatchStripe → List (Message pktbytes)}
    (hf : ∀ st', st'.stripeId ≠ st.stripeId → ∀ e ∈ f st', cl.writer batches pktbytes e.1 ≠ i ∧
      cl.reader batches pktbytes e.1 ≠ some i) :
    Proc.acts (cl.writer batches pktbytes) (cl.reader batches pktbytes) i
        (Proc.say (b.forStripes cl c f)) =
      Proc.acts (cl.writer batches pktbytes) (cl.reader batches pktbytes) i (Proc.say (f st)) := by
  unfold forStripes
  rw [Proc.say_flatMap, Proc.acts_flatMap]
  exact Proc.flatMap_of_key (nodup_stripesOf hA hb c) hst fun st' _ hne =>
    Proc.acts_say_other (hf st' hne)

theorem ip_of_mem_waiters {ip : Nat} (hc : cl.conf.nodeid ip ∈ b.waiters cl) :
    cl.conf.ip (cl.conf.nodeid ip) = ip := by
  refine Config.ip_nodeid fun h => ?_
  obtain ⟨st, hst, hmem⟩ := (mem_waiters cl b).1 hc
  have := (hA.nodes b hb st hst _ hmem).1
  omega

/-- The thread of a stripe. -/
theorem does_repairStripe (ip : Nat) (batchid stripeid : Int) :
    Proc.Does (Created.repairStripeBody ip batchid stripeid)
      (Created.repairStripeBody ip batchid stripeid : Code pktbytes)
      (Proc.acts (cl.writer batches pktbytes) (cl.reader batches pktbytes)
        (.thread (.repairStripe ip batchid stripeid)) (b.choreography cl))
      (Created.repairStripeBody ip batchid stripeid) := by
  rw [acts_node hA hb rfl, acts_packets_of_none fun _ => rfl]
  by_cases hc : cl.conf.nodeid ip ∈ b.waiters cl
  · have hback := nodeid_ip hA hb hc
    have hip := ip_of_mem_waiters hA hb hc
    rw [if_pos hc, if_pos hc]
    generalize hnode : cl.conf.nodeid ip = c at *
    subst hip
    unfold before after
    simp only [Proc.acts_append, Proc.say_append]
    rw [Proc.acts_say_other ((between_askSender cl batches pktbytes b c).other (by simp) (by simp)),
      Proc.acts_say_other ((between_requests cl batches pktbytes b hback).other (by simp) (by simp)),
      Proc.acts_say_other ((between_senderDone cl batches pktbytes c).other (by simp) (by simp)),
      Proc.acts_say_other ((between_askWaiter cl batches pktbytes b c).other (by simp) (by simp)),
      Proc.acts_say_other ((between_flag cl batches pktbytes b c).other (by simp) (by simp)),
      Proc.acts_say_other ((between_waiterDone cl batches pktbytes c).other (by simp) (by simp))]
    simp only [List.append_nil, List.nil_append]
    by_cases hst : ∃ st ∈ b.stripesOf cl c, b.batchId = batchid ∧ st.stripeId = stripeid
    · obtain ⟨st, hst, rfl, rfl⟩ := hst
      rw [acts_forStripes hA hb hst fun st' hne =>
          (between_startStripe cl batches pktbytes b c st').other (by simp) (by simp [hne]),
        acts_forStripes hA hb hst fun st' hne => startTasks_forall fun t _ =>
          (between_startTask cl batches pktbytes b c st' t).other (by simp [hne]) (by simp),
        acts_forStripes hA hb hst fun st' hne => joinTasks_forall fun t _ =>
          (between_joinTask cl batches pktbytes b c st' t).other (by simp) (by simp [hne]),
        acts_forStripes hA hb hst fun st' hne =>
          (between_joinStripe cl batches pktbytes b c st').other (by simp [hne]) (by simp),
        Proc.acts_say_reader ((between_startStripe cl batches pktbytes b c st).told (by simp)),
        Proc.acts_say_writer (startTasks_forall fun t _ =>
          (between_startTask cl batches pktbytes b c st t).sent (by simp)),
        Proc.acts_say_reader (joinTasks_forall fun t _ =>
          (between_joinTask cl batches pktbytes b c st t).told (by simp)),
        Proc.acts_say_writer ((between_joinStripe cl batches pktbytes b c st).sent (by simp))]
      refine .pop ?_
      dsimp only
      rw [List.take_length]
      have hjoins : (launched (st.tasks cl c)).map (fun e =>
          Port.join (.task (cl.conf.ip c) b.batchId st.stripeId e.2)) =
          (b.joinTasks cl c st : List (Message pktbytes)).map Sigma.fst := by
        unfold joinTasks
        rw [List.map_map]
        rfl
      rw [hjoins]
      exact (Proc.does_pushes _ _).append ((Proc.does_awaits _ _).append (.push Proc.does_loop))
    · have hne : ∀ st ∈ b.stripesOf cl c, ¬(b.batchId = batchid ∧ st.stripeId = stripeid) :=
        fun st hmem h => hst ⟨st, hmem, h⟩
      rw [Proc.acts_say_other (forStripes_forall fun st hmem =>
          (between_startStripe cl batches pktbytes b c st).other (by simp) (by simp [hne st hmem])),
        Proc.acts_say_other (forStripes_forall fun st hmem => startTasks_forall fun t _ =>
          (between_startTask cl batches pktbytes b c st t).other (by simp [hne st hmem]) (by simp)),
        Proc.acts_say_other (forStripes_forall fun st hmem => joinTasks_forall fun t _ =>
          (between_joinTask cl batches pktbytes b c st t).other (by simp) (by simp [hne st hmem])),
        Proc.acts_say_other (forStripes_forall fun st hmem =>
          (between_joinStripe cl batches pktbytes b c st).other (by simp [hne st hmem]) (by simp))]
      exact .nil _
  · rw [if_neg hc, if_neg hc]
    exact .nil _

omit hA hb in
theorem nodup_launched (tasklist : List Task) : ((launched tasklist).map Prod.snd).Nodup := by
  refine ((launched_perm tasklist).map Prod.snd).nodup_iff.2 ?_
  rw [List.zipIdx_map_snd]
  exact List.nodup_range'

omit hA hb in
/-- A node that has no tasks for a stripe runs none. -/
theorem tasks_of_not_mem {st : BatchStripe} (hst : st ∈ b.stripeList)
    (hno : st ∉ b.stripesOf cl c) : st.tasks cl c = [] :=
  st.stripe.tasksOf_eq_nil _ _ _ _ fun h =>
    hno (List.mem_filter.2 ⟨hst, decide_eq_true h⟩)

/-- The packets of the only stripe with the id. -/
theorem acts_packets_of_mem {i : Actor} {st : BatchStripe} (hst : st ∈ b.stripeList)
    (hi : ∀ st', st'.stripeId ≠ st.stripeId → b.threadOf cl st' i = none) :
    Proc.acts (cl.writer batches pktbytes) (cl.reader batches pktbytes) i
        (b.stripeList.map (b.packets cl) : List (Proc.Item _ _ (Port.Value pktbytes))) =
      (b.packetEvents cl st i).map Prod.fst := by
  rw [acts_packets]
  refine Proc.flatMap_of_key (hA.stripeIds b hb) hst fun st' _ hne => ?_
  rw [packetEvents_of_none (hi st' hne)]
  rfl

/-- The thread of a task. -/
theorem does_task (hF : ∀ st ∈ b.stripeList, st.Flows cl pktbytes) (ip : Nat)
    (batchid stripeid : Int) (tid : Nat) :
    Proc.Does (Created.taskBody cl ip batchid stripeid tid)
      (Created.taskBody cl ip batchid stripeid tid : Code pktbytes)
      (Proc.acts (cl.writer batches pktbytes) (cl.reader batches pktbytes)
        (.thread (.task ip batchid stripeid tid)) (b.choreography cl))
      (Created.taskBody cl ip batchid stripeid tid) := by
  rw [acts_node hA hb rfl]
  by_cases hrun : ∃ st ∈ b.stripesOf cl (cl.conf.nodeid ip), b.batchId = batchid ∧
      st.stripeId = stripeid ∧ tid < (st.tasks cl (cl.conf.nodeid ip)).length
  · obtain ⟨st, hst, rfl, rfl, htid⟩ := hrun
    obtain ⟨hmem, hnode⟩ := List.mem_filter.1 hst
    have hc : cl.conf.nodeid ip ∈ b.waiters cl :=
      (mem_waiters cl b).2 ⟨st, hmem, of_decide_eq_true hnode⟩
    have hback := nodeid_ip hA hb hc
    have hip := ip_of_mem_waiters hA hb hc
    rw [if_pos hc, if_pos hc, acts_packets_of_mem hA hb hmem fun st' hne => by
      simp [threadOf, hne.symm]]
    generalize hnodeid : cl.conf.nodeid ip = c at *
    subst hip
    have hget := List.getElem?_eq_getElem htid
    have hlaunched : ((st.tasks cl c)[tid], tid) ∈ launched (st.tasks cl c) :=
      (launched_perm _).mem_iff.2 (List.mem_zipIdx_iff_getElem?.2 hget)
    unfold before after
    simp only [Proc.acts_append, Proc.say_append]
    rw [Proc.acts_say_other ((between_askSender cl batches pktbytes b c).other (by simp) (by simp)),
      Proc.acts_say_other ((between_requests cl batches pktbytes b hback).other (by simp) (by simp)),
      Proc.acts_say_other ((between_senderDone cl batches pktbytes c).other (by simp) (by simp)),
      Proc.acts_say_other ((between_askWaiter cl batches pktbytes b c).other (by simp) (by simp)),
      Proc.acts_say_other (forStripes_forall fun st _ =>
        (between_startStripe cl batches pktbytes b c st).other (by simp) (by simp)),
      acts_forStripes hA hb hst fun st' hne => startTasks_forall fun t _ =>
        (between_startTask cl batches pktbytes b c st' t).other (by simp) (by simp [hne]),
      acts_forStripes hA hb hst fun st' hne => joinTasks_forall fun t _ =>
        (between_joinTask cl batches pktbytes b c st' t).other (by simp [hne]) (by simp),
      Proc.acts_say_other (forStripes_forall fun st _ =>
        (between_joinStripe cl batches pktbytes b c st).other (by simp) (by simp)),
      Proc.acts_say_other ((between_flag cl batches pktbytes b c).other (by simp) (by simp)),
      Proc.acts_say_other ((between_waiterDone cl batches pktbytes c).other (by simp) (by simp))]
    unfold startTasks joinTasks
    rw [Proc.acts_say_map, Proc.acts_say_map,
      Proc.flatMap_of_key (nodup_launched _) hlaunched fun t _ hne => Proc.acts_say_other
        ((between_startTask cl batches pktbytes b c st t).other (by simp) (by simpa using hne)),
      Proc.flatMap_of_key (nodup_launched _) hlaunched fun t _ hne => Proc.acts_say_other
        ((between_joinTask cl batches pktbytes b c st t).other (by simpa using hne) (by simp)),
      Proc.acts_say_reader
        ((between_startTask cl batches pktbytes b c st ((st.tasks cl c)[tid], tid)).told (by simp)),
      Proc.acts_say_writer
        ((between_joinTask cl batches pktbytes b c st ((st.tasks cl c)[tid], tid)).sent (by simp))]
    simp only [List.append_nil, List.nil_append]
    rw [List.append_assoc]
    refine .pop ?_
    have hobeys := (hF st hmem).obeys (.task c tid) fun _ => 0
    have hthread : b.threadOf cl st (.thread (.task (cl.conf.ip c) b.batchId st.stripeId tid)) =
        some (.task c tid) := by
      rw [threadOf_task, if_pos ⟨rfl, rfl⟩, hnodeid]
    rw [BatchStripe.programs, program_some hget] at hobeys
    rw [packetEvents_of_some hthread, BatchStripe.programs, program_some hget, hnodeid]
    exact (Proc.does_ofProgram (fun _ _ => rfl) hobeys).append (.push Proc.does_loop)
  · -- the thread is not started
    have hne : ∀ st ∈ b.stripesOf cl (cl.conf.nodeid ip), b.batchId = batchid →
        st.stripeId = stripeid → (st.tasks cl (cl.conf.nodeid ip)).length ≤ tid :=
      fun st hst h1 h2 => Nat.le_of_not_lt fun h3 => hrun ⟨st, hst, h1, h2, h3⟩
    have hpackets : Proc.acts (cl.writer batches pktbytes) (cl.reader batches pktbytes)
        (.thread (.task ip batchid stripeid tid))
        (b.stripeList.map (b.packets cl) : List (Proc.Item _ _ (Port.Value pktbytes))) = [] := by
      rw [acts_packets]
      refine List.flatMap_eq_nil_iff.2 fun st hst => ?_
      by_cases hids : batchid = b.batchId ∧ stripeid = st.stripeId
      · have hnone : (st.tasks cl (cl.conf.nodeid ip))[tid]? = none := by
          rw [List.getElem?_eq_none_iff]
          by_cases hmem : st ∈ b.stripesOf cl (cl.conf.nodeid ip)
          · exact hne st hmem hids.1.symm hids.2.symm
          · rw [tasks_of_not_mem hst hmem]
            exact Nat.zero_le _
        rw [packetEvents_of_some (by rw [threadOf_task, if_pos hids]), BatchStripe.programs,
          program_none hnone]
        rfl
      · rw [packetEvents_of_none (by rw [threadOf_task, if_neg hids])]
        rfl
    rw [hpackets]
    by_cases hc : cl.conf.nodeid ip ∈ b.waiters cl
    · have hback := nodeid_ip hA hb hc
      have hip := ip_of_mem_waiters hA hb hc
      rw [if_pos hc, if_pos hc]
      generalize hnodeid : cl.conf.nodeid ip = c at *
      subst hip
      have hids : ∀ st ∈ b.stripesOf cl c, ∀ t ∈ launched (st.tasks cl c),
          ¬(b.batchId = batchid ∧ st.stripeId = stripeid ∧ t.2 = tid) := by
        rintro st hst ⟨t, k⟩ ht ⟨h1, h2, rfl⟩
        have hk := (List.mem_zipIdx ((launched_perm _).mem_iff.1 ht)).2.1
        have := hne st hst h1 h2
        omega
      unfold before after
      simp only [Proc.acts_append, Proc.say_append]
      rw [Proc.acts_say_other ((between_askSender cl batches pktbytes b c).other (by simp) (by simp)),
        Proc.acts_say_other ((between_requests cl batches pktbytes b hback).other (by simp) (by simp)),
        Proc.acts_say_other ((between_senderDone cl batches pktbytes c).other (by simp) (by simp)),
        Proc.acts_say_other ((between_askWaiter cl batches pktbytes b c).other (by simp) (by simp)),
        Proc.acts_say_other (forStripes_forall fun st _ =>
          (between_startStripe cl batches pktbytes b c st).other (by simp) (by simp)),
        Proc.acts_say_other (forStripes_forall fun st hst => startTasks_forall fun t ht =>
          (between_startTask cl batches pktbytes b c st t).other (by simp)
            (by simpa using hids st hst t ht)),
        Proc.acts_say_other (forStripes_forall fun st hst => joinTasks_forall fun t ht =>
          (between_joinTask cl batches pktbytes b c st t).other (by simpa using hids st hst t ht)
            (by simp)),
        Proc.acts_say_other (forStripes_forall fun st _ =>
          (between_joinStripe cl batches pktbytes b c st).other (by simp) (by simp)),
        Proc.acts_say_other ((between_flag cl batches pktbytes b c).other (by simp) (by simp)),
        Proc.acts_say_other ((between_waiterDone cl batches pktbytes c).other (by simp) (by simp))]
      exact .nil _
    · rw [if_neg hc, if_neg hc]
      exact .nil _

end

/-! ## What is not a packet -/

section
variable (cl : Cluster) {batches : List Batch} {pktbytes : Nat} (b : Batch)

/-- A message that is not a packet. -/
def Control (e : Message pktbytes) : Prop := ∀ batchid stripeid ch, e.1 ≠ .data batchid stripeid ch

/-- The messages before the packets. -/
def opening : List (Message pktbytes) :=
  (b.senders cl).flatMap (b.askSender cl) ++ (b.senders cl).flatMap (b.requests cl) ++
  (b.senders cl).flatMap senderDone ++ (b.waiters cl).flatMap b.askWaiter ++
  ((b.waiters cl).flatMap fun c => b.forStripes cl c (b.startStripe cl c)) ++
  (b.waiters cl).flatMap fun c => b.forStripes cl c (b.startTasks cl c)

/-- The messages after the packets. -/
def closing : List (Message pktbytes) :=
  ((b.waiters cl).flatMap fun c => b.forStripes cl c (b.joinTasks cl c)) ++
  ((b.waiters cl).flatMap fun c => b.forStripes cl c (b.joinStripe cl c)) ++
  (b.waiters cl).flatMap b.flag ++ (b.waiters cl).flatMap waiterDone

theorem choreography_eq : (b.choreography cl : List (Proc.Item _ _ (Port.Value pktbytes))) =
    Proc.say (b.opening cl) ++ b.stripeList.map (b.packets cl) ++ Proc.say (b.closing cl) := by
  unfold choreography opening closing
  simp only [Proc.say_append, List.append_assoc]

theorem control_opening : ∀ e ∈ (b.opening cl : List (Message pktbytes)), Control e := by
  unfold opening
  simp only [List.forall_mem_append, List.forall_mem_flatMap]
  refine ⟨⟨⟨⟨⟨fun c _ => ?_, fun c _ => ?_⟩, fun c _ => ?_⟩, fun c _ => ?_⟩, fun c _ => ?_⟩,
    fun c _ => ?_⟩
  · exact List.forall_mem_singleton.2 fun _ _ _ h => by cases h
  · unfold requests NodeBatchTask.sendCommands NodeBatchTask.sendTaskCommands Task.messages
    refine List.forall_mem_cons.2 ⟨(fun _ _ _ h => by cases h), ?_⟩
    refine List.forall_mem_flatMap.2 fun x _ => List.forall_mem_flatMap.2 fun t _ => ?_
    refine List.forall_mem_cons.2 ⟨(fun _ _ _ h => by cases h), ?_⟩
    exact List.forall_mem_map.2 fun ci _ _ _ _ h => by cases h
  · exact List.forall_mem_singleton.2 fun _ _ _ h => by cases h
  · exact List.forall_mem_singleton.2 fun _ _ _ h => by cases h
  · exact forStripes_forall fun st _ => List.forall_mem_singleton.2 fun _ _ _ h => by cases h
  · exact forStripes_forall fun st _ => startTasks_forall fun t _ =>
      List.forall_mem_singleton.2 fun _ _ _ h => by cases h

theorem control_closing : ∀ e ∈ (b.closing cl : List (Message pktbytes)), Control e := by
  unfold closing
  simp only [List.forall_mem_append, List.forall_mem_flatMap]
  refine ⟨⟨⟨fun c _ => ?_, fun c _ => ?_⟩, fun c _ => ?_⟩, fun c _ => ?_⟩
  · exact forStripes_forall fun st _ => joinTasks_forall fun t _ =>
      List.forall_mem_singleton.2 fun _ _ _ h => by cases h
  · exact forStripes_forall fun st _ => List.forall_mem_singleton.2 fun _ _ _ h => by cases h
  · exact List.forall_mem_singleton.2 fun _ _ _ h => by cases h
  · exact List.forall_mem_singleton.2 fun _ _ _ h => by cases h

variable {cl b}

/-- Connections carry packets only. -/
theorem acts_control_net {l : List (Message pktbytes)} (hl : ∀ e ∈ l, Control e)
    (batchid stripeid c sendto : Int) (dagidx : Nat) :
    Proc.acts (cl.writer batches pktbytes) (cl.reader batches pktbytes)
      (.net batchid stripeid c sendto dagidx) (Proc.say l) = [] := by
  refine Proc.acts_say_other ?_
  rintro ⟨port, v⟩ he
  have hctl := hl _ he
  cases port with
  | data bid sid ch => exact absurd rfl (hctl bid sid ch)
  | start t => cases t <;> exact ⟨by simp [Cluster.writer, Created.parent], by simp [Cluster.reader]⟩
  | join t => cases t <;> exact ⟨by simp [Cluster.writer], by simp [Cluster.reader, Created.parent]⟩
  | _ => exact ⟨by simp [Cluster.writer], by simp [Cluster.reader]⟩

/-- A connection. -/
theorem does_net (hA : cl.Addressed batches) (hb : b ∈ batches)
    (batchid stripeid c sendto : Int) (dagidx : Nat) :
    Proc.Does (netBody batchid stripeid c sendto dagidx)
      (netBody batchid stripeid c sendto dagidx : Code pktbytes)
      (Proc.acts (cl.writer batches pktbytes) (cl.reader batches pktbytes)
        (.net batchid stripeid c sendto dagidx) (b.choreography cl))
      (netBody batchid stripeid c sendto dagidx) := by
  rw [choreography_eq, Proc.acts_append, Proc.acts_append, acts_control_net (control_opening cl b),
    acts_control_net (control_closing cl b), List.nil_append, List.append_nil]
  by_cases hst : ∃ st ∈ b.stripeList, batchid = b.batchId ∧ stripeid = st.stripeId
  · obtain ⟨st, hst, rfl, rfl⟩ := hst
    rw [acts_packets_of_mem hA hb hst fun st' hne => by
        rw [threadOf_net, if_neg fun h => hne h.2.symm],
      packetEvents_of_some (by rw [threadOf_net, if_pos ⟨rfl, rfl⟩])]
    exact Proc.does_rounds (fun _ _ => rfl) (length_popRegs_deliver c sendto dagidx)
      (length_pushRegs_deliver c sendto dagidx)
      (fun r => Stripe.obeys_deliver cl.disk c sendto dagidx r _) _
  · rw [acts_packets, List.flatMap_eq_nil_iff.2 fun st hmem => ?_]
    · exact .nil _
    · rw [packetEvents_of_none (by rw [threadOf_net, if_neg fun h => hst ⟨st, hmem, h⟩])]
      rfl

end

end Batch

/-! ## The queues of a stripe -/

theorem find?_of_nodup {α κ : Type*} [DecidableEq κ] {key : α → κ} {l : List α}
    (hl : (l.map key).Nodup) {a : α} (ha : a ∈ l) : (l.find? fun b => key b = key a) = some a := by
  induction l with
  | nil => cases ha
  | cons b l ih =>
    rw [List.map_cons, List.nodup_cons] at hl
    rcases List.mem_cons.1 ha with rfl | ha
    · exact List.find?_cons_of_pos (decide_eq_true rfl)
    · have hne : key b ≠ key a := fun he => hl.1 (he ▸ List.mem_map_of_mem ha)
      rw [List.find?_cons_of_neg (by simpa using hne)]
      exact ih hl.2 ha

namespace Batch

section
variable {cl : Cluster} {batches : List Batch} {pktbytes : Nat} {b : Batch} {st : BatchStripe}
  {i : Actor} {j : ThreadId}

/-- A packet goes to a queue of its stripe. -/
theorem uses_packetEvents {port : Port}
    (hport : ∀ ch, port ≠ .data b.batchId st.stripeId ch) :
    Proc.pushesAt port (b.packetEvents cl st i : List (Act Port (Port.Value pktbytes) × Nat)) = [] ∧
      Proc.popsAt port (b.packetEvents cl st i : List (Act Port (Port.Value pktbytes) × Nat)) =
        [] := by
  cases hj : b.threadOf cl st i with
  | none =>
    rw [packetEvents_of_none hj]
    exact ⟨rfl, rfl⟩
  | some j =>
    rw [packetEvents_of_some hj]
    exact Proc.usesAt_programEvents (fun ch h => hport ch h.symm) _ _ _

theorem injective_data (batchid stripeid : Int) :
    Function.Injective (Port.data batchid stripeid) := fun _ _ h => (Port.data.inj h).2.2

theorem pushesAt_packetEvents (hj : b.threadOf cl st i = some j) (ch : Chan) :
    Proc.pushesAt (.data b.batchId st.stripeId ch)
        (b.packetEvents cl st i : List (Act Port (Port.Value pktbytes) × Nat)) =
      (List.range' 0 (FifoNet.pushRegs ch (st.programs cl pktbytes j)).length).map fun n =>
        (streamOf cl st ch n, stageOf cl st ch n) := by
  rw [packetEvents_of_some hj]
  exact Proc.pushesAt_programEvents (injective_data _ _) ch _ _ _

theorem popsAt_packetEvents (hj : b.threadOf cl st i = some j) (ch : Chan) :
    Proc.popsAt (.data b.batchId st.stripeId ch)
        (b.packetEvents cl st i : List (Act Port (Port.Value pktbytes) × Nat)) =
      (List.range' 0 (FifoNet.popRegs ch (st.programs cl pktbytes j)).length).map fun n =>
        (streamOf cl st ch n, stageOf cl st ch n) := by
  rw [packetEvents_of_some hj]
  exact Proc.popsAt_programEvents (injective_data _ _) ch _ _ _

/-- Who pushes to a queue runs a program that does so. -/
theorem of_pushesAt_packetEvents {ch : Chan} (h : Proc.pushesAt (.data b.batchId st.stripeId ch)
    (b.packetEvents cl st i : List (Act Port (Port.Value pktbytes) × Nat)) ≠ []) :
    ∃ j, b.threadOf cl st i = some j ∧ FifoNet.pushRegs ch (st.programs cl pktbytes j) ≠ [] := by
  cases hj : b.threadOf cl st i with
  | none =>
    rw [packetEvents_of_none hj] at h
    exact absurd rfl h
  | some j =>
    refine ⟨j, rfl, fun hnil => h ?_⟩
    rw [pushesAt_packetEvents hj, hnil]
    rfl

theorem of_popsAt_packetEvents {ch : Chan} (h : Proc.popsAt (.data b.batchId st.stripeId ch)
    (b.packetEvents cl st i : List (Act Port (Port.Value pktbytes) × Nat)) ≠ []) :
    ∃ j, b.threadOf cl st i = some j ∧ FifoNet.popRegs ch (st.programs cl pktbytes j) ≠ [] := by
  cases hj : b.threadOf cl st i with
  | none =>
    rw [packetEvents_of_none hj] at h
    exact absurd rfl h
  | some j =>
    refine ⟨j, rfl, fun hnil => h ?_⟩
    rw [popsAt_packetEvents hj, hnil]
    rfl

theorem ne_nil_of_pushRegs {ch : Chan} (h : FifoNet.pushRegs ch (st.programs cl pktbytes j) ≠ []) :
    st.programs cl pktbytes j ≠ [] := by
  intro hnil
  rw [hnil] at h
  exact h rfl

theorem ne_nil_of_popRegs {ch : Chan} (h : FifoNet.popRegs ch (st.programs cl pktbytes j) ≠ []) :
    st.programs cl pktbytes j ≠ [] := by
  intro hnil
  rw [hnil] at h
  exact h rfl

variable (hA : cl.Addressed batches) (hb : b ∈ batches) (hst : st ∈ b.stripeList)
include hA hb hst

theorem stripeOf_eq : stripeOf batches b.batchId st.stripeId = some st := by
  unfold stripeOf
  rw [find?_of_nodup hA.batchIds hb]
  exact find?_of_nodup (hA.stripeIds b hb) hst

theorem programs_eq : cl.programs batches pktbytes b.batchId st.stripeId =
    st.programs cl pktbytes := by
  unfold Cluster.programs
  rw [stripeOf_eq hA hb hst]

section
variable (hne : st.programs cl pktbytes j ≠ [])
include hne

omit hA hb hst in
/-- Who has a program takes part. -/
theorem mem_threadsOf : j ∈ threadsOf (st.tasks cl) (st.nodes cl) := by
  by_contra hno
  exact hne (program_of_not_mem_threadsOf (fun c => st.stripe.tasksOf_eq_nil _ _ _ _) hno)

/-- A node that runs a task has an address. -/
theorem hasNode {c : Int} {k : Nat} (hj : j = .task c k) : cl.conf.HasNode c := by
  subst hj
  refine hA.nodes b hb st hst c ?_
  by_contra hno
  refine hne (program_none ?_)
  rw [BatchStripe.tasks, st.stripe.tasksOf_eq_nil _ _ _ _ hno]
  rfl

theorem actorOf_threadOf (hj : b.threadOf cl st i = some j) :
    cl.actorOf b.batchId st.stripeId j = i := by
  cases i with
  | net batchid stripeid c sendto dagidx =>
    rw [threadOf_net] at hj
    split at hj
    · next h =>
      obtain ⟨rfl, rfl⟩ := h
      obtain rfl := Option.some.inj hj
      rfl
    · cases hj
  | thread t =>
    cases t with
    | task ip batchid stripeid k =>
      rw [threadOf_task] at hj
      split at hj
      · next h =>
        obtain ⟨rfl, rfl⟩ := h
        have hnode := hasNode hA hb hst hne (Option.some.inj hj).symm
        obtain rfl := Option.some.inj hj
        have h0 := hnode.1
        exact congrArg (fun ip => Actor.thread (.task ip b.batchId st.stripeId k))
          (Config.ip_nodeid fun h => by omega)
      · cases hj
    | _ => cases hj
  | _ => cases hj

theorem threadOf_actorOf : b.threadOf cl st (cl.actorOf b.batchId st.stripeId j) = some j := by
  cases j with
  | task c k =>
    show b.threadOf cl st (.thread (.task (cl.conf.ip c) b.batchId st.stripeId k)) = _
    rw [threadOf_task, if_pos ⟨rfl, rfl⟩, Config.nodeid_ip hA.ips (hasNode hA hb hst hne rfl)]
  | net c sendto dagidx =>
    show b.threadOf cl st (.net b.batchId st.stripeId c sendto dagidx) = _
    rw [threadOf_net, if_pos ⟨rfl, rfl⟩]

end

variable (hF : st.Flows cl pktbytes)
include hF

/-- Who fills a queue of the stripe. -/
theorem writer_of_pushRegs {ch : Chan}
    (h : FifoNet.pushRegs ch (st.programs cl pktbytes j) ≠ []) :
    cl.writer batches pktbytes (.data b.batchId st.stripeId ch) =
      cl.actorOf b.batchId st.stripeId j := by
  show cl.actorOf b.batchId st.stripeId (FifoNet.pusher _ ch) = _
  rw [programs_eq hA hb hst, hF.apart.pusher_eq h]

/-- Who empties it. -/
theorem reader_of_popRegs {ch : Chan} (h : FifoNet.popRegs ch (st.programs cl pktbytes j) ≠ []) :
    cl.reader batches pktbytes (.data b.batchId st.stripeId ch) =
      some (cl.actorOf b.batchId st.stripeId j) := by
  have hpopper : some (cl.actorOf b.batchId st.stripeId (FifoNet.popper
      (cl.programs batches pktbytes b.batchId st.stripeId) ch)) =
        some (cl.actorOf b.batchId st.stripeId j) := by
    rw [programs_eq hA hb hst, hF.apart.popper_eq h]
  rcases of_popRegs_program h with ⟨c, k, t, -, -, hch⟩ | ⟨c, sendto, v, rfl, rfl⟩
  · rcases Task.of_mem_popChans hch with ⟨key, rfl⟩ | ⟨v, rfl⟩
    · exact hpopper
    · exact hpopper
  · rfl

/-- **Each queue of a stripe** has one writer and at most one reader, who waits for all. -/
theorem sound_packets : (b.packets cl st : Proc.Item Actor Port (Port.Value pktbytes)).Sound
    (cl.writer batches pktbytes) (cl.reader batches pktbytes) where
  timed i := by
    show (b.packetEvents cl st i).Pairwise Proc.Before
    cases hj : b.threadOf cl st i with
    | none =>
      rw [packetEvents_of_none hj]
      exact List.Pairwise.nil
    | some j =>
      rw [packetEvents_of_some hj]
      exact Proc.timed_programEvents (hF.staged j)
  pushed_by i port h := by
    by_cases hport : ∀ ch, port ≠ .data b.batchId st.stripeId ch
    · exact absurd (uses_packetEvents hport).1 h
    · obtain ⟨ch, hch⟩ := not_forall.1 hport
      obtain rfl := not_not.1 hch
      obtain ⟨j, hj, hregs⟩ := of_pushesAt_packetEvents h
      rw [writer_of_pushRegs hA hb hst hF hregs]
      exact actorOf_threadOf hA hb hst (ne_nil_of_pushRegs hregs) hj
  popped_by i port h := by
    by_cases hport : ∀ ch, port ≠ .data b.batchId st.stripeId ch
    · exact absurd (uses_packetEvents hport).2 h
    · obtain ⟨ch, hch⟩ := not_forall.1 hport
      obtain rfl := not_not.1 hch
      obtain ⟨j, hj, hregs⟩ := of_popsAt_packetEvents h
      rw [reader_of_popRegs hA hb hst hF hregs]
      exact congrArg some (actorOf_threadOf hA hb hst (ne_nil_of_popRegs hregs) hj)
  matched i port hr := by
    show Proc.popsAt port (b.packetEvents cl st i) =
      Proc.pushesAt port (b.packetEvents cl st (cl.writer batches pktbytes port))
    by_cases hport : ∀ ch, port ≠ .data b.batchId st.stripeId ch
    · rw [(uses_packetEvents hport).1, (uses_packetEvents hport).2]
    · obtain ⟨ch, hch⟩ := not_forall.1 hport
      obtain rfl := not_not.1 hch
      have hfile : ∀ c f, ch ≠ .file c f := by
        rintro c f rfl
        cases hr
      have heven := hF.even ch hfile
      let progs := st.programs cl pktbytes
      by_cases hnone : FifoNet.popRegs ch (progs (FifoNet.popper progs ch)) = []
      · -- nothing goes through the queue
        have hnone' : FifoNet.pushRegs ch (progs (FifoNet.pusher progs ch)) = [] :=
          List.eq_nil_of_length_eq_zero (heven.symm.trans (congrArg List.length hnone))
        have hpops : Proc.popsAt (.data b.batchId st.stripeId ch) (b.packetEvents cl st i) =
            ([] : List (Packet pktbytes × Nat)) := by
          by_contra hne
          obtain ⟨j, -, hj⟩ := of_popsAt_packetEvents hne
          exact hj (hF.apart.popper_eq hj ▸ hnone)
        have hpushes : ∀ i, Proc.pushesAt (.data b.batchId st.stripeId ch)
            (b.packetEvents cl st i) = ([] : List (Packet pktbytes × Nat)) := by
          intro i
          by_contra hne
          obtain ⟨j, -, hj⟩ := of_pushesAt_packetEvents hne
          exact hj (hF.apart.pusher_eq hj ▸ hnone')
        exact hpops.trans (hpushes _).symm
      · have hsome : FifoNet.pushRegs ch (progs (FifoNet.pusher progs ch)) ≠ [] := by
          refine List.length_pos_iff.1 ?_
          rw [← heven]
          exact List.length_pos_iff.2 hnone
        rw [reader_of_popRegs hA hb hst hF hnone] at hr
        obtain rfl := Option.some.inj hr
        rw [writer_of_pushRegs hA hb hst hF hsome,
          popsAt_packetEvents (threadOf_actorOf hA hb hst (ne_nil_of_popRegs hnone)),
          pushesAt_packetEvents (threadOf_actorOf hA hb hst (ne_nil_of_pushRegs hsome)), heven]
  others i hi := by
    show b.packetEvents cl st i = []
    cases hj : b.threadOf cl st i with
    | none => exact packetEvents_of_none hj
    | some j =>
      by_cases hne : st.programs cl pktbytes j = []
      · rw [packetEvents_of_some hj, hne]
        rfl
      · refine absurd (List.mem_map.2 ⟨j, mem_threadsOf hne, ?_⟩) hi
        exact actorOf_threadOf hA hb hst hne hj

end

end Batch

/-! ## All actors -/

namespace Cluster

section
variable {cl : Cluster} {batches : List Batch} {pktbytes : Nat}

variable (cl batches pktbytes) in
/-- **All messages of a repair**, in order. -/
def choreography : List (Proc.Item Actor Port (Port.Value pktbytes)) :=
  batches.flatMap (Batch.choreography cl)

/-- The loop over the batches. -/
theorem does_coordinator (body : Code pktbytes) (l : List Batch) :
    Proc.Does body (l.foldr (fun b k => b.genRepairTasks cl k) .done)
      (l.flatMap fun b => Proc.acts (cl.writer batches pktbytes) (cl.reader batches pktbytes)
        .coordinator (b.choreography cl)) .done := by
  induction l with
  | nil => exact .nil _
  | cons b l ih => exact (Batch.does_genRepairTasks body _).append ih

variable (cl batches) in
/-- Where an actor is in the end. -/
def rest : Actor → Code pktbytes
  | .coordinator => .done
  | i => cl.code batches i

variable (hA : cl.Addressed batches)
  (hF : ∀ b ∈ batches, ∀ st ∈ b.stripeList, st.Flows cl pktbytes)
include hA hF

/-- **Each actor does what the choreography has for it.** -/
theorem does_code (i : Actor) : Proc.Does (cl.code batches i) (cl.code batches i : Code pktbytes)
    (Proc.acts (cl.writer batches pktbytes) (cl.reader batches pktbytes) i
      (cl.choreography batches pktbytes)) (cl.rest batches i) := by
  unfold choreography
  rw [Proc.acts_flatMap]
  cases i with
  | coordinator => exact does_coordinator _ batches
  | agent ip => exact Proc.does_turns fun b hb => Batch.does_agent hA hb ip
  | net batchid stripeid c sendto dagidx =>
    exact Proc.does_turns fun b hb => Batch.does_net hA hb batchid stripeid c sendto dagidx
  | thread t =>
    cases t with
    | sendCommands c => exact Proc.does_turns fun b hb => Batch.does_sendCommands hA hb c
    | waitFinishFlag c => exact Proc.does_turns fun b hb => Batch.does_waitFinishFlag hA hb c
    | repairStripe ip batchid stripeid =>
      exact Proc.does_turns fun b hb => Batch.does_repairStripe hA hb ip batchid stripeid
    | task ip batchid stripeid tid =>
      exact Proc.does_turns fun b hb => Batch.does_task hA hb (hF b hb) ip batchid stripeid tid

/-- **Each queue** has one writer and at most one reader, who waits for all. -/
theorem sound_choreography : ∀ it ∈ cl.choreography batches pktbytes,
    it.Sound (cl.writer batches pktbytes) (cl.reader batches pktbytes) := by
  unfold choreography
  refine List.forall_mem_flatMap.2 fun b hb => ?_
  have hsay : ∀ l : List (Message pktbytes), ∀ it ∈ (Proc.say l : List (Proc.Item Actor _ _)),
      it.Sound (cl.writer batches pktbytes) (cl.reader batches pktbytes) :=
    fun l => List.forall_mem_map.2 fun e _ => Proc.sound_msg e.1 e.2
  rw [Batch.choreography_eq, List.forall_mem_append, List.forall_mem_append]
  refine ⟨⟨hsay _, ?_⟩, hsay _⟩
  exact List.forall_mem_map.2 fun st hst => Batch.sound_packets hA hb hst (hF b hb st hst)

omit hA hF in
/-- In the end the coordinator has ended and all others wait for the next message. -/
theorem resting (i : Actor) :
    Proc.head (cl.code batches i : Code pktbytes) (cl.rest batches i) = .done ∨
      ∃ ch k, Proc.head (cl.code batches i : Code pktbytes) (cl.rest batches i) = .pop ch k ∧
        cl.reader batches pktbytes ch = some i := by
  cases i with
  | coordinator => exact Or.inl rfl
  | agent ip => exact Or.inr ⟨_, _, rfl, rfl⟩
  | net batchid stripeid c sendto dagidx => exact Or.inr ⟨_, _, rfl, rfl⟩
  | thread t =>
    cases t with
    | _ => exact Or.inr ⟨_, _, rfl, rfl⟩

variable (batches pktbytes) in
/-- **The whole system follows a script.** -/
noncomputable def script : Proc.Script (cl.code batches : Actor → Code pktbytes) (ℕ ×ₗ ℕ) :=
  Proc.script (cl.writer batches pktbytes) (cl.reader batches pktbytes) (cl.code batches)
    (cl.rest batches) (cl.choreography batches pktbytes)
    (sound_choreography hA hF) (does_code hA hF) resting

end

end Cluster

end StripeRepair
